import DeferredCount.FieldEntry
import DeferredCount.Phase
import DeferredCount.Semantics
import DeferredCount.Settings.Basic
import DeferredCount.Space.Id

/-!
# The log

What an instance does it records as events, each at one of five levels. An event keeps what it is
about, and `Event.text` words it.
-/

namespace DeferredCount

/-- How much an event matters. -/
inductive Level
  | error
  | warn
  | info
  | debug
  | trace
  deriving DecidableEq, Inhabited, Repr

namespace Level

/-- The name of a level in front of a record. -/
def name : Level → String
  | .error => "ERROR"
  | .warn => "WARN"
  | .info => "INFO"
  | .debug => "DEBUG"
  | .trace => "TRACE"

/-- Every level, the most important first. -/
def all : List Level := [.error, .warn, .info, .debug, .trace]

/-- How a client asks for the records of a level and of those that matter more. -/
def choice : Level → String
  | .error => "error"
  | .warn => "warn"
  | .info => "info"
  | .debug => "debug"
  | .trace => "trace"

/-- The level that a client asks for. -/
def ofChoice? (s : String) : Option Level := all.find? fun l => l.choice == s

/-- A higher rank matters less. -/
def rank : Level → Nat
  | .error => 1
  | .warn => 2
  | .info => 3
  | .debug => 4
  | .trace => 5

/-- Does a client that asked for a level get a record of this one? -/
def isShown (l asked : Level) : Bool := l.rank ≤ asked.rank

end Level

/-- Something an instance did. -/
inductive Event
  | pagesAcquired (space : SpaceId) (pages : Nat) (start : Address)
  | pagesRefused (space : SpaceId) (pages : Nat)
  | pageCarved (page : Address) (cells size : Nat)
  | smallFreed (o : Ref) (cell : Address)
  | smallSwept (freed : Nat)
  | largeAdded (o : Ref) (cell : Address) (pages : Nat)
  | largeFreed (verbose : Bool) (o : Ref) (cell : Address) (pages : Nat)
  | largeRetained (o : Ref)
  | largeSwept (freed : Nat)
  | bumpSlow
  | bumpRefused
  | bumpRefilled (bytes : Nat) (start : Address)
  | bumpUsedUp
  | bumped (size : Nat) (result cursor limit : Address)
  | allocationFailed (size : Nat) (s : Semantics)
  | mutatorBound (flavor : Flavor)
  | bulkCopy (words : Nat) (src : Ref) (srcOffset : Nat) (dst : Ref) (dstOffset : Nat)
  | fieldLogged (f : Field) (o : Ref) (mark : Address)
  | fieldLoggedVerbose (f : Field) (o : Ref) (covered : Covered) (mark : Address)
  | objectLogged (o : Ref) (referents : Nat)
  | reclaimed (o : Ref)
  | traceMarked (n : Nat)
  | traceFreed (n : Nat)
  | cycleCollected (marked freed : Nat)
  | modifiedProcessed (collector roots fields objects : Nat)
  | decrementsProcessed (collector freed : Nat)
  | kindElected (increment : Nat) (cycle : Bool)
  | incrementBegun (increment : Nat) (kind : CollectionKind) (collectors : Nat)
  | incrementDone (increment pages : Nat)
  | stepBegun (s : Step)
  | stepEnded (s : Step)

/-- How a mutator allocates, as messages show it. -/
def allocationText (flavor : Flavor) : String :=
  "MutatorConfig:\nSemantics mapping:\n" ++
    String.join (Semantics.all.map fun s => "- " ++ s.name ++ " = " ++ s.allocator.name ++ "\n") ++
    "Flavor: " ++ flavor.name ++ "\n"

namespace Event

/-- How much an event matters. -/
def level : Event → Level
  | .allocationFailed .. => .warn
  | .largeFreed verbose .. => if verbose then .info else .trace
  | .fieldLoggedVerbose .. | .cycleCollected .. | .incrementBegun .. | .incrementDone .. => .info
  | .pagesRefused .. | .smallSwept .. | .largeSwept .. | .traceMarked .. | .traceFreed ..
  | .modifiedProcessed .. | .decrementsProcessed .. | .kindElected .. | .stepBegun ..
  | .stepEnded .. => .debug
  | _ => .trace

/-- A truth value as messages show it. -/
def flagText (b : Bool) : String := if b then "true" else "false"

/-- The words of an event. -/
def text : Event → String
  | .pagesAcquired space pages start =>
    space.name ++ s!": acquired {pages} pages at {hexText start}"
  | .pagesRefused space pages => space.name ++ s!": failed to acquire {pages} pages"
  | .pageCarved page cells size =>
    s!"rc: carved page {hexText page} into {cells} cells of {size} bytes"
  | .smallFreed o cell => s!"rc: free {o} (cell {hexText cell})"
  | .smallSwept freed => s!"rc: sweep freed {freed} objects"
  | .largeAdded o cell pages => s!"los: add {o} (cell {hexText cell}, {pages} pages)"
  | .largeFreed _ o cell pages => s!"los: free {o} (cell {hexText cell}, {pages} pages)"
  | .largeRetained o => s!"los: retain {o}"
  | .largeSwept freed => s!"los: sweep freed {freed} objects"
  | .bumpSlow => "alloc_slow"
  | .bumpRefused => "Failed to acquire a new block"
  | .bumpRefilled bytes start =>
    s!"Acquired a new block of size {bytes} with start address {hexText start}"
  | .bumpUsedUp => "Thread local buffer used up, go to alloc slow path"
  | .bumped size result cursor limit =>
    s!"Bump allocation size: {size}, result: {hexText result}, new_cursor: {hexText cursor}, " ++
      s!"limit: {hexText limit}"
  | .allocationFailed size s => s!"Failed to allocate {size} bytes with " ++ s.name
  | .mutatorBound flavor => "New mutator: " ++ allocationText flavor
  | .bulkCopy words src srcOffset dst dstOffset =>
    s!"bulk copy {words} words from {src}+{srcOffset} to {dst}+{dstOffset}"
  | .fieldLogged f o mark => "log field " ++ f.text ++ s!" of {o}, mark {hexText mark}"
  | .fieldLoggedVerbose f o covered mark =>
    "log field " ++ f.text ++ s!" of {o} (" ++ covered.text ++ s!"), mark {hexText mark}"
  | .objectLogged o referents => s!"log object {o} ({referents} referents)"
  | .reclaimed o => s!"free {o}"
  | .traceMarked n => s!"backup trace marked {n} objects"
  | .traceFreed n => s!"backup trace freed {n} objects"
  | .cycleCollected marked freed =>
    s!"Cycle collection: {marked} objects marked, {freed} freed"
  | .modifiedProcessed collector roots fields objects =>
    s!"Collector {collector}: {roots} roots, {fields} fields, {objects} objects"
  | .decrementsProcessed collector freed => s!"Collector {collector}: {freed} objects freed"
  | .kindElected increment cycle =>
    s!"Increment {increment}: cycle collection = {flagText cycle}"
  | .incrementBegun increment kind collectors =>
    s!"Increment {increment} ({kind.name}) with {collectors} collectors"
  | .incrementDone increment pages => s!"Increment {increment} done, {pages} pages reserved"
  | .stepBegun s => "Start " ++ s.text
  | .stepEnded s => "End " ++ s.text

/-- An event as one record of the log. -/
def record (e : Event) : String := e.level.name ++ " " ++ e.text

end Event

end DeferredCount
