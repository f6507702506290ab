import DeferredCount.Collector.Basic
import DeferredCount.Work.Stack

/-!
# The backup trace

The backup trace frees garbage that counting cannot free: cycles and objects with a stuck count.
It marks every counted object that is reachable from permanent objects, from the roots of the
increment and from the queued trace roots. An object forgets its count when it is marked, and
every reference met on the way, queued trace roots apart, adds one again, so a marked object ends
with its exact count. Then the objects without a mark are freed, and the marks are cleared.

An object enters the stack when its mark is set, and no mark is cleared while objects are marked,
so the stack is empty after at most as many steps as there are words of memory.
-/

namespace DeferredCount

/-- A trace under way: the objects whose referents are still to be visited, and how many objects
were marked. -/
structure Trace where
  stack : Stack Ref := {}
  marked : Nat := 0

/-- What a trace did. -/
structure TraceStats where
  marked : Nat
  freed : Nat
  deriving DecidableEq, Repr

namespace Trace

/-- Visits a counted object through a reference, which adds one to its count unless it is only
queued. -/
def visit (counted : Bool) (t : Trace) (o : Ref) : HeapM Trace := do
  unless (← get).isCounted o do return t
  let mut t := t
  let (_, marked) ← HeapM.updateHeader o Header.mark
  if marked then
    let _ ← HeapM.updateHeader o Header.resetCount
    t := { stack := t.stack.push o, marked := t.marked + 1 }
  if counted then
    let _ ← HeapM.updateHeader o Header.increment
  return t

/-- Visits the referents of an object. -/
def scan (t : Trace) (o : Ref) : HeapM Trace := do
  let referents ← HeapM.inspect (·.referents o)
  referents.foldlM (visit true) t

/-- Marks a permanent object and visits its referents. -/
def scanPermanent (t : Trace) (o : Ref) : HeapM Trace := do
  let _ ← HeapM.updateHeader o Header.mark
  t.scan o

/-- Visits the referents of the objects on the stack until it is empty, in at most so many
steps. -/
def drainIn : (steps : Nat) → Trace → HeapM Trace
  | 0, _ => throw .stepsExhausted
  | k + 1, t => do
    match t.stack.pop with
    | none => return t
    | some (o, stack) =>
      let t ← { t with stack }.scan o
      drainIn k t

/-- Visits the referents of the objects on the stack until it is empty. -/
def drain (t : Trace) : HeapM Trace := drainIn (t.stack.size + Memory.wordCount + 1) t

/-- Takes every queued trace root. -/
def takeQueued : HeapM (List Ref) :=
  modifyGet fun h =>
    (h.pools.traceRoots.entries,
      { h with pools := { h.pools with traceRoots := h.pools.traceRoots.clear } })

/-- Marks all that is reachable. -/
def markAll (roots : List Ref) : HeapM Trace := do
  let permanent := (← get).permanent.objects.toList
  let t ← permanent.foldlM scanPermanent {}
  let t ← roots.foldlM (visit true) t
  let queued ← takeQueued
  let t ← queued.foldlM (visit false) t
  t.drain

/-- Selects an object without a mark, and clears the mark of any other one. -/
def selectUnmarked (_ : Unit) (o : Ref) : HeapM (Bool × Unit) := do
  let (_, marked) ← HeapM.updateHeader o Header.clearMark
  return (!marked, ())

/-- Clears the mark of an object. -/
def clearMark (o : Ref) : HeapM Unit := do
  let _ ← HeapM.updateHeader o Header.clearMark

/-- Runs a backup trace from the given roots. -/
def run (roots : List Ref) : HeapM TraceStats := do
  let t ← markAll roots
  HeapM.emit (.traceMarked t.marked)
  let (small, _) ← HeapM.sweepSmall selectUnmarked ()
  let (large, _) ← HeapM.sweepLarge selectUnmarked ()
  for o in (← get).permanent.objects do clearMark o
  HeapM.emit (.traceFreed (small + large))
  return { marked := t.marked, freed := small + large }

end Trace

end DeferredCount
