import DeferredCount.Session.Basic

/-!
# What a session shows of its instance

References are shown by the number of the live object they lead to, and by their address if the
session knows none there. An object is shown as its number, its header and its fields, with equal
neighbours counted instead of repeated.
-/

namespace DeferredCount

/-- A reference as a session shows it. -/
inductive Shown
  | null
  | number (id : Nat)
  | address (a : Address)
  deriving DecidableEq, Repr

/-- The text of a shown reference among the fields of an object. -/
def Shown.text : Shown → String
  | .null => "."
  | .number id => toString id
  | .address a => hexText a

/-- Numbers of objects by address. -/
abbrev Numbering := Std.ExtTreeMap Address Nat compare

/-- A word for so many equal neighbours. -/
def runText (word : String) (n : Nat) : String := if n < 2 then word else word ++ "*" ++ toString n

/-- Words with a blank between them. Two or more equal neighbours are written once, with their
number. -/
def runsText (words : List String) : String :=
  let runs := words.foldl (fun (runs : List (String × Nat)) word =>
    match runs with
    | (last, n) :: rest => if last = word then (last, n + 1) :: rest else (word, 1) :: runs
    | [] => [(word, 1)]) []
  " ".intercalate (runs.reverse.map fun r => runText r.1 r.2)

/-- The numbers of entries in the four pools. -/
structure PoolSizes where
  objects : Nat
  fields : Nat
  decrements : Nat
  traceRoots : Nat
  allEmpty : Bool
  deriving DecidableEq, Repr

/-- The sizes of the pools. -/
def Pools.sizes (p : Pools) : PoolSizes where
  objects := p.objects.size
  fields := p.fields.size
  decrements := p.decrements.size
  traceRoots := p.traceRoots.size
  allEmpty := p.isEmpty

/-- The state of a whole instance. -/
structure Dump where
  /-- The numbers of the objects that died in the step. -/
  died : List Nat
  /-- The live objects by number. -/
  live : List String
  smallCount : Nat
  largeCount : Nat
  permanentCount : Nat
  smallPages : Nat
  largePages : Nat
  permanentPages : Nat
  allPages : Nat
  pools : PoolSizes
  progress : Progress

namespace Session

/-- The live objects by number. -/
def liveObjects (s : Session) : List (Nat × Ref) :=
  s.objects.toList.zipIdx.filterMap fun (k, id) => k.live?.map (id, ·)

/-- The number of the newest live object at every address. -/
def numbering (s : Session) : Numbering :=
  s.liveObjects.foldl (fun (n : Numbering) (id, o) => n.insert o.addr id) ∅

/-- How a reference is shown. -/
def shownBy (n : Numbering) : Option Ref → Shown
  | none => .null
  | some o =>
    match n.get? o.addr with
    | some id => .number id
    | none => .address o.addr

/-- The marks of the fields of an object, for an instance that has field barriers. -/
def marksText (h : Heap) (o : Ref) : Except Fault String := do
  if h.settings.fieldBarrier then
    let marks ← h.memory.marks o
    return ":[" ++ runsText (marks.map fun m => if m then "1" else "0") ++ "]"
  return ""

/-- The text of an object. -/
def objectText (h : Heap) (n : Numbering) (id : Nat) (o : Ref) : Except Fault String := do
  let header ← h.memory.header o
  let slots ← h.memory.slots o
  let fields := runsText (slots.map fun t => (shownBy n t).text)
  let marks ← marksText h o
  return toString id ++ ":" ++ header.text ++ ":[" ++ fields ++ "]" ++ marks

/-- The texts of the live objects. -/
def liveTexts (s : Session) : Except Fault (List String) :=
  let n := s.numbering
  s.liveObjects.mapM fun (id, o) => objectText s.heap n id o

end Session

namespace SessionM

/-- How a reference is shown. -/
def shown (o : Option Ref) : SessionM Shown := do
  return Session.shownBy (← get).numbering o

/-- How references are shown. -/
def shownAll (os : List (Option Ref)) : SessionM (List Shown) := do
  return os.map (Session.shownBy (← get).numbering)

/-- The header of an object. -/
def headerText (o : Ref) : SessionM String := do
  let h ← inspect (·.header o)
  return h.text

/-- The sizes of the pools. -/
def poolSizes : SessionM PoolSizes := return (← get).heap.pools.sizes

/-- The state of the instance, and which objects died. A brief one leaves the objects out. -/
def dump (brief : Bool) : SessionM Dump := do
  let died ← settle
  let s ← get
  let h := s.heap
  let live ← if brief then pure [] else SessionM.lift s.liveTexts
  return {
    died, live
    smallCount := h.small.liveCount
    largeCount := h.large.size
    permanentCount := h.permanent.size
    smallPages := h.small.pages.usage.reserved
    largePages := h.large.pages.usage.reserved
    permanentPages := h.permanent.pages.usage.reserved
    allPages := h.reservedPages
    pools := h.pools.sizes
    progress := h.progress }

/-! ## The log of a step -/

/-- What a sorted run of records starts with. -/
def sortedMark : String := "TRACE rc: free "

/-- The records with every run of freed small objects in ascending order: `run` is the run under
way and `done` what stands before it, both the latest first. -/
def sortRuns : (records run done : List String) → List String
  | [], run, done => done.reverse ++ run.mergeSort (· ≤ ·)
  | r :: rest, run, done =>
    if r.startsWith sortedMark then sortRuns rest (r :: run) done
    else sortRuns rest [] (r :: ((run.mergeSort (· ≤ ·)).reverse ++ done))

/-- Takes what was recorded since the last time, at the given level or a weightier one. -/
def takeLog (asked : Level) : SessionM (List String) := do
  let events ← onHeap (HeapM.takeRecords asked)
  return sortRuns (events.map Event.record) [] []

end SessionM

end DeferredCount
