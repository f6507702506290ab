import DeferredCount.Word

/-!
# The progress of increments

An instance remembers which kind of increment was asked for, whether one is running and whether it
collects cycles, how many are complete, and how many collectors run them. The numbers of increments
are words and wrap around.
-/

namespace DeferredCount

/-- How far the increments of an instance are. -/
structure Progress where
  /-- Is an increment running? -/
  running : Bool := false
  /-- The kind that was asked for. -/
  requested : CollectionKind := .increment
  /-- Does the running increment collect cycles? -/
  cycle : Bool := false
  /-- The complete increments. -/
  increments : Nat := 0
  /-- Those of them that collected cycles. -/
  cycleCollections : Nat := 0
  /-- The number of collectors of an increment. -/
  collectors : Nat := 1
  deriving DecidableEq, Inhabited, Repr

namespace Progress

/-- Asks for an increment by so many collectors. -/
def request (s : Progress) (kind : CollectionKind) (collectors : Nat) : Except Fault Progress := do
  require .someCollectors (0 < collectors)
  return { s with requested := kind, collectors }

/-- Does the next increment collect cycles by the interval alone? Its number is taken to fit a word,
as the numbers of the first `2 ^ 64 - 1` increments do. -/
def isDue (s : Progress) (interval : Nat) : Bool :=
  interval != 0 && (s.increments + 1) % interval == 0

/-- Decides whether the increment collects cycles: it was asked for, or it is due. -/
def elect (s : Progress) (interval : Nat) : Progress :=
  { s with cycle := s.requested == .cycle || s.isDue interval }

/-- Begins an increment. Only one may run. -/
def start (s : Progress) : Except Fault Progress :=
  if s.running then .error .incrementInProgress else .ok { s with running := true }

/-- Completes the increment. The request is served. -/
def finish (s : Progress) : Progress :=
  { s with
    running := false
    requested := .increment
    cycle := false
    increments := Word.wrappingAdd s.increments 1
    cycleCollections := Word.wrappingAdd s.cycleCollections s.cycle.toNat }

/-- The part of a phase that only concerns the progress. Other phases are unknown here. -/
def phase (s : Progress) (interval : Nat) : Phase → Except Fault Progress
  | .setCollectionKind => .ok (s.elect interval)
  | .initiate => s.start
  | .complete => .ok s.finish
  | p => .error (.unknownPhase .plan p)

end Progress

end DeferredCount
