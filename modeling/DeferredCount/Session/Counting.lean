import DeferredCount.Session.Report

/-!
# Header operations in a session

A step can apply any single operation to the header of an object. It shows what the operation
told, and the header afterwards.
-/

namespace DeferredCount

/-- An operation on one header. -/
inductive HeaderAction
  | init (count : Nat) (logged fresh : Bool)
  | increment
  | decrement
  | incrementTimes (n : Nat)
  | decrementTimes (n : Nat)
  | logRequired
  | lock
  | makeLogged
  | finishLogging
  | makeUnlogged
  | mark
  | clearMark
  | resetCount
  | query
  deriving DecidableEq, Repr

/-- What an operation told. -/
inductive HeaderAnswer
  | done
  | flag (b : Bool)
  | outcome (name : String)
  | times (n : Nat)
  | header (h : Header)
  /-- Taking the lock would wait for another thread. -/
  | busy
  deriving DecidableEq, Repr

namespace SessionM

/-- Counts a reference. -/
def increment (o : Ref) : SessionM Header.Gained := do
  let (old, _) ← onHeap (HeapM.updateHeader o Header.increment)
  return old.gained

/-- Takes a reference back. The count must not be zero. -/
def decrement (o : Ref) : SessionM Header.Lost := do
  let (old, applied) ← onHeap (HeapM.updateHeader o Header.decrement)
  if !applied && old.count == 0 then throw (.fault (.zeroCount o))
  return old.lost

/-- Runs something so many times, and counts how often it told `expected`. -/
def countTold {α : Type} [DecidableEq α] (expected : α) (x : SessionM α) :
    (n : Nat) → (told : Nat) → SessionM Nat
  | 0, told => return told
  | n + 1, told => do
    let a ← x
    countTold expected x n (if a = expected then told + 1 else told)

/-- Takes the lock for logging an object, unless that would wait. -/
def lock (o : Ref) : SessionM HeaderAnswer := do
  if (← inspect (·.header o)).isBusy then return .busy
  return .flag (← onHeap (Mutator.lock o))

/-- Applies an operation to the header of an object. -/
def runHeaderAction (o : Ref) : HeaderAction → SessionM HeaderAnswer
  | .init count logged fresh => do
    onHeap (Mutator.initHeader o count logged fresh)
    return .done
  | .increment => return .outcome (← increment o).name
  | .decrement => return .outcome (← decrement o).name
  | .incrementTimes n => return .times (← countTold .first (increment o) n 0)
  | .decrementTimes n => return .times (← countTold .last (decrement o) n 0)
  | .logRequired => return .flag (← inspect (·.header o)).logRequired
  | .lock => lock o
  | .makeLogged => do
    onHeap (Mutator.makeLogged o)
    return .done
  | .finishLogging => do
    onHeap (Mutator.finishLogging o)
    return .done
  | .makeUnlogged => return .flag (← onHeap (HeapM.updateHeader o Header.makeUnlogged)).2
  | .mark => return .flag (← onHeap (HeapM.updateHeader o Header.mark)).2
  | .clearMark => do
    let _ ← onHeap (HeapM.updateHeader o Header.clearMark)
    return .done
  | .resetCount => do
    let _ ← onHeap (HeapM.updateHeader o Header.resetCount)
    return .done
  | .query => return .header (← inspect (·.header o))

/-- Applies an operation to the header of an object, and shows the header. -/
def headerAction (o : Ref) (a : HeaderAction) : SessionM (HeaderAnswer × String) := do
  let answer ← runHeaderAction o a
  return (answer, ← headerText o)

end SessionM

end DeferredCount
