import DeferredCount.Mutator.Barrier

/-!
# Writers that share objects

Several writers may store to one object at a time, each through its own mutator. `Writer.step` is
one atomic action of a writer: it loads or exchanges a header, loads or stores a slot or a mark, or
pushes one entry to a buffer. Nothing else of a write can be seen by another writer. A schedule
says whose turn it is.

The writer that takes the lock of the object logs it, and every other one that has to log waits
until the lock is free again. So what was in a slot is in a buffer before any writer overwrites it.
-/

namespace DeferredCount

/-- A store through the write barrier. -/
structure Write where
  src : Ref
  slot : Address
  target : Option Ref
  field : Field
  deriving DecidableEq, Repr

/-- What a barrier logs. -/
inductive Logged
  /-- The whole object. -/
  | object
  /-- Covered slots, under the mark of a field. -/
  | covered (f : Field) (c : Covered)
  deriving DecidableEq, Repr

/-- What a writer is about to do. -/
inductive Activity
  /-- Choose the barrier, by what no writer changes. -/
  | choosing
  /-- Load the header, to see whether the object has to be logged. -/
  | checkingHeader
  /-- Load the mark, to see whether the field has to be logged. -/
  | checkingMark (f : Field) (c : Covered)
  /-- Load the header, to take the lock. -/
  | locking (l : Logged)
  /-- Exchange the header for a locked one. -/
  | exchanging (l : Logged) (seen : Header)
  /-- Load the mark again, under the lock. -/
  | checkingAgain (f : Field) (c : Covered)
  /-- Push the object. -/
  | pushingObject
  /-- Load the next slot that is logged; so many referents were found. -/
  | loading (l : Logged) (slots : List Address) (found : Nat)
  /-- Push a referent. -/
  | pushingOld (l : Logged) (old : Ref) (slots : List Address) (found : Nat)
  /-- Store the mark. -/
  | storingMark (f : Field) (c : Covered) (found : Nat)
  /-- Push the covered slots and their mark. -/
  | pushingField (f : Field) (c : Covered) (mark : Address) (found : Nat)
  /-- Load the header, to mark the object logged. -/
  | completing (found : Nat)
  /-- Exchange the header for a logged one. -/
  | completed (found : Nat) (seen : Header)
  /-- Load the header, to give the lock back. -/
  | unlocking
  /-- Exchange the header for an unlocked one. -/
  | unlocked (seen : Header)
  /-- Store the reference. -/
  | storing
  deriving DecidableEq, Repr

/-- A thread and the stores it has yet to make. -/
structure Writer where
  mutator : Mutator
  writes : List Write
  activity : Activity := .choosing

namespace Writer

/-- Is every store made? -/
def isFinished (w : Writer) : Bool := w.writes.isEmpty

/-- The barrier of a store, and its first action. -/
def choose (m : Mutator) (w : Write) : HeapM Activity := do
  match ← m.granularity w.src w.field with
  | .object => return .checkingHeader
  | .scalarField =>
    HeapM.count .scalarChecks 1
    return .checkingMark w.field (.field w.slot)
  | .arrayField =>
    HeapM.count .elementChecks 1
    let i := w.field.index
    let first := i - i % m.barrier.arrayQuantum
    return .checkingMark (.element first) (← m.quantumOf w.src i first)

/-- The slots that are logged. -/
def slotsOf (src : Ref) : Logged → HeapM (List Address)
  | .object => do
    let n ← HeapM.inspect (·.slotCount src)
    Covered.slots (.quantum src 0 n)
  | .covered _ c => c.slots

/-- The action under the lock that comes first. -/
def underLock : Logged → Activity
  | .object => .pushingObject
  | .covered f c => .checkingAgain f c

/-- The action that follows when all referents are pushed. -/
def afterReferents (found : Nat) : Logged → Activity
  | .object => .completing found
  | .covered f c => .storingMark f c found

/-- The event of a logged field. -/
def fieldEvent (m : Mutator) (src : Ref) (f : Field) (c : Covered) (mark : Address) : Event :=
  if m.barrier.verbose then .fieldLoggedVerbose f src c mark else .fieldLogged f src mark

/-- One atomic action of a store. The mutator changes by what is pushed. -/
def act (m : Mutator) (w : Write) : Activity → HeapM (Mutator × Activity)
  | .choosing => do return (m, ← choose m w)
  | .checkingHeader => do
    let h ← HeapM.inspect (·.header w.src)
    return (m, if h.logRequired then .locking .object else .storing)
  | .checkingMark f c => do
    let unlogged ← HeapM.inspect (·.isFieldUnlogged w.src f.index)
    return (m, if unlogged then .locking (.covered f c) else .storing)
  | .locking l => do
    let h ← HeapM.inspect (·.header w.src)
    if !h.logRequired then return (m, .storing)
    return (m, if h.locked then .locking l else .exchanging l h)
  | .exchanging l seen => do
    let taken ← HeapM.exchangeHeader w.src seen { seen with locked := true }
    return (m, if taken then underLock l else .locking l)
  | .checkingAgain f c => do
    unless ← HeapM.inspect (·.isFieldUnlogged w.src f.index) do return (m, .unlocking)
    return (m, .loading (.covered f c) (← slotsOf w.src (.covered f c)) 0)
  | .pushingObject => do
    return (← m.pushObject w.src, .loading .object (← slotsOf w.src .object) 0)
  | .loading l [] found => return (m, afterReferents found l)
  | .loading l (slot :: slots) found => do
    match ← HeapM.inspect (·.loadRef slot) with
    | none => return (m, .loading l slots found)
    | some old => return (m, .pushingOld l old slots found)
  | .pushingOld l old slots found => do
    return (← m.pushDecrements [old], .loading l slots (found + 1))
  | .storingMark f c found => do
    return (m, .pushingField f c (← Mutator.markField w.src f.index) found)
  | .pushingField f c mark found => do
    let m ← m.pushField { covered := c, mark }
    Mutator.countLogged found
    HeapM.emit (fieldEvent m w.src f c mark)
    return (m, .unlocking)
  | .completing found => do
    return (m, .completed found (← HeapM.inspect (·.header w.src)))
  | .completed found seen => do
    unless ← HeapM.exchangeHeader w.src seen { seen with logged := true, locked := false } do
      return (m, .completing found)
    unless seen.locked do throw (.lockNotHeld w.src)
    Mutator.countLogged found
    HeapM.emit (.objectLogged w.src found)
    return (m, .storing)
  | .unlocking => do return (m, .unlocked (← HeapM.inspect (·.header w.src)))
  | .unlocked seen => do
    unless ← HeapM.exchangeHeader w.src seen { seen with locked := false } do
      return (m, .unlocking)
    HeapM.lift (require .lockHeld seen.locked)
    return (m, .storing)
  | .storing => do
    HeapM.change (·.storeRef w.slot w.target)
    return (m, .choosing)

/-- Does the action make the store? -/
def makesStore : Activity → Bool
  | .storing => true
  | _ => false

/-- One atomic action of a writer. -/
def step (w : Writer) : HeapM Writer := do
  match w.writes with
  | [] => return w
  | write :: rest =>
    let (mutator, activity) ← act w.mutator write w.activity
    return { mutator, activity, writes := if makesStore w.activity then rest else w.writes }

/-- The most actions of one store to an object of so many slots, without waiting. -/
def actionBound (slots : Nat) : Nat := 2 * slots + 16

/-- The writer of a number takes one action, if there is such a writer. -/
def stepAt (crew : List Writer) (i : Nat) : HeapM (List Writer) := do
  match crew[i]? with
  | none => return crew
  | some w => return crew.set i (← w.step)

/-- The writers take their turns as a schedule says. -/
def runSchedule (crew : List Writer) (schedule : List Nat) : HeapM (List Writer) :=
  schedule.foldlM stepAt crew

/-- Every writer takes one action in turn, for at most so many rounds, until all are finished. -/
def run : (rounds : Nat) → List Writer → HeapM (List Writer)
  | 0, _ => throw .stepsExhausted
  | k + 1, crew => do
    if crew.all isFinished then return crew
    run k (← runSchedule crew (List.range crew.length))

end Writer

end DeferredCount
