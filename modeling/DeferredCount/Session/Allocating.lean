import DeferredCount.Session.Report

/-!
# Allocating in a session

Every object that a step allocates gets the next number, and so does an allocation that fails,
whose object is dead from the start. Scratch objects lie outside all spaces. Their memory is used
from its start again once it is full.
-/

namespace DeferredCount

/-- What a session says about a new object. -/
structure NewObject where
  id : Nat
  addr : Address
  header : String
  deriving DecidableEq, Repr

namespace SessionM

/-- Gives an object the next number and says what it is. -/
def introduce (o : Ref) (scratch : Bool) : SessionM NewObject := do
  let id ← know (some o) scratch
  return { id, addr := o.addr, header := ← headerText o }

/-- Allocates an object of null slots. `none` if the memory is exhausted, which an array must not
find. -/
def newObject (m slots : Nat) (s : Semantics) (array : Bool) : SessionM (Option NewObject) := do
  match ← act m fun mutator => mutator.newObject slots array s with
  | some o => return some (← introduce o false)
  | none =>
    if array then throw (.fault .allocationFailed)
    let _ ← know none false
    return none

/-- Allocates objects without numbers until one fails, at most `n`. Returns how many there are. -/
def fill (m slots : Nat) (s : Semantics) (n : Nat) : SessionM Nat :=
  act m fun mutator => mutator.fill slots s n 0

/-- Where a scratch object of so many bytes starts, when the first `used` bytes of the scratch
memory are in use. -/
def scratchOffset (used bytes : Nat) : Nat :=
  if Heap.memoryEnd - Heap.scratchStart < used + bytes then 0 else used

/-- A new object of null slots outside all spaces, with a header of zero. -/
def scratchObject (slots : Nat) : SessionM NewObject := do
  let bytes ← Memory.objectSize slots
  let _ ← require .scratchFits (bytes ≤ Heap.memoryEnd - Heap.scratchStart)
  let offset := scratchOffset (← get).scratchUsed bytes
  modify fun s => { s with scratchUsed := offset + bytes }
  let o : Ref := ⟨Heap.scratchStart + offset⟩
  HeapM.change (·.format o.addr slots false)
  introduce o true

/-- Allocates memory only. Address zero if it is exhausted. -/
def allocate (m : Nat) (s : Semantics) (size align offset : Nat) : SessionM Address :=
  act m fun mutator => mutator.allocate size align offset s

/-- Registers an object that is laid out already. -/
def register (m : Nat) (o : Ref) (s : Semantics) : SessionM String := do
  act_ m fun mutator => mutator.register o s
  headerText o

end SessionM

end DeferredCount
