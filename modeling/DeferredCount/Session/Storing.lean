import DeferredCount.Mutator.Writer
import DeferredCount.Session.Report

/-!
# Storing references in a session

Steps that store to an object show its header afterwards. A store to a field that the object does
not have is not run, and neither is one that would wait for the logging lock of the object.
-/

namespace DeferredCount

/-- Which kind of store a step asks for. -/
inductive StoreKind
  | scalar
  | element
  deriving DecidableEq, Repr

/-- What the session says about a bulk copy. -/
structure CopyReport where
  /-- Did the barrier copy by itself? -/
  copied : Bool
  /-- Did both ranges lie inside their objects? -/
  inside : Bool
  header : String
  deriving DecidableEq, Repr

namespace SessionM

/-- The field that a store names: an element if it asks for one, or by default if the object is an
array. -/
def fieldOf (o : Ref) (i : Nat) : Option StoreKind → SessionM Field
  | some .scalar => return .scalar i
  | some .element => return .element i
  | none => do return if ← inspect (·.isArray o) then .element i else .scalar i

/-- Stores a reference through the write barrier. -/
def write (m : Nat) (p : Place) (target : Option Ref) (kind : Option StoreKind) :
    SessionM String := do
  requireFree p.object
  let f ← fieldOf p.object p.index kind
  let slot ← p.slot
  act_ m fun mutator => mutator.write p.object slot target f
  headerText p.object

/-- Stores a reference without a barrier. -/
def store (p : Place) (target : Option Ref) : SessionM Unit := do
  let slot ← p.slot
  HeapM.change (·.storeRef slot target)

/-- Loads a reference. -/
def load (p : Place) : SessionM Shown := do
  let slot ← p.slot
  shown (← inspect (·.loadRef slot))

/-- Exchanges a reference through the write barrier if it is the expected one. -/
def compareAndSwap (m : Nat) (p : Place) (old new : Option Ref) (kind : Option StoreKind) :
    SessionM (Bool × String) := do
  requireFree p.object
  let f ← fieldOf p.object p.index kind
  let slot ← p.slot
  let swapped ← act m fun mutator => mutator.compareAndSwap p.object slot old new f
  return (swapped, ← headerText p.object)

/-- Stores references to the slots of an object, from slot `i` on. -/
def storeAll (dst : Ref) : (i : Nat) → List (Option Ref) → Memory → Except Fault Memory
  | _, [], memory => .ok memory
  | i, target :: rest, memory => do
    let slot ← Memory.slot dst i
    let memory ← memory.storeRef slot target
    storeAll dst (i + 1) rest memory

/-- Copies adjacent references: all are read before the first one is stored. -/
def copySlots (src : Ref) (i : Nat) (dst : Ref) (j n : Nat) (memory : Memory) :
    Except Fault Memory := do
  let targets ← memory.slotsFrom src i n
  storeAll dst j targets memory

/-- Runs the barrier of a copy of adjacent references. Offsets and lengths are in bytes. -/
def copyBarrier (m : Nat) (src : Ref) (srcOffset : Nat) (dst : Ref) (dstOffset bytes : Nat) :
    SessionM (Bool × String) := do
  requireFree dst
  let copied ← act m fun mutator =>
    mutator.bulkCopyBarrier src srcOffset dst dstOffset bytes
  return (copied, ← headerText dst)

/-- Copies `n` adjacent references from slot `i` on to slot `j` on, through the barrier. Nothing is
copied unless both ranges lie inside their objects. -/
def copy (m : Nat) (src : Ref) (i : Nat) (dst : Ref) (j n : Nat) : SessionM CopyReport := do
  requireFree dst
  let copied ← act m fun mutator => do
    let srcOffset ← Word.mul i bytesPerWord
    let dstOffset ← Word.mul j bytesPerWord
    let bytes ← Word.mul n bytesPerWord
    mutator.bulkCopyBarrier src srcOffset dst dstOffset bytes
  let inside := i + n ≤ (← inspect (·.slotCount src)) && j + n ≤ (← inspect (·.slotCount dst))
  if inside then HeapM.change (copySlots src i dst j n)
  return { copied, inside, header := ← headerText dst }

/-- New mutators store a reference to the same field, so many times each, all at the same time,
and end. Only the first one to come logs the field, so the entries do not depend on which it is.
A session listens to its own thread, so what the threads of the mutators record is lost. -/
def race (p : Place) (target : Option Ref) (threads times : Nat) :
    SessionM (String × PoolSizes) := do
  let src := p.object
  requireFree src
  let field ← fieldOf src p.index none
  let slot ← p.slot
  let writes := List.replicate times { src, slot, target, field : Write }
  let bound := Writer.actionBound (← inspect (·.slotCount src))
  let mutators ← (List.replicate threads ()).mapM fun _ => onHeap Mutator.bind
  let crew := mutators.map fun mutator => { mutator, writes : Writer }
  let crew ← onHeap (HeapM.unrecorded (Writer.run (2 * threads * times * bound + 1) crew))
  for w in crew do onHeap w.mutator.destroy
  return (← headerText src, ← poolSizes)

/-- How finely a store to a field is logged. -/
def granularity (m : Nat) (src : Ref) (i : Nat) (kind : Option StoreKind) :
    SessionM Granularity := do
  let mutator ← mutator m
  let f ← fieldOf src i kind
  onHeap (mutator.granularity src f)

/-- Logs a whole object. -/
def logObject (m : Nat) (src : Ref) : SessionM String := do
  requireFree src
  act_ m fun mutator => mutator.logObject src
  headerText src

/-! ## Marks -/

/-- Is the field not logged? -/
def isFieldUnlogged (p : Place) : SessionM Bool := inspect (·.isFieldUnlogged p.object p.index)

/-- Marks a field logged. Returns its mark. -/
def markField (p : Place) : SessionM Address := onHeap (Mutator.markField p.object p.index)

/-- Clears every mark of an object. -/
def clearMarks (o : Ref) : SessionM Unit := HeapM.change (·.clearMarks o)

end SessionM

end DeferredCount
