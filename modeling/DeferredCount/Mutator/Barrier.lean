import DeferredCount.Mutator.Basic

/-!
# The write barrier

Every store of a reference runs the barrier first. The first store to an object in an increment
logs it: the object goes to one buffer and its present referents, which may be overwritten, to
another as decrements. With field barriers the same is done for a single field, or for a quantum
of adjacent array elements that share a mark. Logging happens under the lock of the object, so no
thread overwrites a referent before it is in the buffer.
-/

namespace DeferredCount

/-- How finely a store is logged. -/
inductive Granularity
  /-- The array element, with its quantum. -/
  | arrayField
  /-- The field. -/
  | scalarField
  /-- The whole object. -/
  | object
  deriving DecidableEq, Inhabited, Repr

/-- The name of a granularity. -/
def Granularity.name : Granularity → String
  | .arrayField => "ArrayField"
  | .scalarField => "ScalarField"
  | .object => "Object"

namespace Covered

/-- The slots of the next `k` elements of an array, from element `i` on, behind those found
before, the latest first. All have to lie in the memory. -/
def elementSlots (array : Ref) : (k i : Nat) → List Address → Except Fault (List Address)
  | 0, _, found => .ok found
  | k + 1, i, found => do
    let a ← Memory.slot array i
    let _ ← Memory.index a
    elementSlots array k (i + 1) (a :: found)

/-- The covered slots, in order. -/
def slots : Covered → Except Fault (List Address)
  | .field slot => .ok [slot]
  | .quantum array first length => do
    let _ ← Word.add first length
    let found ← elementSlots array length first []
    return found.reverse

/-- The references in covered slots, in order. -/
def referents (c : Covered) (m : Memory) : Except Fault (List Ref) := do
  let slots ← c.slots
  let found ← slots.mapM m.loadRef
  return found.filterMap id

end Covered

namespace Mutator

/-- Is a store to the array logged by element? -/
def inFieldMode (m : Mutator) (array : Ref) : HeapM Bool := do
  if m.barrier.arrayFields then
    let n ← HeapM.inspect (·.slotCount array)
    return m.barrier.arrayThreshold ≤ n
  return false

/-- How finely a store to a field is logged. -/
def granularity (m : Mutator) (src : Ref) : Field → HeapM Granularity
  | .element _ => return if ← m.inFieldMode src then .arrayField else .object
  | .scalar _ => return if m.barrier.scalarFields then .scalarField else .object

/-- Takes the lock for logging an object. It is refused while the object is logged or fresh, and a
lock that another thread holds never comes free here. -/
def lock (o : Ref) : HeapM Bool := do
  let h ← HeapM.inspect (·.header o)
  if h.isBusy then throw .waitsForever
  if h.logRequired then
    let _ ← HeapM.updateHeader o Header.lock
    return true
  return false

/-- Gives the lock back without logging the object. -/
def finishLogging (o : Ref) : HeapM Unit := do
  let (old, _) ← HeapM.updateHeader o Header.finishLogging
  HeapM.lift (require .lockHeld old.locked)

/-- Marks an object logged, and gives the lock back. -/
def makeLogged (o : Ref) : HeapM Unit := do
  let (old, _) ← HeapM.updateHeader o Header.makeLogged
  unless old.locked do throw (.lockNotHeld o)

/-- Marks a field logged. Returns its mark. -/
def markField (o : Ref) (i : Nat) : HeapM Address := do
  let mark ← HeapM.inspect (·.markOf o i)
  HeapM.change (·.store mark 1)
  return mark

/-- Counts a logged object or field and its referents. -/
def countLogged (referents : Nat) : HeapM Unit := do
  HeapM.count .logged 1
  HeapM.count .wordsLogged referents

/-- Logs a whole object: its referents go to the decrements. -/
def logObject (m : Mutator) (src : Ref) : HeapM Mutator := do
  unless ← lock src do return m
  let m ← m.pushObject src
  let referents ← HeapM.inspect (·.referents src)
  let m ← m.pushDecrements referents
  makeLogged src
  countLogged referents.length
  HeapM.emit (.objectLogged src referents.length)
  return m

/-- Logs covered slots: their referents go to the decrements. The mark is looked at again, since
another thread may have logged them before the lock came free. -/
def logField (m : Mutator) (src : Ref) (f : Field) (covered : Covered) : HeapM Mutator := do
  unless ← lock src do return m
  let mut m := m
  if ← HeapM.inspect (·.isFieldUnlogged src f.index) then
    let referents ← HeapM.inspect covered.referents
    m ← m.pushDecrements referents
    let mark ← markField src f.index
    m ← m.pushField { covered, mark }
    countLogged referents.length
    HeapM.emit (if m.barrier.verbose then .fieldLoggedVerbose f src covered mark
      else .fieldLogged f src mark)
  finishLogging src
  return m

/-- The barrier of a whole object. -/
def objectBarrier (m : Mutator) (src : Ref) : HeapM Mutator := do
  let h ← HeapM.inspect (·.header src)
  if h.logRequired then m.logObject src else return m

/-- The barrier of a scalar field. -/
def scalarBarrier (m : Mutator) (src : Ref) (slot : Address) (f : Field) : HeapM Mutator := do
  HeapM.count .scalarChecks 1
  if ← HeapM.inspect (·.isFieldUnlogged src f.index) then m.logField src f (.field slot)
  else return m

/-- The slots that share the mark of an array element. -/
def quantumOf (m : Mutator) (src : Ref) (i first : Nat) : HeapM Covered := do
  if m.barrier.logQuantum = 0 then return .field (← Memory.slot src i)
  let n ← HeapM.inspect (·.slotCount src)
  let rest ← Word.sub n first
  return .quantum src first (min m.barrier.arrayQuantum rest)

/-- The barrier of an array element. The mark of a quantum is that of its first element. -/
def elementBarrier (m : Mutator) (src : Ref) (i : Nat) : HeapM Mutator := do
  HeapM.count .elementChecks 1
  let first := i - i % m.barrier.arrayQuantum
  if ← HeapM.inspect (·.isFieldUnlogged src first) then
    let covered ← m.quantumOf src i first
    m.logField src (.element first) covered
  else return m

/-- The barrier of a store to a field. -/
def barrierFor (m : Mutator) (src : Ref) (slot : Address) (f : Field) : HeapM Mutator := do
  match ← m.granularity src f with
  | .arrayField => m.elementBarrier src f.index
  | .scalarField => m.scalarBarrier src slot f
  | .object => m.objectBarrier src

/-- Stores a reference into a slot of an object. -/
def write (m : Mutator) (src : Ref) (slot : Address) (target : Option Ref) (f : Field) :
    HeapM Mutator := do
  let m ← m.barrierFor src slot f
  HeapM.change (·.storeRef slot target)
  return m

/-- Stores a reference into a slot if it holds the expected one. The barrier runs in any case. -/
def compareAndSwap (m : Mutator) (src : Ref) (slot : Address) (old new : Option Ref) (f : Field) :
    HeapM (Bool × Mutator) := do
  let m ← m.barrierFor src slot f
  let present ← HeapM.inspect (·.load slot)
  if present = Ref.toWord old then
    HeapM.change (·.storeRef slot new)
    return (true, m)
  return (false, m)

/-- The barriers of `k` elements, from element `i` on. -/
def elementBarriers (dst : Ref) : (k i : Nat) → Mutator → HeapM Mutator
  | 0, _, m => return m
  | k + 1, i, m => do
    let m ← m.elementBarrier dst i
    elementBarriers dst k (i + 1) m

/-- The barrier of a copy of adjacent references. Offsets and lengths are in bytes. The copy itself
is left to the caller, which is what the answer `false` says. -/
def bulkCopyBarrier (m : Mutator) (src : Ref) (srcOffset : Nat) (dst : Ref) (dstOffset : Nat)
    (bytes : Nat) : HeapM (Bool × Mutator) := do
  HeapM.emit (.bulkCopy (bytesToWords bytes) src srcOffset dst dstOffset)
  if ← m.inFieldMode dst then
    let first := bytesToWords dstOffset
    let words := bytesToWords bytes
    let _ ← Word.add first words
    return (false, ← elementBarriers dst words first m)
  return (false, ← m.objectBarrier dst)

end Mutator

end DeferredCount
