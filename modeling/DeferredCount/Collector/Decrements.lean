import DeferredCount.Collector.Basic

/-!
# Taking back references that are gone

Working off a decrement takes one from a count. An object whose count reaches zero is freed, and
its referents lose a reference each. A fresh object never counted its referents, and a referent
with a count of zero is one whose references the backup trace left uncounted, so neither is
decremented.

The pool is drained until it is empty. New entries come only from an object whose count reaches
zero, which happens once for a word of memory, since no count grows meanwhile, and an object has
fewer slots than there are words.
-/

namespace DeferredCount

namespace HeapM

/-- Is the reference counted, and did the object count any? -/
def owesDecrement (o : Ref) : HeapM Bool := do
  unless (← get).isCounted o do return false
  let h ← inspect (·.header o)
  return h.count != 0

/-- The references that an object gives up when it is freed. -/
def droppedReferents (o : Ref) (h : Header) : HeapM (List Ref) := do
  if h.fresh then return []
  let referents ← inspect (·.referents o)
  referents.filterM owesDecrement

/-- Works off one decrement. Says whether the object was freed. -/
def processDecrement (b : Buffer Ref) (o : Ref) : HeapM (Bool × Buffer Ref) := do
  unless (← get).isCounted o do return (false, b)
  let (old, applied) ← updateHeader o Header.decrement
  unless applied do
    if old.count = 0 then throw (.zeroCount o)
    return (false, b)
  match old.lost with
  | .counted => return (false, b)
  | .last =>
    let dropped ← droppedReferents o old
    let b ← pushAll .decrements b dropped
    emit (.reclaimed o)
    free o
    return (true, b)

/-- Works off decrements until none is left, in at most so many steps. Counts the freed objects. -/
def drainDecrementsIn : (steps : Nat) → (freed : Nat) → Buffer Ref → HeapM (Nat × Buffer Ref)
  | 0, _, _ => throw .stepsExhausted
  | k + 1, freed, b => do
    match ← take? .decrements b with
    | none =>
      join .decrements
      return (freed, b)
    | some (o, b) =>
      let (wasFreed, b) ← processDecrement b o
      drainDecrementsIn k (freed + wasFreed.toNat) b

/-- Works off decrements until none is left. Counts the freed objects. -/
def drainDecrements (b : Buffer Ref) : HeapM (Nat × Buffer Ref) := do
  let pending := b.pending (← get).pools.decrements
  drainDecrementsIn (pending + Memory.wordCount * Memory.wordCount + 1) 0 b

end HeapM

end DeferredCount
