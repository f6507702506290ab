import DeferredCount.Mutator.Basic

/-!
# Allocating objects

An allocation takes memory from the allocator of its semantics; small requests that no cell can
hold go to pages. After the client has laid out the object, registering it makes it live.

A new counted object has a count of one, and a decrement for it is buffered at once. So it is
freed by the next increment unless that finds a reference. In the base flavor it is fresh: writes
to it are not logged, and its referents are counted when it is first counted itself. In the
generational flavor it counts as written.
-/

namespace DeferredCount

namespace Mutator

/-- The allocator that serves a request. -/
def allocatorFor (size align : Nat) (s : Semantics) : Except Fault AllocatorKind := do
  match s.allocator with
  | .freeList =>
    let bytes ← reserveSize size align
    return if maxCell < bytes then .largeObject else .freeList
  | .none => throw (.unsupported s)
  | k => return k

/-- The client learns that memory is exhausted. It fails unless the client handles that. -/
def reportOutOfMemory : HeapM Unit := do
  let (reply, hook) := (← get).client.outOfMemory.call fun returns =>
    if returns then .ok ((), returns) else .error .outOfMemory
  modify fun h => { h with client := { h.client with outOfMemory := hook } }
  HeapM.lift reply

/-- Memory for an object. Address zero if the memory is exhausted and the client handles that. -/
def allocate (m : Mutator) (size align offset : Nat) (s : Semantics) :
    HeapM (Address × Mutator) := do
  let k ← allocatorFor size align s
  let (a, allocators) ← m.allocators.allocate k size align offset
  if a = 0 then
    HeapM.emit (.allocationFailed size s)
    reportOutOfMemory
  return (a, { m with allocators })

/-- Writes the header of a new object. -/
def initHeader (o : Ref) (count : Nat) (logged fresh : Bool) : HeapM Unit := do
  let h ← Header.initial count logged fresh
  HeapM.change (·.store o.addr h.toWord)

/-- Makes an object live that was laid out in allocated memory. -/
def register (m : Mutator) (o : Ref) (s : Semantics) : HeapM Mutator := do
  let h ← get
  if h.isPermanent o then
    HeapM.registerPermanent o
    initHeader o 1 true false
    return ← m.pushObject o
  if h.large.holds o then HeapM.registerLarge o
  else if h.small.holds o then HeapM.setLive o
  else throw (.noSpace o s)
  let m ← match m.flavor with
    | .base => do
      initHeader o 1 false true
      pure m
    | .generational => do
      initHeader o 1 true false
      m.pushObject o
  m.pushDecrements [o]

/-- Allocates, lays out and registers an object of null slots. `none` if the memory is exhausted
and the client handles that. -/
def newObject (m : Mutator) (slots : Nat) (array : Bool) (s : Semantics) :
    HeapM (Option Ref × Mutator) := do
  let size ← Memory.objectSize slots
  let (a, m) ← m.allocate size bytesPerWord 0 s
  if a = 0 then return (none, m)
  HeapM.change (·.format a slots array)
  let m ← m.register ⟨a⟩ s
  return (some ⟨a⟩, m)

/-- Allocates objects until one fails, at most `n`. Returns how many there are. -/
def fill (slots : Nat) (s : Semantics) : (n : Nat) → (done : Nat) → Mutator → HeapM (Nat × Mutator)
  | 0, done, m => return (done, m)
  | n + 1, done, m => do
    match ← m.newObject slots false s with
    | (none, m) => return (done, m)
    | (some _, m) => fill slots s n (done + 1) m

end Mutator

end DeferredCount
