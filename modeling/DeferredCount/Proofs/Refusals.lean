import DeferredCount.Proofs.Locality
import DeferredCount.Proofs.Reaching

/-!
# Refused requests

A request that finds no memory leaves everything as it was, up to what the client counts and what
the log says. The allocators read neither, so no other request can tell that there was one: what
it would have got before, it still gets.

Results:
1. `Mutator.allocate_told`: a request that gets a place gets it whatever the client has learned.
2. `Mutator.refused_requests_change_nothing`: what a request leaves that returns.
-/

namespace DeferredCount

/-- Two heaps differ in their clients, which are given, and in what they log. -/
def Heap.Told (client client' : Client) (h k : Heap) : Prop :=
  h.client = client ∧ ∃ log, k = { h with client := client', log }

theorem Heap.Told.spaced (client client' : Client) : Heap.Spaced (Heap.Told client client') where
  small_eq := by
    rintro h _ ⟨-, log, rfl⟩
    rfl
  large_eq := by
    rintro h _ ⟨-, log, rfl⟩
    rfl
  permanent_eq := by
    rintro h _ ⟨-, log, rfl⟩
    rfl
  withSmall := by
    rintro h _ ⟨same, log, rfl⟩ f
    exact ⟨same, log, rfl⟩
  withLarge := by
    rintro h _ ⟨same, log, rfl⟩ f
    exact ⟨same, log, rfl⟩
  withPermanent := by
    rintro h _ ⟨same, log, rfl⟩ f
    exact ⟨same, log, rfl⟩
  withLog := by
    rintro h _ ⟨same, _, rfl⟩ _ log
    exact ⟨same, log, rfl⟩

namespace Mutator

variable {size align offset : Nat} {h h' : Heap} {ms : List Mutator} {m m' : Mutator}
  {s : Semantics} {place : Address}

/-- A request gets a place if its allocator finds one. -/
theorem allocate_eq_ok_iff (some : place ≠ 0) :
    m.allocate size align offset s h = .ok (place, m') h' ↔
      ∃ k as, allocatorFor size align s = .ok k ∧
        m.allocators.allocate k size align offset h = .ok (place, as) h' ∧
        m' = { m with allocators := as } := by
  constructor
  · intro e
    obtain ⟨k, chosen, e⟩ := HeapM.lift_bind_eq_ok.1 e
    obtain ⟨⟨p, as⟩, h₁, run, e⟩ := HeapM.bind_eq_ok.1 e
    dsimp only at e
    by_cases none : p = 0
    · rw [if_pos none] at e
      obtain ⟨_, _, _, e⟩ := HeapM.bind_eq_ok.1 e
      obtain ⟨_, _, _, e⟩ := HeapM.bind_eq_ok.1 e
      cases e
      exact absurd none some
    · rw [if_neg none] at e
      cases e
      exact ⟨k, as, chosen, run, rfl⟩
  · rintro ⟨k, as, chosen, run, rfl⟩
    rw [allocate, HeapM.liftM_eq, chosen, HeapM.lift_ok, HeapM.pure_bind_apply,
      HeapM.bind_of_ok run]
    dsimp only
    rw [if_neg some]
    rfl

/-- A request that gets a place gets the same one after the client learned that memory is
exhausted. -/
theorem allocate_told (e : m.allocate size align offset s h = .ok (place, m') h')
    (some : place ≠ 0) (log : List Event) :
    ∃ log', m.allocate size align offset s { h.exhausted with log } =
      .ok (place, m') { h'.exhausted with log := log' } := by
  obtain ⟨k, as, chosen, run, rfl⟩ := (allocate_eq_ok_iff some).1 e
  have told : Heap.Told h.client h.exhausted.client h { h.exhausted with log } := ⟨rfl, log, rfl⟩
  obtain ⟨_, again, client, log', rfl⟩ :=
    (Allocators.allocate_onSpaces (Heap.Told.spaced _ _) m.allocators k).of_ok told run
  have learned : h'.exhausted.client = h.exhausted.client := by
    rw [Heap.exhausted, client]
    rfl
  refine ⟨log', (allocate_eq_ok_iff some).2 ⟨k, as, chosen, ?_, rfl⟩⟩
  rw [again, ← learned]
  rfl

/-- Whatever an instance has come to, a request that returns without a place told its client once
and left all else as it was but for the log. So every request of any mutator that would have got a
place still gets that one. A request that returns a place did not tell the client anything. -/
theorem refused_requests_change_nothing (run : Reached h ms) (mine : m ∈ ms)
    (e : m.allocate size align offset s h = .ok (place, m') h') :
    (place = 0 →
      m' = m ∧ (∃ log, h' = { h.exhausted with log }) ∧
      h'.client.outOfMemory.calls = h.client.outOfMemory.calls + 1 ∧
      ∀ (other other' : Mutator) (size' align' offset' : Nat) (s' : Semantics) (q : Address)
        (k : Heap), q ≠ 0 → other.allocate size' align' offset' s' h = .ok (q, other') k →
        ∃ log, other.allocate size' align' offset' s' h' =
          .ok (q, other') { k.exhausted with log }) ∧
      (place ≠ 0 → h'.client = h.client) := by
  cases serves_of_allocate run.supplied.heap (run.supplied.own m mine) e with
  | @refused log =>
    refine ⟨fun _ => ⟨rfl, ⟨log, rfl⟩, rfl, ?_⟩, fun some => absurd rfl some⟩
    intro other other' size' align' offset' s' q k some later
    exact allocate_told later some log
  | granted some _ _ client => exact ⟨fun none => absurd none some, fun _ => client⟩

/-- A fresh instance whose client handles exhausted memory, with a mutator. -/
def lenientHeap : Heap :=
  { Heap.ofSettings {} with
    client := { outOfMemory := { state := true } }
    log := [.mutatorBound .base] }

/-- Its mutator. -/
def lenientMutator : Mutator where
  flavor := .base
  barrier := .ofSettings {}
  buffers := ⟨⟨.empty, 4096⟩, ⟨.empty, 4096⟩, ⟨.empty, 4096⟩⟩

/-- A large object of sixteen megabytes is refused. A small one gets the place it would have got. -/
theorem refused_requests_change_nothing_large : ∃ h' m',
    lenientMutator.allocate (2 ^ 24) 8 0 .los lenientHeap = .ok (0, lenientMutator) h' ∧
      h'.client.outOfMemory.calls = 1 ∧
      (∃ k, lenientMutator.allocate 2000 8 0 .default lenientHeap = .ok (Heap.smallStart, m') k) ∧
      ∃ k, lenientMutator.allocate 2000 8 0 .default h' = .ok (Heap.smallStart, m') k := by
  have run : Reached lenientHeap [lenientMutator] :=
    .bind (@Reached.fresh {} lenientHeap.client) rfl
  have mine : lenientMutator ∈ [lenientMutator] := List.mem_singleton_self _
  obtain ⟨h', refused⟩ : ∃ h', lenientMutator.allocate (2 ^ 24) 8 0 .los lenientHeap =
      .ok (0, lenientMutator) h' := ⟨_, rfl⟩
  obtain ⟨m', k, granted⟩ : ∃ m' k, lenientMutator.allocate 2000 8 0 .default lenientHeap =
      .ok (Heap.smallStart, m') k := ⟨_, _, rfl⟩
  obtain ⟨-, -, once, still⟩ := (refused_requests_change_nothing run mine refused).1 rfl
  obtain ⟨_, again⟩ := still lenientMutator m' 2000 8 0 .default _ k (by decide) granted
  exact ⟨h', m', refused, once, ⟨k, granted⟩, _, again⟩

end Mutator

end DeferredCount
