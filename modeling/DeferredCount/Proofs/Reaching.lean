import DeferredCount.Proofs.Freeing
import DeferredCount.Proofs.Supply
import DeferredCount.Proofs.Turns

/-!
# What an instance comes to

An instance may see any sequence of operations. Its mutators ask for any number of bytes and
register objects wherever the spaces take them, objects are freed, and increments run. Nothing else
is supposed. At every point requests can rely on what the spaces and the allocators keep.

Results:
1. `Mutator.serves_of_allocate`: a request, and what the client learns of it.
2. `Supplied.proceeded`: what happens in an increment.
3. `Reached.supplied`: any sequence of operations.
-/

namespace DeferredCount

open Relation

/-! ## Objects that are registered and freed -/

namespace Heap.Supplied

variable {h h' : Heap} {o : Ref}

theorem enroll {s : Semantics} {counted : Bool} (st : h.Supplied)
    (e : HeapM.enroll o s h = .ok counted h') : h'.Supplied := by
  rcases HeapM.enroll_eq_ok e with rfl | ⟨-, e⟩ | ⟨-, e⟩
  · exact st.congr rfl rfl rfl
  · obtain ⟨pages, claimed, large, log, claim, link, rfl⟩ := HeapM.registerLarge_eq_ok e
    obtain ⟨out, registered, housed⟩ := st.large
    exact ⟨st.small, ⟨_, _, housed.register claim link⟩, st.permanent⟩
  · obtain ⟨small, live, rfl⟩ := HeapM.setLive_eq_ok e
    unfold SmallSpace.setLive at live
    split at live
    · cases live
    · cases live
      exact ⟨⟨st.small.pool, st.small.pages, st.small.free⟩, st.large, st.permanent⟩

theorem frees (st : h.Supplied) (f : h.Frees h') : h'.Supplied := by
  cases f with
  | elsewhere small large permanent => exact st.congr small large (by rw [permanent])
  | small e =>
    obtain ⟨cell, small, log, reclaimed, rfl⟩ := HeapM.freeSmall_eq_ok e
    exact ⟨st.small.of_reclaim reclaimed, st.large, st.permanent⟩
  | large e =>
    have freed := HeapM.freeLarge_frees e
    obtain ⟨pages, unlinked, large, log, -, -, rfl⟩ := HeapM.freeLarge_eq_ok e
    obtain ⟨out, registered, housed⟩ := st.large
    exact ⟨st.small, ⟨_, _, housed.free freed⟩, st.permanent⟩

/-- An operation that only frees objects. -/
theorem onlyFrees {α : Type} {x : HeapM α} {r : α} (st : h.Supplied) (only : x.OnlyFrees)
    (e : x h = .ok r h') : h'.Supplied := by
  have freed := only h r h' e
  clear e
  induction freed with
  | refl => exact st
  | tail _ step ih => exact ih.frees step

end Heap.Supplied

/-! ## Requests of a mutator -/

/-- The heap once the client has learned that memory is exhausted. -/
def Heap.exhausted (h : Heap) : Heap :=
  let hook := h.client.outOfMemory
  { h with client := { h.client with outOfMemory := { hook with calls := hook.calls + 1 } } }

namespace Mutator

variable {h h' : Heap} {m m' : Mutator} {size align offset : Nat} {s : Semantics} {place : Address}

theorem reportOutOfMemory_apply (h : Heap) : reportOutOfMemory h =
    if h.client.outOfMemory.state then .ok () h.exhausted else .error .outOfMemory h.exhausted := by
  obtain ⟨_, _, _, _, _, _, _, _, _, _, ⟨_, ⟨returns, _⟩⟩, _⟩ := h
  cases returns <;> rfl

/-- What a request that returns leaves.
* `refused`: it found nothing. The client was told once, and nothing else changed.
* `granted`: it got a place, and the client was not told. -/
inductive Serves (h : Heap) (m : Mutator) : Address → Mutator → Heap → Prop
  | refused {log : List Event} : Serves h m 0 m { h.exhausted with log }
  | granted {place : Address} {allocators : Allocators} {h' : Heap} : place ≠ 0 → h'.Supplied →
    allocators.Supplied → h'.client = h.client → Serves h m place { m with allocators } h'

theorem serves_of_allocate (st : h.Supplied) (own : m.allocators.Supplied)
    (e : m.allocate size align offset s h = .ok (place, m') h') : Serves h m place m' h' := by
  obtain ⟨k, -, e⟩ := HeapM.lift_bind_eq_ok.1 e
  obtain ⟨⟨p, as⟩, h₁, run, e⟩ := HeapM.bind_eq_ok.1 e
  dsimp only at e
  cases Allocators.serves_of_allocate st own run with
  | refused =>
    rw [if_pos rfl, HeapM.emit_bind_apply] at e
    obtain ⟨_, k, reported, e⟩ := HeapM.bind_eq_ok.1 e
    rw [reportOutOfMemory_apply] at reported
    split at reported
    · cases reported
      cases e
      exact .refused
    · cases reported
  | granted some st' own' client =>
    rw [if_neg some] at e
    cases e
    exact .granted some st' own' client

end Mutator

/-! ## Sequences of operations -/

/-- What an instance of whatever settings and client can come to, with its mutators.
* `bind`, `destroy`: a mutator comes or goes.
* `allocate`: a mutator asks for memory, and the request returns.
* `register`: a mutator registers an object.
* `free`: a counted object is freed.
* `phase`: a mutator does its part of a phase.
* `collect`: an increment runs.
* `shuffle`: the order of free cells is nobody's business.
* `elsewhere`: anything that touches neither the spaces nor the allocators, as barriers do. -/
inductive Reached : Heap → List Mutator → Prop
  | fresh {settings : Settings} {client : Client} :
      Reached { Heap.ofSettings settings with client } []
  | bind {h h' : Heap} {ms : List Mutator} {m : Mutator} : Reached h ms →
      Mutator.bind h = .ok m h' → Reached h' (ms ++ [m])
  | destroy {h h' : Heap} {before after : List Mutator} {m : Mutator} :
      Reached h (before ++ m :: after) → m.destroy h = .ok () h' → Reached h' (before ++ after)
  | allocate {h h' : Heap} {before after : List Mutator} {m m' : Mutator}
      {size align offset : Nat} {s : Semantics} {place : Address} :
      Reached h (before ++ m :: after) →
      m.allocate size align offset s h = .ok (place, m') h' → Reached h' (before ++ m' :: after)
  | register {h h' : Heap} {before after : List Mutator} {m m' : Mutator} {o : Ref}
      {s : Semantics} : Reached h (before ++ m :: after) → m.register o s h = .ok m' h' →
      Reached h' (before ++ m' :: after)
  | free {h h' : Heap} {ms : List Mutator} {o : Ref} : Reached h ms →
      HeapM.free o h = .ok () h' → Reached h' ms
  | phase {h h' : Heap} {before after : List Mutator} {m m' : Mutator} {p : Phase} :
      Reached h (before ++ m :: after) → m.phase p h = .ok m' h' →
      Reached h' (before ++ m' :: after)
  | collect {h h' : Heap} {ms ms' : List Mutator} {kind : CollectionKind} : Reached h ms →
      Collects kind ms h ms' h' → Reached h' ms'
  | shuffle {h : Heap} {ms : List Mutator} {free : PerClass (List Address)} : Reached h ms →
      (∀ c, (free.get c).Perm (h.small.free.get c)) →
      Reached { h with small := { h.small with free } } ms
  | elsewhere {h h' : Heap} {ms ms' : List Mutator} : Reached h ms → h'.small = h.small →
      h'.large = h.large → h'.permanent = h.permanent →
      ms'.map (·.allocators) = ms.map (·.allocators) → Reached h' ms'

/-- What the next request of any of the mutators relies on. -/
structure Supplied (h : Heap) (ms : List Mutator) : Prop where
  heap : h.Supplied
  own : ∀ m ∈ ms, m.allocators.Supplied

namespace Supplied

variable {h h' : Heap} {before after : List Mutator} {m m' : Mutator}

/-- One of the mutators does something. -/
theorem act (st : Supplied h (before ++ m :: after)) (heap : h'.Supplied)
    (own : m'.allocators.Supplied) : Supplied h' (before ++ m' :: after) where
  heap
  own x hx := by
    rcases List.mem_append.1 hx with hx | hx
    · exact st.own x (List.mem_append_left _ hx)
    · rcases List.mem_cons.1 hx with rfl | hx
      · exact own
      · exact st.own x (List.mem_append_right _ (List.mem_cons_of_mem _ hx))

theorem own_self (st : Supplied h (before ++ m :: after)) : m.allocators.Supplied :=
  st.own m (List.mem_append_right _ List.mem_cons_self)

theorem without (st : Supplied h (before ++ m :: after)) (heap : h'.Supplied) :
    Supplied h' (before ++ after) where
  heap
  own x hx := st.own x <| (List.mem_append.1 hx).elim (List.mem_append_left _) fun hx =>
    List.mem_append_right _ (List.mem_cons_of_mem _ hx)

theorem perm (st : Supplied h before) (e : before.Perm after) : Supplied h after :=
  ⟨st.heap, fun x hx => st.own x (e.mem_iff.2 hx)⟩

theorem bound (st : Supplied h before) (e : Mutator.bind h = .ok m h') :
    Supplied h' (before ++ [m]) := by
  obtain ⟨none, log, rfl⟩ := Mutator.bind_eq_ok e
  refine ⟨st.heap.withLog log, List.forall_mem_append.2 ⟨st.own, ?_⟩⟩
  rw [List.forall_mem_singleton, none]
  exact Allocators.supplied_empty

theorem destroyed (st : Supplied h (before ++ m :: after)) (e : m.destroy h = .ok () h') :
    Supplied h' (before ++ after) := by
  refine st.without ?_
  rw [(Mutator.destroy_adds e).2]
  exact st.heap.congr rfl rfl rfl

theorem allocated {size align offset : Nat} {s : Semantics} {place : Address}
    (st : Supplied h (before ++ m :: after))
    (e : m.allocate size align offset s h = .ok (place, m') h') :
    Supplied h' (before ++ m' :: after) := by
  cases Mutator.serves_of_allocate st.heap st.own_self e with
  | refused => exact st.act (st.heap.congr rfl rfl rfl) st.own_self
  | granted _ heap own _ => exact st.act heap own

theorem registered {o : Ref} {s : Semantics} (st : Supplied h (before ++ m :: after))
    (e : m.register o s h = .ok m' h') : Supplied h' (before ++ m' :: after) := by
  obtain ⟨same, counted, k, memory, pools, enrolled, rfl⟩ := Mutator.register_eq_ok e
  exact st.act ((st.heap.enroll enrolled).congr rfl rfl rfl) (same ▸ st.own_self)

theorem phased {p : Phase} (st : Supplied h (before ++ m :: after))
    (e : m.phase p h = .ok m' h') : Supplied h' (before ++ m' :: after) := by
  rcases Mutator.phase_eq_ok e with ⟨pools, rfl, same⟩ | released
  · exact st.act (st.heap.congr rfl rfl rfl) (same ▸ st.own_self)
  · obtain ⟨heap, own⟩ := Allocators.supplied_of_release st.heap st.own_self released
    exact st.act heap own

/-- What happens in an increment. -/
theorem proceeded {s s' : Heap × List Mutator} (st : Supplied s.1 s.2)
    (run : ReflTransGen Heap.Proceeds s s') : Supplied s'.1 s'.2 := by
  induction run with
  | refl => exact st
  | tail _ step ih =>
    cases step with
    | frees f => exact ⟨ih.heap.frees f, ih.own⟩
    | phase e => exact ih.phased e

theorem shuffled {free : PerClass (List Address)} (st : Supplied h before)
    (perm : ∀ c, (free.get c).Perm (h.small.free.get c)) :
    Supplied { h with small := { h.small with free } } before := by
  refine ⟨⟨⟨st.heap.small.pool, st.heap.small.pages, fun c a ha => ?_⟩, st.heap.large,
    st.heap.permanent⟩, st.own⟩
  exact st.heap.small.free c a ((perm c).mem_iff.1 ha)

/-- Only the spaces and the allocators matter. -/
theorem congr (st : Supplied h before) (small : h'.small = h.small) (large : h'.large = h.large)
    (permanent : h'.permanent = h.permanent)
    (same : (after.map (·.allocators)).Perm (before.map (·.allocators))) : Supplied h' after := by
  refine ⟨st.heap.congr small large (by rw [permanent]), fun x hx => ?_⟩
  obtain ⟨y, hy, eq⟩ := List.mem_map.1 (same.mem_iff.1 (List.mem_map_of_mem hx))
  exact eq ▸ st.own y hy

end Supplied

/-- At every point requests can rely on what is kept for them. -/
theorem Reached.supplied {h : Heap} {ms : List Mutator} (run : Reached h ms) : Supplied h ms := by
  induction run with
  | @fresh settings client =>
    exact ⟨(Heap.Supplied.ofSettings settings).congr rfl rfl rfl, nofun⟩
  | bind _ e ih => exact ih.bound e
  | destroy _ e ih => exact ih.destroyed e
  | allocate _ e ih => exact ih.allocated e
  | register _ e ih => exact ih.registered e
  | free _ e ih => exact ⟨ih.heap.onlyFrees (HeapM.free_onlyFrees _) e, ih.own⟩
  | phase _ e ih => exact ih.phased e
  | collect _ done ih => exact ih.proceeded done.proceeds
  | shuffle _ perm ih => exact ih.shuffled perm
  | elsewhere _ small large permanent same ih =>
    exact ih.congr small large permanent (.of_eq same)

end DeferredCount
