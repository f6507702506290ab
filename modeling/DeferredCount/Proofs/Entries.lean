import DeferredCount.Proofs.Execution
import Mathlib.Data.List.Perm.Basic

/-!
# Entries of a buffer and its pool

A buffer and its pool hold entries together. Where an entry lies depends on how full the buffer was
and on which block a consumer took, so the lemmas speak of the entries of both, up to their order.

Results:
1. `push_entries`, `pushAll_entries`, `flush_entries`: pushing adds the given entries, flushing
   none.
2. `take?_cases`: taking finds both empty, or takes one entry and leaves the others.
3. `Pool.Solid.isEmpty`: a pool without entries is empty, since no block of it ever becomes empty.
-/

namespace DeferredCount

namespace Pools

variable {α : Type}

@[simp] theorem get_set (p : Pools) (k : PoolId α) (q : Pool α) : (p.set k q).get k = q := by
  cases k <;> rfl

@[simp] theorem set_set (p : Pools) (k : PoolId α) (q r : Pool α) :
    (p.set k q).set k r = p.set k r := by
  cases k <;> rfl

@[simp] theorem set_get (p : Pools) (k : PoolId α) : p.set k (p.get k) = p := by
  cases k <;> rfl

end Pools

namespace Buffer

variable {α : Type}

/-- The entries of a buffer and its pool. -/
def both (b : Buffer α) (p : Pool α) : List α := p.entries ++ b.items.toList

theorem both_push (b : Buffer α) (p : Pool α) (v : α) :
    (b.push p v).1.both (b.push p v).2 = b.both p ++ [v] :=
  entries_push b p v

theorem capacity_push (b : Buffer α) (p : Pool α) (v : α) :
    (b.push p v).1.capacity = b.capacity := by
  unfold push
  split <;> rfl

theorem takeEntry_eq_some {blocks rest : List (Stack α)} {v : α} {items : Stack α}
    (h : takeEntry blocks = some (v, items, rest)) :
    blocks.flatMap Stack.toList = items.toList ++ [v] ++ rest.flatMap Stack.toList := by
  induction blocks with
  | nil => cases h
  | cons block blocks ih =>
    unfold takeEntry at h
    split at h
    · next e =>
      cases h
      simp [Stack.toList_pop e]
    · next e =>
      rw [List.flatMap_cons, Stack.pop_eq_none.1 e, ih h, List.nil_append]

theorem takeEntry_none_flatMap {blocks : List (Stack α)} (h : takeEntry blocks = none) :
    blocks.flatMap Stack.toList = [] :=
  List.flatMap_eq_nil_iff.2 (takeEntry_eq_none h)

theorem takeBlock_eq_some {q r : Queue (Stack α)} {v : α} {items : Stack α}
    (h : takeBlock q = some (v, items, r)) :
    q.toList.flatMap Stack.toList =
      items.toList ++ [v] ++ r.toList.flatMap Stack.toList := by
  unfold takeBlock at h
  split at h
  · next e =>
    cases h
    rw [Queue.toList, List.flatMap_append, takeEntry_eq_some e]
    simp [Queue.toList]
  · next e =>
    simp only [Option.map_eq_some_iff, Prod.mk.injEq] at h
    obtain ⟨⟨v', items', front⟩, e', rfl, rfl, rfl⟩ := h
    rw [Queue.toList, List.flatMap_append, takeEntry_none_flatMap e, takeEntry_eq_some e']
    simp [Queue.toList]

theorem take?_perm {b b' : Buffer α} {p p' : Pool α} {v : α} (h : b.take? p = some (v, b', p')) :
    (b.both p).Perm (v :: b'.both p') := by
  unfold take? at h
  split at h
  · next e =>
    cases h
    simp only [popLocal, Option.map_eq_some_iff, Prod.mk.injEq] at e
    obtain ⟨⟨w, items⟩, hp, rfl, rfl⟩ := e
    rw [both, both, Stack.toList_pop hp, ← List.append_assoc]
    exact List.perm_append_singleton ..
  · next e =>
    simp only [Option.map_eq_some_iff, Prod.mk.injEq] at h
    obtain ⟨⟨w, items, queue⟩, hb, rfl, rfl, rfl⟩ := h
    have hl : b.items.toList = [] := by
      simp only [popLocal, Option.map_eq_none_iff] at e
      exact Stack.pop_eq_none.1 e
    rw [both, both, hl, List.append_nil, Pool.entries, Pool.blocks, takeBlock_eq_some hb]
    simp only [Pool.entries, Pool.blocks]
    rw [List.append_assoc, List.singleton_append]
    exact List.perm_middle.trans (List.Perm.cons _ List.perm_append_comm)

theorem take?_none {b : Buffer α} {p : Pool α} (h : b.take? p = none) : b.both p = [] := by
  obtain ⟨h₁, h₂⟩ := take?_eq_none h
  rw [both, h₁, List.append_nil]
  exact List.flatMap_eq_nil_iff.2 h₂

theorem capacity_take? {b b' : Buffer α} {p p' : Pool α} {v : α}
    (h : b.take? p = some (v, b', p')) : b'.capacity = b.capacity := by
  unfold take? at h
  split at h
  · next e =>
    cases h
    simp only [popLocal, Option.map_eq_some_iff, Prod.mk.injEq] at e
    obtain ⟨⟨w, items⟩, hp, rfl, rfl⟩ := e
    rfl
  · simp only [Option.map_eq_some_iff, Prod.mk.injEq] at h
    obtain ⟨⟨w, items, queue⟩, hb, rfl, rfl, rfl⟩ := h
    rfl

theorem pending_eq (b : Buffer α) (p : Pool α) : b.pending p = (b.both p).length := by
  simp [pending, both, size, Stack.size_eq_length, Pool.size_eq_length, Nat.add_comm]

end Buffer

/-! ## Pools without empty blocks -/

/-- No block of the pool is empty. -/
def Pool.Solid {α : Type} (p : Pool α) : Prop := ∀ block ∈ p.blocks, block.toList ≠ []

namespace Pool.Solid

variable {α : Type} {p q : Pool α} {b b' : Buffer α}

theorem of_blocks (blocks : p.blocks = []) : p.Solid := by
  rw [Pool.Solid, blocks]
  simp

theorem isEmpty (solid : p.Solid) (entries : p.entries = []) : p.isEmpty = true := by
  refine (Pool.isEmpty_iff p).2 (List.eq_nil_iff_forall_not_mem.2 fun block hb => ?_)
  exact solid block hb (List.flatMap_eq_nil_iff.1 entries block hb)

theorem pushBlock (solid : p.Solid) (block : Stack α) : (p.push block).Solid := by
  intro c hc
  rw [Pool.blocks_push, List.mem_append] at hc
  rcases hc with hc | hc
  · exact solid c hc
  · split at hc
    · cases hc
    · next full =>
      rw [List.mem_singleton.1 hc]
      exact fun e => full ((Stack.isEmpty_iff block).2 e)

theorem push (solid : p.Solid) (v : α) : (b.push p v).2.Solid := by
  unfold Buffer.push
  split
  · exact solid
  · exact solid.pushBlock _

theorem sublist_of_takeEntry {blocks rest : List (Stack α)} {v : α} {items : Stack α}
    (h : Buffer.takeEntry blocks = some (v, items, rest)) : rest.Sublist blocks := by
  induction blocks with
  | nil => cases h
  | cons block blocks ih =>
    unfold Buffer.takeEntry at h
    split at h
    · cases h
      exact List.sublist_cons_self ..
    · exact (ih h).cons _

theorem take? {v : α} (solid : p.Solid) (h : b.take? p = some (v, b', q)) : q.Solid := by
  unfold Buffer.take? at h
  split at h
  · cases h
    exact solid
  · simp only [Option.map_eq_some_iff, Prod.mk.injEq] at h
    obtain ⟨⟨w, items, queue⟩, hb, rfl, rfl, rfl⟩ := h
    have sub : queue.toList.Sublist p.queue.toList := by
      unfold Buffer.takeBlock at hb
      split at hb
      · next e =>
        cases hb
        exact (sublist_of_takeEntry e).append_right _
      · simp only [Option.map_eq_some_iff, Prod.mk.injEq] at hb
        obtain ⟨⟨w', items', front⟩, e, rfl, rfl, rfl⟩ := hb
        rw [Queue.toList, List.reverse_nil, List.append_nil]
        exact (sublist_of_takeEntry e).trans (List.sublist_append_right ..)
    exact fun block hb => solid block (sub.subset hb)

end Pool.Solid

/-- No block of any pool is empty. -/
structure Pools.Solid (p : Pools) : Prop where
  objects : p.objects.Solid
  fields : p.fields.Solid
  decrements : p.decrements.Solid
  traceRoots : p.traceRoots.Solid

theorem Pools.Solid.get {α : Type} {p : Pools} (s : p.Solid) (k : PoolId α) : (p.get k).Solid := by
  cases k
  · exact s.objects
  · exact s.fields
  · exact s.decrements
  · exact s.traceRoots

theorem Pools.Solid.set {α : Type} {p : Pools} (s : p.Solid) (k : PoolId α) {q : Pool α}
    (hq : q.Solid) : (p.set k q).Solid := by
  cases k
  · exact { s with objects := hq }
  · exact { s with fields := hq }
  · exact { s with decrements := hq }
  · exact { s with traceRoots := hq }

/-- One of the pools went on, and none of its blocks became empty. -/
structure Pools.Follows {α : Type} (k : PoolId α) (p p' : Pools) : Prop where
  rest : p' = p.set k (p'.get k)
  solid : (p.get k).Solid → (p'.get k).Solid

namespace Pools.Follows

variable {α : Type} {k : PoolId α} {p p₁ p' : Pools}

theorem refl (k : PoolId α) (p : Pools) : Follows k p p := ⟨(set_get p k).symm, id⟩

theorem of_set {q : Pool α} (solid : (p.get k).Solid → q.Solid) : Follows k p (p.set k q) :=
  ⟨by rw [get_set], by rw [get_set]; exact solid⟩

theorem trans (f₁ : Follows k p p₁) (f₂ : Follows k p₁ p') : Follows k p p' :=
  ⟨by rw [f₂.rest, f₁.rest, set_set, get_set], f₂.solid ∘ f₁.solid⟩

theorem keeps (f : Follows k p p') (s : p.Solid) : p'.Solid := by
  rw [f.rest]
  exact s.set k (f.solid (s.get k))

end Pools.Follows

/-- The heap with another pool under a name. -/
def Heap.putPool {α : Type} (h : Heap) (k : PoolId α) (q : Pool α) : Heap :=
  { h with pools := h.pools.set k q }

namespace HeapM

variable {α : Type}

theorem putPool_self (h : Heap) (k : PoolId α) : h.putPool k (h.pools.get k) = h := by
  simp [Heap.putPool]

theorem push_entries (k : PoolId α) (b : Buffer α) (v : α) (h : Heap) :
    ∃ b' q, push k b v h = .ok b' (h.putPool k q) ∧
      b'.both q = b.both (h.pools.get k) ++ [v] ∧ b'.capacity = b.capacity ∧
      ((h.pools.get k).Solid → q.Solid) :=
  ⟨_, _, rfl, Buffer.both_push .., Buffer.capacity_push .., fun solid => solid.push v⟩

theorem flush_entries (k : PoolId α) (b : Buffer α) (h : Heap) :
    ∃ q, flush k b h = .ok { b with items := .empty } (h.putPool k q) ∧
      q.entries = b.both (h.pools.get k) ∧ ((h.pools.get k).Solid → q.Solid) := by
  refine ⟨_, rfl, ?_, fun solid => solid.pushBlock b.items⟩
  rw [Pool.entries_push, Buffer.both]

theorem pushAll_entries (k : PoolId α) (b : Buffer α) (vs : List α) (h : Heap) :
    ∃ b' q, pushAll k b vs h = .ok b' (h.putPool k q) ∧
      b'.both q = b.both (h.pools.get k) ++ vs ∧ b'.capacity = b.capacity ∧
      ((h.pools.get k).Solid → q.Solid) := by
  induction vs generalizing b h with
  | nil => exact ⟨b, h.pools.get k, by rw [putPool_self]; rfl, by simp, rfl, id⟩
  | cons v vs ih =>
    obtain ⟨b₁, q₁, e₁, both₁, cap₁, solid₁⟩ := push_entries k b v h
    obtain ⟨b₂, q₂, e₂, both₂, cap₂, solid₂⟩ := ih b₁ (h.putPool k q₁)
    refine ⟨b₂, q₂, ?_, ?_, cap₂.trans cap₁, fun solid => solid₂ ?_⟩
    · unfold pushAll at e₂
      rw [pushAll, List.foldlM_cons, bind_of_ok e₁, e₂]
      simp [Heap.putPool]
    · rw [both₂]
      simp [Heap.putPool, both₁]
    · rw [Heap.putPool, Pools.get_set]
      exact solid₁ solid

/-- An entry that was taken came from the buffer or its pool. -/
theorem take?_eq_some {k : PoolId α} {b b' : Buffer α} {v : α} {h h' : Heap}
    (e : take? k b h = .ok (some (v, b')) h') :
    ∃ q, b.take? (h.pools.get k) = some (v, b', q) ∧ h' = h.putPool k q := by
  cases found : b.take? (h.pools.get k) with
  | none => simp [take?, found] at e
  | some r =>
    obtain ⟨w, c, q⟩ := r
    simp only [take?, found, modifyGet_apply] at e
    cases e
    exact ⟨q, rfl, rfl⟩

/-- Taking an entry finds the buffer and its pool empty, or takes one of their entries. -/
theorem take?_cases (k : PoolId α) (b : Buffer α) (h : Heap) :
    (take? k b h = .ok none h ∧ b.both (h.pools.get k) = []) ∨
      ∃ v b' q, take? k b h = .ok (some (v, b')) (h.putPool k q) ∧
        (b.both (h.pools.get k)).Perm (v :: b'.both q) ∧ b'.capacity = b.capacity ∧
        ((h.pools.get k).Solid → q.Solid) := by
  cases e : b.take? (h.pools.get k) with
  | none => exact .inl ⟨by simp [take?, e], Buffer.take?_none e⟩
  | some r =>
    obtain ⟨v, b', q⟩ := r
    exact .inr ⟨v, b', q, by simp [take?, e, Heap.putPool], Buffer.take?_perm e,
      Buffer.capacity_take? e, fun solid => solid.take? e⟩

end HeapM

end DeferredCount
