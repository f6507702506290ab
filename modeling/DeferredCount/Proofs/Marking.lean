import DeferredCount.Collector.Trace
import DeferredCount.Proofs.Objects
import Mathlib.Algebra.BigOperators.Group.Finset.Basic

/-!
# Marking and recounting

The backup trace visits references. The first visit of an object sets its mark and makes the object
forget its count, and every visit through a counted reference adds one. So a visited object holds
the number of counted visits, and an object that was not visited is as it was.

Results:
1. `Marking.visit`, `Marking.visitAll`: what visiting references does.
2. `Marking.scan`: what visiting the referents of an object does.
-/

namespace DeferredCount

/-- Two views agree but for the mark, the freshness and the count. -/
structure ObjectView.SameContents (v w : ObjectView) : Prop where
  array : v.array = w.array
  targets : v.targets = w.targets
  marks : v.marks = w.marks
  logged : v.header.logged = w.header.logged
  locked : v.header.locked = w.header.locked

theorem ObjectView.SameContents.refl (v : ObjectView) : v.SameContents v :=
  ⟨rfl, rfl, rfl, rfl, rfl⟩

theorem ObjectView.SameContents.referents_eq {v w : ObjectView} (h : v.SameContents w) :
    v.referents = w.referents := by
  rw [referents, referents, h.targets]

namespace Header

/-- The count after a trace met an object through so many counted references. -/
def recount (old n : Nat) : Nat := if old = stuck then stuck else min stuck n

/-- A header under the trace: marked, not fresh, and counted anew. -/
structure Recounted (orig : Header) (n : Nat) (hd : Header) : Prop where
  marked : hd.marked = true
  fresh : hd.fresh = false
  count : hd.count = recount orig.count n
  logged : hd.logged = orig.logged
  locked : hd.locked = orig.locked

/-- The first visit. -/
theorem recounted_of_reset {hd : Header} (unmarked : hd.marked = false) :
    ∃ marked reset, hd.mark = some marked ∧ marked.resetCount = some reset ∧
      hd.Recounted 0 reset := by
  refine ⟨{ hd with marked := true }, ?_⟩
  by_cases st : hd.count = stuck
  · refine ⟨{ hd with marked := true, fresh := false }, ?_, if_pos st, rfl, rfl, ?_, rfl, rfl⟩
    · simp [mark, unmarked]
    · simp [recount, st]
  · refine ⟨{ hd with marked := true, fresh := false, count := 0, count_lt := by omega }, ?_,
      if_neg st, rfl, rfl, ?_, rfl, rfl⟩
    · simp [mark, unmarked]
    · simp [recount, st]

theorem recount_succ (old n : Nat) :
    recount old (n + 1) = if recount old n = stuck then stuck else recount old n + 1 := by
  unfold recount
  simp only [stuck]
  split
  · simp
  · split <;> omega

/-- A visit through a counted reference. -/
theorem Recounted.increment {orig hd : Header} {n : Nat} (r : orig.Recounted n hd) :
    orig.Recounted (n + 1) (hd.increment.getD hd) := by
  have count := recount_succ orig.count n
  rw [← r.count] at count
  by_cases st : hd.count = stuck
  · have e : hd.increment = none := by simp [Header.increment, st, r.fresh]
    rw [if_pos st, ← st] at count
    rw [e, Option.getD_none]
    exact { r with count := count.symm }
  · rw [if_neg st] at count
    rw [Header.increment, dif_neg st, Option.getD_some]
    exact ⟨r.marked, rfl, count.symm, r.logged, r.locked⟩

end Header

/-! ## One visit -/

namespace Trace

variable {h : Heap} {o : Ref}

theorem visit_uncounted (nc : h.isCounted o = false) (counted : Bool) (t : Trace) :
    visit counted t o h = .ok t h := by
  rw [visit, HeapM.get_bind_apply, if_neg (by simp [nc])]
  rfl

/-- The reference to a marked object is counted, if it is to be. -/
theorem increment_eq (wf : h.WellFormed) (ho : o ∈ h.known) {orig : Header} {n : Nat}
    (r : orig.Recounted n (h.view o).header) (counted : Bool) (t : Trace) :
    ∃ h' hd, (do
        if counted then
          let _ ← HeapM.updateHeader o Header.increment
        return t : HeapM Trace) h = .ok t h' ∧
      HeaderSet o hd h h' ∧ orig.Recounted (n + counted.toNat) hd := by
  cases counted with
  | false => exact ⟨h, _, rfl, .refl wf o, r⟩
  | true =>
    obtain ⟨h', e, set⟩ := HeapM.updateHeader_eq wf ho Header.increment
    exact ⟨h', _, HeapM.bind_of_ok e, set, r.increment⟩

theorem visit_again (wf : h.WellFormed) (ho : o ∈ h.counted) {orig : Header} {n : Nat}
    (r : orig.Recounted n (h.view o).header) (counted : Bool) (t : Trace) :
    ∃ h' hd, visit counted t o h = .ok t h' ∧ HeaderSet o hd h h' ∧
      orig.Recounted (n + counted.toNat) hd := by
  obtain ⟨h', hd, e, set, r'⟩ := increment_eq wf (.inl ho) r counted t
  have none : (h.view o).header.mark = none := if_pos r.marked
  refine ⟨h', hd, ?_, set, r'⟩
  rw [visit, HeapM.get_bind_apply, if_pos (wf.isCounted_of_mem ho),
    HeapM.bind_of_ok (HeapM.updateHeader_none (wf.placed (.inl ho)) none)]
  exact e

theorem visit_first (wf : h.WellFormed) (ho : o ∈ h.counted)
    (unmarked : (h.view o).header.marked = false) (counted : Bool) (t : Trace) :
    ∃ h' hd, visit counted t o h =
        .ok { stack := t.stack.push o, marked := t.marked + 1 } h' ∧ HeaderSet o hd h h' ∧
      (h.view o).header.Recounted counted.toNat hd := by
  obtain ⟨marked, reset, mark, resetCount, r⟩ := Header.recounted_of_reset unmarked
  have known : o ∈ h.known := .inl ho
  have set₁ := HeaderSet.of_putHeader wf known marked
  have wf₁ := set₁.wellFormed wf
  have view₁ : ((h.putHeader o marked).view o).header = marked := by rw [set₁.self]
  have set₂ := HeaderSet.of_putHeader wf₁ known reset
  have wf₂ := set₂.wellFormed wf₁
  have view₂ : (((h.putHeader o marked).putHeader o reset).view o).header = reset := by
    rw [set₂.self]
  obtain ⟨h', hd, e, set₃, r'⟩ := increment_eq wf₂ known (view₂.symm ▸ r) counted
    { stack := t.stack.push o, marked := t.marked + 1 }
  refine ⟨h', hd, ?_, (set₁.trans set₂).trans set₃, by simpa using r'⟩
  rw [visit, HeapM.get_bind_apply, if_pos (wf.isCounted_of_mem ho),
    HeapM.bind_of_ok (HeapM.updateHeader_some (wf.placed known) mark)]
  simp only [if_true]
  rw [HeapM.bind_of_ok
    (HeapM.updateHeader_some (wf₁.placed known) (view₁.symm ▸ resetCount))]
  exact e

end Trace

/-! ## Marking -/

/-- Marking is under way in a heap `h₀`: `h` is the heap by now, `seen` are the objects visited, and
`hits` the counted references that led to them. -/
structure Marking (h₀ h : Heap) (t : Trace) (seen : Finset Ref) (hits : List Ref) : Prop where
  rest : h = { h₀ with memory := h.memory }
  laid : h.memory.Laid h₀.known
  seen_counted : seen ⊆ h₀.counted
  marked : t.marked = seen.card
  stack_seen : ∀ x ∈ t.stack.toList, x ∈ seen
  stack_nodup : t.stack.toList.Nodup
  hits_seen : ∀ x ∈ hits, x ∈ seen
  contents : ∀ x ∈ h₀.known, (h.view x).SameContents (h₀.view x)
  recounted : ∀ x ∈ seen, (h₀.view x).header.Recounted (hits.count x) (h.view x).header
  unseen : ∀ x ∈ h₀.counted, x ∉ seen → h.view x = h₀.view x
  permanent : ∀ x ∈ h₀.permanent.objects, (h.view x).header.fresh = (h₀.view x).header.fresh

namespace Marking

variable {h₀ h : Heap} {t : Trace} {seen : Finset Ref} {hits : List Ref} {o : Ref}

theorem known_eq (m : Marking h₀ h t seen hits) : h.known = h₀.known := by
  rw [m.rest]
  rfl

theorem counted_eq (m : Marking h₀ h t seen hits) : h.counted = h₀.counted := by
  rw [m.rest]
  rfl

theorem wellFormed (m : Marking h₀ h t seen hits) (wf : h₀.WellFormed) : h.WellFormed := by
  have laid := m.laid
  rw [m.rest]
  exact wf.congr rfl rfl rfl laid

/-- Another object is marked, or one more reference to a marked object is counted. -/
theorem extend (m : Marking h₀ h t seen hits) (wf : h₀.WellFormed) {h' : Heap} {hd : Header}
    {t' : Trace} {n : Nat} {hits' : List Ref} (ho : o ∈ h₀.counted) (set : HeaderSet o hd h h')
    (recounted : (h₀.view o).header.Recounted n hd) (count : hits'.count o = n)
    (others : ∀ x, x ≠ o → hits'.count x = hits.count x) (sub : ∀ x ∈ hits', x = o ∨ x ∈ hits)
    (marked : t'.marked = (insert o seen).card) (nodup : t'.stack.toList.Nodup)
    (stack : ∀ x ∈ t'.stack.toList, x = o ∨ x ∈ t.stack.toList) :
    Marking h₀ h' t' (insert o seen) hits' where
  rest := by rw [set.rest, m.rest]
  laid := m.known_eq ▸ set.laid
  seen_counted := Finset.insert_subset ho m.seen_counted
  marked := marked
  stack_seen x hx := by
    rcases stack x hx with rfl | hx
    · exact Finset.mem_insert_self ..
    · exact Finset.mem_insert_of_mem (m.stack_seen x hx)
  stack_nodup := nodup
  hits_seen x hx := by
    rcases sub x hx with rfl | hx
    · exact Finset.mem_insert_self ..
    · exact Finset.mem_insert_of_mem (m.hits_seen x hx)
  contents x hx := by
    by_cases e : x = o
    · subst e
      have c := m.contents x hx
      rw [set.self]
      exact ⟨c.array, c.targets, c.marks, recounted.logged, recounted.locked⟩
    · rw [set.other x (m.known_eq ▸ hx) e]
      exact m.contents x hx
  recounted x hx := by
    by_cases e : x = o
    · subst e
      rw [set.self, count]
      exact recounted
    · have hx := Finset.mem_of_mem_insert_of_ne hx e
      rw [set.other x (m.known_eq ▸ .inl (m.seen_counted hx)) e, others x e]
      exact m.recounted x hx
  unseen x hx new := by
    have ne : x ≠ o := fun e => new (e ▸ Finset.mem_insert_self ..)
    rw [set.other x (m.known_eq ▸ .inl hx) ne]
    exact m.unseen x hx fun h => new (Finset.mem_insert_of_mem h)
  permanent x hx := by
    rw [set.other x (m.known_eq ▸ .inr hx) (wf.permanent_ne hx ho)]
    exact m.permanent x hx

/-- What visiting a list of references leaves: the stack holds the objects marked on the way. -/
structure Visited (h₀ : Heap) (t : Trace) (seen : Finset Ref) (hits refs : List Ref)
    (counted : Bool) (t' : Trace) (h' : Heap) : Prop where
  marking : Marking h₀ h' t' (seen ∪ (refs.filter (· ∈ h₀.counted)).toFinset)
    (hits ++ if counted then refs.filter (· ∈ h₀.counted) else [])
  stack : ∀ x, x ∈ t'.stack.toList ↔
    x ∈ t.stack.toList ∨ x ∈ refs ∧ x ∈ h₀.counted ∧ x ∉ seen

/-- The objects of a heap carry no mark. -/
def Unmarked (h : Heap) : Prop := ∀ x ∈ h.known, (h.view x).header.marked = false

theorem visit (m : Marking h₀ h t seen hits) (wf : h₀.WellFormed) (clean : Unmarked h₀)
    (ho : o ∈ h₀.known) (counted : Bool) :
    ∃ t' h', Trace.visit counted t o h = .ok t' h' ∧
      Visited h₀ t seen hits [o] counted t' h' := by
  have wf' := m.wellFormed wf
  by_cases hc : o ∈ h₀.counted
  · have hc' : o ∈ h.counted := m.counted_eq ▸ hc
    have one : [o].filter (· ∈ h₀.counted) = [o] := by simp [hc]
    have hits_eq : (hits ++ if counted then [o] else []).count o =
        hits.count o + counted.toNat := by
      cases counted <;> simp
    have others : ∀ x, x ≠ o → (hits ++ if counted then [o] else []).count x = hits.count x := by
      intro x ne
      cases counted
      · simp
      · simp [Ne.symm ne]
    have sub : ∀ x ∈ hits ++ if counted then [o] else [], x = o ∨ x ∈ hits := by
      intro x hx
      rcases List.mem_append.1 hx with hx | hx
      · exact .inr hx
      · split at hx
        · exact .inl (List.mem_singleton.1 hx)
        · cases hx
    have union : seen ∪ [o].toFinset = insert o seen := by
      rw [Finset.union_comm]
      rfl
    by_cases hs : o ∈ seen
    · obtain ⟨h', hd, e, set, r⟩ := Trace.visit_again wf' hc' (m.recounted o hs) counted t
      refine ⟨t, h', e, ?_, fun x => ?_⟩
      · rw [one, union]
        exact m.extend wf hc set r hits_eq others sub (by rw [Finset.insert_eq_of_mem hs, m.marked])
          m.stack_nodup fun x hx => .inr hx
      · refine ⟨.inl, fun h => h.resolve_right ?_⟩
        rintro ⟨hx, -, new⟩
        exact new (List.mem_singleton.1 hx ▸ hs)
    · have view : h.view o = h₀.view o := m.unseen o hc hs
      obtain ⟨h', hd, e, set, r⟩ := Trace.visit_first wf' hc'
        (by rw [view]; exact clean o ho) counted t
      have zero : hits.count o = 0 := List.count_eq_zero.2 fun h => hs (m.hits_seen o h)
      refine ⟨_, h', e, ?_, fun x => ?_⟩
      · rw [one, union]
        refine m.extend wf hc set (view ▸ r) (by rw [hits_eq, zero, Nat.zero_add]) others sub
          ?_ ?_ ?_
        · rw [Finset.card_insert_of_notMem hs, ← m.marked]
        · rw [Stack.toList_push, List.nodup_append]
          refine ⟨m.stack_nodup, by simp, ?_⟩
          rintro x hx y hy rfl
          exact hs (List.mem_singleton.1 hy ▸ m.stack_seen x hx)
        · intro x hx
          rw [Stack.toList_push, List.mem_append, List.mem_singleton] at hx
          exact hx.symm
      · rw [Stack.toList_push, List.mem_append, List.mem_singleton]
        refine or_congr_right ⟨?_, fun h => h.1⟩
        rintro rfl
        exact ⟨rfl, hc, hs⟩
  · have nc : h.isCounted o = false := by
      refine Bool.eq_false_iff.2 fun co => hc ?_
      rw [← m.counted_eq]
      exact (wf'.isCounted_iff (m.known_eq ▸ ho)).1 co
    have none : [o].filter (· ∈ h₀.counted) = [] := by simp [hc]
    refine ⟨t, h, Trace.visit_uncounted nc counted t, ?_, fun x => ?_⟩
    · rw [none]
      simpa using m
    · refine ⟨.inl, fun h => h.resolve_right ?_⟩
      rintro ⟨hx, hc', -⟩
      exact hc (List.mem_singleton.1 hx ▸ hc')

theorem Visited.append {h₁ h' : Heap} {t₁ t' : Trace} {refs₁ refs₂ : List Ref} {counted : Bool}
    (v₁ : Visited h₀ t seen hits refs₁ counted t₁ h₁)
    (v₂ : Visited h₀ t₁ (seen ∪ (refs₁.filter (· ∈ h₀.counted)).toFinset)
      (hits ++ if counted then refs₁.filter (· ∈ h₀.counted) else []) refs₂ counted t' h') :
    Visited h₀ t seen hits (refs₁ ++ refs₂) counted t' h' where
  marking := by
    have m := v₂.marking
    rw [Finset.union_assoc, ← List.toFinset_append, ← List.filter_append, List.append_assoc] at m
    cases counted
    · exact m
    · simpa using m
  stack x := by
    rw [v₂.stack, v₁.stack]
    simp only [Finset.mem_union, List.mem_toFinset, List.mem_filter, List.mem_append,
      decide_eq_true_eq]
    grind

theorem visitAll (wf : h₀.WellFormed) (clean : Unmarked h₀) (counted : Bool) (refs : List Ref)
    (known : ∀ o ∈ refs, o ∈ h₀.known) (m : Marking h₀ h t seen hits) :
    ∃ t' h', refs.foldlM (Trace.visit counted) t h = .ok t' h' ∧
      Visited h₀ t seen hits refs counted t' h' := by
  induction refs generalizing h t seen hits with
  | nil =>
    refine ⟨t, h, rfl, by simpa using m, by simp⟩
  | cons o refs ih =>
    obtain ⟨t₁, h₁, e₁, v₁⟩ := m.visit wf clean (known o List.mem_cons_self) counted
    obtain ⟨t', h', e, v⟩ := ih (fun x hx => known x (List.mem_cons_of_mem _ hx)) v₁.marking
    refine ⟨t', h', ?_, v₁.append v⟩
    rw [List.foldlM_cons, HeapM.bind_of_ok e₁, e]

/-- Visiting the referents of an object. -/
theorem scan (m : Marking h₀ h t seen hits) (wf : h₀.WellFormed) (clean : Unmarked h₀)
    (ho : o ∈ h₀.known) (known : ∀ x ∈ (h₀.view o).referents, x ∈ h₀.known) :
    ∃ t' h', t.scan o h = .ok t' h' ∧
      Visited h₀ t seen hits (h₀.view o).referents true t' h' := by
  have placed : h.memory.Placed o := m.laid.placed o ho
  have referents : (h.view o).referents = (h₀.view o).referents := (m.contents o ho).referents_eq
  obtain ⟨t', h', e, v⟩ := m.visitAll wf clean true _ known
  refine ⟨t', h', ?_, v⟩
  rw [Trace.scan, HeapM.bind_of_ok (HeapM.inspect_of_ok placed.referents_eq)]
  exact referents ▸ e

theorem markPermanent (m : Marking h₀ h t seen hits) (wf : h₀.WellFormed) {p : Ref}
    (hp : p ∈ h₀.permanent.objects) :
    ∃ old h', HeapM.updateHeader p Header.mark h = .ok old h' ∧ Marking h₀ h' t seen hits := by
  have known : p ∈ h.known := m.known_eq ▸ .inr hp
  obtain ⟨h', e, set⟩ := HeapM.updateHeader_eq (m.wellFormed wf) known Header.mark
  have same : ∀ hd : Header, (hd.mark.getD hd).fresh = hd.fresh ∧
      (hd.mark.getD hd).logged = hd.logged ∧ (hd.mark.getD hd).locked = hd.locked := by
    intro hd
    unfold Header.mark
    split <;> simp
  refine ⟨_, h', e, {
    rest := by rw [set.rest, m.rest]
    laid := m.known_eq ▸ set.laid
    seen_counted := m.seen_counted
    marked := m.marked
    stack_seen := m.stack_seen
    stack_nodup := m.stack_nodup
    hits_seen := m.hits_seen
    contents := fun x hx => ?_
    recounted := fun x hx => ?_
    unseen := fun x hx new => ?_
    permanent := fun x hx => ?_ }⟩
  · have c := m.contents x hx
    by_cases eq : x = p
    · subst eq
      obtain ⟨-, logged, locked⟩ := same (h.view x).header
      rw [set.self]
      exact ⟨c.array, c.targets, c.marks, logged.trans c.logged, locked.trans c.locked⟩
    · rwa [set.other x (m.known_eq ▸ hx) eq]
  · have hc := m.seen_counted hx
    rw [set.other x (m.known_eq ▸ .inl hc) (wf.permanent_ne hp hc).symm]
    exact m.recounted x hx
  · rw [set.other x (m.known_eq ▸ .inl hx) (wf.permanent_ne hp hx).symm]
    exact m.unseen x hx new
  · by_cases eq : x = p
    · subst eq
      rw [set.self]
      exact (same _).1.trans (m.permanent x hx)
    · rw [set.other x (m.known_eq ▸ .inr hx) eq]
      exact m.permanent x hx

/-- Visiting the referents of permanent objects. -/
theorem scanPermanents (wf : h₀.WellFormed) (clean : Unmarked h₀) (ps : List Ref)
    (permanent : ∀ p ∈ ps, p ∈ h₀.permanent.objects)
    (known : ∀ p ∈ ps, ∀ x ∈ (h₀.view p).referents, x ∈ h₀.known)
    (m : Marking h₀ h t seen hits) :
    ∃ t' h', ps.foldlM Trace.scanPermanent t h = .ok t' h' ∧
      Visited h₀ t seen hits (ps.flatMap fun p => (h₀.view p).referents) true t' h' := by
  induction ps generalizing h t seen hits with
  | nil => exact ⟨t, h, rfl, by simpa using m, by simp⟩
  | cons p ps ih =>
    have hp := permanent p List.mem_cons_self
    obtain ⟨old, h₁, e₁, m₁⟩ := m.markPermanent wf hp
    obtain ⟨t₂, h₂, e₂, v₂⟩ := m₁.scan wf clean (.inr hp) (known p List.mem_cons_self)
    obtain ⟨t', h', e, v⟩ := ih (fun q hq => permanent q (List.mem_cons_of_mem _ hq))
      (fun q hq => known q (List.mem_cons_of_mem _ hq)) v₂.marking
    refine ⟨t', h', ?_, v₂.append v⟩
    have scanned : Trace.scanPermanent t p h = .ok t₂ h₂ := by
      rw [Trace.scanPermanent, HeapM.bind_of_ok e₁, e₂]
    rw [List.foldlM_cons, HeapM.bind_of_ok scanned, e]

/-- The pools do not matter. -/
theorem withPools (m : Marking h₀ h t seen hits) (pools : Pools) :
    Marking { h₀ with pools } { h with pools } t seen hits :=
  { m with rest := by rw [m.rest] }

end Marking

end DeferredCount
