import DeferredCount.Proofs.Tracing

/-!
# What a sweep leaves

A sweep visits every listed object once. It frees an object without a mark, and clears the mark of
any other one. `Swept` says this of a list of visited objects, so that sweeps of different lists
follow each other.

Results:
1. `HeapM.sweepSmallFrom_eq`, `HeapM.sweepLargeFrom_eq`: the sweeps of both spaces.
2. `Trace.clearMarks_eq`: the marks of permanent objects.
-/

namespace DeferredCount

/-- The header without the mark. -/
def Header.unmark (hd : Header) : Header := { hd with marked := false }

/-- The view of an object without the mark. -/
def ObjectView.unmark (v : ObjectView) : ObjectView := { v with header := v.header.unmark }

/-- The listed objects were visited by a sweep. -/
structure Swept (h : Heap) (visited : List Ref) (h' : Heap) : Prop where
  wellFormed : h'.WellFormed
  frame : h'.frame = h.frame
  pools : h'.pools = h.pools
  shrunk : Shrunk h h'
  mem_counted : ∀ x, x ∈ h'.counted ↔
    x ∈ h.counted ∧ (x ∈ visited → (h.view x).header.marked = true)
  view : ∀ x ∈ h'.known, h'.view x = if x ∈ visited then (h.view x).unmark else h.view x
  keeps : h.KeepsSlots h'

namespace Swept

variable {h h₁ h' : Heap} {o : Ref} {visited visited₁ visited₂ : List Ref}

theorem refl (wf : h.WellFormed) : Swept h [] h :=
  ⟨wf, rfl, rfl, .of_eq rfl rfl, by simp, by simp, .of_memory rfl⟩

theorem permanent_eq (s : Swept h visited h') : h'.permanent = h.permanent := by
  have := congrArg Heap.permanent s.frame
  exact this

theorem known_subset (s : Swept h visited h') : h'.known ⊆ h.known := by
  rintro x (hx | hx)
  · exact .inl ((s.mem_counted x).1 hx).1
  · exact .inr (s.permanent_eq ▸ hx)

theorem trans (s₁ : Swept h visited₁ h₁) (s₂ : Swept h₁ visited₂ h')
    (disjoint : ∀ x ∈ visited₁, x ∉ visited₂) : Swept h (visited₁ ++ visited₂) h' where
  wellFormed := s₂.wellFormed
  frame := s₂.frame.trans s₁.frame
  pools := s₂.pools.trans s₁.pools
  shrunk := s₁.shrunk.trans s₂.shrunk
  mem_counted x := by
    rw [s₂.mem_counted, s₁.mem_counted, List.mem_append, and_assoc]
    refine and_congr_right fun hc => ?_
    by_cases h₁ : x ∈ visited₁
    · simp [h₁, disjoint x h₁]
    · simp only [h₁, false_imp_iff, true_and, false_or]
      refine imp_congr_right fun h₂ => ?_
      rw [s₁.view x (.inl ((s₁.mem_counted x).2 ⟨hc, fun h => absurd h h₁⟩)), if_neg h₁]
  view x hx := by
    rw [s₂.view x hx, s₁.view x (s₂.known_subset hx)]
    by_cases h₁ : x ∈ visited₁
    · simp [h₁, disjoint x h₁]
    · simp [h₁]
  keeps := s₁.keeps.trans s₂.keeps s₁.known_subset

/-- The log does not matter. -/
theorem withLog (s : Swept h visited h') (log : List Event) : Swept h visited { h' with log } :=
  ⟨s.wellFormed.congr rfl rfl rfl s.wellFormed.laid, s.frame, s.pools,
    ⟨s.shrunk.small, s.shrunk.pending, s.shrunk.start, s.shrunk.limit, s.shrunk.cells⟩,
    s.mem_counted, s.view, s.keeps⟩

theorem of_log {log : List Event} (s : Swept { h with log } visited h') : Swept h visited h' :=
  ⟨s.wellFormed, s.frame, s.pools,
    ⟨s.shrunk.small, s.shrunk.pending, s.shrunk.start, s.shrunk.limit, s.shrunk.cells⟩,
    s.mem_counted, s.view, s.keeps⟩

/-- An object is kept, and loses its mark. -/
theorem keep (wf : h.WellFormed) (set : HeaderSet o (h.view o).header.unmark h h')
    (keeps : h.KeepsSlots h')
    (marked : o ∈ h.counted → (h.view o).header.marked = true) : Swept h [o] h' where
  wellFormed := set.wellFormed wf
  frame := by
    rw [set.rest]
    rfl
  pools := by rw [set.rest]
  shrunk := .of_eq (by rw [set.rest]) (by rw [set.rest])
  mem_counted x := by
    rw [set.counted_eq]
    refine ⟨fun hx => ⟨hx, fun h => ?_⟩, And.left⟩
    cases List.mem_singleton.1 h
    exact marked hx
  view x hx := by
    rw [set.known_eq] at hx
    by_cases eq : x = o
    · subst eq
      rw [set.self, if_pos (List.mem_singleton_self x)]
      rfl
    · rw [set.other x hx eq, if_neg (by simpa using eq)]
  keeps := keeps

/-- An object without a mark is freed. -/
theorem free (wf : h.WellFormed) (ho : o ∈ h.counted)
    (set : HeaderSet o (h.view o).header.unmark h h₁) (keeps : h.KeepsSlots h₁) (f : Freed o h₁ h')
    (unmarked : (h.view o).header.marked = false) : Swept h [o] h' where
  wellFormed := f.wellFormed (set.wellFormed wf)
  frame := by
    rw [f.frame_eq, set.rest]
    rfl
  pools := by rw [f.pools_eq, set.rest]
  shrunk := Shrunk.trans (.of_eq (by rw [set.rest]) (by rw [set.rest]))
    (f.shrunk (set.wellFormed wf))
  mem_counted x := by
    rw [f.mem_counted (set.wellFormed wf), set.counted_eq]
    refine and_congr_right fun _ => ⟨fun ne h => absurd (List.mem_singleton.1 h) ne, ?_⟩
    rintro h rfl
    rw [h (List.mem_singleton_self x)] at unmarked
    cases unmarked
  view x hx := by
    have ne : x ≠ o := f.ne_of_known (set.wellFormed wf) (set.counted_eq ▸ ho) hx
    rw [f.view_eq, set.other x (set.known_eq ▸ f.known_subset (set.wellFormed wf) hx) ne,
      if_neg (by simpa using ne)]
  keeps := keeps.trans (.of_memory f.memory_eq) set.known_eq.subset

end Swept

/-! ## Visiting one object -/

theorem HeapM.clearMark_eq {h : Heap} {o : Ref} (wf : h.WellFormed) (ho : o ∈ h.known) :
    ∃ h', updateHeader o Header.clearMark h =
        .ok ((h.view o).header, (h.view o).header.marked) h' ∧
      HeaderSet o (h.view o).header.unmark h h' ∧ h.KeepsSlots h' := by
  obtain ⟨h', e, set⟩ := updateHeader_eq wf ho Header.clearMark
  have keeps := updateHeader_keepsSlots wf ho e
  have cleared : ∀ hd : Header,
      hd.clearMark.isSome = hd.marked ∧ hd.clearMark.getD hd = hd.unmark := by
    intro hd
    unfold Header.clearMark Header.unmark
    cases m : hd.marked
    · exact ⟨rfl, by cases hd; simp_all⟩
    · exact ⟨rfl, rfl⟩
  obtain ⟨applied, header⟩ := cleared (h.view o).header
  rw [applied] at e
  exact ⟨h', e, header ▸ set, keeps⟩

theorem Trace.selectUnmarked_eq {h : Heap} {o : Ref} (wf : h.WellFormed) (ho : o ∈ h.known) :
    ∃ h', selectUnmarked () o h = .ok (!(h.view o).header.marked, ()) h' ∧
      HeaderSet o (h.view o).header.unmark h h' ∧ h.KeepsSlots h' := by
  obtain ⟨h', e, set⟩ := HeapM.clearMark_eq wf ho
  refine ⟨h', ?_, set⟩
  rw [selectUnmarked, HeapM.bind_of_ok e]
  rfl

namespace Heap

/-- How many of the listed objects have no mark. -/
def unmarkedAmong (h : Heap) (os : List Ref) : Nat :=
  os.countP fun o => !(h.view o).header.marked

end Heap

/-- What is still to be visited has the marks it had. -/
theorem Swept.unmarkedAmong_cons {h h' : Heap} {o : Ref} {os : List Ref} (s : Swept h [o] h')
    (ho : o ∉ os) (known : ∀ x ∈ os, x ∈ h'.known) :
    h.unmarkedAmong (o :: os) = (!(h.view o).header.marked).toNat + h'.unmarkedAmong os := by
  have same : h'.unmarkedAmong os = h.unmarkedAmong os := by
    refine List.countP_congr fun x hx => ?_
    have ne : x ≠ o := fun e => ho (e ▸ hx)
    rw [s.view x (known x hx), if_neg (by simpa using ne)]
  rw [same, Heap.unmarkedAmong, Heap.unmarkedAmong, List.countP_cons, Nat.add_comm]
  cases (h.view o).header.marked <;> rfl

namespace HeapM

variable {h : Heap}

/-! ## The sweep of each space -/

theorem sweepSmallFrom_eq (wf : h.WellFormed) (todo : List Ref)
    (live : ∀ o ∈ todo, o ∈ h.small.liveObjects) (nodup : todo.Nodup) (freed : Nat) :
    ∃ h', sweepSmallFrom Trace.selectUnmarked todo freed () h =
        .ok (freed + h.unmarkedAmong todo, ()) h' ∧
      Swept h todo h' ∧ h'.large = h.large := by
  induction todo generalizing h freed with
  | nil => exact ⟨h, rfl, .refl wf, rfl⟩
  | cons o rest ih =>
    obtain ⟨new, nodup⟩ := List.nodup_cons.1 nodup
    have hl := live o List.mem_cons_self
    have ho : o ∈ h.counted := Heap.mem_counted.2 (.inl hl)
    obtain ⟨h₁, e₁, set, keeps⟩ := Trace.selectUnmarked_eq wf (.inl ho)
    have small : h₁.small = h.small := by rw [set.rest]
    have large : h₁.large = h.large := by rw [set.rest]
    rw [sweepSmallFrom, bind_of_ok e₁]
    cases marked : (h.view o).header.marked with
    | true =>
      have s₁ : Swept h [o] h₁ := .keep wf set keeps fun _ => marked
      have live₁ : ∀ x ∈ rest, x ∈ h₁.small.liveObjects :=
        fun x hx => small ▸ live x (List.mem_cons_of_mem _ hx)
      obtain ⟨h', e, s, large'⟩ := ih s₁.wellFormed live₁ nodup freed
      refine ⟨h', ?_, s₁.trans s (by simpa using new), large'.trans large⟩
      rw [s₁.unmarkedAmong_cons new fun x hx => .inl (Heap.mem_counted.2 (.inl (live₁ x hx))),
        marked, Bool.not_true, Bool.toNat_false, Nat.zero_add]
      exact e
    | false =>
      obtain ⟨h₂, e₂, f, large₂⟩ := freeSmall_eq (set.wellFormed wf) (small ▸ hl)
      have s₁ : Swept h [o] h₂ := .free wf ho set keeps f marked
      have live₂ : ∀ x ∈ rest, x ∈ h₂.small.liveObjects := by
        intro x hx
        have hx' := live x (List.mem_cons_of_mem _ hx)
        have hc := (s₁.mem_counted x).2 ⟨Heap.mem_counted.2 (.inl hx'),
          fun h => absurd (List.mem_singleton.1 h ▸ hx) new⟩
        refine (Heap.mem_counted.1 hc).resolve_right fun hl => ?_
        rw [large₂, large] at hl
        exact wf.not_large_of_small (wf.small_holds x hx') (wf.large_holds x hl)
      obtain ⟨h', e, s, large'⟩ := ih s₁.wellFormed live₂ nodup (freed + 1)
      refine ⟨h', ?_, s₁.trans s (by simpa using new), large'.trans (large₂.trans large)⟩
      rw [s₁.unmarkedAmong_cons new fun x hx => .inl (Heap.mem_counted.2 (.inl (live₂ x hx))),
        marked, Bool.not_false, Bool.toNat_true, ← Nat.add_assoc]
      exact (bind_of_ok e₂).trans e

/-- The sweep of the list from some cell on, when the cells before it were visited. -/
theorem sweepLargeFrom_eq (wf : h.WellFormed) (todo kept : List (Address × LargeCell))
    (split : h.large.cells.toList = kept ++ todo) (freed : Nat) :
    ∃ h', sweepLargeFrom Trace.selectUnmarked todo.length (CellList.headCell todo) freed () h =
        .ok (freed + h.unmarkedAmong (todo.map fun c => c.2.object), ()) h' ∧
      Swept h (todo.map fun c => c.2.object) h' := by
  induction todo generalizing h kept freed with
  | nil => exact ⟨h, rfl, .refl wf⟩
  | cons c rest ih =>
    have hc : c ∈ h.large.cells.toList := split ▸ by simp
    have listed : ∀ d ∈ rest, d.2.object ∈ h.large.objects :=
      fun d hd => List.mem_map_of_mem (split ▸ by simp [hd])
    have new : c.2.object ∉ rest.map fun d => d.2.object := by
      have nodup := (List.nodup_append.1 wf.nodup_objects).2.1
      rw [LargeSpace.objects, split, List.map_append, List.map_cons, List.nodup_append] at nodup
      exact (List.nodup_cons.1 nodup.2.1).1
    have ho : c.2.object ∈ h.counted := Heap.mem_counted.2 (.inr (List.mem_map_of_mem hc))
    have next : h.large.cells.next? c.1 = CellList.headCell rest := wf.cells.next?_eq split
    have found : h.large.cells.get? c.1 = some c.2 := wf.cells.get?_eq hc
    obtain ⟨h₁, e₁, set, keeps⟩ := Trace.selectUnmarked_eq wf (.inl ho)
    have large : h₁.large = h.large := by rw [set.rest]
    rw [List.length_cons, CellList.headCell_cons, sweepLargeFrom, get_bind_apply]
    simp only [found, next]
    rw [bind_of_ok e₁]
    cases marked : (h.view c.2.object).header.marked with
    | true =>
      have s₁ := (Swept.keep wf set keeps fun _ => marked).withLog
        (.largeRetained c.2.object :: h₁.log)
      have listed₁ : ∀ d ∈ rest, d.2.object ∈ h₁.large.objects := fun d hd => large ▸ listed d hd
      obtain ⟨h', e, s⟩ := ih s₁.wellFormed (kept ++ [c]) (by simp [large, split]) freed
      refine ⟨h', ?_, s₁.trans s (by simpa using new)⟩
      rw [List.map_cons, s₁.unmarkedAmong_cons new (by
          rintro x hx
          obtain ⟨d, hd, rfl⟩ := List.mem_map.1 hx
          exact .inl (Heap.mem_counted.2 (.inr (listed₁ d hd)))),
        marked, Bool.not_true, Bool.toNat_false, Nat.zero_add]
      exact e
    | false =>
      obtain ⟨h₂, e₂, f, r, -⟩ := freeLarge_eq (set.wellFormed wf) (large ▸ split)
      have s₁ : Swept h [c.2.object] h₂ := .free wf ho set keeps f marked
      have listed₂ : ∀ d ∈ rest, d.2.object ∈ h₂.large.objects := by
        intro d hd
        rw [LargeSpace.objects, r.toList_eq]
        exact List.mem_map_of_mem (by simp [hd])
      obtain ⟨h', e, s⟩ := ih s₁.wellFormed kept r.toList_eq (freed + 1)
      refine ⟨h', ?_, s₁.trans s (by simpa using new)⟩
      rw [List.map_cons, s₁.unmarkedAmong_cons new (by
          rintro x hx
          obtain ⟨d, hd, rfl⟩ := List.mem_map.1 hx
          exact .inl (Heap.mem_counted.2 (.inr (listed₂ d hd)))),
        marked, Bool.not_false, Bool.toNat_true, ← Nat.add_assoc]
      exact (bind_of_ok e₂).trans e

theorem sweepSmall_eq (wf : h.WellFormed) :
    ∃ h', sweepSmall Trace.selectUnmarked () h = .ok (h.unmarkedAmong h.small.liveObjects, ()) h' ∧
      Swept h h.small.liveObjects h' ∧ h'.large = h.large := by
  obtain ⟨h', e, s, large⟩ :=
    sweepSmallFrom_eq wf h.small.liveObjects (fun _ h => h) (Heap.nodup_liveObjects _) 0
  rw [Nat.zero_add] at e
  refine ⟨_, ?_, s.withLog (.smallSwept (h.unmarkedAmong h.small.liveObjects) :: h'.log), large⟩
  rw [sweepSmall, get_bind_apply, bind_of_ok e]
  rfl

theorem sweepLarge_eq (wf : h.WellFormed) :
    ∃ h', sweepLarge Trace.selectUnmarked () h = .ok (h.unmarkedAmong h.large.objects, ()) h' ∧
      Swept h h.large.objects h' := by
  obtain ⟨h', e, s⟩ := sweepLargeFrom_eq wf h.large.cells.toList [] rfl 0
  rw [Nat.zero_add, ← wf.cells.size, ← wf.cells.head] at e
  refine ⟨_, ?_, s.withLog (.largeSwept (h.unmarkedAmong h.large.objects) :: h'.log)⟩
  rw [sweepLarge, get_bind_apply]
  simp only
  rw [bind_of_ok e]
  rfl

end HeapM

/-- The marks of permanent objects are cleared. -/
theorem Trace.clearMarks_eq {h : Heap} (wf : h.WellFormed) (ps : List Ref) (nodup : ps.Nodup)
    (permanent : ∀ p ∈ ps, p ∈ h.permanent.objects) :
    ∃ h', (forIn ps PUnit.unit fun p _ => do
        clearMark p
        pure (ForInStep.yield PUnit.unit) : HeapM PUnit) h = .ok ⟨⟩ h' ∧ Swept h ps h' := by
  induction ps generalizing h with
  | nil => exact ⟨h, rfl, .refl wf⟩
  | cons p ps ih =>
    obtain ⟨new, nodup⟩ := List.nodup_cons.1 nodup
    have hp := permanent p List.mem_cons_self
    obtain ⟨h₁, e₁, set, keeps⟩ := HeapM.clearMark_eq wf (.inr hp)
    have s₁ : Swept h [p] h₁ := .keep wf set keeps fun hc => absurd rfl (wf.permanent_ne hp hc)
    obtain ⟨h', e, s⟩ := ih s₁.wellFormed nodup fun q hq =>
      s₁.permanent_eq ▸ permanent q (List.mem_cons_of_mem _ hq)
    refine ⟨h', ?_, s₁.trans s (by simpa using new)⟩
    have cleared : clearMark p h = .ok () h₁ := by
      rw [clearMark, HeapM.bind_of_ok e₁]
      rfl
    rw [HeapM.forIn_cons_of_ok cleared]
    exact e

end DeferredCount
