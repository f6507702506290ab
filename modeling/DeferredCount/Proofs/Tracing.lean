import DeferredCount.Proofs.Marking

/-!
# What a trace marks

A trace starts from the referents of permanent objects, from the roots and from the queued roots,
and goes on from every marked object. `Heap.Reaches` is this as a relation. An object that is marked
and not on the stack was scanned: its referents are marked, and its references are counted. When the
stack is empty, the marked objects are those that can be reached.

Results:
1. `Tracing.step`: what scanning one object keeps.
2. `Tracing.drainIn`: the stack becomes empty.
3. `Trace.markAll_eq`: which objects are marked in the end, and their counts.
-/

namespace DeferredCount

namespace Heap

/-- The references in the slots of permanent objects. -/
def permanentReferents (h : Heap) : List Ref :=
  h.permanent.objects.toList.flatMap fun p => (h.view p).referents

/-- A counted object that one gets to from some references through any number of slots. -/
inductive Reaches (h : Heap) (starts : List Ref) : Ref → Prop
  | start {o : Ref} : o ∈ starts → o ∈ h.counted → Reaches h starts o
  | slot {x o : Ref} : Reaches h starts x → o ∈ (h.view x).referents → o ∈ h.counted →
    Reaches h starts o

/-- How many slots of a set of objects refer to `o`. -/
def references (h : Heap) (S : Finset Ref) (o : Ref) : Nat := ∑ x ∈ S, (h.view x).references o

end Heap

/-- A trace is under way in a heap `h₀` from the references `starts`, of which `base` are
counted. -/
structure Tracing (h₀ : Heap) (starts base : List Ref) (h : Heap) (t : Trace) (seen : Finset Ref)
    (hits : List Ref) : Prop where
  marking : Marking h₀ h t seen hits
  sound : ∀ x ∈ seen, h₀.Reaches starts x
  starts_seen : ∀ x ∈ starts, x ∈ h₀.counted → x ∈ seen
  closed : ∀ y ∈ seen, y ∉ t.stack.toList →
    ∀ x ∈ (h₀.view y).referents, x ∈ h₀.counted → x ∈ seen
  hits_eq : ∀ x ∈ h₀.counted,
    hits.count x = base.count x + h₀.references (seen \ t.stack.toList.toFinset) x

/-- The references of a heap lead to its objects. -/
structure Heap.Traceable (h : Heap) : Prop where
  wellFormed : h.WellFormed
  unmarked : Marking.Unmarked h
  slots_known : ∀ x ∈ h.known, ∀ o ∈ (h.view x).referents, o ∈ h.known

namespace Tracing

variable {h₀ h : Heap} {starts base : List Ref} {t : Trace} {seen : Finset Ref} {hits : List Ref}

theorem pop_marking (m : Marking h₀ h t seen hits) {o : Ref} {stack : Stack Ref}
    (pop : t.stack.pop = some (o, stack)) : Marking h₀ h { t with stack } seen hits := by
  have split := Stack.toList_pop pop
  exact { m with
    stack_seen := fun x hx => m.stack_seen x (split ▸ List.mem_append_left _ hx)
    stack_nodup := m.stack_nodup.sublist (split ▸ List.sublist_append_left ..) }

/-- An object is taken off the stack and scanned. -/
theorem step (r : Tracing h₀ starts base h t seen hits) (ok : h₀.Traceable) {o : Ref}
    {stack : Stack Ref} (pop : t.stack.pop = some (o, stack)) :
    ∃ t' h' seen' hits', Trace.scan { t with stack } o h = .ok t' h' ∧
      Tracing h₀ starts base h' t' seen' hits' ∧ o ∈ seen ∧ o ∈ t.stack.toList ∧
      seen' \ t'.stack.toList.toFinset = insert o (seen \ t.stack.toList.toFinset) := by
  have split := Stack.toList_pop pop
  have on_stack : o ∈ t.stack.toList := by simp [split]
  have ho := r.marking.stack_seen o on_stack
  have off : o ∉ stack.toList := by
    have := r.marking.stack_nodup
    rw [split, List.nodup_append] at this
    exact fun h => this.2.2 o h o (by simp) rfl
  have ho₀ := r.marking.seen_counted ho
  obtain ⟨t', h', e, v⟩ := (pop_marking r.marking pop).scan ok.wellFormed ok.unmarked
    (.inl ho₀) (ok.slots_known o (.inl ho₀))
  have scanned : (seen ∪ ((h₀.view o).referents.filter (· ∈ h₀.counted)).toFinset) \
      t'.stack.toList.toFinset = insert o (seen \ t.stack.toList.toFinset) := by
    ext x
    have := v.stack x
    simp only [Finset.mem_sdiff, Finset.mem_union, Finset.mem_insert, List.mem_toFinset,
      List.mem_filter, decide_eq_true_eq, split, List.mem_append, List.mem_singleton] at this ⊢
    grind
  refine ⟨t', h', seen ∪ ((h₀.view o).referents.filter (· ∈ h₀.counted)).toFinset,
    hits ++ (h₀.view o).referents.filter (· ∈ h₀.counted), e, ?_, ho, on_stack, scanned⟩
  exact {
    marking := v.marking
    sound := fun x hx => by
      rcases Finset.mem_union.1 hx with hx | hx
      · exact r.sound x hx
      · obtain ⟨hx, hc⟩ := List.mem_filter.1 (List.mem_toFinset.1 hx)
        exact .slot (r.sound o ho) hx (by simpa using hc)
    starts_seen := fun x hx hc => Finset.mem_union_left _ (r.starts_seen x hx hc)
    closed := fun y hy off_y x hx hc => by
      have hy : y ∈ insert o (seen \ t.stack.toList.toFinset) := by
        rw [← scanned]
        simpa using ⟨by simpa using hy, off_y⟩
      rcases Finset.mem_insert.1 hy with rfl | hy
      · refine Finset.mem_union_right _ (List.mem_toFinset.2 (List.mem_filter.2 ⟨hx, ?_⟩))
        simpa using hc
      · obtain ⟨hy, off_y⟩ := Finset.mem_sdiff.1 hy
        exact Finset.mem_union_left _ (r.closed y hy (by simpa using off_y) x hx hc)
    hits_eq := fun x hx => by
      have new : o ∉ seen \ t.stack.toList.toFinset := by simp [on_stack]
      rw [scanned, Heap.references, Finset.sum_insert new, List.count_append, r.hits_eq x hx,
        List.count_filter (by simpa using hx), ObjectView.count_referents,
        Heap.references]
      omega }

theorem drainIn (ok : h₀.Traceable) (k : Nat) (r : Tracing h₀ starts base h t seen hits)
    (enough : (h₀.counted \ (seen \ t.stack.toList.toFinset)).card < k) :
    ∃ t' h' seen' hits', Trace.drainIn k t h = .ok t' h' ∧
      Tracing h₀ starts base h' t' seen' hits' ∧ t'.stack.toList = [] := by
  induction k generalizing h t seen hits with
  | zero => exact absurd enough (Nat.not_lt_zero _)
  | succ k ih =>
    cases pop : t.stack.pop with
    | none =>
      refine ⟨t, h, seen, hits, ?_, r, Stack.pop_eq_none.1 pop⟩
      rw [Trace.drainIn, pop]
      rfl
    | some top =>
      obtain ⟨o, stack⟩ := top
      obtain ⟨t₁, h₁, seen₁, hits₁, e₁, r₁, ho, on_stack, scanned⟩ := r.step ok pop
      have new : o ∈ h₀.counted \ (seen \ t.stack.toList.toFinset) := by
        simp [r.marking.seen_counted ho, on_stack]
      have fewer : (h₀.counted \ (seen₁ \ t₁.stack.toList.toFinset)).card < k := by
        have := Finset.card_erase_lt_of_mem new
        rw [scanned, Finset.sdiff_insert]
        omega
      obtain ⟨t', h', seen', hits', e, r', empty⟩ := ih r₁ fewer
      refine ⟨t', h', seen', hits', ?_, r', empty⟩
      rw [Trace.drainIn, pop]
      exact (HeapM.bind_of_ok e₁).trans e

/-- The trace when its starting points were visited. All that was marked is on the stack. -/
theorem of_visited {t₁ t' : Trace} {h' : Heap} {queued : List Ref}
    (v₁ : Marking.Visited h₀ {} ∅ [] base true t₁ h)
    (v₂ : Marking.Visited h₀ t₁ (∅ ∪ (base.filter (· ∈ h₀.counted)).toFinset)
      ([] ++ base.filter (· ∈ h₀.counted)) queued false t' h') :
    ∃ seen hits, Tracing h₀ (base ++ queued) base h' t' seen hits := by
  have stacked : ∀ x ∈ ∅ ∪ (base.filter (· ∈ h₀.counted)).toFinset ∪
      (queued.filter (· ∈ h₀.counted)).toFinset, x ∈ t'.stack.toList := by
    intro x hx
    rw [v₂.stack, v₁.stack]
    simp only [Finset.mem_union, List.mem_toFinset, List.mem_filter, decide_eq_true_eq] at hx ⊢
    grind
  refine ⟨_, _, {
    marking := v₂.marking
    sound := fun x hx => ?_
    starts_seen := fun x hx hc => ?_
    closed := fun y hy off => absurd (stacked y hy) off
    hits_eq := fun x hx => ?_ }⟩
  · simp only [Finset.mem_union, List.mem_toFinset, List.mem_filter, decide_eq_true_eq] at hx
    rcases hx with (hx | hx) | hx
    · exact absurd hx (Finset.notMem_empty x)
    · exact .start (List.mem_append_left _ hx.1) hx.2
    · exact .start (List.mem_append_right _ hx.1) hx.2
  · simp only [Finset.mem_union, List.mem_toFinset, List.mem_filter, decide_eq_true_eq]
    exact (List.mem_append.1 hx).imp (fun hx => .inr ⟨hx, hc⟩) fun hx => ⟨hx, hc⟩
  · rw [Finset.sdiff_eq_empty_iff_subset.2 fun y hy => List.mem_toFinset.2 (stacked y hy)]
    simp [Heap.references, List.count_filter, hx]

/-- When the stack is empty, all that can be reached is marked. -/
theorem mem_seen_iff (r : Tracing h₀ starts base h t seen hits) (empty : t.stack.toList = [])
    {o : Ref} : o ∈ seen ↔ h₀.Reaches starts o := by
  refine ⟨r.sound o, fun reach => ?_⟩
  induction reach with
  | start hs hc => exact r.starts_seen _ hs hc
  | slot _ hx hc ih => exact r.closed _ ih (by simp [empty]) _ hx hc

end Tracing

/-- From more references one gets to more objects, if no slot and no object is missing. -/
theorem Heap.Reaches.mono {h k : Heap} {starts more : List Ref} {o : Ref}
    (r : h.Reaches starts o) (counted : h.counted ⊆ k.counted)
    (referents : ∀ x ∈ h.counted, (h.view x).referents ⊆ (k.view x).referents)
    (sub : ∀ x ∈ starts, x ∈ more) : k.Reaches more o := by
  have both : o ∈ h.counted ∧ k.Reaches more o := by
    induction r with
    | start hs hc => exact ⟨hc, .start (sub _ hs) (counted hc)⟩
    | slot _ hx hc ih => exact ⟨hc, .slot ih.2 (referents _ ih.1 hx) (counted hc)⟩
  exact both.2

theorem Heap.Reaches.withPools {h : Heap} {starts : List Ref} {o : Ref} (pools : Pools) :
    Reaches { h with pools } starts o ↔ h.Reaches starts o :=
  ⟨fun r => r.mono (Finset.Subset.refl _) (fun _ _ => List.Subset.refl _) fun _ hx => hx,
    fun r => r.mono (Finset.Subset.refl _) (fun _ _ => List.Subset.refl _) fun _ hx => hx⟩

namespace Heap

/-- The heap after the queued trace roots were taken. -/
def withoutTraceRoots (h : Heap) : Heap :=
  { h with pools := { h.pools with traceRoots := h.pools.traceRoots.clear } }

/-- The references that a trace counts to begin with. -/
def traceBase (h : Heap) (roots : List Ref) : List Ref := h.permanentReferents ++ roots

/-- The references that a trace starts from. -/
def traceStarts (h : Heap) (roots : List Ref) : List Ref :=
  h.traceBase roots ++ h.pools.traceRoots.entries

end Heap

/-- Marking marks what can be reached and counts the references to it. -/
theorem Trace.markAll_eq {h : Heap} {roots : List Ref} (ok : h.Traceable)
    (roots_known : ∀ o ∈ roots, o ∈ h.known)
    (queued_known : ∀ o ∈ h.pools.traceRoots.entries, o ∈ h.known) :
    ∃ t h' seen hits, markAll roots h = .ok t h' ∧
      Marking h.withoutTraceRoots h' t seen hits ∧
      (∀ o, o ∈ seen ↔ h.Reaches (h.traceStarts roots) o) ∧
      ∀ o ∈ h.counted, hits.count o = (h.traceBase roots).count o + h.references seen o := by
  have start : Marking h h {} ∅ [] := {
    rest := rfl
    laid := ok.wellFormed.laid
    seen_counted := Finset.empty_subset _
    marked := rfl
    stack_seen := fun x hx => absurd hx List.not_mem_nil
    stack_nodup := List.nodup_nil
    hits_seen := fun x hx => absurd hx List.not_mem_nil
    contents := fun x _ => .refl _
    recounted := fun x hx => absurd hx (Finset.notMem_empty x)
    unseen := fun x _ _ => rfl
    permanent := fun x _ => rfl }
  obtain ⟨t₁, h₁, e₁, v₁⟩ := start.scanPermanents ok.wellFormed ok.unmarked
    h.permanent.objects.toList (fun p hp => Array.mem_toList_iff.1 hp)
    fun p hp => ok.slots_known p (.inr (Array.mem_toList_iff.1 hp))
  obtain ⟨t₂, h₂, e₂, v₂⟩ := v₁.marking.visitAll ok.wellFormed ok.unmarked true roots roots_known
  have v := v₁.append v₂
  -- The queued references are visited in a heap that differs in its pools.
  have ok' : h.withoutTraceRoots.Traceable :=
    ⟨ok.wellFormed.congr rfl rfl rfl ok.wellFormed.laid, ok.unmarked, ok.slots_known⟩
  have same : h₂.pools = h.pools := by
    rw [v.marking.rest]
  have v' : Marking.Visited h.withoutTraceRoots {} ∅ [] (h.traceBase roots) true t₂
      h₂.withoutTraceRoots := by
    refine ⟨?_, v.stack⟩
    unfold Heap.withoutTraceRoots
    rw [same]
    exact v.marking.withPools _
  obtain ⟨t₃, h₃, e₃, v₃⟩ := v'.marking.visitAll ok'.wellFormed ok'.unmarked false
    h.pools.traceRoots.entries queued_known
  obtain ⟨seen₃, hits₃, r₃⟩ := Tracing.of_visited v' v₃
  obtain ⟨t, h', seen, hits, e, r, empty⟩ := r₃.drainIn ok'
    (t₃.stack.size + Memory.wordCount + 1) (by
      have := Finset.card_le_card (Finset.sdiff_subset (s := h.withoutTraceRoots.counted)
        (t := seen₃ \ t₃.stack.toList.toFinset))
      have := ok'.wellFormed.card_counted_le
      omega)
  refine ⟨t, h', seen, hits, ?_, r.marking, fun o => ?_, fun o ho => ?_⟩
  · have taken : takeQueued h₂ = .ok h.pools.traceRoots.entries h₂.withoutTraceRoots := by
      rw [← same]
      rfl
    rw [markAll, HeapM.get_bind_apply, HeapM.bind_of_ok e₁, HeapM.bind_of_ok e₂,
      HeapM.bind_of_ok taken, HeapM.bind_of_ok e₃]
    exact e
  · rw [r.mem_seen_iff empty]
    exact Heap.Reaches.withPools _
  · have := r.hits_eq o ho
    rwa [empty, List.toFinset_nil, Finset.sdiff_empty] at this

end DeferredCount
