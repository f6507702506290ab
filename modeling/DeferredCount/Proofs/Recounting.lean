import DeferredCount.Proofs.Sweeping

/-!
# What a backup trace leaves

The two sweeps free the counted objects that marking did not reach. So the objects that can be
reached are left, and each of them has as many counted references as there are slots of permanent
objects and of objects left that refer to it, and reports of it as a root.

Results:
1. `Trace.run_eq`: a trace ends, and what it leaves.
2. `backup_trace_recounts`: the same in terms of reachable objects alone.
-/

namespace DeferredCount

namespace Heap

/-- The permanent objects. -/
def permanents (h : Heap) : Finset Ref := h.permanent.objects.toList.toFinset

theorem mem_permanents {h : Heap} {o : Ref} : o ∈ h.permanents ↔ o ∈ h.permanent.objects := by
  simp [permanents]

/-- Every permanent object is registered once. -/
def RegisteredOnce (h : Heap) : Prop := h.permanent.objects.toList.Nodup

theorem RegisteredOnce.count_permanentReferents {h : Heap} (once : h.RegisteredOnce) (o : Ref) :
    h.permanentReferents.count o = h.references h.permanents o := by
  rw [permanentReferents, List.count_flatMap, references, permanents,
    List.sum_toFinset _ once]
  exact congrArg List.sum (List.map_congr_left fun p _ => ObjectView.count_referents ..)

theorem references_union {h : Heap} (wf : h.WellFormed) {M : Finset Ref} (sub : M ⊆ h.counted)
    (o : Ref) : h.references (h.permanents ∪ M) o =
      h.references h.permanents o + h.references M o := by
  refine Finset.sum_union (Finset.disjoint_left.2 fun p hp hm => ?_)
  exact wf.permanent_ne (mem_permanents.1 hp) (sub hm) rfl

end Heap

/-- A backup trace from `roots` turned `h` into `h'`, which has the counted objects `M`. -/
structure Retraced (h : Heap) (roots : List Ref) (M : Finset Ref) (h' : Heap) : Prop where
  wellFormed : h'.WellFormed
  frame : h'.frame = h.frame
  pools : h'.pools = h.withoutTraceRoots.pools
  shrunk : Shrunk h h'
  subset : M ⊆ h.counted
  counted : h'.counted = M
  contents : ∀ x ∈ h'.known, (h'.view x).SameContents (h.view x)
  targets : ∀ x ∈ h.known, (h'.view x).targets = (h.view x).targets
  unmarked : Marking.Unmarked h'
  fresh : ∀ x ∈ M, (h'.view x).header.fresh = false
  permanent : ∀ x ∈ h'.permanent.objects, (h'.view x).header.fresh = (h.view x).header.fresh
  count : ∀ x ∈ M, h'.count x =
    Header.recount (h.count x) (h.references (h.permanents ∪ M) x + roots.count x)

/-- The counted objects without a mark, by their number. -/
theorem Heap.WellFormed.unmarkedAmong_eq {h : Heap} (wf : h.WellFormed) :
    h.unmarkedAmong h.small.liveObjects + h.unmarkedAmong h.large.objects =
      (h.counted.filter fun o => (h.view o).header.marked = false).card := by
  have same : h.counted.filter (fun o => (h.view o).header.marked = false) =
      ((h.small.liveObjects ++ h.large.objects).filter
        fun o => !(h.view o).header.marked).toFinset := by
    ext o
    simp [Heap.counted, or_and_right]
  rw [same, List.toFinset_card_of_nodup (wf.nodup_objects.filter _), ← List.countP_eq_length_filter,
    List.countP_append]
  rfl

/-- All marks are swept. -/
theorem Trace.sweep_eq {h : Heap} (wf : h.WellFormed) (once : h.RegisteredOnce) :
    ∃ h₁ h₂ h', HeapM.sweepSmall selectUnmarked () h =
        .ok (h.unmarkedAmong h.small.liveObjects, ()) h₁ ∧
      HeapM.sweepLarge selectUnmarked () h₁ = .ok (h.unmarkedAmong h.large.objects, ()) h₂ ∧
      (forIn h₂.permanent.objects PUnit.unit fun o _ => do
        clearMark o
        pure (ForInStep.yield PUnit.unit) : HeapM PUnit) h₂ = .ok ⟨⟩ h' ∧
      Swept h (h.small.liveObjects ++ h.large.objects ++ h.permanent.objects.toList) h' := by
  obtain ⟨h₁, e₁, s₁, large⟩ := HeapM.sweepSmall_eq wf
  obtain ⟨h₂, e₂, s₂⟩ := HeapM.sweepLarge_eq s₁.wellFormed
  rw [large] at s₂
  obtain ⟨-, -, apart⟩ := List.nodup_append.1 wf.nodup_objects
  have s := s₁.trans s₂ fun x hs hl => apart x hs x hl rfl
  obtain ⟨h', e, s'⟩ := clearMarks_eq s₂.wellFormed h₂.permanent.objects.toList
    (s.permanent_eq ▸ once) fun p hp => Array.mem_toList_iff.1 hp
  refine ⟨h₁, h₂, h', e₁, ?_, ?_, ?_⟩
  · have same : h₁.unmarkedAmong h₁.large.objects = h.unmarkedAmong h.large.objects := by
      rw [large]
      refine List.countP_congr fun x hx => ?_
      have left : x ∉ h.small.liveObjects := fun hs => apart x hs x hx rfl
      rw [s₁.view x (.inl (Heap.mem_counted.2 (.inr (large ▸ hx)))), if_neg left]
    rw [← same]
    exact e₂
  · rw [← Array.forIn_toList]
    exact e
  · rw [← s.permanent_eq]
    refine s.trans s' fun x hx hp => ?_
    rw [s.permanent_eq] at hp
    exact wf.permanent_ne (Array.mem_toList_iff.1 hp)
      (List.mem_toFinset.2 hx) rfl

/-- The listed objects of a heap: all that sweeps visit. -/
def Heap.listed (h : Heap) : List Ref :=
  h.small.liveObjects ++ h.large.objects ++ h.permanent.objects.toList

theorem Heap.mem_listed {h : Heap} {o : Ref} : o ∈ h.listed ↔ o ∈ h.known := by
  rw [listed, List.mem_append]
  exact or_congr List.mem_toFinset.symm Array.mem_toList_iff

namespace Marking

variable {h h₁ h' : Heap} {t : Trace} {M : Finset Ref} {hits roots : List Ref}

theorem marked_iff (m : Marking h h₁ t M hits) (clean : Unmarked h) {x : Ref}
    (hx : x ∈ h.counted) : (h₁.view x).header.marked = true ↔ x ∈ M := by
  refine ⟨fun marked => ?_, fun hm => (m.recounted x hm).marked⟩
  by_contra hm
  rw [m.unseen x hx hm, clean x (.inl hx)] at marked
  cases marked

/-- The objects that a sweep frees. -/
theorem unmarked_eq (m : Marking h h₁ t M hits) (clean : Unmarked h) :
    h₁.counted.filter (fun o => (h₁.view o).header.marked = false) = h.counted \ M := by
  ext x
  rw [Finset.mem_filter, Finset.mem_sdiff, m.counted_eq]
  refine and_congr_right fun hx => ?_
  rw [← m.marked_iff clean hx, Bool.not_eq_true]

theorem retraced (m : Marking h.withoutTraceRoots h₁ t M hits) (ok : h.Traceable)
    (once : h.RegisteredOnce) (s : Swept h₁ h₁.listed h')
    (hits_eq : ∀ o ∈ h.counted, hits.count o = (h.traceBase roots).count o + h.references M o) :
    Retraced h roots M h' := by
  have sub : M ⊆ h.counted := m.seen_counted
  have known : h'.known ⊆ h.known := m.known_eq ▸ s.known_subset
  have permanent : h'.permanent = h.permanent := by
    rw [s.permanent_eq, m.rest]
    rfl
  have counted : ∀ x, x ∈ h'.counted ↔ x ∈ M := by
    intro x
    rw [s.mem_counted, m.counted_eq]
    constructor
    · rintro ⟨hx, marked⟩
      exact (m.marked_iff ok.unmarked hx).1 (marked (Heap.mem_listed.2 (m.known_eq ▸ .inl hx)))
    · exact fun hm => ⟨sub hm, fun _ => (m.recounted x hm).marked⟩
  have view : ∀ x ∈ h'.known, h'.view x = (h₁.view x).unmark := by
    intro x hx
    rw [s.view x hx, if_pos (Heap.mem_listed.2 (s.known_subset hx))]
  exact {
    wellFormed := s.wellFormed
    frame := by
      rw [s.frame, m.rest]
      rfl
    pools := by rw [s.pools, m.rest]
    shrunk := Shrunk.trans (.of_eq (by rw [m.rest]; rfl) (by rw [m.rest]; rfl)) s.shrunk
    subset := sub
    counted := Finset.ext counted
    contents := fun x hx => by
      have c := m.contents x (known hx)
      rw [view x hx]
      exact ⟨c.array, c.targets, c.marks, c.logged, c.locked⟩
    targets := fun x hx => by
      have kept := (s.keeps h.known m.known_eq.subset m.laid).2 x hx
      exact kept.trans (m.contents x hx).targets
    unmarked := fun x hx => by
      rw [view x hx]
      rfl
    fresh := fun x hx => by
      rw [view x (.inl ((counted x).2 hx))]
      exact (m.recounted x hx).fresh
    permanent := fun x hx => by
      rw [view x (.inr hx)]
      exact m.permanent x (permanent ▸ hx)
    count := fun x hx => by
      have c := (m.recounted x hx).count
      rw [hits_eq x (sub hx), Heap.traceBase, List.count_append,
        once.count_permanentReferents] at c
      rw [Heap.references_union ok.wellFormed sub, Nat.add_right_comm, Heap.count,
        view x (.inl ((counted x).2 hx))]
      exact c }

end Marking

/-- A trace runs to its end. -/
theorem Trace.run_eq {h : Heap} {roots : List Ref} (ok : h.Traceable) (once : h.RegisteredOnce)
    (roots_known : ∀ o ∈ roots, o ∈ h.known)
    (queued_known : ∀ o ∈ h.pools.traceRoots.entries, o ∈ h.known) :
    ∃ M h', run roots h = .ok ⟨M.card, (h.counted \ M).card⟩ h' ∧
      (∀ o, o ∈ M ↔ h.Reaches (h.traceStarts roots) o) ∧ Retraced h roots M h' := by
  obtain ⟨t, h₁, M, hits, e₁, m, reach, hits_eq⟩ := markAll_eq ok roots_known queued_known
  have wf₁ : h₁.WellFormed :=
    m.wellFormed (ok.wellFormed.congr rfl rfl rfl ok.wellFormed.laid)
  have freed := wf₁.unmarkedAmong_eq
  rw [m.unmarked_eq ok.unmarked] at freed
  -- the number of marked objects is recorded between marking and sweeping
  obtain ⟨h₂, h₃, h', e₂, e₃, e₄, s⟩ :=
    sweep_eq (h := { h₁ with log := .traceMarked t.marked :: h₁.log })
      (wf₁.congr rfl rfl rfl wf₁.laid) (by
        unfold Heap.RegisteredOnce
        rw [m.rest]
        exact once)
  have s : Swept h₁ h₁.listed h' := s.of_log
  have r := m.retraced ok once (s.withLog (.traceFreed (h.counted \ M).card :: h'.log)) hits_eq
  refine ⟨M, _, ?_, reach, r⟩
  have freed : h₁.unmarkedAmong h₁.small.liveObjects + h₁.unmarkedAmong h₁.large.objects =
      (h.counted \ M).card := freed
  rw [run, HeapM.bind_of_ok e₁, HeapM.emit_bind_apply, ← freed, ← m.marked]
  exact (HeapM.bind_of_ok e₂).trans ((HeapM.bind_of_ok e₃).trans (HeapM.bind_of_ok e₄))

/-- A backup trace frees exactly the counted objects that cannot be reached from permanent objects,
roots and queued trace roots, and gives every other one the number of references it has, where
queued trace roots do not count. There are as many frees as objects are gone, so each is freed
once. -/
theorem backup_trace_recounts {h : Heap} {roots : List Ref} (ok : h.Traceable)
    (once : h.RegisteredOnce) (roots_known : ∀ o ∈ roots, o ∈ h.known)
    (queued_known : ∀ o ∈ h.pools.traceRoots.entries, o ∈ h.known) :
    ∃ (M : Finset Ref) (h' : Heap),
      (∀ o, o ∈ M ↔
        h.Reaches (h.permanentReferents ++ roots ++ h.pools.traceRoots.entries) o) ∧
      Trace.run roots h = .ok ⟨M.card, (h.counted \ M).card⟩ h' ∧
      h'.counted = M ∧ h'.permanent = h.permanent ∧
      (∀ o ∈ M, h.count o ≠ Header.stuck →
        h'.count o = min Header.stuck (h.references (h.permanents ∪ M) o + roots.count o)) ∧
      (∀ o ∈ M, h.count o = Header.stuck → h'.count o = Header.stuck) ∧
      (∀ o ∈ h'.known, (h'.view o).header.marked = false) ∧
      (∀ o ∈ M, (h'.view o).header.fresh = false) ∧
      h'.pools.traceRoots.entries = [] := by
  obtain ⟨M, h', run, reach, r⟩ := Trace.run_eq ok once roots_known queued_known
  refine ⟨M, h', reach, run, r.counted, ?_, fun o ho ns => ?_, fun o ho st => ?_, r.unmarked,
    r.fresh, ?_⟩
  · have := congrArg Heap.permanent r.frame
    exact this
  · rw [r.count o ho, Header.recount, if_neg ns]
  · rw [r.count o ho, Header.recount, if_pos st]
  · rw [r.pools]
    rfl

/-- Three small objects of one slot each. The first two refer to each other, the third one refers to
itself. -/
def Heap.knot : Heap :=
  { Heap.ofSettings {} with
    small := { (Heap.ofSettings {}).small with
      classes := (∅ : Std.ExtTreeMap Address SizeClass compare).insert 0x10000000 1
      live := ((∅ : Std.ExtTreeSet Address compare).insert 0x10000000).insert 0x10000020
        |>.insert 0x10000040 }
    memory :=
      [(0, 256), (1, 2), (2, 0x10000020), (4, 256), (5, 2), (6, 0x10000000), (8, 256), (9, 2),
        (10, 0x10000040)].foldl (fun m w => m.setWord w.1 w.2) Memory.empty }

/-- With the third object as a root, the first two are freed. -/
theorem backup_trace_frees_knot :
    ∃ h', Trace.run [⟨0x10000040⟩, ⟨0x10000040⟩] Heap.knot = .ok ⟨1, 2⟩ h' ∧
      h'.count ⟨0x10000040⟩ = 3 := by
  have wf : Heap.knot.WellFormed :=
    Heap.wellFormed_of_small rfl rfl (by decide +kernel) (by decide +kernel) (by decide +kernel)
  have counted : ∀ x ∈ Heap.knot.known, x ∈ Heap.knot.counted :=
    fun x hx => hx.resolve_right (Array.not_mem_empty x)
  have unmarked : ∀ x ∈ Heap.knot.counted, (Heap.knot.view x).header.marked = false := by
    decide +kernel
  have slots : ∀ x ∈ Heap.knot.counted, ∀ o ∈ (Heap.knot.view x).referents,
      o ∈ Heap.knot.counted := by
    decide +kernel
  have ok : Heap.knot.Traceable := ⟨wf, fun x hx => unmarked x (counted x hx),
    fun x hx o ho => .inl (slots x (counted x hx) o ho)⟩
  obtain ⟨M, h', reach, run, left, -, count, -⟩ := backup_trace_recounts
    ok List.nodup_nil
    (show ∀ o ∈ [(⟨0x10000040⟩ : Ref), ⟨0x10000040⟩], o ∈ Heap.knot.known from
      fun o ho => .inl ((by decide +kernel :
        ∀ o ∈ [(⟨0x10000040⟩ : Ref), ⟨0x10000040⟩], o ∈ Heap.knot.counted) o ho))
    (fun o ho => absurd ho (by
      have : Heap.knot.pools.traceRoots.entries = [] := rfl
      rw [this]
      exact List.not_mem_nil))
  obtain rfl : M = {⟨0x10000040⟩} := by
    ext o
    rw [reach, Finset.mem_singleton]
    constructor
    · intro r
      induction r with
      | start hs _ =>
        have starts : Heap.knot.permanentReferents ++ [⟨0x10000040⟩, ⟨0x10000040⟩] ++
            Heap.knot.pools.traceRoots.entries = [(⟨0x10000040⟩ : Ref), ⟨0x10000040⟩] := rfl
        rw [starts] at hs
        simpa using hs
      | slot _ hx _ ih =>
        have self : (Heap.knot.view ⟨0x10000040⟩).referents = [⟨0x10000040⟩] := by decide +kernel
        rw [ih, self] at hx
        exact List.mem_singleton.1 hx
    · rintro rfl
      exact .start (by simp) (by decide +kernel)
  have freed : (Heap.knot.counted \ {⟨0x10000040⟩}).card = 2 := by decide +kernel
  rw [Finset.card_singleton, freed] at run
  refine ⟨h', run, (count _ (Finset.mem_singleton_self _) (by decide +kernel)).trans ?_⟩
  decide +kernel

end DeferredCount
