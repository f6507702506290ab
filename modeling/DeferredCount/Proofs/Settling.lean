import DeferredCount.Proofs.Draining
import DeferredCount.Proofs.Ledger
import Mathlib.Algebra.BigOperators.Group.Finset.Piecewise

/-!
# What an increment makes of the books

Once all entries are worked off, every log bit and every mark is clear, and a count is the number of
references to its object, with one more for every decrement that is left and every root of the last
increment. Then the decrements free objects without other references, and leave exact counts. In a
cycle collection the counts stay behind, and the backup trace makes them exact.

Results:
1. `Processing.cleared`, `Processing.tallied`: what working off all entries leaves.
2. `Tallied.settled`: the decrements leave exact counts, and no reference to a freed object.
3. `Cleared.retraced`: so does a backup trace.
-/

namespace DeferredCount

/-- Nothing is logged, locked or marked. -/
structure ObjectView.Clean (v : ObjectView) : Prop where
  unmarked : v.header.marked = false
  unlocked : v.header.locked = false
  unlogged : v.header.logged = false
  fields : ∀ i, v.isMarked i = false

/-- No entry is left in a heap. -/
structure Cleared (h : Heap) : Prop where
  wellFormed : h.WellFormed
  once : h.RegisteredOnce
  slots_known : ∀ x ∈ h.known, ∀ o ∈ (h.view x).referents, o ∈ h.known
  clean : ∀ x ∈ h.known, (h.view x).Clean
  permanent : ∀ x ∈ h.permanent.objects, (h.view x).header.fresh = false

/-- The counts of a heap are exact, where `roots` are the roots that were counted. -/
structure Exact (h : Heap) (roots : List Ref) : Prop where
  cleared : Cleared h
  stale : ∀ x ∈ h.counted, (h.view x).header.fresh = false
  roots_known : ∀ x ∈ roots, x ∈ h.known
  count : ∀ o ∈ h.counted, h.count o ≠ Header.stuck →
    h.count o = h.references (h.counted ∪ h.permanents) o + roots.count o

/-- Where the counts are exact, no object is fresh. -/
theorem Exact.stale_of_known {h : Heap} {roots : List Ref} {x : Ref} (exact : Exact h roots)
    (hx : x ∈ h.known) : (h.view x).header.fresh = false := by
  rcases hx with counted | permanent
  · exact exact.stale x counted
  · exact exact.cleared.permanent x permanent

/-- Objects that are closed under decrements are counted ones. -/
theorem Closed.subset {h : Heap} {due : List Ref} {S : Finset Ref} (c : Closed h due S) :
    S ⊆ h.counted ∪ h.permanents :=
  fun _ hx => Finset.mem_union_left _ (Heap.mem_unstuck.1 (c.unstuck hx)).1

/-- Only decrements `due` are left in a heap, and `roots` are the roots that were counted. -/
structure Tallied (h : Heap) (due roots : List Ref) : Prop where
  cleared : Cleared h
  fresh : ∀ x ∈ h.counted, (h.view x).header.fresh = true → h.count x = 1 ∧ x ∈ due
  due_known : ∀ x ∈ due, x ∈ h.known
  roots_known : ∀ x ∈ roots, x ∈ h.known
  balance : ∀ o ∈ h.counted, h.count o ≠ Header.stuck →
    h.count o = h.owed (h.counted ∪ h.permanents) o + due.count o + roots.count o

/-- All references of objects that are not fresh are counted. -/
theorem Heap.owed_stale {h : Heap} {S : Finset Ref}
    (stale : ∀ x ∈ S, (h.view x).header.fresh = false) (o : Ref) :
    h.owed S o = h.references S o :=
  Finset.sum_congr rfl fun x hx => by
    rw [ObjectView.owes, stale x hx]
    exact if_neg (by simp)

/-! ## Working off the entries -/

namespace Processing

variable {cycle : Bool} {h₀ h : Heap} {e : Entries} {base : List Ref} {t : Tally}

theorem mem_objects (p : Processing cycle h₀ e.objects e.fields base h t [] []) {x : Ref} :
    x ∈ t.objects ↔ x ∈ e.objects ∨ x ∈ t.news := by
  have := p.objects.mem_iff (a := x)
  simpa using this

theorem mem_fields (p : Processing cycle h₀ e.objects e.fields base h t [] []) {k : Ticket} :
    k ∈ t.fields ↔ k ∈ e.fields := by
  have := p.fields.mem_iff (a := k)
  simpa using this

theorem targets_eq (p : Processing cycle h₀ e.objects e.fields base h t [] []) {x : Ref}
    (hx : x ∈ h₀.known) : (h.view x).targets = (h₀.view x).targets :=
  (p.counting.view x hx).targets

theorem cleared (p : Processing cycle h₀ e.objects e.fields base h t [] []) (l : Ledger h₀ e) :
    Cleared h where
  wellFormed := p.counting.wellFormed l.wellFormed
  once := by
    rw [Heap.RegisteredOnce, p.counting.permanent_eq]
    exact l.once
  slots_known x hx o ho := by
    rw [p.counting.known_eq] at hx ⊢
    rw [ObjectView.referents, p.targets_eq hx] at ho
    exact l.slots_known x hx o ho
  clean x hx := by
    rw [p.counting.known_eq] at hx
    have a := l.agrees x hx
    have g := p.counting.view x hx
    refine ⟨g.marked.trans a.unmarked, g.locked.trans a.unlocked, ?_, fun i => ?_⟩
    · by_contra logged
      obtain ⟨before, left⟩ := g.logged.1 (by simpa using logged)
      exact left (p.mem_objects.2 (.inl (a.logged.2 before)))
    · by_contra marked
      obtain ⟨before, left⟩ := (g.marks i).1 (by simpa using marked)
      obtain ⟨k, hk, entry⟩ := (a.marks i).1 before
      exact left (.inl ⟨k, p.mem_fields.2 hk, entry⟩)
  permanent x hx := by
    rw [p.counting.permanent_eq] at hx
    by_contra fresh
    have := ((p.counting.view x (.inr hx)).fresh.1 (by simpa using fresh)).1
    rw [l.permanent x hx] at this
    cases this

/-- The references of fresh objects are counted once the objects are. -/
theorem owed_eq (p : Processing cycle h₀ e.objects e.fields base h t [] []) (o : Ref) :
    h.owed (h₀.counted ∪ h₀.permanents) o =
      h₀.owed (h₀.counted ∪ h₀.permanents) o + h₀.covered t.news [] o := by
  have each : ∀ x ∈ h₀.counted ∪ h₀.permanents, (h.view x).owes o =
      (h₀.view x).owes o + if x ∈ t.news.toFinset then (h₀.view x).references o else 0 := by
    intro x hx
    have known := Heap.mem_union_permanents.1 hx
    have g := p.counting.view x known
    simp only [ObjectView.owes, ObjectView.references, g.targets, List.mem_toFinset]
    by_cases new : x ∈ t.news
    · rw [if_neg (fun f => (g.fresh.1 f).2 new), if_pos (p.counting.news_fresh x new).2, if_pos new,
        Nat.zero_add]
    · have same : (h.view x).header.fresh = true ↔ (h₀.view x).header.fresh = true :=
        g.fresh.trans (and_iff_left new)
      simp only [same, new, if_false, Nat.add_zero]
  have sub : t.news.toFinset ⊆ h₀.counted ∪ h₀.permanents := fun x hx =>
    Finset.mem_union_left _ (p.counting.news_fresh x (List.mem_toFinset.1 hx)).1
  rw [Heap.owed, Finset.sum_congr rfl each, Finset.sum_add_distrib, Finset.sum_ite_mem,
    Finset.inter_eq_right.2 sub, List.sum_toFinset _ p.nodup]
  simp [Heap.covered, Heap.owed]

theorem tallied (p : Processing false h₀ e.objects e.fields base h t [] []) (l : Ledger h₀ e)
    (roots_known : ∀ x ∈ base, x ∈ h₀.known) : Tallied h (e.decrements ++ h₀.oldRoots) base where
  cleared := p.cleared l
  fresh x hx fresh := by
    rw [p.counting.counted_eq] at hx
    have g := p.counting.view x (.inl hx)
    obtain ⟨before, unseen⟩ := g.fresh.1 fresh
    obtain ⟨-, one, owed⟩ := (l.agrees x (.inl hx)).fresh before
    refine ⟨?_, List.mem_append_left _ owed⟩
    have unhit : t.hits.count x = 0 :=
      List.count_eq_zero.2 fun hit => unseen (p.counting.mem_news x hit before)
    rw [Heap.count, g.count, one, unhit]
    rfl
  due_known x hx := by
    rw [p.counting.known_eq]
    rcases List.mem_append.1 hx with hx | hx
    · exact l.decrements_known x hx
    · exact l.roots_known x hx
  roots_known := p.counting.known_eq ▸ roots_known
  balance o ho ns := by
    have permanents : h.permanents = h₀.permanents := by
      rw [Heap.permanents, p.counting.permanent_eq, Heap.permanents]
    rw [p.counting.counted_eq] at ho ⊢
    have g := (p.counting.view o (.inl ho)).count
    have hits := p.hits o ho
    rw [if_neg (by simp)] at hits
    have covered : h₀.covered t.objects t.fields o =
        h₀.covered e.objects e.fields o + h₀.covered t.news [] o := by
      have objects : t.objects.Perm (e.objects ++ t.news) := by simpa using p.objects
      have fields : t.fields.Perm (e.fields ++ []) := by simpa using p.fields
      rw [Heap.covered_perm objects fields, Heap.covered_append]
    have owed := p.owed_eq o
    have le := (h₀.view o).header.count_lt
    change h.count o = _ at g
    change (h₀.view o).header.count < 65536 at le
    have before := l.balance o ho (by
      simp only [Heap.count, Header.stuck] at g ns ⊢
      omega)
    rw [permanents, List.count_append]
    simp only [Heap.count, Header.stuck] at g ns before ⊢
    omega

end Processing

/-! ## Working off the decrements -/

/-- What is due to a member of the least closed set makes up its whole count. -/
theorem Payable.count_eq {h : Heap} {due : List Ref} {F : Finset Ref} (pay : Payable h due)
    (least : IsLeast {S | Closed h due S} F) {o : Ref} (ho : o ∈ F) :
    due.count o + h.owed F o = h.count o := by
  -- the members of which this is true are closed, too
  have sub : F ⊆ F.filter fun o => due.count o + h.owed F o = h.count o := by
    refine least.2 ⟨(Finset.filter_subset ..).trans least.1.unstuck, fun o ho pos e => ?_⟩
    have mono := Heap.owed_mono (h := h) (Finset.filter_subset
      (fun o => due.count o + h.owed F o = h.count o) F) o
    have counted := Heap.owed_mono (h := h)
      (fun x hx => (Heap.mem_unstuck.1 (least.1.unstuck hx)).1 : F ⊆ h.counted) o
    have covered := pay.covered o ho
    have whole : due.count o + h.owed F o = h.count o := by omega
    exact Finset.mem_filter.2 ⟨least.1.closed o ho pos whole, whole⟩
  exact (Finset.mem_filter.1 (sub ho)).2

namespace Tallied

variable {h h' : Heap} {due roots freed : List Ref} {F : Finset Ref} {x o : Ref}

theorem payable (t : Tallied h due roots) : Payable h due where
  wellFormed := t.cleared.wellFormed
  slots_known x hx := t.cleared.slots_known x (.inl hx)
  due_known := t.due_known
  covered o ho := by
    obtain ⟨ho, ns⟩ := Heap.mem_unstuck.1 ho
    have := t.balance o ho ns
    have part : h.counted ⊆ h.counted ∪ h.permanents := Finset.subset_union_left
    have := Heap.owed_mono (h := h) part o
    omega

/-- Decrements due and a set of objects make up a count if the object is no root, and no object
outside the set counted a reference to it. -/
theorem spent_iff (t : Tallied h due roots) (ho : o ∈ h.unstuck) {S : Finset Ref}
    (sub : S ⊆ h.counted ∪ h.permanents) : due.count o + h.owed S o = h.count o ↔
      o ∉ roots ∧ ∀ x ∈ h.known, x ∉ S → (h.view x).owes o = 0 := by
  obtain ⟨counted, ns⟩ := Heap.mem_unstuck.1 ho
  have balance := t.balance o counted ns
  have parts : h.owed _ o + h.owed S o = h.owed _ o := Finset.sum_sdiff sub
  have outside : h.owed ((h.counted ∪ h.permanents) \ S) o = 0 ↔
      ∀ x ∈ h.known, x ∉ S → (h.view x).owes o = 0 := by
    simp only [Heap.owed, Finset.sum_eq_zero_iff, Finset.mem_sdiff, Heap.mem_union_permanents,
      and_imp]
  rw [← outside, ← List.count_eq_zero]
  omega

/-- A fresh object that was not counted is freed. -/
theorem fresh_mem (t : Tallied h due roots) (closed : Closed h due F) (hx : x ∈ h.counted)
    (fresh : (h.view x).header.fresh = true) : x ∈ F := by
  obtain ⟨one, owed⟩ := t.fresh x hx fresh
  have ns : h.count x ≠ Header.stuck := by
    rw [one]
    decide
  have balance := t.balance x hx ns
  have pos := List.count_pos_iff.2 owed
  have mono := Heap.owed_mono (h := h) closed.subset x
  exact closed.closed x (Heap.mem_unstuck.2 ⟨hx, ns⟩) (by omega) (by omega)

/-- An object that is left is not fresh. -/
theorem stale_left (t : Tallied h due roots) (closed : Closed h due F) (hx : x ∈ h.known)
    (left : x ∉ F) : (h.view x).header.fresh = false := by
  by_contra fresh
  have fresh : (h.view x).header.fresh = true := by simpa using fresh
  rcases hx with hx | hx
  · exact left (t.fresh_mem closed hx fresh)
  · rw [t.cleared.permanent x hx] at fresh
    cases fresh

/-- No root is freed, and no object that is left refers to a freed one. -/
theorem apart (t : Tallied h due roots) (least : IsLeast {S | Closed h due S} F) (ho : o ∈ F) :
    o ∉ roots ∧ ∀ x ∈ h.known, x ∉ F → o ∉ (h.view x).referents := by
  obtain ⟨unrooted, outside⟩ := (t.spent_iff (least.1.unstuck ho) least.1.subset).1
    (t.payable.count_eq least ho)
  refine ⟨unrooted, fun x hx left refers => ?_⟩
  exact ObjectView.owes_ne_zero.2 ⟨t.stale_left least.1 hx left, refers⟩ (outside x hx left)

/-! ### What is left -/

theorem known_left (t : Tallied h due roots) (u : Underway h due h' [] freed) :
    x ∈ h'.known ↔ x ∈ h.known ∧ x ∉ freed.toFinset := by
  have counted : x ∈ h'.counted ↔ x ∈ h.counted ∧ x ∉ freed.toFinset := by
    rw [u.settled.counted, Finset.mem_sdiff]
  rw [Heap.known, Heap.known, u.permanent_eq]
  constructor
  · rintro (hx | hx)
    · exact ⟨.inl (counted.1 hx).1, (counted.1 hx).2⟩
    · refine ⟨.inr hx, fun gone => ?_⟩
      exact t.cleared.wellFormed.permanent_ne hx (u.freed_subset gone) rfl
  · rintro ⟨hx | hx, left⟩
    · exact .inl (counted.2 ⟨hx, left⟩)
    · exact .inr hx

theorem stale (t : Tallied h due roots) (u : Underway h due h' [] freed) (hx : x ∈ h'.known) :
    (h'.view x).header.fresh = false := by
  obtain ⟨known, left⟩ := (t.known_left u).1 hx
  rw [(u.settled.same x hx).flags.fresh]
  exact t.stale_left u.isLeast.1 known left

/-- The references from freed objects are taken back, and all others are left. -/
theorem owed_eq (t : Tallied h due roots) (u : Underway h due h' [] freed) (o : Ref) :
    h.owed (h.counted ∪ h.permanents) o =
      h'.references (h'.counted ∪ h'.permanents) o + h.owed freed.toFinset o := by
  have permanents : h'.permanents = h.permanents := by
    rw [Heap.permanents, u.permanent_eq, Heap.permanents]
  have disjoint : Disjoint (h'.counted ∪ h'.permanents) freed.toFinset := by
    rw [Finset.disjoint_left]
    exact fun x hx => ((t.known_left u).1 (Heap.mem_union_permanents.1 hx)).2
  have union : h.counted ∪ h.permanents = h'.counted ∪ h'.permanents ∪ freed.toFinset := by
    rw [u.settled.counted, permanents, Finset.union_right_comm,
      Finset.sdiff_union_of_subset u.freed_subset]
  have same : h'.references (h'.counted ∪ h'.permanents) o =
      h.owed (h'.counted ∪ h'.permanents) o := by
    rw [← Heap.owed_stale fun x hx => t.stale u (Heap.mem_union_permanents.1 hx)]
    exact Finset.sum_congr rfl fun x hx =>
      (u.settled.same x (Heap.mem_union_permanents.1 hx)).owes_eq o
  rw [union, same]
  exact Finset.sum_union disjoint

theorem cleared_left (t : Tallied h due roots) (u : Underway h due h' [] freed) : Cleared h' where
  wellFormed := u.wellFormed
  once := by
    rw [Heap.RegisteredOnce, u.permanent_eq]
    exact t.cleared.once
  slots_known x hx o ho := by
    rw [ObjectView.referents, (u.settled.same x hx).targets] at ho
    obtain ⟨hx, left⟩ := (t.known_left u).1 hx
    exact (t.known_left u).2 ⟨t.cleared.slots_known x hx o ho,
      fun gone => (t.apart u.isLeast gone).2 x hx left ho⟩
  clean x hx := by
    have same := u.settled.same x hx
    have c := t.cleared.clean x ((t.known_left u).1 hx).1
    exact ⟨same.flags.marked.trans c.unmarked, same.flags.locked.trans c.unlocked,
      same.flags.logged.trans c.unlogged, fun i => by
        rw [ObjectView.isMarked, same.marks]
        exact c.fields i⟩
  permanent x hx := t.stale u (.inr hx)

/-- The decrements leave exact counts. -/
theorem settled (t : Tallied h due roots) (u : Underway h due h' [] freed) : Exact h' roots where
  cleared := t.cleared_left u
  stale x hx := t.stale u (.inl hx)
  roots_known x hx :=
    (t.known_left u).2 ⟨t.roots_known x hx, fun gone => (t.apart u.isLeast gone).1 hx⟩
  count o ho ns := by
    have ns₀ : h.count o ≠ Header.stuck := fun st => ns (u.settled.stuck o ho st)
    have ho₀ : o ∈ h.counted := ((u.mem_counted o).1 ho).1
    have paid := u.settled.count o ho ns₀
    have balance := t.balance o ho₀ ns₀
    have owed := t.owed_eq u o
    omega

end Tallied

/-! ## Retracing -/

namespace Retraced

variable {h h' : Heap} {roots : List Ref} {M : Finset Ref} {x o : Ref}

theorem permanent_eq (r : Retraced h roots M h') : h'.permanent = h.permanent := by
  have := congrArg Heap.permanent r.frame
  exact this

theorem permanents_eq (r : Retraced h roots M h') : h'.permanents = h.permanents := by
  rw [Heap.permanents, r.permanent_eq, Heap.permanents]

theorem known (r : Retraced h roots M h') (hx : x ∈ h'.known) : x ∈ h.known := by
  rcases hx with hx | hx
  · exact .inl (r.subset (r.counted ▸ hx))
  · exact .inr (r.permanent_eq ▸ hx)

/-- What the trace reached is left. -/
theorem known_of_reaches (r : Retraced h roots M h')
    (reach : ∀ o, o ∈ M ↔ h.Reaches (h.traceStarts roots) o) (ho : o ∈ h.known)
    (reaches : o ∈ h.counted → h.Reaches (h.traceStarts roots) o) : o ∈ h'.known := by
  rcases ho with ho | ho
  · refine .inl ?_
    rw [r.counted, reach]
    exact reaches ho
  · exact .inr (r.permanent_eq ▸ ho)

theorem stale (r : Retraced h roots M h') (c : Cleared h) (hx : x ∈ h'.known) :
    (h'.view x).header.fresh = false := by
  rcases hx with hx | hx
  · exact r.fresh x (r.counted ▸ hx)
  · rw [r.permanent x hx]
    exact c.permanent x (r.permanent_eq ▸ hx)

/-- The references from what is left are those that were recounted. -/
theorem references_eq (r : Retraced h roots M h') (o : Ref) :
    h'.references (h'.counted ∪ h'.permanents) o = h.references (h.permanents ∪ M) o := by
  have left : h'.counted ∪ h'.permanents = h.permanents ∪ M := by
    rw [r.counted, r.permanents_eq, Finset.union_comm]
  rw [← left]
  refine Finset.sum_congr rfl fun x hx => ?_
  rw [ObjectView.references, ObjectView.references,
    (r.contents x (Heap.mem_union_permanents.1 hx)).targets]

theorem mem_traceStarts :
    o ∈ h.traceStarts roots ↔
      o ∈ h.permanentReferents ∨ o ∈ roots ∨ o ∈ h.pools.traceRoots.entries := by
  simp [Heap.traceStarts, Heap.traceBase]

end Retraced

/-- A backup trace leaves the heap as it is between two collections. -/
theorem Cleared.of_retraced {h h' : Heap} {roots : List Ref} {M : Finset Ref} (c : Cleared h)
    (r : Retraced h roots M h') (reach : ∀ o, o ∈ M ↔ h.Reaches (h.traceStarts roots) o) :
    Cleared h' where
  wellFormed := r.wellFormed
  once := by
    rw [Heap.RegisteredOnce, r.permanent_eq]
    exact c.once
  slots_known x hx o ho := by
    rw [(r.contents x hx).referents_eq] at ho
    refine r.known_of_reaches reach (c.slots_known x (r.known hx) o ho) fun counted => ?_
    rcases hx with hx | hx
    · exact .slot ((reach x).1 (r.counted ▸ hx)) ho counted
    · refine .start (Retraced.mem_traceStarts.2 (.inl ?_)) counted
      exact List.mem_flatMap.2 ⟨x, Array.mem_toList_iff.2 (r.permanent_eq ▸ hx), ho⟩
  clean x hx := by
    have same := r.contents x hx
    have clean := c.clean x (r.known hx)
    exact ⟨r.unmarked x hx, same.locked.trans clean.unlocked,
      same.logged.trans clean.unlogged, fun i => by
        rw [ObjectView.isMarked, same.marks]
        exact clean.fields i⟩
  permanent x hx := r.stale c (.inr hx)

/-- A backup trace leaves exact counts. -/
theorem Cleared.retraced {h h' : Heap} {roots : List Ref} {M : Finset Ref} (c : Cleared h)
    (r : Retraced h roots M h') (reach : ∀ o, o ∈ M ↔ h.Reaches (h.traceStarts roots) o)
    (roots_known : ∀ x ∈ roots, x ∈ h.known) : Exact h' roots where
  cleared := c.of_retraced r reach
  stale x hx := r.stale c (.inl hx)
  roots_known x hx := r.known_of_reaches reach (roots_known x hx) fun counted =>
    .start (Retraced.mem_traceStarts.2 (.inr (.inl hx))) counted
  count o ho ns := by
    have count := r.count o (r.counted ▸ ho)
    rw [r.references_eq]
    unfold Header.recount at count
    split at count
    · exact absurd count ns
    · omega

/-- Exact counts are the books of a heap without entries. -/
theorem Exact.ledger {h : Heap} (x : Exact h h.oldRoots) : Ledger h {} where
  wellFormed := x.cleared.wellFormed
  once := x.cleared.once
  slots_known := x.cleared.slots_known
  agrees y hy := by
    have c := x.cleared.clean y hy
    exact {
      unmarked := c.unmarked
      unlocked := c.unlocked
      logged := by simp [c.unlogged]
      marks := fun i => by simp [c.fields i]
      fields := fun k hk => absurd hk List.not_mem_nil
      fresh := fun fresh => by
        have stale := hy.elim (x.stale y) (x.cleared.permanent y)
        rw [fresh] at stale
        cases stale }
  permanent := x.cleared.permanent
  objects_known y hy := absurd hy List.not_mem_nil
  objects_nodup := .nil
  fields_known k hk := absurd hk List.not_mem_nil
  fields_nodup := .nil
  decrements_known y hy := absurd hy List.not_mem_nil
  roots_known := x.roots_known
  balance o ho ns := by
    rw [x.count o ho ns, Heap.owed_stale fun y hy =>
      (Heap.mem_union_permanents.1 hy).elim (x.stale y) (x.cleared.permanent y)]
    rfl

end DeferredCount
