import DeferredCount.Proofs.Pages
import Mathlib.Algebra.Order.BigOperators.Group.List
import Mathlib.Order.Bounds.Basic
import Mathlib.Order.Interval.Finset.Nat

/-!
# The gaps between runs

What a page pool keeps is determined by the runs that it has handed out, in whatever order they were
taken and given back. The cursor is the end of the highest of them, and the free runs are the gaps
that they leave below the cursor. So a request is refused only if there are too few adjacent pages
anywhere in the range.

Results:
1. `Canonical.mem_free`: the free runs are the gaps.
2. `Canonical.release_eq`: a run that was handed out can be given back.
3. `Canonical.acquire_eq`, `Canonical.not_hasRoom`: which pages a request gets, and when it is
   refused.
4. `pools_show_their_leases`: the state of a pool at any point of its history.
-/

namespace DeferredCount

namespace PageRun

variable {r s : PageRun} {a : Address}

/-- Does the address lie in the run? -/
def Covers (r : PageRun) (a : Address) : Prop := r.start ≤ a ∧ a < r.stop

theorem start_lt_stop (pos : 0 < r.pages) : r.start < r.stop :=
  Nat.lt_add_of_pos_right (Nat.mul_pos pos (by decide))

theorem covers_start (pos : 0 < r.pages) : r.Covers r.start :=
  ⟨Nat.le_refl _, start_lt_stop pos⟩

/-- An address lies in one of two runs that do not meet. -/
theorem Disjoint.not_covers (apart : r.Disjoint s) (hr : r.Covers a) : ¬ s.Covers a := by
  intro hs
  rcases apart with le | le
  · exact absurd (Nat.lt_of_lt_of_le hr.2 (Nat.le_trans le hs.1)) (Nat.lt_irrefl a)
  · exact absurd (Nat.lt_of_lt_of_le hs.2 (Nat.le_trans le hr.1)) (Nat.lt_irrefl a)

/-- A run that starts before another one ends lies below it. -/
theorem Disjoint.le_of_lt (apart : r.Disjoint s) (lt : r.start < s.stop) : r.stop ≤ s.start :=
  apart.resolve_right (Nat.not_le_of_lt lt)

/-- What two neighbours cover, the run they make covers. -/
theorem covers_join {m n : Nat} {x : Address} :
    Covers ⟨a, n + m⟩ x ↔ Covers ⟨a, m⟩ x ∨ Covers ⟨a + m * 4096, n⟩ x := by
  unfold Covers
  rw [stop_mk, stop_mk, stop_mk]
  dsimp only [Address] at *
  constructor <;> intro h <;> omega

/-- The number of pages of all runs. -/
def total (runs : List PageRun) : Nat := (runs.map (·.pages)).sum

end PageRun

/-- Runs between two addresses have no more pages than there is room for. -/
theorem Packed.total_le {lo hi : Nat} {runs : List PageRun} (h : Packed lo hi runs) :
    PageRun.total runs * bytesPerPage ≤ hi - lo := by
  -- the addresses that the runs cover, as many as they have bytes
  have bytes : ∃ S : Finset Nat, S ⊆ Finset.Ico lo hi ∧
      S.card = PageRun.total runs * bytesPerPage ∧ ∀ x ∈ S, ∃ r ∈ runs, r.Covers x := by
    induction runs with
    | nil => exact ⟨∅, Finset.empty_subset _, by simp [PageRun.total], by simp⟩
    | cons r runs ih =>
      obtain ⟨S, sub, card, covered⟩ := ih h.tail
      have w := h.within r List.mem_cons_self
      have apart : Disjoint (Finset.Ico r.start r.stop) S := by
        refine Finset.disjoint_left.2 fun x hx hs => ?_
        obtain ⟨s, hs, covers⟩ := covered x hs
        have disjoint := (List.pairwise_cons.1 h.disjoint).1 s hs
        exact disjoint.not_covers (Finset.mem_Ico.1 hx) covers
      refine ⟨Finset.Ico r.start r.stop ∪ S, ?_, ?_, fun x hx => ?_⟩
      · refine Finset.union_subset (Finset.Ico_subset_Ico w.lo_le w.le_hi) sub
      · rw [Finset.card_union_of_disjoint apart, card, Nat.card_Ico, PageRun.stop,
          Nat.add_sub_cancel_left, PageRun.total, PageRun.total, List.map_cons, List.sum_cons,
          Nat.add_mul]
      · rcases Finset.mem_union.1 hx with hx | hx
        · exact ⟨r, List.mem_cons_self, Finset.mem_Ico.1 hx⟩
        · obtain ⟨s, hs, covers⟩ := covered x hx
          exact ⟨s, List.mem_cons_of_mem _ hs, covers⟩
  obtain ⟨S, sub, card, -⟩ := bytes
  rw [← card, ← Nat.card_Ico]
  exact Finset.card_le_card sub

/-! ## Free runs in order -/

namespace FreeRuns

variable {runs : FreeRuns} {r s : PageRun} {a : Address}

/-- Free runs as a pool keeps them: by ascending start, and none starts where another one ends. -/
structure Tidy (runs : FreeRuns) : Prop where
  sorted : runs.Pairwise fun r s => r.start < s.start
  parted : ∀ r ∈ runs, ∀ s ∈ runs, r.stop ≠ s.start

theorem Tidy.sublist {less : FreeRuns} (t : Tidy runs) (sub : List.Sublist less runs) :
    Tidy less where
  sorted := t.sorted.sublist sub
  parted r hr s hs := t.parted r (sub.subset hr) s (sub.subset hs)

theorem erase_sublist (runs : FreeRuns) (a : Address) : List.Sublist (erase runs a) runs :=
  List.filter_sublist

theorem of_mem_insert (hs : s ∈ FreeRuns.insert r runs) : s = r ∨ s ∈ runs := by
  induction runs with
  | nil => exact .inl (List.mem_singleton.1 hs)
  | cons t rest ih =>
    unfold FreeRuns.insert at hs
    split at hs
    · exact List.mem_cons.1 hs
    · split at hs
      · exact (List.mem_cons.1 hs).imp_right (List.mem_cons_of_mem _)
      · rcases List.mem_cons.1 hs with rfl | hs
        · exact .inr List.mem_cons_self
        · exact (ih hs).imp_right (List.mem_cons_of_mem _)

theorem mem_insert {lo hi : Nat} (h : Packed lo hi (r :: runs)) :
    s ∈ FreeRuns.insert r runs ↔ s = r ∨ s ∈ runs := by
  rw [(insert_perm fun t ht e => ?_).mem_iff, List.mem_cons]
  have eq := h.eq_of_start List.mem_cons_self (List.mem_cons_of_mem _ ht) e
  exact (List.nodup_cons.1 h.nodup).1 (eq ▸ ht)

theorem insert_sorted (sorted : runs.Pairwise fun r s => r.start < s.start) :
    (FreeRuns.insert r runs).Pairwise fun r s => r.start < s.start := by
  induction runs with
  | nil => exact List.pairwise_singleton _ _
  | cons t rest ih =>
    obtain ⟨first, sorted'⟩ := List.pairwise_cons.1 sorted
    unfold FreeRuns.insert
    split
    · next lt =>
      refine List.pairwise_cons.2 ⟨fun s hs => ?_, sorted⟩
      rcases List.mem_cons.1 hs with rfl | hs
      · exact lt
      · exact Nat.lt_trans lt (first s hs)
    · split
      · next eq => exact List.pairwise_cons.2 ⟨fun s hs => eq ▸ first s hs, sorted'⟩
      · next ge ne =>
        refine List.pairwise_cons.2 ⟨fun s hs => ?_, ih sorted'⟩
        rcases of_mem_insert hs with rfl | hs
        · exact Nat.lt_of_le_of_ne (Nat.le_of_not_lt ge) (Ne.symm ne)
        · exact first s hs

/-- A run that touches no other one can be put in its place. -/
theorem Tidy.insert (t : Tidy runs) (pos : 0 < r.pages) (below : ∀ s ∈ runs, s.stop ≠ r.start)
    (above : ∀ s ∈ runs, r.stop ≠ s.start) : Tidy (FreeRuns.insert r runs) where
  sorted := insert_sorted t.sorted
  parted x hx y hy := by
    rcases of_mem_insert hx with rfl | old <;> rcases of_mem_insert hy with rfl | old'
    · exact Nat.ne_of_gt (PageRun.start_lt_stop pos)
    · exact above y old'
    · exact below x old
    · exact t.parted x old y old'

theorem mem_takeWhile (sorted : runs.Pairwise fun r s => r.start < s.start) :
    s ∈ runs.takeWhile (fun r => r.start < a) ↔ s ∈ runs ∧ s.start < a := by
  induction runs with
  | nil => simp
  | cons t rest ih =>
    obtain ⟨first, sorted⟩ := List.pairwise_cons.1 sorted
    rw [List.takeWhile_cons]
    by_cases lt : t.start < a
    · rw [if_pos (decide_eq_true lt), List.mem_cons, List.mem_cons, ih sorted, or_and_right]
      exact or_congr_left ⟨fun eq => ⟨eq, eq ▸ lt⟩, And.left⟩
    · rw [if_neg (by simpa using lt)]
      refine iff_of_false List.not_mem_nil fun h => ?_
      rcases List.mem_cons.1 h.1 with rfl | hs
      · exact lt h.2
      · exact lt (Nat.lt_trans (first s hs) h.2)

/-- The highest run below an address. -/
theorem le_of_before? (sorted : runs.Pairwise fun r s => r.start < s.start)
    (found : before? runs a = some r) :
    r ∈ runs ∧ r.start < a ∧ ∀ s ∈ runs, s.start < a → s.start ≤ r.start := by
  have mem := (mem_takeWhile sorted).1 (List.mem_of_getLast? found)
  refine ⟨mem.1, mem.2, fun s hs lt => ?_⟩
  obtain ⟨front, eq⟩ := List.getLast?_eq_some_iff.1 found
  have order := sorted.sublist (List.takeWhile_sublist fun r => decide (r.start < a))
  rw [eq] at order
  have hs := (mem_takeWhile sorted).2 ⟨hs, lt⟩
  rw [eq] at hs
  rcases List.mem_append.1 hs with hs | hs
  · exact Nat.le_of_lt ((List.pairwise_append.1 order).2.2 s hs r (List.mem_singleton_self r))
  · rw [List.mem_singleton.1 hs]

theorem not_lt_of_before? (sorted : runs.Pairwise fun r s => r.start < s.start)
    (none : before? runs a = none) (hs : s ∈ runs) : a ≤ s.start := by
  by_contra lt
  have member := (mem_takeWhile sorted).2 ⟨hs, Nat.lt_of_not_le lt⟩
  rw [List.getLast?_eq_none_iff.1 none] at member
  exact List.not_mem_nil member

/-- The lowest run that is large enough. -/
theorem le_of_firstFit? {n : Nat} (sorted : runs.Pairwise fun r s => r.start < s.start)
    (found : firstFit? runs n = some r) (hs : s ∈ runs) (enough : n ≤ s.pages) :
    r.start ≤ s.start := by
  obtain ⟨-, front, rest, rfl, small⟩ := List.find?_eq_some_iff_append.1 found
  obtain ⟨-, order, -⟩ := List.pairwise_append.1 sorted
  rcases List.mem_append.1 hs with hs | hs
  · exact absurd enough (by simpa using small s hs)
  · rcases List.mem_cons.1 hs with rfl | hs
    · exact Nat.le_refl _
    · exact Nat.le_of_lt ((List.pairwise_cons.1 order).1 s hs)

theorem lt_of_firstFit? {n : Nat} (none : firstFit? runs n = none) (hs : s ∈ runs) :
    s.pages < n := by
  simpa using List.find?_eq_none.1 none s hs

end FreeRuns

namespace PagePool

variable {lo hi : Nat} {free free₁ free₂ : FreeRuns} {r r₁ r₂ : PageRun} {others : List PageRun}

/-! ## Joining -/

/-- A run `r` was joined with free neighbours to the run `r₁`, which leaves the runs `free₁`. -/
structure Joined (free : FreeRuns) (r : PageRun) (free₁ : FreeRuns) (r₁ : PageRun) : Prop where
  sublist : List.Sublist free₁ free
  covered : ∀ a, (∃ s ∈ r :: free, s.Covers a) → ∃ s ∈ r₁ :: free₁, s.Covers a

theorem Joined.refl (free : FreeRuns) (r : PageRun) : Joined free r free r :=
  ⟨.refl _, fun _ h => h⟩

theorem Joined.trans (j₁ : Joined free r free₁ r₁) (j₂ : Joined free₁ r₁ free₂ r₂) :
    Joined free r free₂ r₂ :=
  ⟨j₂.sublist.trans j₁.sublist, fun a h => j₂.covered a (j₁.covered a h)⟩

/-- A neighbour was taken out, and the joined run covers what both did. -/
theorem Joined.of_erase {s : PageRun} (packed : Packed lo hi free) (hs : s ∈ free)
    (covers : ∀ a, r₁.Covers a ↔ r.Covers a ∨ s.Covers a) :
    Joined free r (FreeRuns.erase free s.start) r₁ where
  sublist := FreeRuns.erase_sublist _ _
  covered a := by
    rintro ⟨t, ht, inside⟩
    rcases List.mem_cons.1 ht with rfl | ht
    · exact ⟨r₁, List.mem_cons_self, (covers a).2 (.inl inside)⟩
    · rcases List.mem_cons.1 ((FreeRuns.erase_perm packed hs).mem_iff.1 ht) with rfl | ht
      · exact ⟨r₁, List.mem_cons_self, (covers a).2 (.inr inside)⟩
      · exact ⟨t, List.mem_cons_of_mem _ ht, inside⟩

/-- After a run was joined with the one before, no free run ends where it starts. -/
theorem of_joinBefore (h : Packed lo hi (r :: free ++ others)) (t : FreeRuns.Tidy free)
    (e : joinBefore free r = .ok (free₁, r₁)) :
    Joined free r free₁ r₁ ∧ ∀ s ∈ free₁, s.stop ≠ r₁.start := by
  have packed : Packed lo hi free := h.tail.sublist (List.sublist_append_left ..)
  unfold joinBefore at e
  split at e
  · next none =>
    cases e
    refine ⟨.refl free r, fun s hs meet => ?_⟩
    have le := FreeRuns.not_lt_of_before? t.sorted none hs
    exact Nat.not_lt_of_le le (meet ▸ PageRun.start_lt_stop (packed.within s hs).pos)
  · next prev found =>
    obtain ⟨member, below, highest⟩ := FreeRuns.le_of_before? t.sorted found
    obtain ⟨stop, e₁, e⟩ := Except.bind_eq_ok.1 e
    obtain ⟨bytes, fits, e₁⟩ := Except.bind_eq_ok.1 e₁
    obtain ⟨-, rfl⟩ := Word.mul_eq_ok.1 fits
    obtain ⟨-, rfl⟩ := Word.add_eq_ok.1 e₁
    split at e
    · next meet =>
      obtain ⟨pages, e₂, e⟩ := Except.bind_eq_ok.1 e
      obtain ⟨-, rfl⟩ := Word.add_eq_ok.1 e₂
      cases e
      refine ⟨.of_erase packed member fun a => ?_, fun s hs => ?_⟩
      · obtain ⟨start, pages⟩ := r
        obtain rfl : prev.start + prev.pages * 4096 = start := meet
        rw [PageRun.covers_join, or_comm]
      · exact t.parted s ((FreeRuns.erase_sublist _ _).subset hs) prev member
    · next apart =>
      cases e
      refine ⟨.refl free r, fun s hs meet => ?_⟩
      -- such a run would lie between the highest run below and the run that is given back
      have lower := highest s hs (meet ▸ PageRun.start_lt_stop (packed.within s hs).pos)
      have size := PageRun.start_lt_stop (packed.within prev member).pos
      have ne : s ≠ prev := by
        rintro rfl
        exact apart meet
      have le := (packed.disjoint_of_ne hs member ne).le_of_lt (Nat.lt_of_le_of_lt lower size)
      exact Nat.not_le_of_lt below (meet ▸ le)

/-- After a run was joined with the one behind, no free run starts where it ends. -/
theorem of_joinAfter (h : Packed lo hi (r :: free ++ others)) (t : FreeRuns.Tidy free)
    (e : joinAfter free r = .ok (free₁, r₁)) :
    Joined free r free₁ r₁ ∧ r₁.start = r.start ∧ ∀ s ∈ free₁, r₁.stop ≠ s.start := by
  have packed : Packed lo hi free := h.tail.sublist (List.sublist_append_left ..)
  obtain ⟨stop, e₁, e⟩ := Except.bind_eq_ok.1 e
  obtain ⟨bytes, fits, e₁⟩ := Except.bind_eq_ok.1 e₁
  obtain ⟨-, rfl⟩ := Word.mul_eq_ok.1 fits
  obtain ⟨-, rfl⟩ := Word.add_eq_ok.1 e₁
  split at e
  · next none =>
    cases e
    refine ⟨.refl free r, rfl, fun s hs meet => ?_⟩
    have := List.find?_eq_none.1 none s hs
    exact this (beq_iff_eq.2 meet.symm)
  · next next found =>
    obtain ⟨member, meet⟩ := FreeRuns.of_at? found
    obtain ⟨pages, e₂, e⟩ := Except.bind_eq_ok.1 e
    obtain ⟨-, rfl⟩ := Word.add_eq_ok.1 e₂
    cases e
    obtain ⟨start, pages⟩ := next
    obtain rfl : start = r.start + r.pages * 4096 := meet
    refine ⟨.of_erase packed member fun a => ?_, rfl, fun s hs => ?_⟩
    · rw [Nat.add_comm, PageRun.covers_join]
    · have same : PageRun.stop ⟨r.start, r.pages + pages⟩ =
          PageRun.stop ⟨r.start + r.pages * 4096, pages⟩ := by
        rw [PageRun.stop_mk, PageRun.stop_mk, Nat.add_mul, Nat.add_assoc]
      rw [same]
      exact t.parted _ member s ((FreeRuns.erase_sublist _ _).subset hs)

/-- What becomes of a run that is given back: it is joined with its free neighbours, and the pages
of all of them are free or, if they end at the cursor, fresh again. -/
theorem joined_of_release {p p' : PagePool} (h : Packed p.start p.cursor (r :: p.free ++ others))
    (lt : p.cursor < Word.limit) (t : FreeRuns.Tidy p.free)
    (e : p.release r.start r.pages = .ok p') :
    ∃ rest joined usage, Joined p.free r rest joined ∧
      Packed p.start p.cursor (joined :: rest ++ others) ∧
      (∀ s ∈ rest, s.stop ≠ joined.start ∧ joined.stop ≠ s.start) ∧
      usage.peak = p.usage.peak ∧
      p' = if joined.stop = p.cursor then { p with cursor := joined.start, free := rest, usage }
        else { p with free := FreeRuns.insert joined rest, usage } := by
  obtain ⟨_, -, e⟩ := Except.bind_eq_ok.1 e
  obtain ⟨⟨free₁, r₁⟩, e₁, e⟩ := Except.bind_eq_ok.1 e
  obtain ⟨⟨free₂, r₂⟩, e₂, e⟩ := Except.bind_eq_ok.1 e
  obtain ⟨stop, e₃, e⟩ := Except.bind_eq_ok.1 e
  obtain ⟨usage, counted, e⟩ := Except.bind_eq_ok.1 e
  obtain ⟨_, -, counted⟩ := Except.bind_eq_ok.1 counted
  cases counted
  obtain ⟨_, _, e₁', packed₁⟩ := joinBefore_eq h lt
  cases e₁.symm.trans e₁'
  obtain ⟨_, _, e₂', packed₂⟩ := joinAfter_eq packed₁ lt
  cases e₂.symm.trans e₂'
  rw [runEnd_eq (Nat.lt_of_le_of_lt (packed₂.within r₂ (by simp)).le_hi lt)] at e₃
  cases e₃
  obtain ⟨j₁, below⟩ := of_joinBefore h t e₁
  obtain ⟨j₂, start, above⟩ := of_joinAfter packed₁ (t.sublist j₁.sublist) e₂
  refine ⟨free₂, r₂, { p.usage with reserved := p.usage.reserved - r.pages }, j₁.trans j₂, packed₂,
    fun s hs => ⟨?_, above s hs⟩, rfl, ?_⟩
  · exact start ▸ below s (j₂.sublist.subset hs)
  · split at e
    · next top =>
      rw [if_pos top]
      exact (Except.ok.inj e).symm
    · next low =>
      rw [if_neg low]
      exact (Except.ok.inj e).symm

/-- What is left of the free runs after the front of one of them was taken out. -/
theorem left_of_takeFree {p : PagePool} {n : Nat} (h : Packed lo hi p.free)
    (fits : n * bytesPerPage < Word.limit) (t : FreeRuns.Tidy p.free) (hr : r ∈ p.free)
    (pos : 0 < n) (le : n ≤ r.pages) (e : p.takeFree r n = .ok { p with free }) :
    FreeRuns.Tidy free ∧ (∀ s ∈ free, ∃ old ∈ p.free, old.stop = s.stop) ∧
      ∀ a, (∃ s ∈ p.free, s.Covers a) → ∃ s ∈ ⟨r.start, n⟩ :: free, s.Covers a := by
  obtain ⟨b, k⟩ := r
  have erased {s : PageRun} : s ∈ p.free ↔ s = ⟨b, k⟩ ∨ s ∈ FreeRuns.erase p.free b :=
    (FreeRuns.erase_perm h hr).mem_iff.trans List.mem_cons
  have packed : Packed lo hi (⟨b, k⟩ :: FreeRuns.erase p.free b) :=
    h.perm (FreeRuns.erase_perm h hr)
  have tidy : FreeRuns.Tidy (FreeRuns.erase p.free b) := t.sublist (FreeRuns.erase_sublist _ _)
  unfold takeFree at e
  split at e
  · next less =>
    obtain ⟨rest, sum, e⟩ := Except.bind_eq_ok.1 e
    rw [pagesToBytes_eq fits] at sum
    obtain ⟨-, rfl⟩ := Word.add_eq_ok.1 sum
    obtain rfl := congrArg PagePool.free (Except.ok.inj e)
    have cut := packed.cut pos less
    have whole : PageRun.stop ⟨b + n * 4096, k - n⟩ = PageRun.stop ⟨b, k⟩ := by
      rw [PageRun.stop_mk, PageRun.stop_mk, Nat.add_assoc, ← Nat.add_mul, Nat.add_sub_of_le le]
    have insert {s : PageRun} := FreeRuns.mem_insert (s := s) cut.tail
    refine ⟨tidy.insert (Nat.sub_pos_of_lt less) (fun s hs meet => ?_) fun s hs => ?_,
      fun s hs => ?_, ?_⟩
    · -- a run that ends where the front does would meet it
      have front : PageRun.Disjoint ⟨b, n⟩ s :=
        (List.pairwise_cons.1 cut.disjoint).1 s (List.mem_cons_of_mem _ hs)
      have size := PageRun.start_lt_stop (packed.within s (List.mem_cons_of_mem _ hs)).pos
      have le : s.stop ≤ b := front.symm.le_of_lt (Nat.lt_of_lt_of_eq size meet)
      rw [meet] at le
      exact Nat.not_le_of_lt (PageRun.start_lt_stop (show 0 < (⟨b, n⟩ : PageRun).pages from pos)) le
    · exact whole ▸ t.parted _ hr s (erased.2 (.inr hs))
    · rcases insert.1 hs with rfl | hs
      · exact ⟨_, hr, whole.symm⟩
      · exact ⟨s, erased.2 (.inr hs), rfl⟩
    · rintro a ⟨s, hs, covers⟩
      rcases erased.1 hs with rfl | hs
      · obtain ⟨m, rfl⟩ := Nat.exists_eq_add_of_le' le
        rcases PageRun.covers_join.1 covers with front | back
        · exact ⟨_, List.mem_cons_self, front⟩
        · refine ⟨_, List.mem_cons_of_mem _ (insert.2 (.inl rfl)), ?_⟩
          rwa [Nat.add_sub_cancel]
      · exact ⟨s, List.mem_cons_of_mem _ (insert.2 (.inr hs)), covers⟩
  · next whole =>
    obtain rfl : n = k := Nat.le_antisymm le (Nat.le_of_not_lt whole)
    obtain rfl := congrArg PagePool.free (Except.ok.inj e)
    refine ⟨tidy, fun s hs => ⟨s, erased.2 (.inr hs), rfl⟩, ?_⟩
    rintro a ⟨s, hs, covers⟩
    exact ⟨s, List.mem_cons.2 (erased.1 hs), covers⟩

/-! ## The gaps -/

/-- A gap between the runs `out`, all of which lie from `lo` on: pages that none of them has, from
the end of one run or from `lo` up to the start of another run. -/
structure Gap (lo : Address) (out : List PageRun) (g : PageRun) : Prop where
  pos : 0 < g.pages
  aligned : bytesPerPage ∣ g.start
  lo_le : lo ≤ g.start
  apart : ∀ r ∈ out, g.Disjoint r
  below : g.start = lo ∨ ∃ r ∈ out, r.stop = g.start
  above : ∃ r ∈ out, r.start = g.stop

namespace Gap

variable {lo : Address} {out : List PageRun} {f g : PageRun} {a : Address}

/-- Of two gaps that share an address none starts below the other, and none ends above it. -/
theorem le_of_covers (pos : ∀ r ∈ out, 0 < r.pages) (hf : Gap lo out f) (hg : Gap lo out g)
    (inF : f.Covers a) (inG : g.Covers a) : g.start ≤ f.start ∧ f.stop ≤ g.stop := by
  constructor
  · rcases hg.below with eq | ⟨r, hr, eq⟩
    · exact eq ▸ hf.lo_le
    · have size := PageRun.start_lt_stop (pos r hr)
      have below : r.start < f.stop :=
        Nat.lt_trans (Nat.lt_of_lt_of_le (eq ▸ size) inG.1) inF.2
      exact eq ▸ (hf.apart r hr).symm.le_of_lt below
  · obtain ⟨r, hr, eq⟩ := hg.above
    have size := PageRun.start_lt_stop (pos r hr)
    have above : f.start < r.stop :=
      Nat.lt_trans (Nat.lt_of_le_of_lt inF.1 inG.2) (eq ▸ size)
    exact eq ▸ (hf.apart r hr).le_of_lt above

/-- Two gaps that share an address are the same. -/
theorem eq_of_covers (pos : ∀ r ∈ out, 0 < r.pages) (hg : Gap lo out g) (hf : Gap lo out f)
    (inG : g.Covers a) (inF : f.Covers a) : f = g := by
  obtain ⟨start, stop⟩ := hf.le_of_covers pos hg inF inG
  obtain ⟨start', stop'⟩ := hg.le_of_covers pos hf inG inF
  have last := Nat.le_antisymm stop stop'
  obtain ⟨b, m⟩ := f
  obtain ⟨d, k⟩ := g
  obtain rfl : b = d := Nat.le_antisymm start' start
  rw [PageRun.stop_mk, PageRun.stop_mk] at last
  exact congrArg _ (Nat.eq_of_mul_eq_mul_right (by decide) (Nat.add_left_cancel last))

end Gap

/-- What a request for `n` pages gets: the front of the lowest gap that is large enough, else pages
from the cursor on, if the range has so many left. -/
inductive Answer (p : PagePool) (out : List PageRun) (n : Nat) : Option Address → Prop
  | gap (g : PageRun) : Gap p.start out g → n ≤ g.pages →
    (∀ f, Gap p.start out f → n ≤ f.pages → g.start ≤ f.start) → Answer p out n (some g.start)
  | fresh : (∀ f, Gap p.start out f → f.pages < n) → p.cursor + n * bytesPerPage ≤ p.limit →
    Answer p out n (some p.cursor)
  | refused : (∀ f, Gap p.start out f → f.pages < n) → p.limit < p.cursor + n * bytesPerPage →
    Answer p out n none

/-- Are there `n` adjacent pages between two addresses that none of the runs has? -/
def HasRoom (lo hi : Address) (out : List PageRun) (n : Nat) : Prop :=
  ∃ r : PageRun, r.pages = n ∧ r.Within lo hi ∧ ∀ s ∈ out, r.Disjoint s

/-- A pool keeps nothing but what the runs say that it has handed out: each page below the cursor
is in one of them or free, free neighbours are joined, and no free run ends at the cursor. -/
structure Canonical (p : PagePool) (out : List PageRun) : Prop extends p.Accounts out where
  tidy : FreeRuns.Tidy p.free
  covered : ∀ a, p.start ≤ a → a < p.cursor → ∃ r ∈ p.free ++ out, r.Covers a
  low : ∀ r ∈ p.free, r.stop ≠ p.cursor

namespace Canonical

variable {p p' : PagePool} {out : List PageRun} {n : Nat}

theorem fresh {start limit : Address} (lt : limit < Word.limit) (le : start ≤ limit)
    (aligned : bytesPerPage ∣ start) : Canonical { start, limit, cursor := start } [] where
  toAccounts := .fresh lt le aligned
  tidy := ⟨.nil, fun _ hr => absurd hr List.not_mem_nil⟩
  covered _ le lt := absurd lt (Nat.not_lt_of_le le)
  low _ hr := absurd hr List.not_mem_nil

theorem perm {out' : List PageRun} (c : p.Canonical out) (e : out.Perm out') :
    p.Canonical out' where
  toAccounts := c.toAccounts.perm e
  tidy := c.tidy
  covered a le lt := by
    obtain ⟨r, hr, covers⟩ := c.covered a le lt
    exact ⟨r, (e.append_left _).mem_iff.1 hr, covers⟩
  low := c.low

/-- The cursor is where the highest run ends. -/
theorem cursor_eq (c : p.Canonical out) : (out = [] ∧ p.cursor = p.start) ∨
    ((∃ r ∈ out, r.stop = p.cursor) ∧ ∀ r ∈ out, r.stop ≤ p.cursor) := by
  have le : ∀ r ∈ out, r.stop ≤ p.cursor := fun r hr =>
    (c.packed.within r (List.mem_append_right _ hr)).le_hi
  rcases Nat.eq_or_lt_of_le c.start_le with eq | lt
  · refine .inl ⟨List.eq_nil_iff_forall_not_mem.2 fun r hr => ?_, eq.symm⟩
    have w := c.packed.within r (List.mem_append_right _ hr)
    have := Nat.lt_of_le_of_lt w.lo_le (PageRun.start_lt_stop w.pos)
    exact Nat.not_lt_of_le (eq ▸ w.le_hi) this
  · -- the last byte below the cursor lies in a run, which is not free
    obtain ⟨r, hr, -, above⟩ := c.covered (p.cursor - 1) (Nat.le_sub_one_of_lt lt)
      (Nat.sub_one_lt_of_lt lt)
    have top : r.stop = p.cursor :=
      Nat.le_antisymm (c.packed.within r hr).le_hi (Nat.le_of_pred_lt above)
    rcases List.mem_append.1 hr with hr | hr
    · exact absurd top (c.low r hr)
    · exact .inr ⟨⟨r, hr, top⟩, le⟩

/-- A free run is a gap. -/
theorem gap_of_free (c : p.Canonical out) {g : PageRun} (hg : g ∈ p.free) :
    Gap p.start out g := by
  have w := c.packed.within g (List.mem_append_left _ hg)
  have size := PageRun.start_lt_stop w.pos
  have apart : ∀ r ∈ out, g.Disjoint r := (List.pairwise_append.1 c.packed.disjoint).2.2 g hg
  refine ⟨w.pos, w.aligned, w.lo_le, apart, ?_, ?_⟩
  · -- what covers the byte below a free run ends at it, and so it is not free
    rcases Nat.eq_or_lt_of_le w.lo_le with eq | lt
    · exact .inl eq.symm
    · have before : g.start - 1 < g.start := Nat.sub_one_lt_of_lt lt
      obtain ⟨r, hr, covers⟩ := c.covered (g.start - 1) (Nat.le_sub_one_of_lt lt)
        (Nat.lt_trans before (Nat.lt_of_lt_of_le size w.le_hi))
      have below := Nat.lt_of_le_of_lt covers.1 before
      have ne : r ≠ g := by
        rintro rfl
        exact Nat.lt_irrefl _ below
      have le := (c.packed.disjoint_of_ne hr (List.mem_append_left _ hg) ne).le_of_lt
        (Nat.lt_trans below size)
      have meet := Nat.le_antisymm le (Nat.le_of_pred_lt covers.2)
      rcases List.mem_append.1 hr with hr | hr
      · exact absurd meet (c.tidy.parted r hr g hg)
      · exact .inr ⟨r, hr, meet⟩
  · -- likewise what covers the byte behind it
    have inside := Nat.lt_of_le_of_ne w.le_hi (c.low g hg)
    obtain ⟨r, hr, covers⟩ := c.covered g.stop (Nat.le_trans w.lo_le (Nat.le_of_lt size)) inside
    have ne : g ≠ r := by
      rintro rfl
      exact Nat.lt_irrefl _ covers.2
    have le := (c.packed.disjoint_of_ne (List.mem_append_left _ hg) hr ne).le_of_lt
      (Nat.lt_trans size covers.2)
    have meet := Nat.le_antisymm le covers.1
    rcases List.mem_append.1 hr with hr | hr
    · exact absurd meet (c.tidy.parted g hg r hr)
    · exact ⟨r, hr, meet.symm⟩

/-- The free runs are the gaps. -/
theorem mem_free (c : p.Canonical out) {g : PageRun} : g ∈ p.free ↔ Gap p.start out g := by
  refine ⟨c.gap_of_free, fun gap => ?_⟩
  have pos : ∀ r ∈ out, 0 < r.pages := fun r hr =>
    (c.packed.within r (List.mem_append_right _ hr)).pos
  have first := PageRun.covers_start gap.pos
  have inside : g.start < p.cursor := by
    obtain ⟨r, hr, meet⟩ := gap.above
    have w := c.packed.within r (List.mem_append_right _ hr)
    have below : g.start < r.start := meet ▸ PageRun.start_lt_stop gap.pos
    exact Nat.lt_trans below (Nat.lt_of_lt_of_le (PageRun.start_lt_stop w.pos) w.le_hi)
  -- the run that has the first page of the gap is free, and two gaps do not share a page
  obtain ⟨f, hf, covers⟩ := c.covered g.start gap.lo_le inside
  rcases List.mem_append.1 hf with hf | hf
  · exact gap.eq_of_covers pos (c.gap_of_free hf) first covers ▸ hf
  · exact absurd covers ((gap.apart f hf).not_covers first)

/-- A run that was handed out can be given back. -/
theorem release_eq {r : PageRun} (c : p.Canonical (r :: out)) :
    ∃ p', p.release r.start r.pages = .ok p' ∧ p'.Canonical out ∧ p'.start = p.start ∧
      p'.limit = p.limit ∧ p'.usage.peak = p.usage.peak := by
  have lt : p.cursor < Word.limit := Nat.lt_of_le_of_lt c.cursor_le c.limit_lt
  have packed : Packed p.start p.cursor (r :: p.free ++ out) := c.packed.perm List.perm_middle
  obtain ⟨p', e, accounts, start_eq, limit_eq⟩ := c.toAccounts.release_eq
  obtain ⟨rest, joined, usage, j, packed', apart, peak, eq⟩ := joined_of_release packed lt c.tidy e
  have peak' : p'.usage = usage := by
    rw [eq]
    split <;> rfl
  refine ⟨p', e, ?_, start_eq, limit_eq, peak' ▸ peak⟩
  have tidy : FreeRuns.Tidy rest := c.tidy.sublist j.sublist
  have covered : ∀ a, p.start ≤ a → a < p.cursor →
      (∃ s ∈ joined :: rest, s.Covers a) ∨ ∃ s ∈ out, s.Covers a := by
    intro a le lt
    obtain ⟨s, hs, covers⟩ := c.covered a le lt
    have hs : s ∈ (r :: p.free) ++ out := List.perm_middle.mem_iff.1 hs
    rcases List.mem_append.1 hs with hs | hs
    · exact .inl (j.covered a ⟨s, hs, covers⟩)
    · exact .inr ⟨s, hs, covers⟩
  split at eq
  · subst eq
    refine ⟨accounts, tidy, fun a le below => ?_, fun s hs => (apart s hs).1⟩
    have top : joined.start ≤ p.cursor :=
      Nat.le_trans (Nat.le_add_right ..) (packed'.within joined (by simp)).le_hi
    have inside : a < p.cursor := Nat.lt_of_lt_of_le below top
    rcases covered a le inside with ⟨s, hs, covers⟩ | ⟨s, hs, covers⟩
    · rcases List.mem_cons.1 hs with rfl | hs
      · exact absurd covers.1 (Nat.not_le_of_lt below)
      · exact ⟨s, List.mem_append_left _ hs, covers⟩
    · exact ⟨s, List.mem_append_right _ hs, covers⟩
  · next low =>
    subst eq
    have pos := (packed'.within joined (by simp)).pos
    have insert {s : PageRun} : s ∈ FreeRuns.insert joined rest ↔ s = joined ∨ s ∈ rest :=
      FreeRuns.mem_insert (packed'.sublist (List.sublist_append_left ..))
    refine ⟨accounts, tidy.insert pos (fun s hs => (apart s hs).1) fun s hs => (apart s hs).2,
      fun a le lt => ?_, fun s hs => ?_⟩
    · rcases covered a le lt with ⟨s, hs, covers⟩ | ⟨s, hs, covers⟩
      · exact ⟨s, List.mem_append_left _ (insert.2 (List.mem_cons.1 hs)), covers⟩
      · exact ⟨s, List.mem_append_right _ hs, covers⟩
    · rcases insert.1 hs with rfl | hs
      · exact low
      · exact c.low s (j.sublist.subset hs)

/-- The count of the pages in use does not overflow, because they all lie below the limit. -/
theorem reserve_eq (c : p.Canonical out) (lt : n < 2 ^ 52) : p.usage.reserve n =
    .ok ⟨p.usage.reserved + n, max p.usage.peak (p.usage.reserved + n)⟩ := by
  have room : p.usage.reserved * bytesPerPage ≤ p.cursor - p.start := by
    rw [c.reserved]
    exact (c.packed.sublist (List.sublist_append_right ..)).total_le
  have le := c.cursor_le
  have below := c.limit_lt
  have fits : p.usage.reserved + n < Word.limit := by
    dsimp only [Address, bytesPerPage, Word.limit] at *
    omega
  rw [PageUsage.reserve, Word.add, if_pos fits]
  rfl

/-- A pool that has handed out the front of a free run. -/
theorem of_takeFree {r : PageRun} {free : FreeRuns} {usage : PageUsage} (c : p.Canonical out)
    (fits : n * bytesPerPage < Word.limit) (hr : r ∈ p.free) (pos : 0 < n) (le : n ≤ r.pages)
    (taken : p.takeFree r n = .ok { p with free })
    (accounts : Accounts { p with free, usage } (⟨r.start, n⟩ :: out)) :
    Canonical { p with free, usage } (⟨r.start, n⟩ :: out) := by
  obtain ⟨tidy, old, covered⟩ := left_of_takeFree
    (c.packed.sublist (List.sublist_append_left ..)) fits c.tidy hr pos le taken
  refine ⟨accounts, tidy, fun a le lt => ?_, fun s hs => ?_⟩
  · obtain ⟨s, hs, covers⟩ := c.covered a le lt
    rcases List.mem_append.1 hs with hs | hs
    · obtain ⟨s, hs, covers⟩ := covered a ⟨s, hs, covers⟩
      exact ⟨s, List.perm_middle.mem_iff.2 (List.mem_append_left out hs), covers⟩
    · exact ⟨s, List.mem_append_right _ (List.mem_cons_of_mem _ hs), covers⟩
  · obtain ⟨o, ho, eq⟩ := old s hs
    exact eq ▸ c.low o ho

/-- A pool that has handed out fresh pages. -/
theorem of_raise {usage : PageUsage} (c : p.Canonical out) (pos : 0 < n)
    (accounts : Accounts { p with cursor := p.cursor + n * bytesPerPage, usage }
      (⟨p.cursor, n⟩ :: out)) :
    Canonical { p with cursor := p.cursor + n * bytesPerPage, usage } (⟨p.cursor, n⟩ :: out) := by
  have size := PageRun.start_lt_stop (show 0 < (⟨p.cursor, n⟩ : PageRun).pages from pos)
  refine ⟨accounts, c.tidy, fun a le lt => ?_, fun s hs => ?_⟩
  · rcases Nat.lt_or_ge a p.cursor with below | above
    · obtain ⟨s, hs, covers⟩ := c.covered a le below
      exact ⟨s, List.perm_middle.mem_iff.2 (List.mem_cons_of_mem _ hs), covers⟩
    · exact ⟨⟨p.cursor, n⟩, List.mem_append_right _ List.mem_cons_self, above, lt⟩
  · have w := c.packed.within s (List.mem_append_left _ hs)
    exact Nat.ne_of_lt (Nat.lt_of_le_of_lt w.le_hi size)

theorem acquire_eq (c : p.Canonical out) (pos : 0 < n) (lt : n < 2 ^ 52) :
    ∃ a p', p.acquire n = .ok (a, p') ∧ Answer p out n a ∧ (a = none → p' = p) ∧
      ∀ start, a = some start → p'.Canonical (⟨start, n⟩ :: out) ∧ p'.start = p.start ∧
        p'.limit = p.limit ∧ p'.usage.peak = max p.usage.peak p'.usage.reserved := by
  have fits : n * bytesPerPage < Word.limit := by
    dsimp only [bytesPerPage, Word.limit]
    omega
  have cursor_lt : p.cursor < Word.limit := Nat.lt_of_le_of_lt c.cursor_le c.limit_lt
  have checked : require .somePages (0 < n) = .ok () := by
    rw [require, if_pos (decide_eq_true pos)]
  have accounts : ∀ {a p'}, p.acquire n = .ok (a, p') →
      ∀ start, a = some start → p'.Accounts (⟨start, n⟩ :: out) :=
    fun e => (c.toAccounts.of_acquire fits e).1
  unfold acquire at accounts ⊢
  rw [checked, Except.ok_bind] at accounts ⊢
  split
  · next r found =>
    obtain ⟨hr, le⟩ := FreeRuns.of_firstFit? found
    obtain ⟨free, taken, -⟩ := takeFree_eq c.packed cursor_lt hr pos le
    rw [found] at accounts
    dsimp only at accounts
    rw [taken, Except.ok_bind, c.reserve_eq lt, Except.ok_bind] at accounts ⊢
    have lowest : ∀ f, Gap p.start out f → n ≤ f.pages → r.start ≤ f.start := fun f gap =>
      FreeRuns.le_of_firstFit? c.tidy.sorted found (c.mem_free.2 gap)
    refine ⟨_, _, rfl, .gap r (c.gap_of_free hr) le lowest,
      fun eq => absurd eq (Option.some_ne_none _), ?_⟩
    rintro _ ⟨⟩
    exact ⟨c.of_takeFree fits hr pos le taken (accounts rfl _ rfl), rfl, rfl, rfl⟩
  · next none =>
    rw [none] at accounts
    dsimp only at accounts
    rw [distance, if_pos c.cursor_le, Except.ok_bind, pagesToBytes_eq fits] at accounts ⊢
    have small : ∀ f, Gap p.start out f → f.pages < n := fun f gap =>
      FreeRuns.lt_of_firstFit? none (c.mem_free.2 gap)
    have room : p.limit - p.cursor < n * bytesPerPage ↔ p.limit < p.cursor + n * bytesPerPage :=
      Nat.sub_lt_iff_lt_add' c.cursor_le
    split
    · next less => exact ⟨_, _, rfl, .refused small (room.1 less), fun _ => rfl,
        fun _ eq => absurd eq.symm (Option.some_ne_none _)⟩
    · next enough =>
      have le : p.cursor + n * bytesPerPage ≤ p.limit := Nat.le_of_not_lt (mt room.2 enough)
      have sum : Word.add p.cursor (n * bytesPerPage) = .ok (p.cursor + n * bytesPerPage) := by
        rw [Word.add, if_pos (Nat.lt_of_le_of_lt le c.limit_lt)]
      rw [if_neg enough, sum, Except.ok_bind, c.reserve_eq lt, Except.ok_bind] at accounts
      rw [sum, Except.ok_bind, c.reserve_eq lt, Except.ok_bind]
      refine ⟨_, _, rfl, .fresh small le,
        fun eq => absurd eq (Option.some_ne_none _), ?_⟩
      rintro _ ⟨⟩
      exact ⟨c.of_raise pos (accounts rfl _ rfl), rfl, rfl, rfl⟩

/-- A request is refused only if no adjacent pages are left anywhere in the range. No gap reaches up
to the cursor, so none of them could be completed with fresh pages. -/
theorem not_hasRoom (c : p.Canonical out) (refused : Answer p out n none) :
    ¬ HasRoom p.start p.limit out n := by
  rintro ⟨r, rfl, w, apart⟩
  obtain ⟨small, high⟩ : (∀ f, Gap p.start out f → f.pages < r.pages) ∧
      p.limit < p.cursor + r.pages * bytesPerPage := by
    cases refused with
    | refused small high => exact ⟨small, high⟩
  have first := PageRun.covers_start w.pos
  have below : r.start < p.cursor :=
    Nat.lt_of_add_lt_add_right (Nat.lt_of_le_of_lt w.le_hi high)
  -- the first page lies in a gap, and so the others do
  obtain ⟨g, hg, covers⟩ := c.covered r.start w.lo_le below
  rcases List.mem_append.1 hg with hg | hg
  · have gap := c.gap_of_free hg
    obtain ⟨t, ht, meet⟩ := gap.above
    have size := PageRun.start_lt_stop (c.packed.within t (List.mem_append_right _ ht)).pos
    have inside : r.stop ≤ g.stop :=
      meet ▸ (apart t ht).le_of_lt (Nat.lt_trans covers.2 (meet ▸ size))
    have bytes : r.pages * 4096 ≤ g.pages * 4096 :=
      Nat.le_of_add_le_add_left (Nat.le_trans (Nat.add_le_add_right covers.1 _) inside)
    exact Nat.not_le_of_lt (small g gap) (Nat.le_of_mul_le_mul_right bytes (by decide))
  · exact (apart g hg).not_covers first covers

/-- What a pool hands out was room before. -/
theorem hasRoom {start : Address} (c : p'.Canonical (⟨start, n⟩ :: out)) :
    HasRoom p'.start p'.limit out n := by
  have w := c.packed.within ⟨start, n⟩ (List.mem_append_right _ List.mem_cons_self)
  have apart := (List.pairwise_append.1 c.packed.disjoint).2.1
  exact ⟨⟨start, n⟩, rfl, { w with le_hi := Nat.le_trans w.le_hi c.cursor_le },
    (List.pairwise_cons.1 apart).1⟩

/-- Two pools of the same range that have handed out the same runs. -/
theorem eq_of_mem_iff {q : PagePool} {out' : List PageRun} (c : p.Canonical out)
    (d : q.Canonical out') (start : q.start = p.start) (same : ∀ r, r ∈ out' ↔ r ∈ out) :
    q.cursor = p.cursor ∧ q.free = p.free ∧ q.usage.reserved = p.usage.reserved := by
  have perm : out'.Perm out := (List.perm_ext_iff_of_nodup
    (d.packed.sublist (List.sublist_append_right ..)).nodup
    (c.packed.sublist (List.sublist_append_right ..)).nodup).2 same
  have d := d.perm perm
  have le : ∀ {p q : PagePool}, p.Canonical out → q.Canonical out → q.start = p.start →
      q.cursor ≤ p.cursor := fun c d start => by
    rcases d.cursor_eq with ⟨-, eq⟩ | ⟨⟨r, hr, eq⟩, -⟩
    · exact eq ▸ start ▸ c.start_le
    · exact eq ▸ (c.packed.within r (List.mem_append_right _ hr)).le_hi
  have runs : q.free.Perm p.free := (List.perm_ext_iff_of_nodup
    (d.packed.sublist (List.sublist_append_left ..)).nodup
    (c.packed.sublist (List.sublist_append_left ..)).nodup).2 fun g => by
      rw [c.mem_free, d.mem_free, start]
  have free : q.free = p.free := runs.eq_of_pairwise
    (fun _ _ _ _ lt gt => absurd lt (Nat.lt_asymm gt)) d.tidy.sorted c.tidy.sorted
  exact ⟨Nat.le_antisymm (le c d start) (le d c start.symm), free, d.reserved.trans c.reserved.symm⟩

end Canonical

/-! ## Histories -/

/-- A pool of the pages from `start` up to `limit` that has handed out the runs `out`, and the runs
that it had handed out at each point before. -/
inductive History (start limit : Address) : PagePool → List PageRun → List (List PageRun) → Prop
  | fresh {p : PagePool} : ofRange start limit = .ok p → History start limit p [] []
  | acquired {p p' : PagePool} {out : List PageRun} {past : List (List PageRun)} {n : Nat}
    {a : Address} : History start limit p out past → 0 < n → n < 2 ^ 52 →
    p.acquire n = .ok (some a, p') → History start limit p' (⟨a, n⟩ :: out) (out :: past)
  | refused {p p' : PagePool} {out : List PageRun} {past : List (List PageRun)} {n : Nat} :
    History start limit p out past → 0 < n → n < 2 ^ 52 → p.acquire n = .ok (none, p') →
    History start limit p' out past
  | released {p p' : PagePool} {out : List PageRun} {past : List (List PageRun)} {r : PageRun} :
    History start limit p out past → r ∈ out → p.release r.start r.pages = .ok p' →
    History start limit p' (out.erase r) (out :: past)

namespace History

variable {start limit : Address} {p p' : PagePool} {out : List PageRun}
  {past : List (List PageRun)}

theorem of_ofRange (e : ofRange start limit = .ok p) :
    bytesPerPage ∣ start ∧ p = { start, limit, cursor := start } := by
  obtain ⟨_, aligned, e⟩ := Except.bind_eq_ok.1 e
  obtain ⟨_, -, e⟩ := Except.bind_eq_ok.1 e
  unfold require at aligned
  split at aligned
  · next h => exact ⟨Nat.dvd_of_mod_eq_zero (beq_iff_eq.1 h), (Except.ok.inj e).symm⟩
  · cases aligned

theorem canonical (order : start ≤ limit) (word : limit < Word.limit)
    (run : History start limit p out past) :
    p.Canonical out ∧ p.start = start ∧ p.limit = limit := by
  induction run with
  | fresh e =>
    obtain ⟨aligned, rfl⟩ := of_ofRange e
    exact ⟨.fresh word order aligned, rfl, rfl⟩
  | acquired _ pos lt e ih =>
    obtain ⟨c, start_eq, limit_eq⟩ := ih
    obtain ⟨_, _, e', -, -, next⟩ := c.acquire_eq pos lt
    cases e.symm.trans e'
    obtain ⟨c', start', limit', -⟩ := next _ rfl
    exact ⟨c', start'.trans start_eq, limit'.trans limit_eq⟩
  | refused _ pos lt e ih =>
    obtain ⟨_, _, e', -, same, -⟩ := ih.1.acquire_eq pos lt
    cases e.symm.trans e'
    exact same rfl ▸ ih
  | released _ hr e ih =>
    obtain ⟨c, start_eq, limit_eq⟩ := ih
    obtain ⟨_, e', c', start', limit', -⟩ := (c.perm (List.perm_cons_erase hr)).release_eq
    cases e.symm.trans e'
    exact ⟨c', start'.trans start_eq, limit'.trans limit_eq⟩

theorem totals_cons (out : List PageRun) (past : List (List PageRun)) :
    {n | ∃ o ∈ out :: past, PageRun.total o = n} =
      insert (PageRun.total out) {n | ∃ o ∈ past, PageRun.total o = n} := by
  ext n
  simp [eq_comm]

/-- The peak is the largest number of pages that ever were handed out. -/
theorem peak (order : start ≤ limit) (word : limit < Word.limit)
    (run : History start limit p out past) :
    IsGreatest {n | ∃ o ∈ out :: past, PageRun.total o = n} p.usage.peak := by
  induction run with
  | fresh e =>
    obtain ⟨-, rfl⟩ := of_ofRange e
    refine ⟨⟨[], List.mem_cons_self, rfl⟩, ?_⟩
    rintro _ ⟨o, ho, rfl⟩
    cases List.mem_singleton.1 ho
    exact Nat.le_refl _
  | acquired run pos lt e ih =>
    obtain ⟨_, _, e', -, -, next⟩ := (run.canonical order word).1.acquire_eq pos lt
    cases e.symm.trans e'
    obtain ⟨c', -, -, peak⟩ := next _ rfl
    rw [totals_cons, peak, c'.reserved, max_comm]
    exact ih.insert _
  | refused run pos lt e ih =>
    obtain ⟨_, _, e', -, same, -⟩ := (run.canonical order word).1.acquire_eq pos lt
    cases e.symm.trans e'
    exact same rfl ▸ ih
  | @released _ _ out _ r run hr e ih =>
    have perm := List.perm_cons_erase hr
    obtain ⟨_, e', -, -, -, peak⟩ := ((run.canonical order word).1.perm perm).release_eq
    cases e.symm.trans e'
    have less : PageRun.total (out.erase r) ≤ PageRun.total out := by
      rw [PageRun.total, PageRun.total, (perm.map _).sum_eq, List.map_cons, List.sum_cons]
      exact Nat.le_add_left ..
    have le := Nat.le_trans less (ih.2 ⟨out, List.mem_cons_self, rfl⟩)
    rw [totals_cons, peak, ← max_eq_right le]
    exact ih.insert _

end History

/-- Where the outstanding runs of a pool lie, what they say of its cursor and its free runs, what a
request gets then, that each of the runs can be given back, and what the pool counts. -/
theorem pools_show_their_leases {start limit : Address} {p : PagePool} {out : List PageRun}
    {past : List (List PageRun)} (order : start ≤ limit) (word : limit < Word.limit)
    (run : History start limit p out past) :
    ((∀ r ∈ out, r.Within start limit) ∧ out.Pairwise PageRun.Disjoint) ∧
      ((out = [] ∧ p.cursor = start) ∨
        ((∃ r ∈ out, r.stop = p.cursor) ∧ ∀ r ∈ out, r.stop ≤ p.cursor)) ∧
      (p.free.Pairwise (fun f g => f.start < g.start) ∧ ∀ g, g ∈ p.free ↔ Gap start out g) ∧
      (∀ q out' past', History start limit q out' past' → (∀ r, r ∈ out' ↔ r ∈ out) →
        q.cursor = p.cursor ∧ q.free = p.free ∧ q.usage.reserved = p.usage.reserved) ∧
      (∀ n, 0 < n → n < 2 ^ 52 → ∃ a p', p.acquire n = .ok (a, p') ∧ Answer p out n a ∧
        (a = none ↔ ¬ HasRoom start limit out n)) ∧
      (∀ r ∈ out, ∃ p', p.release r.start r.pages = .ok p') ∧
      p.usage.reserved = PageRun.total out ∧
      IsGreatest {n | ∃ o ∈ out :: past, PageRun.total o = n} p.usage.peak := by
  have peak := run.peak order word
  obtain ⟨c, rfl, rfl⟩ := run.canonical order word
  have outside : Packed p.start p.cursor out := c.packed.sublist (List.sublist_append_right ..)
  refine ⟨⟨fun r hr => ?_, outside.disjoint⟩, c.cursor_eq, ⟨c.tidy.sorted, fun g => c.mem_free⟩,
    fun q out' past' run' same => ?_, fun n pos lt => ?_, fun r hr => ?_, c.reserved, peak⟩
  · exact { outside.within r hr with le_hi := Nat.le_trans (outside.within r hr).le_hi c.cursor_le }
  · obtain ⟨d, start, -⟩ := run'.canonical order word
    exact c.eq_of_mem_iff d start same
  · obtain ⟨a, p', e, answer, -, next⟩ := c.acquire_eq pos lt
    refine ⟨a, p', e, answer, ?_⟩
    cases a with
    | none => exact iff_of_true rfl (c.not_hasRoom answer)
    | some a =>
      obtain ⟨c', start, limit, -⟩ := next a rfl
      exact iff_of_false nofun fun none => none (start ▸ limit ▸ c'.hasRoom)
  · obtain ⟨p', e, -⟩ := (c.perm (List.perm_cons_erase hr)).release_eq
    exact ⟨p', e⟩

/-- A pool of eight pages that has the first one back, but not the second one. -/
theorem pools_show_their_leases_second_page : ∃ p : PagePool,
    History 4096 36864 p [⟨8192, 1⟩] [[⟨8192, 1⟩, ⟨4096, 1⟩], [⟨4096, 1⟩], []] ∧
      p.cursor = 12288 ∧ p.free = [⟨4096, 1⟩] ∧ p.usage.peak = 2 ∧
      Gap 4096 [⟨8192, 1⟩] ⟨4096, 1⟩ ∧ ¬ HasRoom 4096 36864 [⟨8192, 1⟩] 7 := by
  have run : History 4096 36864 ⟨4096, 36864, 12288, [⟨4096, 1⟩], ⟨1, 2⟩⟩ [⟨8192, 1⟩]
      [[⟨8192, 1⟩, ⟨4096, 1⟩], [⟨4096, 1⟩], []] := by
    have fresh : History 4096 36864 ⟨4096, 36864, 4096, [], {}⟩ [] [] := .fresh rfl
    have first : History 4096 36864 ⟨4096, 36864, 8192, [], ⟨1, 1⟩⟩ [⟨4096, 1⟩] [[]] :=
      fresh.acquired (by decide) (by decide) rfl
    have second := first.acquired (n := 1) (by decide) (by decide) rfl
    exact second.released (r := ⟨4096, 1⟩) (by decide) rfl
  obtain ⟨-, -, ⟨-, gaps⟩, -, serve, -⟩ :=
    pools_show_their_leases (by decide) (by decide) run
  obtain ⟨a, p', e, -, refused⟩ := serve 7 (by decide) (by decide)
  cases (show PagePool.acquire _ 7 = .ok (none, _) from rfl).symm.trans e
  exact ⟨_, run, rfl, rfl, rfl, (gaps _).1 List.mem_cons_self, refused.1 rfl⟩

end PagePool

end DeferredCount
