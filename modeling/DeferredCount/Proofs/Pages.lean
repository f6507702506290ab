import DeferredCount.Pages.Pool
import DeferredCount.Proofs.Execution
import Mathlib.Algebra.BigOperators.Group.List.Basic
import Mathlib.Algebra.GroupWithZero.Nat
import Mathlib.Data.List.Nodup

/-!
# The runs of a page pool

`PagePool.Accounts` says that the free runs and the runs that were handed out share the range below
the cursor without meeting each other. Joining neighbours, cutting a run in two and moving the
cursor keep it.

Results:
1. `Accounts.release_eq`: a run that was handed out can be given back.
2. `Accounts.of_acquire`: a run that is handed out meets no other one.
-/

namespace DeferredCount

namespace PageRun

/-- The address behind a run. -/
def stop (r : PageRun) : Nat := r.start + r.pages * bytesPerPage

theorem stop_mk (a n : Nat) : stop ⟨a, n⟩ = a + n * 4096 := rfl

/-- Two runs do not meet. -/
def Disjoint (r s : PageRun) : Prop := r.stop ≤ s.start ∨ s.stop ≤ r.start

theorem Disjoint.symm {r s : PageRun} (h : r.Disjoint s) : s.Disjoint r := Or.symm h

theorem disjoint_mk {a m b n : Nat} :
    Disjoint ⟨a, m⟩ ⟨b, n⟩ ↔ a + m * 4096 ≤ b ∨ b + n * 4096 ≤ a := Iff.rfl

theorem Disjoint.join {a m n : Nat} {t : PageRun} (pos : 0 < t.pages) (h₁ : Disjoint ⟨a, m⟩ t)
    (h₂ : Disjoint ⟨a + m * 4096, n⟩ t) : Disjoint ⟨a, n + m⟩ t := by
  obtain ⟨b, k⟩ := t
  have bytes {a b m n k : Nat} (pos : 0 < k) (h₁ : a + m ≤ b ∨ b + k ≤ a)
      (h₂ : a + m + n ≤ b ∨ b + k ≤ a + m) : a + (n + m) ≤ b ∨ b + k ≤ a := by omega
  rw [disjoint_mk] at *
  rw [Nat.add_mul]
  exact bytes (Nat.mul_pos pos (by decide)) h₁ h₂

/-- Whole pages between two addresses. -/
structure Within (r : PageRun) (lo hi : Nat) : Prop where
  pos : 0 < r.pages
  lo_le : lo ≤ r.start
  le_hi : r.stop ≤ hi
  aligned : bytesPerPage ∣ r.start

end PageRun

/-- Runs of whole pages between two addresses, none of which meets another one. -/
structure Packed (lo hi : Nat) (runs : List PageRun) : Prop where
  within : ∀ r ∈ runs, r.Within lo hi
  disjoint : runs.Pairwise PageRun.Disjoint

namespace Packed

variable {lo hi : Nat} {runs others : List PageRun} {r s : PageRun}

theorem perm (h : Packed lo hi runs) (e : runs.Perm others) : Packed lo hi others where
  within r hr := h.within r (e.mem_iff.2 hr)
  disjoint := e.pairwise h.disjoint PageRun.Disjoint.symm

theorem sublist (h : Packed lo hi runs) (e : List.Sublist others runs) : Packed lo hi others where
  within r hr := h.within r (e.subset hr)
  disjoint := h.disjoint.sublist e

theorem tail (h : Packed lo hi (r :: runs)) : Packed lo hi runs :=
  h.sublist (List.sublist_cons_self ..)

theorem raise {hi' : Nat} (h : Packed lo hi runs) (le : hi ≤ hi') : Packed lo hi' runs where
  within r hr := { h.within r hr with le_hi := Nat.le_trans (h.within r hr).le_hi le }
  disjoint := h.disjoint

theorem cons (h : Packed lo hi runs) (hr : r.Within lo hi) (apart : ∀ s ∈ runs, r.Disjoint s) :
    Packed lo hi (r :: runs) where
  within := List.forall_mem_cons.2 ⟨hr, h.within⟩
  disjoint := List.pairwise_cons.2 ⟨apart, h.disjoint⟩

theorem not_disjoint_self (h : Packed lo hi runs) (hr : r ∈ runs) : ¬ r.Disjoint r := by
  have pos := (h.within r hr).pos
  obtain ⟨a, n⟩ := r
  rw [PageRun.Disjoint, PageRun.stop_mk]
  dsimp only at pos ⊢
  omega

theorem nodup (h : Packed lo hi runs) : runs.Nodup := by
  refine h.disjoint.imp_of_mem fun {r s} hr _ apart e => ?_
  exact h.not_disjoint_self hr (e ▸ apart)

theorem disjoint_of_ne (h : Packed lo hi runs) (hr : r ∈ runs) (hs : s ∈ runs) (ne : r ≠ s) :
    r.Disjoint s := by
  obtain ⟨pre, post, rfl⟩ := List.append_of_mem hr
  have p : Packed lo hi (r :: (pre ++ post)) := h.perm List.perm_middle
  have hs' : s ∈ pre ++ post :=
    (List.mem_cons.1 (List.perm_middle.mem_iff.1 hs)).resolve_left ne.symm
  exact (List.pairwise_cons.1 p.disjoint).1 s hs'

theorem eq_of_start (h : Packed lo hi runs) (hr : r ∈ runs) (hs : s ∈ runs)
    (e : r.start = s.start) : r = s := by
  by_contra ne
  have apart := h.disjoint_of_ne hr hs ne
  have h₁ := (h.within r hr).pos
  have h₂ := (h.within s hs).pos
  obtain ⟨a, m⟩ := r
  obtain ⟨b, n⟩ := s
  cases e
  rw [PageRun.Disjoint, PageRun.stop_mk, PageRun.stop_mk] at apart
  dsimp only at apart h₁ h₂
  omega

/-- Neighbours can be joined. -/
theorem join {a m n : Nat} (h : Packed lo hi (⟨a, m⟩ :: ⟨a + m * 4096, n⟩ :: runs)) :
    Packed lo hi (⟨a, n + m⟩ :: runs) := by
  have ⟨_, lo_le, _, aligned⟩ := h.within ⟨a, m⟩ (by simp)
  have ⟨pos, _, le_hi, _⟩ := h.within ⟨a + m * 4096, n⟩ (by simp)
  have stop_eq : PageRun.stop ⟨a, n + m⟩ = PageRun.stop ⟨a + m * 4096, n⟩ := by
    rw [PageRun.stop_mk, PageRun.stop_mk]
    omega
  refine h.tail.tail.cons ⟨Nat.add_pos_left pos _, lo_le, stop_eq ▸ le_hi, aligned⟩ ?_
  intro t ht
  have h₁ := (List.pairwise_cons.1 h.disjoint).1 t (List.mem_cons_of_mem _ ht)
  have h₂ := (List.pairwise_cons.1 h.tail.disjoint).1 t ht
  exact PageRun.Disjoint.join (h.within t (by simp [ht])).pos h₁ h₂

/-- A run can be cut in two. -/
theorem cut {a k n : Nat} (h : Packed lo hi (⟨a, k⟩ :: runs)) (pos : 0 < n) (lt : n < k) :
    Packed lo hi (⟨a, n⟩ :: ⟨a + n * 4096, k - n⟩ :: runs) := by
  have ⟨_, lo_le, le_hi, aligned⟩ := h.within ⟨a, k⟩ (by simp)
  have apart := (List.pairwise_cons.1 h.disjoint).1
  have stop_eq : PageRun.stop ⟨a + n * 4096, k - n⟩ = PageRun.stop ⟨a, k⟩ := by
    rw [PageRun.stop_mk, PageRun.stop_mk]
    omega
  have stop_le : PageRun.stop ⟨a, n⟩ ≤ PageRun.stop ⟨a, k⟩ := by
    rw [PageRun.stop_mk, PageRun.stop_mk]
    omega
  have tail : Packed lo hi (⟨a + n * 4096, k - n⟩ :: runs) := by
    refine h.tail.cons ⟨Nat.sub_pos_of_lt lt, ?_, stop_eq ▸ le_hi, ?_⟩ fun t ht => ?_
    · exact Nat.le_trans lo_le (Nat.le_add_right ..)
    · exact Nat.dvd_add aligned (Nat.dvd_mul_left ..)
    · rcases apart t ht with le | le
      · exact .inl (stop_eq ▸ le)
      · exact .inr (Nat.le_trans le (Nat.le_add_right ..))
  refine tail.cons ⟨pos, lo_le, Nat.le_trans stop_le le_hi, aligned⟩ fun t ht => ?_
  rcases List.mem_cons.1 ht with rfl | ht
  · exact .inl (Nat.le_refl _)
  · exact (apart t ht).imp_left (Nat.le_trans stop_le)

end Packed

/-! ## Free runs -/

namespace FreeRuns

variable {lo hi : Nat} {runs : FreeRuns} {r : PageRun}

theorem erase_perm (h : Packed lo hi runs) (hr : r ∈ runs) :
    runs.Perm (r :: FreeRuns.erase runs r.start) := by
  have absent : r ∉ FreeRuns.erase runs r.start := by simp [FreeRuns.erase]
  have nodup : (FreeRuns.erase runs r.start).Nodup := h.nodup.filter _
  refine (List.perm_ext_iff_of_nodup h.nodup (List.nodup_cons.2 ⟨absent, nodup⟩)).2 fun s => ?_
  simp only [List.mem_cons, FreeRuns.erase, List.mem_filter, bne_iff_ne]
  constructor
  · intro hs
    by_cases e : s.start = r.start
    · exact .inl (h.eq_of_start hs hr e)
    · exact .inr ⟨hs, e⟩
  · rintro (rfl | ⟨hs, -⟩)
    · exact hr
    · exact hs

theorem insert_perm (ne : ∀ s ∈ runs, r.start ≠ s.start) :
    (FreeRuns.insert r runs).Perm (r :: runs) := by
  induction runs with
  | nil => exact .refl _
  | cons s rest ih =>
    unfold FreeRuns.insert
    split
    · exact .refl _
    · rw [if_neg (ne s (by simp))]
      refine (List.Perm.cons s (ih fun t ht => ne t (by simp [ht]))).trans ?_
      exact List.Perm.swap ..

/-- Inserting a run that meets no other one. -/
theorem insert_packed {others : List PageRun} (h : Packed lo hi (r :: runs ++ others)) :
    Packed lo hi (FreeRuns.insert r runs ++ others) := by
  refine h.perm (List.Perm.append_right _ (insert_perm fun s hs e => ?_)).symm
  have eq := h.eq_of_start (r := r) (s := s) (by simp) (by simp [hs]) e
  exact (List.nodup_cons.1 h.nodup).1 (eq ▸ by simp [hs])

theorem mem_of_before? {a : Address} (h : FreeRuns.before? runs a = some r) : r ∈ runs :=
  (List.takeWhile_sublist _).subset (List.mem_of_getLast? h)

theorem of_at? {a : Address} (h : FreeRuns.at? runs a = some r) : r ∈ runs ∧ r.start = a :=
  ⟨List.mem_of_find?_eq_some h, by simpa using List.find?_some h⟩

theorem of_firstFit? {n : Nat} (h : FreeRuns.firstFit? runs n = some r) : r ∈ runs ∧ n ≤ r.pages :=
  ⟨List.mem_of_find?_eq_some h, by simpa using List.find?_some h⟩

end FreeRuns

namespace PagePool

variable {p p' : PagePool} {out : List PageRun}

theorem contains_iff {a : Address} : p.contains a = true ↔ p.start ≤ a ∧ a < p.limit := by
  rw [contains, Bool.and_eq_true, decide_eq_true_eq, decide_eq_true_eq]

theorem contains_congr (start : p'.start = p.start) (limit : p'.limit = p.limit) (a : Address) :
    p'.contains a = p.contains a := by
  rw [contains, contains, start, limit]

theorem not_contains_of_lt {a : Address} (lt : a < p.start) : p.contains a = false :=
  Bool.eq_false_iff.2 fun inside => Nat.not_le_of_lt lt (contains_iff.1 inside).1

/-- The pool has handed out these runs. -/
structure Accounts (p : PagePool) (out : List PageRun) : Prop where
  limit_lt : p.limit < Word.limit
  start_le : p.start ≤ p.cursor
  cursor_le : p.cursor ≤ p.limit
  cursor_aligned : bytesPerPage ∣ p.cursor
  packed : Packed p.start p.cursor (p.free ++ out)
  reserved : p.usage.reserved = (out.map (·.pages)).sum

/-- The pool of a range whose pages are all fresh. -/
theorem Accounts.fresh {start limit : Nat} (lt : limit < Word.limit) (le : start ≤ limit)
    (aligned : bytesPerPage ∣ start) :
    Accounts { start, limit, cursor := start } [] where
  limit_lt := lt
  start_le := Nat.le_refl _
  cursor_le := le
  cursor_aligned := aligned
  packed := ⟨fun _ hr => absurd hr List.not_mem_nil, List.Pairwise.nil⟩
  reserved := rfl

theorem Accounts.perm {out' : List PageRun} (h : p.Accounts out) (e : out.Perm out') :
    p.Accounts out' :=
  { h with
    packed := h.packed.perm (e.append_left _)
    reserved := h.reserved.trans (e.map _).sum_eq }

/-- No run that was handed out starts where another one does. -/
theorem Accounts.start_ne {r x : PageRun} (h : p.Accounts (r :: out)) (hx : x ∈ out) :
    x.start ≠ r.start := by
  intro eq
  have both := h.packed.sublist (List.sublist_append_right _ _)
  -- runs that start at the same address are one run, which is not apart from itself
  have same := both.eq_of_start List.mem_cons_self (List.mem_cons_of_mem _ hx) eq.symm
  have disjoint := (List.pairwise_cons.1 both.disjoint).1 _ hx
  rw [← same] at disjoint
  exact both.not_disjoint_self List.mem_cons_self disjoint

theorem runEnd_eq {r : PageRun} (h : r.stop < Word.limit) :
    runEnd r.start r.pages = .ok r.stop := by
  obtain ⟨a, n⟩ := r
  rw [PageRun.stop_mk] at h ⊢
  have : n * 4096 < Word.limit := Nat.lt_of_le_of_lt (Nat.le_add_left ..) h
  simp [runEnd, Word.mul, Word.add, this, h]

variable {lo hi : Nat} {free : FreeRuns} {r s : PageRun} {others : List PageRun}

theorem add_pages (h : Packed lo hi (r :: free ++ others)) (hs : s ∈ free) (lt : hi < Word.limit) :
    Word.add r.pages s.pages = .ok (r.pages + s.pages) := by
  have h₁ := (h.within r (by simp)).le_hi
  have h₂ := (h.within s (by simp [hs])).le_hi
  have : r.pages + s.pages < Word.limit := by
    obtain ⟨a, m⟩ := r
    obtain ⟨b, n⟩ := s
    rw [PageRun.stop_mk] at h₁ h₂
    dsimp only [Word.limit] at *
    omega
  simp [Word.add, this]

/-- Joining with the run before keeps the runs packed. -/
theorem joinBefore_eq (h : Packed lo hi (r :: free ++ others)) (lt : hi < Word.limit) :
    ∃ free' r', joinBefore free r = .ok (free', r') ∧ Packed lo hi (r' :: free' ++ others) := by
  unfold joinBefore
  split
  · exact ⟨free, r, rfl, h⟩
  · next prev e =>
    have hp := FreeRuns.mem_of_before? e
    have le := (h.within prev (by simp [hp])).le_hi
    rw [runEnd_eq (Nat.lt_of_le_of_lt le lt), Except.ok_bind]
    split
    · next meet =>
      rw [add_pages h hp lt, Except.ok_bind]
      refine ⟨_, _, rfl, Packed.join (h.perm (List.Perm.trans ?_ (List.Perm.swap ..)))⟩
      obtain ⟨a, n⟩ := r
      cases meet
      have := FreeRuns.erase_perm (h.tail.sublist (List.sublist_append_left ..)) hp
      exact (this.append_right others).cons _
    · exact ⟨free, r, rfl, h⟩

/-- Joining with the run after keeps the runs packed. -/
theorem joinAfter_eq (h : Packed lo hi (r :: free ++ others)) (lt : hi < Word.limit) :
    ∃ free' r', joinAfter free r = .ok (free', r') ∧ Packed lo hi (r' :: free' ++ others) := by
  unfold joinAfter
  have le := (h.within r (by simp)).le_hi
  rw [runEnd_eq (Nat.lt_of_le_of_lt le lt), Except.ok_bind]
  split
  · exact ⟨free, r, rfl, h⟩
  · next next e =>
    obtain ⟨hn, meet⟩ := FreeRuns.of_at? e
    rw [add_pages h hn lt, Except.ok_bind]
    have := FreeRuns.erase_perm (h.tail.sublist (List.sublist_append_left ..)) hn
    have joined := h.perm ((this.append_right others).cons r)
    obtain ⟨a, n⟩ := next
    cases meet
    refine ⟨_, _, rfl, ?_⟩
    rw [Nat.add_comm]
    exact joined.join

/-- What lies below the end of the highest run lies below its start. -/
theorem lower {runs : List PageRun} (h : Packed lo hi (r :: runs)) (top : r.stop = hi) :
    Packed lo r.start runs where
  within s hs := by
    have ws := h.within s (List.mem_cons_of_mem _ hs)
    refine { ws with le_hi := ?_ }
    rcases (List.pairwise_cons.1 h.disjoint).1 s hs with le | le
    · have le' : s.start + s.pages * 4096 ≤ s.start :=
        Nat.le_trans ws.le_hi (top ▸ le)
      have := Nat.mul_pos ws.pos (show 0 < 4096 by decide)
      exact absurd le' (Nat.not_le_of_lt (Nat.lt_add_of_pos_right this))
    · exact le
  disjoint := h.tail.disjoint

/-- A run that was handed out starts in the range of the pool. -/
theorem Accounts.contains_start (h : p.Accounts (r :: out)) : p.contains r.start = true := by
  have ⟨pos, lo_le, le_hi, _⟩ := h.packed.within r (by simp)
  have below : r.start < r.start + r.pages * 4096 :=
    Nat.lt_add_of_pos_right (Nat.mul_pos pos (by decide))
  exact contains_iff.2 ⟨lo_le, Nat.lt_of_lt_of_le (Nat.lt_of_lt_of_le below le_hi) h.cursor_le⟩

/-- A run that was handed out can be given back. -/
theorem Accounts.release_eq (h : p.Accounts (r :: out)) :
    ∃ p', p.release r.start r.pages = .ok p' ∧ p'.Accounts out ∧ p'.start = p.start ∧
      p'.limit = p.limit := by
  have lt : p.cursor < Word.limit := Nat.lt_of_le_of_lt h.cursor_le h.limit_lt
  have counted : p.usage.reserved = r.pages + (out.map (·.pages)).sum := by
    rw [h.reserved, List.map_cons, List.sum_cons]
  have usage : p.usage.release r.pages =
      .ok { p.usage with reserved := p.usage.reserved - r.pages } := by
    simp [PageUsage.release, require, counted]
  have packed : Packed p.start p.cursor (r :: p.free ++ out) := h.packed.perm List.perm_middle
  obtain ⟨free₁, r₁, e₁, packed₁⟩ := joinBefore_eq packed lt
  obtain ⟨free₂, r₂, e₂, packed₂⟩ := joinAfter_eq packed₁ lt
  have w₂ := packed₂.within r₂ (by simp)
  have reserved : p.usage.reserved - r.pages = (out.map (·.pages)).sum := by omega
  unfold release
  rw [h.contains_start, require, if_pos rfl, Except.ok_bind, e₁, Except.ok_bind]
  dsimp only
  rw [e₂, Except.ok_bind]
  dsimp only
  rw [runEnd_eq (Nat.lt_of_le_of_lt w₂.le_hi lt), Except.ok_bind, usage, Except.ok_bind]
  split
  · next top =>
    refine ⟨_, rfl, ?_, rfl, rfl⟩
    have packed₃ : Packed p.start r₂.start (free₂ ++ out) := lower packed₂ top
    exact {
      limit_lt := h.limit_lt
      start_le := w₂.lo_le
      cursor_le := Nat.le_trans (Nat.le_add_right ..) (Nat.le_trans w₂.le_hi h.cursor_le)
      cursor_aligned := w₂.aligned
      packed := packed₃
      reserved }
  · exact ⟨_, rfl, { h with packed := FreeRuns.insert_packed packed₂, reserved }, rfl, rfl⟩

theorem pagesToBytes_eq {pages : Nat} (h : pages * bytesPerPage < Word.limit) :
    pagesToBytes pages = pages * bytesPerPage := Nat.mod_eq_of_lt h

theorem reserved_of_reserve {u u' : PageUsage} {pages : Nat}
    (h : u.reserved = (out.map (·.pages)).sum) (e : u.reserve pages = .ok u') {start : Address} :
    u'.reserved = (((⟨start, pages⟩ : PageRun) :: out).map (·.pages)).sum := by
  obtain ⟨now, sum, e⟩ := Except.bind_eq_ok.1 e
  cases e
  obtain ⟨-, rfl⟩ := Word.add_eq_ok.1 sum
  simp [h, Nat.add_comm]

/-- The front of a free run is taken out, and the rest of it stays free. -/
theorem takeFree_eq {pages : Nat} (h : Packed lo hi (p.free ++ out)) (lt : hi < Word.limit)
    (hr : r ∈ p.free) (pos : 0 < pages) (le : pages ≤ r.pages) :
    ∃ free', p.takeFree r pages = .ok { p with free := free' } ∧
      Packed lo hi (free' ++ ⟨r.start, pages⟩ :: out) := by
  have le_hi := (h.within r (by simp [hr])).le_hi
  have erased := FreeRuns.erase_perm (h.sublist (List.sublist_append_left ..)) hr
  have packed : Packed lo hi (r :: (FreeRuns.erase p.free r.start ++ out)) :=
    h.perm (erased.append_right out)
  unfold takeFree
  split
  · next less =>
    have bytes : pages * bytesPerPage ≤ r.pages * bytesPerPage := Nat.mul_le_mul_right _ le
    have inside : r.start + pages * bytesPerPage ≤ hi :=
      Nat.le_trans (Nat.add_le_add_left bytes _) le_hi
    have fits : pages * bytesPerPage < Word.limit :=
      Nat.lt_of_le_of_lt (Nat.le_trans (Nat.le_add_left ..) inside) lt
    have rest : Word.add r.start (pagesToBytes pages) = .ok (r.start + pages * bytesPerPage) := by
      rw [pagesToBytes_eq fits, Word.add, if_pos (Nat.lt_of_le_of_lt inside lt)]
    rw [rest, Except.ok_bind]
    have cut := Packed.cut packed pos less
    refine ⟨_, rfl, Packed.perm ?_ List.perm_middle.symm⟩
    have := FreeRuns.insert_packed (cut.perm (List.Perm.swap ..) |>.perm
      (List.Perm.cons _ List.perm_middle.symm))
    exact this.perm List.perm_middle
  · next less =>
    have e : r.pages = pages := Nat.le_antisymm (Nat.le_of_not_lt less) le
    subst e
    exact ⟨_, rfl, packed.perm List.perm_middle.symm⟩

/-- Fresh pages are handed out. -/
theorem Accounts.raise {pages : Nat} {usage : PageUsage} (h : p.Accounts out) (pos : 0 < pages)
    (fits : p.cursor + pages * bytesPerPage ≤ p.limit)
    (reserved : usage.reserved = (((⟨p.cursor, pages⟩ : PageRun) :: out).map (·.pages)).sum) :
    Accounts { p with cursor := p.cursor + pages * bytesPerPage, usage }
      (⟨p.cursor, pages⟩ :: out) := by
  have le : p.cursor ≤ p.cursor + pages * bytesPerPage := Nat.le_add_right ..
  exact {
    limit_lt := h.limit_lt
    start_le := Nat.le_trans h.start_le le
    cursor_le := fits
    cursor_aligned := Nat.dvd_add h.cursor_aligned (Nat.dvd_mul_left ..)
    packed := by
      refine Packed.perm ?_ List.perm_middle.symm
      refine (h.packed.raise le).cons ⟨pos, h.start_le, Nat.le_refl _, h.cursor_aligned⟩ ?_
      exact fun s hs => .inr (h.packed.within s hs).le_hi
    reserved }

/-- A run that is handed out meets no other one. -/
theorem Accounts.of_acquire {pages : Nat} {a : Option Address} (h : p.Accounts out)
    (fits : pages * bytesPerPage < Word.limit) (e : p.acquire pages = .ok (a, p')) :
    (∀ start, a = some start → p'.Accounts (⟨start, pages⟩ :: out)) ∧ (a = none → p' = p) ∧
      p'.start = p.start ∧ p'.limit = p.limit := by
  unfold acquire at e
  obtain ⟨_, enough, e⟩ := Except.bind_eq_ok.1 e
  have pos : 0 < pages := by
    unfold require at enough
    split at enough
    · next c => simpa using c
    · cases enough
  split at e
  · next run found =>
    obtain ⟨hr, le⟩ := FreeRuns.of_firstFit? found
    obtain ⟨taken, e₁, e⟩ := Except.bind_eq_ok.1 e
    obtain ⟨usage, e₂, e⟩ := Except.bind_eq_ok.1 e
    have lt : p.cursor < Word.limit := Nat.lt_of_le_of_lt h.cursor_le h.limit_lt
    obtain ⟨free', e₃, packed⟩ := takeFree_eq h.packed lt hr pos le
    rw [e₃] at e₁
    cases e₁
    cases e
    refine ⟨fun start eq => ?_, by simp, rfl, rfl⟩
    cases eq
    exact { h with packed, reserved := reserved_of_reserve h.reserved e₂ }
  · obtain ⟨fresh, e₁, e⟩ := Except.bind_eq_ok.1 e
    split at e
    · cases e
      exact ⟨by simp, fun _ => rfl, rfl, rfl⟩
    · next enough =>
      obtain ⟨cursor, e₂, e⟩ := Except.bind_eq_ok.1 e
      obtain ⟨usage, e₃, e⟩ := Except.bind_eq_ok.1 e
      cases e
      refine ⟨fun start eq => ?_, by simp, rfl, rfl⟩
      cases eq
      have left : p.limit - p.cursor = fresh := by
        rw [distance, if_pos h.cursor_le] at e₁
        cases e₁
        rfl
      rw [pagesToBytes_eq fits] at enough e₂
      obtain ⟨-, rfl⟩ := Word.add_eq_ok.1 e₂
      have below : p.cursor + pages * bytesPerPage ≤ p.limit := by
        have h₁ : p.limit - p.cursor + p.cursor = p.limit := Nat.sub_add_cancel h.cursor_le
        rw [Nat.add_comm, ← h₁, left]
        exact Nat.add_le_add_right (Nat.le_of_not_lt enough) _
      exact h.raise pos below (reserved_of_reserve h.reserved e₃)

end PagePool

end DeferredCount
