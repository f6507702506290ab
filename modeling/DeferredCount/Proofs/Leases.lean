import DeferredCount.Proofs.Aligning
import DeferredCount.Proofs.Allocating
import Mathlib.Data.List.Pairwise

/-!
# The pages of large objects

The space of large objects has taken exactly the pages of its cells from its pool: those that wait
for an object, and those on its list. So no two cells meet, and registering an object only moves its
cell from one group to the other. A block lies in a cell of its own, which ends when the object at
the start of the block is freed.

Results:
1. `LargeSpace.Kept.addPending`, `LargeSpace.Kept.enlist`, `LargeSpace.Kept.of_free`: what handing
   out pages, registering an object and freeing one leave.
2. `LargeSpace.Leased.pairwise`, `LargeSpace.Leased.inside`: no two blocks meet, and all lie in the
   range of the space.
3. `LargeSpace.Leased.of_allocatePages`, `LargeSpace.Leased.of_registerLarge`,
   `LargeSpace.Leased.of_freeLarge`: what the operations on the heap do to the blocks.
-/

namespace DeferredCount

/-! ## Cells that wait, and listed ones -/

namespace LargeSpace

variable {s s' : LargeSpace} {o : Ref} {a : Address} {n pages : Nat}
  {pre post : List (Address × LargeCell)} {c : Address × LargeCell} {pool : PagePool}
  {b x : Block} {blocks : List Block}

section Pending

variable {t : Std.ExtTreeMap Address Nat compare}

theorem nodup_pending (t : Std.ExtTreeMap Address Nat compare) : t.toList.Nodup :=
  Std.ExtTreeMap.distinct_keys_toList.imp fun {p q} ne eq => ne (by simp [eq])

/-- The entries of a map, and the one that is taken out of it. -/
theorem pending_perm_erase (found : t.get? a = some n) :
    t.toList.Perm ((a, n) :: (t.erase a).toList) := by
  refine (List.perm_ext_iff_of_nodup (nodup_pending _)
    (List.nodup_cons.2 ⟨?_, nodup_pending _⟩)).2 ?_
  · simp [Std.ExtTreeMap.mem_toList_iff_getElem?_eq_some]
  · rintro ⟨k, m⟩
    rw [List.mem_cons, Std.ExtTreeMap.mem_toList_iff_getElem?_eq_some,
      Std.ExtTreeMap.mem_toList_iff_getElem?_eq_some, Std.ExtTreeMap.getElem?_erase]
    rw [Std.ExtTreeMap.get?_eq_getElem?] at found
    by_cases eq : a = k
    · subst eq
      simp [found, eq_comm]
    · simp [eq, Ne.symm eq]

/-- The entries of a map, and one for a new key. -/
theorem pending_perm_insert (new : t.get? a = none) (n : Nat) :
    (t.insert a n).toList.Perm ((a, n) :: t.toList) := by
  have there : (t.insert a n).get? a = some n := by simp
  have back : (t.insert a n).erase a = t := by
    refine Std.ExtTreeMap.ext_getElem? fun k => ?_
    rw [Std.ExtTreeMap.get?_eq_getElem?] at new
    rw [Std.ExtTreeMap.getElem?_erase, Std.ExtTreeMap.getElem?_insert]
    by_cases eq : a = k
    · subst eq
      simp [new]
    · simp [eq]
  have perm := pending_perm_erase there
  rwa [back] at perm

end Pending

/-- The pool of the space has handed out exactly the pages of its cells. The listed cells form a
list, and an object starts in the first page of its cell. -/
structure Kept (s : LargeSpace) : Prop where
  pool : s.pages.Accounts s.runs
  cells : s.cells.Represents s.cells.toList
  cell_eq : ∀ c ∈ s.cells.toList, c.1 = cellOf c.2.object

theorem mem_runs_of_pending (found : s.pending.get? a = some n) : ⟨a, n⟩ ∈ s.runs :=
  List.mem_append_right _ (List.mem_map.2
    ⟨(a, n), Std.ExtTreeMap.mem_toList_iff_getElem?_eq_some.2 found, rfl⟩)

namespace Kept

/-- Pages that were handed out wait for an object. -/
theorem addPending (k : s.Kept) (taken : pool.Accounts (⟨a, n⟩ :: s.runs)) :
    ({ s with pages := pool }.addPending a n).Kept ∧
      ({ s with pages := pool }.addPending a n).runs.Perm (⟨a, n⟩ :: s.runs) := by
  have new : s.pending.get? a = none := by
    cases found : s.pending.get? a with
    | none => rfl
    | some m =>
      have mine : (⟨a, m⟩ : PageRun) ∈ s.runs := mem_runs_of_pending found
      exact (taken.start_ne mine rfl).elim
  have perm : ({ s with pages := pool }.addPending a n).runs.Perm (⟨a, n⟩ :: s.runs) :=
    (((pending_perm_insert new n).map _).append_left _).trans List.perm_middle
  exact ⟨⟨taken.perm perm.symm, k.cells, k.cell_eq⟩, perm⟩

/-- An object that starts in the first page of a waiting cell can be registered. Its cell becomes
the first one of the list. -/
theorem enlist (k : s.Kept) (found : s.pending.get? (cellOf o) = some n) :
    ∃ claimed s', s.claim o = .ok (n, claimed) ∧ claimed.link o n = .ok s' ∧ s'.Kept ∧
      s'.cells.toList = (cellOf o, ⟨o, n⟩) :: s.cells.toList ∧ s'.runs.Perm s.runs ∧
      s'.pages = s.pages ∧ s'.pending = s.pending.erase (cellOf o) := by
  have taken : s.runs.Perm (⟨cellOf o, n⟩ :: ((s.cells.toList.map fun c => ⟨c.1, c.2.pages⟩) ++
      (s.pending.erase (cellOf o)).toList.map fun c => ⟨c.1, c.2⟩)) :=
    (((pending_perm_erase found).map _).append_left _).trans List.perm_middle
  have new : cellOf o ∉ s.cells.toList.map (·.1) := fun ho => by
    obtain ⟨c, hc, eq⟩ := List.mem_map.1 ho
    have run : (⟨c.1, c.2.pages⟩ : PageRun) ∈ s.cells.toList.map fun c => ⟨c.1, c.2.pages⟩ :=
      List.mem_map.2 ⟨c, hc, rfl⟩
    exact (k.pool.perm taken).start_ne (List.mem_append_left _ run) eq
  obtain ⟨cells, added, linked⟩ := k.cells.add_eq new ⟨o, n⟩
  have listed := linked.toList_eq
  refine ⟨{ s with pending := s.pending.erase (cellOf o) },
    { s with pending := s.pending.erase (cellOf o), cells }, ?_, ?_, ?_, listed, ?_, rfl, rfl⟩
  · rw [claim, found]
  · rw [link, added]
    rfl
  · refine ⟨k.pool.perm (taken.trans (.of_eq ?_)), listed.symm ▸ linked, fun c hc => ?_⟩
    · rw [runs, listed]
      rfl
    · rw [listed] at hc
      rcases List.mem_cons.1 hc with rfl | hc
      · rfl
      · exact k.cell_eq c hc
  · refine .trans (.of_eq ?_) taken.symm
    rw [runs, listed]
    rfl

theorem of_claim (k : s.Kept) {claimed : LargeSpace} (e : s.claim o = .ok (n, claimed))
    (e' : claimed.link o n = .ok s') :
    s.pending.get? (cellOf o) = some n ∧ s'.Kept ∧
      s'.cells.toList = (cellOf o, ⟨o, n⟩) :: s.cells.toList ∧ s'.runs.Perm s.runs ∧
      s'.pages = s.pages := by
  cases found : s.pending.get? (cellOf o) with
  | none =>
    rw [claim, found] at e
    cases e
  | some m =>
    obtain ⟨claimed', s₁, claim, link, kept, listed, perm, pages, -⟩ := k.enlist found
    cases e.symm.trans claim
    cases e'.symm.trans link
    exact ⟨rfl, kept, listed, perm, pages⟩

/-- A listed object is freed, and its cell is gone. -/
theorem of_free (k : s.Kept) {unlinked : LargeSpace} (e : s.unlink o = .ok (pages, unlinked))
    (e' : unlinked.releaseCell (cellOf o) pages = .ok s') :
    o ∈ s.objects ∧ s'.Kept ∧ s.runs.Perm (⟨cellOf o, pages⟩ :: s'.runs) ∧
      (∀ x ∈ s'.objects, x ∈ s.objects ∧ x ≠ o) ∧ s'.pages.start = s.pages.start ∧
      s'.pages.limit = s.pages.limit := by
  obtain ⟨pre, c, post, split, rfl⟩ := of_unlink k.cells e
  have hc : c ∈ s.cells.toList := split ▸ by simp
  have cell := k.cell_eq c hc
  obtain ⟨unlinked', s₁, run, run', represents, accounts, start, limit, pending⟩ :=
    free_eq (split ▸ k.cells) cell k.pool
  cases e.symm.trans run
  cases e'.symm.trans run'
  have listed := represents.toList_eq
  have taken : s.runs.Perm (⟨cellOf c.2.object, c.2.pages⟩ :: s'.runs) := by
    rw [runs, split, runs, listed, pending, ← cell]
    simp only [List.map_append, List.map_cons, List.append_assoc, List.cons_append]
    exact List.perm_middle
  refine ⟨List.mem_map_of_mem hc, ⟨accounts, listed.symm ▸ represents, fun d hd => ?_⟩, taken,
    fun x hx => ?_, start, limit⟩
  · rw [listed] at hd
    exact k.cell_eq d (split ▸ (List.sublist_cons_self c post).append_left pre |>.mem hd)
  · obtain ⟨d, hd, rfl⟩ := List.mem_map.1 hx
    rw [listed] at hd
    have old : d ∈ s.cells.toList :=
      split ▸ ((List.sublist_cons_self c post).append_left pre).mem hd
    refine ⟨List.mem_map_of_mem old, fun eq => ?_⟩
    -- the address of a cell occurs once, and the cell of an object is known from the object
    have nodup := k.cells.nodup
    rw [split, List.map_append, List.map_cons, List.nodup_middle] at nodup
    refine (List.nodup_cons.1 nodup).1 ?_
    rw [cell, ← eq, ← k.cell_eq d old, ← List.map_append]
    exact List.mem_map_of_mem hd

end Kept

/-! ## Blocks in cells -/

/-- The blocks lie in cells of their own. A listed object is that of a block. -/
structure Leased (s : LargeSpace) (blocks : List Block) : Prop where
  kept : s.Kept
  holds : ∀ b ∈ blocks, ∃ r ∈ s.runs, r.start = cellOf b.object ∧ b.stop ≤ r.stop
  apart : blocks.Pairwise fun b x => cellOf b.object ≠ cellOf x.object
  listed : ∀ o ∈ s.objects, ∃ b ∈ blocks, b.object = o

namespace Leased

/-- A space that has handed out no page. -/
theorem fresh (accounts : pool.Accounts []) : ({ pages := pool } : LargeSpace).Leased [] := by
  have empty : ({} : CellList LargeCell).Represents [] := CellList.represents_empty
  have none : ({ pages := pool } : LargeSpace).cells.toList = [] := empty.toList_eq
  refine ⟨⟨?_, none.symm ▸ empty, fun c hc => ?_⟩, nofun, .nil, fun o ho => ?_⟩
  · rw [runs, none]
    exact accounts
  · exact absurd (none ▸ hc) List.not_mem_nil
  · rw [objects, none] at ho
    exact absurd ho List.not_mem_nil

theorem packed (l : s.Leased blocks) : Packed s.pages.start s.pages.cursor s.runs :=
  l.kept.pool.packed.sublist (List.sublist_append_right _ _)

theorem pairwise (l : s.Leased blocks) : blocks.Pairwise Block.Disjoint := by
  refine l.apart.imp_of_mem fun {b x} hb hx ne => ?_
  obtain ⟨r, hr, start, stop⟩ := l.holds b hb
  obtain ⟨q, hq, start', stop'⟩ := l.holds x hx
  have other : r ≠ q := fun eq => ne (by rw [← start, ← start', eq])
  refine (l.packed.disjoint_of_ne hr hq other).imp (fun le => ?_) fun le => ?_
  · exact Nat.le_trans stop (Nat.le_trans le (start' ▸ pageStart_le x.place))
  · exact Nat.le_trans stop' (Nat.le_trans le (start ▸ pageStart_le b.place))

/-- A block lies in the range of the space. -/
theorem inside (l : s.Leased blocks) (hb : b ∈ blocks) :
    s.pages.start ≤ b.place ∧ b.stop ≤ s.pages.limit := by
  obtain ⟨r, hr, start, stop⟩ := l.holds b hb
  have within := l.packed.within r hr
  exact ⟨Nat.le_trans within.lo_le (start ▸ pageStart_le b.place),
    Nat.le_trans stop (Nat.le_trans within.le_hi l.kept.pool.cursor_le)⟩

/-- Blocks in the same cell are the same. -/
theorem eq_of_cell (l : s.Leased blocks) (hb : b ∈ blocks) (hx : x ∈ blocks)
    (eq : cellOf b.object = cellOf x.object) : b = x := by
  by_contra ne
  have : Std.Symm fun b x : Block => cellOf b.object ≠ cellOf x.object := ⟨fun _ _ h => h.symm⟩
  exact l.apart.forall hb hx ne eq

/-- A block is put into pages that were handed out for it. -/
theorem addPending (l : s.Leased blocks) (taken : pool.Accounts (⟨a, n⟩ :: s.runs))
    (start : cellOf b.object = a) (stop : b.stop ≤ a + n * bytesPerPage) :
    ({ s with pages := pool }.addPending a n).Leased (b :: blocks) := by
  obtain ⟨kept, perm⟩ := l.kept.addPending taken
  exact {
    kept
    holds := List.forall_mem_cons.2 ⟨⟨⟨a, n⟩, perm.mem_iff.2 List.mem_cons_self, start.symm, stop⟩,
      fun x hx => by
        obtain ⟨r, hr, rest⟩ := l.holds x hx
        exact ⟨r, perm.mem_iff.2 (List.mem_cons_of_mem _ hr), rest⟩⟩
    apart := List.pairwise_cons.2 ⟨fun x hx eq => by
      obtain ⟨r, hr, same, -⟩ := l.holds x hx
      exact taken.start_ne hr (same.trans (eq.symm.trans start)), l.apart⟩
    listed := fun o ho => by
      obtain ⟨x, hx, eq⟩ := l.listed o ho
      exact ⟨x, List.mem_cons_of_mem _ hx, eq⟩ }

end Leased

end LargeSpace

/-! ## Operations on the heap -/

section Operations

variable {h h' : Heap} {o : Ref} {b : Block} {blocks : List Block} {size align offset : Nat}
  {place : Address}

theorem HeapM.registerLarge_eq_ok (e : registerLarge o h = .ok () h') :
    ∃ pages claimed large log, h.large.claim o = .ok (pages, claimed) ∧
      claimed.link o pages = .ok large ∧ h' = { h with large, log } := by
  rw [registerLarge, get_bind_apply] at e
  obtain ⟨⟨pages, claimed⟩, claim, e⟩ := lift_bind_eq_ok.1 e
  dsimp only at e
  rw [emit_bind_apply] at e
  obtain ⟨large, link, e⟩ := lift_bind_eq_ok.1 e
  cases e
  exact ⟨pages, claimed, large, _, claim, link, rfl⟩

theorem HeapM.freeLarge_eq_ok (e : freeLarge o h = .ok () h') :
    ∃ pages unlinked large log, h.large.unlink o = .ok (pages, unlinked) ∧
      unlinked.releaseCell (cellOf o) pages = .ok large ∧ h' = { h with large, log } := by
  rw [freeLarge, get_bind_apply] at e
  obtain ⟨⟨pages, unlinked⟩, unlink, e⟩ := lift_bind_eq_ok.1 e
  dsimp only at e
  rw [emit_bind_apply] at e
  obtain ⟨large, release, e⟩ := lift_bind_eq_ok.1 e
  cases e
  exact ⟨pages, unlinked, large, _, unlink, release, rfl⟩

namespace LargeSpace.Leased

/-- A request is refused, or it is given pages. -/
theorem of_allocatePages (l : h.large.Leased blocks) (ok : Alignable align offset)
    (pos : 0 < h.large.pages.start) (e : allocatePages size align offset h = .ok place h') :
    ∃ large log, h' = { h with large, log } ∧ large.pages.start = h.large.pages.start ∧
      large.pages.limit = h.large.pages.limit ∧
      large.Leased (Block.granted place size align offset ++ blocks) ∧
      ∀ b ∈ Block.granted place size align offset, b.IsAligned := by
  obtain ⟨bytes, pages, cell, pool, log, reserved, enough, fits, got, found⟩ :=
    allocatePages_eq_ok e
  obtain ⟨accounts, none, start, limit⟩ := l.kept.pool.of_acquire fits got
  rcases found with ⟨rfl, rfl, rfl⟩ | ⟨a, rfl, placed, rfl⟩
  · obtain rfl := none rfl
    exact ⟨h.large, log, rfl, rfl, rfl, l, fun b hb => absurd hb List.not_mem_nil⟩
  · have taken := accounts a rfl
    have within := taken.packed.within ⟨a, pages⟩ (by simp)
    obtain ⟨-, le, lt, aligned⟩ := alignPlace_spec ok.supported placed
    have nonzero : place ≠ 0 := Nat.ne_of_gt (Nat.lt_of_lt_of_le pos
      (Nat.le_trans (start ▸ within.lo_le) le))
    -- the padding does not reach the next page
    have first : cellOf ⟨place⟩ = a := pageStart_eq within.aligned le
      (Nat.lt_of_lt_of_le lt (Nat.add_le_add_left
        (Nat.le_trans (SizeClass.align_le_cellSize 0 ok.supported) (by decide)) a))
    rw [Block.granted, if_neg nonzero]
    refine ⟨_, log, rfl, start, limit, l.addPending taken first ?_, fun b hb => ?_⟩
    · exact Nat.le_trans (stop_le_of_reserveSize ok reserved placed) (Nat.add_le_add_left enough a)
    · obtain rfl := List.mem_singleton.1 hb
      exact aligned

/-- An object is registered where a block starts. -/
theorem of_registerLarge (l : h.large.Leased blocks) (hb : b ∈ blocks)
    (e : HeapM.registerLarge b.object h = .ok () h') :
    ∃ large log, h' = { h with large, log } ∧ large.pages = h.large.pages ∧
      large.Leased blocks := by
  obtain ⟨pages, claimed, large, log, claim, link, rfl⟩ := HeapM.registerLarge_eq_ok e
  obtain ⟨-, kept, cells, perm, same⟩ := l.kept.of_claim claim link
  refine ⟨large, log, rfl, same, kept, fun x hx => ?_, l.apart, fun o ho => ?_⟩
  · obtain ⟨r, hr, rest⟩ := l.holds x hx
    exact ⟨r, perm.mem_iff.2 hr, rest⟩
  · rw [objects, cells] at ho
    rcases List.mem_cons.1 ho with rfl | ho
    · exact ⟨b, hb, rfl⟩
    · exact l.listed o ho

/-- The cell of an object that is freed was that of its block alone. -/
theorem of_freeLarge (l : h.large.Leased blocks) (e : HeapM.freeLarge o h = .ok () h') :
    ∃ large log, h' = { h with large, log } ∧ large.pages.start = h.large.pages.start ∧
      large.pages.limit = h.large.pages.limit ∧ large.Leased (blocks.filter (·.object ≠ o)) := by
  obtain ⟨pages, unlinked, large, log, unlink, release, rfl⟩ := HeapM.freeLarge_eq_ok e
  obtain ⟨ho, kept, taken, rest, start, limit⟩ := l.kept.of_free unlink release
  obtain ⟨b, hb, rfl⟩ := l.listed o ho
  refine ⟨large, log, rfl, start, limit, kept, fun x hx => ?_, l.apart.filter _, fun x hx => ?_⟩
  · obtain ⟨hx, ne⟩ := List.mem_filter.1 hx
    obtain ⟨r, hr, same, stop⟩ := l.holds x hx
    refine ⟨r, ?_, same, stop⟩
    refine (List.mem_cons.1 (taken.mem_iff.1 hr)).resolve_left fun eq => ?_
    have cell := same.symm.trans (congrArg PageRun.start eq)
    exact of_decide_eq_true ne (congrArg Block.object (l.eq_of_cell hx hb cell))
  · obtain ⟨old, ne⟩ := rest x hx
    obtain ⟨y, hy, rfl⟩ := l.listed x old
    exact ⟨y, List.mem_filter.2 ⟨hy, decide_eq_true ne⟩, rfl⟩

end LargeSpace.Leased

end Operations

end DeferredCount
