import DeferredCount.Allocator.Basic
import DeferredCount.Proofs.Objects
import DeferredCount.Proofs.Placing

/-!
# Memory that holds no object

Memory that may be handed out is free pages, free cells in the space and in the allocators of the
mutators, and the rest of the block of each bump allocator. `SmallSpace.Stocked`,
`LargeSpace.Stocked` and `PermanentSpace.Stocked` say for each space that this memory meets no
object, and that no two parts of it meet.

Results:
1. `PagePool.Rising.of_acquire`: a pool that never gets pages back hands out fresh ones.
2. `SmallSpace.cells_apart`: no two cells meet.
3. `SmallSpace.Stocked.cut`, `SmallSpace.Stocked.settle`, `SmallSpace.Stocked.of_reclaims`: cutting
   a page into cells, giving a cell to an object, and getting the cells of objects back.
4. `LargeSpace.Stocked.add_eq`, `LargeSpace.Stocked.link`: pages become the cell of an object.
5. `PermanentSpace.Stocked.registered`, `PermanentSpace.Stocked.refill`: cutting an object off a
   block, and taking a new block.
-/

namespace DeferredCount

/-! ## Sizes and places -/

theorem bytesToPages_eq_ok {bytes pages : Nat} (e : bytesToPages bytes = .ok pages) :
    bytes ≤ pages * bytesPerPage ∧ pages * bytesPerPage < Word.limit := by
  obtain ⟨beyond, e₁, e⟩ := Except.bind_eq_ok.1 e
  obtain ⟨lt, rfl⟩ := Word.add_eq_ok.1 e₁
  cases e
  dsimp only [bytesPerPage, Word.limit] at *
  omega

theorem reserveSize_eq_ok {size bytes : Nat} (e : reserveSize size bytesPerWord = .ok bytes) :
    size ≤ bytes := by
  rw [reserveSize, if_neg (by decide)] at e
  obtain ⟨sum, e₁, e⟩ := Except.bind_eq_ok.1 e
  obtain ⟨-, rfl⟩ := Word.add_eq_ok.1 e₁
  cases e
  dsimp only [bytesPerWord, minAlignment]
  omega

/-- A region that starts at a word needs no padding. -/
theorem alignPlace_eq_ok {region place : Nat} (aligned : bytesPerWord ∣ region)
    (e : alignPlace region bytesPerWord 0 = .ok place) : place = region := by
  obtain ⟨_, -, e⟩ := Except.bind_eq_ok.1 e
  obtain ⟨_, -, e⟩ := Except.bind_eq_ok.1 e
  obtain ⟨_, -, e⟩ := Except.bind_eq_ok.1 e
  obtain ⟨skipped, e₁, e⟩ := Except.bind_eq_ok.1 e
  obtain ⟨back, e₂, e₁⟩ := Except.bind_eq_ok.1 e₁
  obtain ⟨gap, e₃, e₁⟩ := Except.bind_eq_ok.1 e₁
  have zero : skipped = 0 := by
    unfold Word.signed at e₂ e₃
    split at e₂
    · split at e₃
      · cases e₂
        cases e₃
        cases e₁
        simp only [Word.toSigned, Word.limit, Word.signLimit, bytesPerWord] at aligned ⊢
        split <;> omega
      · cases e₃
    · cases e₂
  obtain ⟨-, rfl⟩ := Word.add_eq_ok.1 e
  rw [zero, Nat.add_zero]

/-- The address behind the words of an object. -/
def Memory.stop (m : Memory) (o : Ref) : Address := o.addr + (2 + 2 * m.length o) * bytesPerWord

theorem Memory.stop_congr {m m' : Memory} {o : Ref} (length : m'.length o = m.length o) :
    m'.stop o = m.stop o := by
  rw [stop, stop, length]

/-! ## Pools that never get pages back -/

namespace PagePool

/-- No page of the pool was given back: those from the cursor on are fresh, the others in use. -/
structure Rising (p : PagePool) : Prop where
  free : p.free = []
  start_le : p.start ≤ p.cursor
  cursor_le : p.cursor ≤ p.limit
  aligned : bytesPerPage ∣ p.cursor

theorem Rising.of_acquire {p p' : PagePool} {pages : Nat} {a : Option Address} (r : p.Rising)
    (fits : pages * bytesPerPage < Word.limit) (e : p.acquire pages = .ok (a, p')) :
    (a = none ∧ p' = p) ∨ (a = some p.cursor ∧ p'.Rising ∧ p'.start = p.start ∧
      p'.limit = p.limit ∧ p'.cursor = p.cursor + pages * bytesPerPage) := by
  unfold acquire at e
  obtain ⟨_, -, e⟩ := Except.bind_eq_ok.1 e
  rw [r.free] at e
  obtain ⟨fresh, e₁, e⟩ := Except.bind_eq_ok.1 e
  split at e
  · cases e
    exact .inl ⟨rfl, rfl⟩
  · next enough =>
    obtain ⟨cursor, e₂, e⟩ := Except.bind_eq_ok.1 e
    obtain ⟨usage, -, e⟩ := Except.bind_eq_ok.1 e
    cases e
    have left : fresh = p.limit - p.cursor := by
      rw [distance, if_pos r.cursor_le] at e₁
      cases e₁
      rfl
    rw [pagesToBytes_eq fits] at enough e₂
    obtain ⟨-, rfl⟩ := Word.add_eq_ok.1 e₂
    have below := Nat.add_le_of_le_sub' r.cursor_le (left ▸ Nat.le_of_not_lt enough)
    exact .inr ⟨rfl, {
      free := rfl
      start_le := Nat.le_trans r.start_le (Nat.le_add_right ..)
      cursor_le := below
      aligned := Nat.dvd_add r.aligned (Nat.dvd_mul_left ..) }, rfl, rfl, rfl⟩

end PagePool

/-! ## Small objects -/

namespace SizeClass

theorem cellSize_dvd (c : SizeClass) : cellSize c ∣ bytesPerPage := by
  revert c
  decide

theorem cellSize_pos (c : SizeClass) : 0 < cellSize c := by
  revert c
  decide

theorem word_dvd (c : SizeClass) : bytesPerWord ∣ cellSize c := by
  revert c
  decide

theorem cells_fill (c : SizeClass) : cellsPerPage c * cellSize c = bytesPerPage := by
  revert c
  decide

end SizeClass

theorem pageStart_dvd (a : Address) : bytesPerPage ∣ pageStart a := by
  dsimp only [pageStart, bytesPerPage, Address]
  omega

theorem pageStart_le (a : Address) : pageStart a ≤ a := Nat.sub_le ..

theorem lt_pageStart (a : Address) : a < pageStart a + bytesPerPage := by
  dsimp only [pageStart, bytesPerPage, Address]
  omega

/-- Where the page of an address starts. -/
theorem pageStart_eq {page a : Address} (aligned : bytesPerPage ∣ page) (le : page ≤ a)
    (lt : a < page + bytesPerPage) : pageStart a = page := by
  dsimp only [pageStart, bytesPerPage, Address] at *
  omega

/-- Two multiples do not lie closer to each other than the number they are multiples of. -/
theorem dvd_apart {n a b : Nat} (ha : n ∣ a) (hb : n ∣ b) (lt : a < b) : a + n ≤ b := by
  have := Nat.le_of_dvd (Nat.sub_pos_of_lt lt) (Nat.dvd_sub hb ha)
  omega

/-- A cell lies in its page. -/
theorem cell_le {c : SizeClass} {a : Address} (aligned : c.cellSize ∣ a) :
    a + c.cellSize ≤ pageStart a + bytesPerPage :=
  dvd_apart aligned (Nat.dvd_add (Nat.dvd_trans c.cellSize_dvd (pageStart_dvd a)) c.cellSize_dvd)
    (lt_pageStart a)

namespace SmallSpace

variable {s s' : SmallSpace} {m m' : Memory} {spare spare' others : SizeClass → List Address}
  {c d : SizeClass} {a b : Address}

/-- Is the address the start of a cell of the class? -/
structure IsCell (s : SmallSpace) (c : SizeClass) (a : Address) : Prop where
  classOf : s.classOf? a = some c
  aligned : c.cellSize ∣ a

/-- No two cells meet. -/
theorem cells_apart (ha : s.IsCell c a) (hb : s.IsCell d b) (ne : a ≠ b) :
    a + c.cellSize ≤ b ∨ b + d.cellSize ≤ a := by
  have inA := cell_le ha.aligned
  have inB := cell_le hb.aligned
  by_cases page : pageStart a = pageStart b
  · have eq : c = d := by
      have := ha.classOf
      rw [classOf?, page] at this
      exact Option.some.inj (this.symm.trans hb.classOf)
    subst eq
    rcases Nat.lt_or_gt_of_ne ne with lt | lt
    · exact .inl (dvd_apart ha.aligned hb.aligned lt)
    · exact .inr (dvd_apart hb.aligned ha.aligned lt)
  · have leA := pageStart_le a
    have leB := pageStart_le b
    rcases Nat.lt_or_gt_of_ne page with lt | lt
    · exact .inl (Nat.le_trans inA (Nat.le_trans
        (dvd_apart (pageStart_dvd a) (pageStart_dvd b) lt) leB))
    · exact .inr (Nat.le_trans inB (Nat.le_trans
        (dvd_apart (pageStart_dvd b) (pageStart_dvd a) lt) leA))

/-- Every live object has a cell of its own, and `spare` are the cells that hold no object. -/
structure Stocked (s : SmallSpace) (m : Memory) (spare : SizeClass → List Address) : Prop where
  pool : s.pages.Rising
  pages : ∀ page c, s.classes.get? page = some c →
    s.pages.start ≤ page ∧ page + bytesPerPage ≤ s.pages.cursor
  cells : ∀ c, ∀ a ∈ spare c, s.IsCell c a ∧ ⟨a⟩ ∉ s.liveObjects
  nodup : ∀ c, (spare c).Nodup
  live : ∀ o ∈ s.liveObjects, ∃ c, s.IsCell c o.addr ∧ m.stop o ≤ o.addr + c.cellSize

theorem mem_liveObjects_insert {o x : Ref} {live : Std.ExtTreeSet Address compare}
    (e : live = s.live.insert o.addr) :
    x ∈ ({ s with live } : SmallSpace).liveObjects ↔ x = o ∨ x ∈ s.liveObjects := by
  subst e
  rw [Heap.mem_liveObjects, Heap.mem_liveObjects]
  simp only [isLive, Std.ExtTreeSet.contains_insert, Bool.or_eq_true, beq_iff_eq,
    Std.LawfulEqCmp.compare_eq_iff_eq]
  exact or_congr_left ⟨fun e => by cases o; cases x; cases e; rfl, fun e => by rw [e]⟩

namespace Stocked

/-- The stacks of free cells do not matter, and neither does the order of the spare ones. -/
theorem congr (st : s.Stocked m spare) (pages : s'.pages = s.pages)
    (classes : s'.classes = s.classes)
    (live : s'.live = s.live) (perm : ∀ c, (spare c).Perm (spare' c)) : s'.Stocked m spare' := by
  obtain ⟨_, _, _, _⟩ := s'
  dsimp only at pages classes live
  subst pages classes live
  exact {
    pool := st.pool
    pages := st.pages
    cells := fun c a ha =>
      ⟨⟨(st.cells c a ((perm c).mem_iff.2 ha)).1.1, (st.cells c a ((perm c).mem_iff.2 ha)).1.2⟩,
        (st.cells c a ((perm c).mem_iff.2 ha)).2⟩
    nodup := fun c => (perm c).nodup_iff.1 (st.nodup c)
    live := fun o ho => by
      obtain ⟨c, cell, fits⟩ := st.live o ho
      exact ⟨c, ⟨cell.1, cell.2⟩, fits⟩ }

/-- Only the sizes of the live objects matter. -/
theorem withMemory (st : s.Stocked m spare)
    (length : ∀ o ∈ s.liveObjects, m'.length o = m.length o) : s.Stocked m' spare :=
  { st with
    live := fun o ho => by
      obtain ⟨c, cell, fits⟩ := st.live o ho
      exact ⟨c, cell, by rwa [Memory.stop_congr (length o ho)]⟩ }

/-- Cells may get lost. -/
theorem sublist (st : s.Stocked m spare) (sub : ∀ c, (spare' c).Sublist (spare c)) :
    s.Stocked m spare' :=
  { st with
    cells := fun c a ha => st.cells c a ((sub c).subset ha)
    nodup := fun c => (st.nodup c).sublist (sub c) }

/-- A cell lies in the pages that were cut. -/
theorem inside (st : s.Stocked m spare) (cell : s.IsCell c a) :
    s.pages.start ≤ a ∧ a + c.cellSize ≤ s.pages.cursor := by
  obtain ⟨low, high⟩ := st.pages (pageStart a) c cell.classOf
  exact ⟨Nat.le_trans low (pageStart_le a), Nat.le_trans (cell_le cell.aligned) high⟩

/-- The range of the space contains every cell. -/
theorem contains_cell (st : s.Stocked m spare) (cell : s.IsCell c a) :
    s.pages.contains a = true := by
  obtain ⟨low, high⟩ := st.inside cell
  exact PagePool.contains_iff.2 ⟨low, Nat.lt_of_lt_of_le (Nat.lt_add_of_pos_right c.cellSize_pos)
    (Nat.le_trans high st.pool.cursor_le)⟩

/-- A live object ends before the range of the space does. -/
theorem stop_le (st : s.Stocked m spare) {o : Ref} (ho : o ∈ s.liveObjects) :
    m.stop o ≤ s.pages.limit := by
  obtain ⟨c, cell, fits⟩ := st.live o ho
  exact Nat.le_trans fits (Nat.le_trans (st.inside cell).2 st.pool.cursor_le)

/-- A spare cell meets no live object. -/
theorem apart (st : s.Stocked m spare) (ha : a ∈ spare c) {o : Ref} (ho : o ∈ s.liveObjects) :
    m.stop o ≤ a ∨ a + c.cellSize ≤ o.addr := by
  obtain ⟨d, cell, fits⟩ := st.live o ho
  obtain ⟨spareCell, dead⟩ := st.cells c a ha
  have ne : a ≠ o.addr := by
    rintro rfl
    exact dead ho
  rcases cells_apart spareCell cell ne with h | h
  · exact .inr h
  · exact .inl (Nat.le_trans fits h)

end Stocked

/-! ### Cutting a page into cells -/

theorem mem_pageCells {page : Address} (c : SizeClass) :
    a ∈ pageCells page c ↔ ∃ i < SizeClass.cellsPerPage c, a = page + i * c.cellSize := by
  simp [pageCells, eq_comm]

theorem nodup_pageCells (page : Address) (c : SizeClass) : (pageCells page c).Nodup := by
  refine List.nodup_range.map fun i j eq => ?_
  exact Nat.eq_of_mul_eq_mul_right c.cellSize_pos (Nat.add_left_cancel eq)

theorem pageStart_of_mem {page : Address} (aligned : bytesPerPage ∣ page)
    (ha : a ∈ pageCells page c) :
    pageStart a = page ∧ c.cellSize ∣ a := by
  obtain ⟨i, hi, rfl⟩ := (mem_pageCells c).1 ha
  have le : (i + 1) * c.cellSize ≤ bytesPerPage := by
    rw [← c.cells_fill]
    exact Nat.mul_le_mul_right _ hi
  rw [Nat.add_mul, Nat.one_mul] at le
  have lt : i * c.cellSize < bytesPerPage :=
    Nat.lt_of_lt_of_le (Nat.lt_add_of_pos_right c.cellSize_pos) le
  refine ⟨pageStart_eq aligned (Nat.le_add_right ..) (Nat.add_lt_add_left lt _), ?_⟩
  exact Nat.dvd_add (Nat.dvd_trans c.cellSize_dvd aligned) (Nat.dvd_mul_left ..)

theorem get?_insert_class (classes : Std.ExtTreeMap Address SizeClass compare) (page b : Address) :
    (classes.insert page c).get? b = if page = b then some c else classes.get? b := by
  simp only [Std.ExtTreeMap.get?_eq_getElem?, Std.ExtTreeMap.getElem?_insert,
    Std.LawfulEqCmp.compare_eq_iff_eq]

/-- A fresh page is cut into cells, which are spare. -/
theorem Stocked.cut (st : s.Stocked m spare) (pool : s'.pages.Rising)
    (start : s'.pages.start = s.pages.start)
    (cursor : s'.pages.cursor = s.pages.cursor + bytesPerPage)
    (classes : s'.classes = s.classes.insert s.pages.cursor c) (live : s'.live = s.live)
    (perm : ∀ d, ((if d = c then pageCells s.pages.cursor c else []) ++ spare d).Perm (spare' d)) :
    s'.Stocked m spare' := by
  have aligned := st.pool.aligned
  have fresh : ∀ d page, s.classes.get? page = some d → s.pages.cursor ≠ page := by
    rintro d page found rfl
    exact absurd (st.pages _ d found).2 (Nat.not_le_of_lt (Nat.lt_add_of_pos_right (by decide)))
  have kept : ∀ d b, s.IsCell d b → s'.IsCell d b ∧ pageStart b ≠ s.pages.cursor := by
    intro d b cell
    have ne := fresh d _ cell.classOf
    refine ⟨⟨?_, cell.aligned⟩, ne.symm⟩
    rw [classOf?, classes, get?_insert_class, if_neg ne]
    exact cell.classOf
  have liveObjects : s'.liveObjects = s.liveObjects := by rw [SmallSpace.liveObjects, live]; rfl
  have new : ∀ b ∈ pageCells s.pages.cursor c, s'.IsCell c b ∧ pageStart b = s.pages.cursor := by
    intro b hb
    obtain ⟨page, dvd⟩ := pageStart_of_mem aligned hb
    refine ⟨⟨?_, dvd⟩, page⟩
    rw [classOf?, classes, page, get?_insert_class, if_pos rfl]
  exact {
    pool
    pages := fun page d found => by
      rw [classes, get?_insert_class] at found
      rw [start, cursor]
      split at found
      · next eq =>
        have := st.pool.start_le
        exact ⟨eq ▸ this, by rw [eq]⟩
      · have := st.pages page d found
        exact ⟨this.1, Nat.le_trans this.2 (Nat.le_add_right ..)⟩
    cells := fun d b hb => by
      rw [liveObjects]
      rcases List.mem_append.1 ((perm d).mem_iff.2 hb) with hb | hb
      · split at hb
        · next eq =>
          obtain ⟨cell, page⟩ := new b hb
          refine ⟨eq ▸ cell, fun hl => ?_⟩
          obtain ⟨d', cell', -⟩ := st.live _ hl
          exact (kept d' b cell').2 page
        · cases hb
      · obtain ⟨cell, dead⟩ := st.cells d b hb
        exact ⟨(kept d b cell).1, dead⟩
    nodup := fun d => by
      refine (perm d).nodup_iff.1 (List.nodup_append.2 ⟨?_, st.nodup d, ?_⟩)
      · split
        · exact nodup_pageCells ..
        · exact List.nodup_nil
      · rintro b hb x hx rfl
        split at hb
        · exact (kept d b (st.cells d b hx).1).2 (new b hb).2
        · cases hb
    live := fun o ho => by
      obtain ⟨d, cell, fits⟩ := st.live o (liveObjects ▸ ho)
      exact ⟨d, (kept d _ cell).1, fits⟩ }

/-! ### Giving cells away and getting them back -/

/-- A spare cell becomes the cell of a new object. -/
theorem Stocked.settle {o : Ref} (st : s.Stocked m spare)
    (perm : ∀ d, (spare d).Perm ((if d = c then [o.addr] else []) ++ spare' d))
    (length : ∀ x ∈ s.liveObjects, m'.length x = m.length x)
    (fits : m'.stop o ≤ o.addr + c.cellSize) :
    ({ s with live := s.live.insert o.addr } : SmallSpace).Stocked m' spare' := by
  have mine : o.addr ∈ spare c := (perm c).mem_iff.2 (by simp)
  exact {
    pool := st.pool
    pages := st.pages
    cells := fun d a ha => by
      have split := (perm d).nodup_iff.1 (st.nodup d)
      obtain ⟨cell, dead⟩ := st.cells d a ((perm d).mem_iff.2 (List.mem_append_right _ ha))
      refine ⟨⟨cell.1, cell.2⟩, fun hl => ?_⟩
      rcases (mem_liveObjects_insert rfl).1 hl with eq | hl
      · -- a cell has one class, so it would be spare twice
        have same : d = c := by
          have mine := (st.cells c _ mine).1.classOf
          rw [← eq] at mine
          exact Option.some.inj (cell.classOf.symm.trans mine)
        rw [if_pos same] at split
        exact (List.nodup_cons.1 split).1 (congrArg Ref.addr eq ▸ ha)
      · exact dead hl
    nodup := fun d => ((perm d).nodup_iff.1 (st.nodup d)).sublist (List.sublist_append_right ..)
    live := fun x hx => by
      rcases (mem_liveObjects_insert rfl).1 hx with rfl | hx
      · obtain ⟨cell, -⟩ := st.cells c _ mine
        exact ⟨c, ⟨cell.1, cell.2⟩, fits⟩
      · obtain ⟨d, cell, old⟩ := st.live x hx
        exact ⟨d, ⟨cell.1, cell.2⟩, by rwa [Memory.stop_congr (length x hx)]⟩ }

/-- The cell of an object that was given up is spare. -/
theorem Stocked.reclaim {o : Ref} {cell : Address}
    (st : s.Stocked m fun d => s.free.get d ++ others d) (e : s.reclaim o = .ok (cell, s')) :
    s'.Stocked m fun d => s'.free.get d ++ others d := by
  have member := fun x => mem_liveObjects_of_reclaim (x := x) e
  obtain ⟨c, found, live, rfl, rfl⟩ := of_reclaim e
  have mine : s.IsCell c o.addr := by
    obtain ⟨d, mine, -⟩ := st.live o live
    rwa [Option.some.inj (found.symm.trans mine.classOf)]
  have start : o.addr - o.addr % c.cellSize = o.addr := by
    rw [Nat.mod_eq_zero_of_dvd mine.aligned, Nat.sub_zero]
  simp only [start] at member ⊢
  have spare : ∀ d, (s.free.put c (o.addr :: s.free.get c)).get d ++ others d =
      (if d = c then [o.addr] else []) ++ (s.free.get d ++ others d) := fun d => by
    rw [PerClass.get_put]
    by_cases eq : c = d
    · subst eq
      simp
    · rw [if_neg eq, if_neg (Ne.symm eq), List.nil_append]
  exact {
    pool := st.pool
    pages := st.pages
    cells := fun d a ha => by
      rw [spare] at ha
      rw [member]
      rcases List.mem_append.1 ha with back | old
      · split at back
        · next eq =>
          subst eq
          cases List.mem_singleton.1 back
          exact ⟨⟨mine.1, mine.2⟩, fun h => h.2 rfl⟩
        · cases back
      · obtain ⟨cell, dead⟩ := st.cells d a old
        exact ⟨⟨cell.1, cell.2⟩, fun h => dead h.1⟩
    nodup := fun d => by
      rw [spare]
      refine List.nodup_append.2 ⟨?_, st.nodup d, ?_⟩
      · split
        · exact List.nodup_singleton _
        · exact List.nodup_nil
      · rintro a ha b hb rfl
        split at ha
        · cases List.mem_singleton.1 ha
          exact (st.cells d _ hb).2 live
        · cases ha
    live := fun x hx => by
      obtain ⟨d, cell, fits⟩ := st.live x ((member x).1 hx).1
      exact ⟨d, ⟨cell.1, cell.2⟩, fits⟩ }

theorem Stocked.of_reclaims (st : s.Stocked m fun d => s.free.get d ++ others d)
    (r : s.Reclaims s') : s'.Stocked m fun d => s'.free.get d ++ others d := by
  induction r with
  | refl => exact st
  | tail _ step ih =>
    obtain ⟨o, cell, e⟩ := step
    exact ih.reclaim e

end SmallSpace

/-! ## Large objects -/

/-- Every listed object starts its cell and fits it, and no cell waits for an object. -/
structure LargeSpace.Stocked (s : LargeSpace) (m : Memory) : Prop where
  pending : s.pending = ∅
  cells : ∀ c ∈ s.cells.toList, c.2.object.addr = c.1 ∧
    m.stop c.2.object ≤ c.1 + c.2.pages * bytesPerPage

namespace LargeSpace.Stocked

variable {s s' : LargeSpace} {m m' : Memory}

/-- Only the sizes of the listed objects matter. -/
theorem withMemory (st : s.Stocked m) (length : ∀ o ∈ s.objects, m'.length o = m.length o) :
    s.Stocked m' where
  pending := st.pending
  cells c hc := by
    rw [Memory.stop_congr (length _ (List.mem_map_of_mem hc))]
    exact st.cells c hc

/-- Objects may have been freed. -/
theorem subset (st : s.Stocked m) (pending : s'.pending = s.pending)
    (cells : s'.cells.toList ⊆ s.cells.toList) : s'.Stocked m where
  pending := pending.trans st.pending
  cells c hc := st.cells c (cells hc)

/-- The runs of the space are those of its cells. -/
theorem runs_eq (st : s.Stocked m) : s.runs = s.cells.toList.map fun c => ⟨c.1, c.2.pages⟩ := by
  rw [runs, st.pending]
  simp

/-- Pages that were handed out are the cell of no object yet, so a cell can be linked there. -/
theorem add_eq {a : Address} {pages : Nat} {pool : PagePool} (st : s.Stocked m)
    (represents : s.cells.Represents s.cells.toList)
    (taken : pool.Accounts (⟨a, pages⟩ :: s.runs)) :
    ∃ cells, s.cells.add a ⟨⟨a⟩, pages⟩ = .ok cells ∧ cells.Represents cells.toList ∧
      cells.toList = (a, ⟨⟨a⟩, pages⟩) :: s.cells.toList := by
  have new : a ∉ s.cells.toList.map (·.1) := fun ha => by
    obtain ⟨c, hc, eq⟩ := List.mem_map.1 ha
    have run : (⟨c.1, c.2.pages⟩ : PageRun) ∈ s.runs := by
      rw [st.runs_eq]
      exact List.mem_map_of_mem hc
    exact taken.start_ne run eq
  obtain ⟨cells, added, linked⟩ := represents.add_eq new ⟨⟨a⟩, pages⟩
  have listed := linked.toList_eq
  exact ⟨cells, added, listed.symm ▸ linked, listed⟩

/-- An object was linked in, and it fits its pages. -/
theorem link {a : Address} {pages : Nat} (st : s.Stocked m) (pending : s'.pending = ∅)
    (cells : s'.cells.toList = (a, ⟨⟨a⟩, pages⟩) :: s.cells.toList)
    (fits : m'.stop ⟨a⟩ ≤ a + pages * bytesPerPage)
    (length : ∀ o ∈ s.objects, m'.length o = m.length o) : s'.Stocked m' where
  pending := pending
  cells c hc := by
    rw [cells] at hc
    rcases List.mem_cons.1 hc with rfl | hc
    · exact ⟨rfl, fits⟩
    · exact (st.withMemory length).cells c hc

end LargeSpace.Stocked

/-! ## Permanent objects -/

namespace PermanentSpace

variable {s s' : PermanentSpace} {m m' : Memory} {b b' : BumpAllocator}
  {blocks blocks' : List BumpAllocator}

/-- What is left of two blocks does not meet. -/
def BlocksApart (b d : BumpAllocator) : Prop := b.limit ≤ d.cursor ∨ d.limit ≤ b.cursor

/-- What is left of the blocks meets no object of the space. -/
structure Stocked (s : PermanentSpace) (m : Memory) (blocks : List BumpAllocator) : Prop where
  pool : s.pages.Rising
  inside : ∀ b ∈ blocks, bytesPerWord ∣ b.cursor ∧ b.limit ≤ s.pages.cursor ∧
    (b.cursor ≠ 0 → s.pages.start ≤ b.cursor)
  apart : blocks.Pairwise BlocksApart
  objects : ∀ o ∈ s.objects, m.stop o ≤ s.pages.cursor ∧
    ∀ b ∈ blocks, m.stop o ≤ b.cursor ∨ b.limit ≤ o.addr

namespace Stocked

theorem perm (st : s.Stocked m blocks) (p : blocks.Perm blocks') : s.Stocked m blocks' where
  pool := st.pool
  inside b hb := st.inside b (p.mem_iff.2 hb)
  apart := p.pairwise st.apart fun h => Or.symm h
  objects o ho := ⟨(st.objects o ho).1, fun b hb => (st.objects o ho).2 b (p.mem_iff.2 hb)⟩

/-- Only the sizes of the objects matter. -/
theorem withMemory (st : s.Stocked m blocks)
    (length : ∀ o ∈ s.objects, m'.length o = m.length o) : s.Stocked m' blocks :=
  { st with
    objects := fun o ho => by
      rw [Memory.stop_congr (length o ho)]
      exact st.objects o ho }

/-- A block may get lost. -/
theorem tail (st : s.Stocked m (b :: blocks)) : s.Stocked m blocks where
  pool := st.pool
  inside d hd := st.inside d (List.mem_cons_of_mem _ hd)
  apart := (List.pairwise_cons.1 st.apart).2
  objects o ho := ⟨(st.objects o ho).1, fun d hd =>
    (st.objects o ho).2 d (List.mem_cons_of_mem _ hd)⟩

/-- An allocator without a block. -/
theorem fresh (st : s.Stocked m blocks) : s.Stocked m ({} :: blocks) where
  pool := st.pool
  inside := List.forall_mem_cons.2
    ⟨⟨Nat.dvd_zero _, Nat.zero_le _, fun h => absurd rfl h⟩, st.inside⟩
  apart := List.pairwise_cons.2 ⟨fun _ _ => .inl (Nat.zero_le _), st.apart⟩
  objects o ho := ⟨(st.objects o ho).1,
    List.forall_mem_cons.2 ⟨.inr (Nat.zero_le _), (st.objects o ho).2⟩⟩

/-- A new block is taken, and what was left of the old one is lost. -/
theorem refill (st : s.Stocked m (b :: blocks)) (pool : s'.pages.Rising)
    (start : s'.pages.start = s.pages.start) (objects : s'.objects = s.objects)
    (old : s.pages.cursor ≤ b'.limit) (cursor : b'.cursor = s.pages.cursor)
    (limit : b'.limit ≤ s'.pages.cursor) : s'.Stocked m (b' :: blocks) where
  pool
  inside := by
    refine List.forall_mem_cons.2 ⟨⟨?_, limit, fun _ => ?_⟩, fun d hd => ?_⟩
    · rw [cursor]
      exact Nat.dvd_trans (by decide) st.pool.aligned
    · rw [start, cursor]
      exact st.pool.start_le
    · obtain ⟨aligned, le, low⟩ := st.inside d (List.mem_cons_of_mem _ hd)
      exact ⟨aligned, Nat.le_trans le (Nat.le_trans old limit), start ▸ low⟩
  apart := by
    refine List.pairwise_cons.2 ⟨fun d hd => .inr ?_, (List.pairwise_cons.1 st.apart).2⟩
    rw [cursor]
    exact (st.inside d (List.mem_cons_of_mem _ hd)).2.1
  objects o ho := by
    obtain ⟨le, apart⟩ := st.objects o (objects ▸ ho)
    refine ⟨Nat.le_trans le (Nat.le_trans old limit),
      List.forall_mem_cons.2 ⟨.inl (cursor ▸ le), fun d hd => ?_⟩⟩
    exact apart d (List.mem_cons_of_mem _ hd)

/-- An object is cut off a block. -/
theorem place {size : Nat} (st : s.Stocked m (b :: blocks)) (words : bytesPerWord ∣ size)
    (some : b.cursor ≠ 0) :
    s.Stocked m ({ b with cursor := b.cursor + size } :: blocks) where
  pool := st.pool
  inside := by
    obtain ⟨aligned, limit, low⟩ := st.inside b List.mem_cons_self
    exact List.forall_mem_cons.2 ⟨⟨Nat.dvd_add aligned words, limit, fun _ =>
      Nat.le_trans (low some) (Nat.le_add_right ..)⟩,
      fun d hd => st.inside d (List.mem_cons_of_mem _ hd)⟩
  apart := by
    obtain ⟨mine, rest⟩ := List.pairwise_cons.1 st.apart
    exact List.pairwise_cons.2 ⟨fun d hd => (mine d hd).imp_right fun h =>
      Nat.le_trans h (Nat.le_add_right ..), rest⟩
  objects o ho := by
    obtain ⟨high, apart⟩ := st.objects o ho
    refine ⟨high, List.forall_mem_cons.2 ⟨?_, fun d hd => apart d (List.mem_cons_of_mem _ hd)⟩⟩
    exact (apart b List.mem_cons_self).imp_left fun h => Nat.le_trans h (Nat.le_add_right ..)

/-- The range of the space contains what is cut off a block. -/
theorem contains_cursor {size : Nat} (st : s.Stocked m (b :: blocks)) (some : b.cursor ≠ 0)
    (pos : 0 < size) (le : b.cursor + size ≤ b.limit) : s.pages.contains b.cursor = true := by
  obtain ⟨-, inside, low⟩ := st.inside b List.mem_cons_self
  exact PagePool.contains_iff.2 ⟨low some, Nat.lt_of_lt_of_le (Nat.lt_add_of_pos_right pos)
    (Nat.le_trans le (Nat.le_trans inside st.pool.cursor_le))⟩

/-- The object that was cut off is registered. -/
theorem registered {size : Nat} (st : s.Stocked m (b :: blocks)) (words : bytesPerWord ∣ size)
    (some : b.cursor ≠ 0) (le : b.cursor + size ≤ b.limit)
    (fits : m'.stop ⟨b.cursor⟩ = b.cursor + size)
    (length : ∀ o ∈ s.objects, m'.length o = m.length o) :
    (s.register ⟨b.cursor⟩).Stocked m' ({ b with cursor := b.cursor + size } :: blocks) := by
  obtain ⟨-, inside, -⟩ := st.inside b List.mem_cons_self
  have placed := (st.place words some).withMemory length
  exact { placed with
    objects := fun o ho => by
      rcases Array.mem_push.1 ho with ho | rfl
      · exact placed.objects o ho
      · rw [fits]
        refine ⟨Nat.le_trans le inside, List.forall_mem_cons.2 ⟨.inl (Nat.le_refl _),
          fun d hd => ?_⟩⟩
        exact ((List.pairwise_cons.1 st.apart).1 d hd).imp (Nat.le_trans le) id }

end Stocked

end PermanentSpace

end DeferredCount
