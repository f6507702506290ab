import DeferredCount.Proofs.Aligning
import DeferredCount.Proofs.Allocating
import DeferredCount.Proofs.Stretches

/-!
# Cells and the blocks in them

The pages that the space of small objects took are cut into cells, and every cell is in exactly one
place: on the stack of its class, in the cache of an allocator, or below a block that was handed
out. The space finds the cell of a block by rounding the address of the block down, because a block
never leaves its cell.

Results:
1. `SmallSpace.Cut.of_hands`: taking cells off a stack, or off a page that is cut for them.
2. `SmallSpace.Parceled.pairwise`, `SmallSpace.Parceled.inside`: no two blocks meet, and all lie in
   the range of the space.
3. `SmallSpace.Parceled.serve`, `SmallSpace.Parceled.reclaim`: a cell becomes that of a block, and
   the cell of a block is found again.
-/

namespace DeferredCount

namespace SmallSpace

variable {s s' : SmallSpace} {c d : SizeClass} {a page : Address}
  {cells cells' caches caches' others : SizeClass → List Address} {blocks blocks' : List Block}
  {b : Block}

/-! ## The cells of a space -/

/-- The pages of the space are cut, and all cells are listed by class, each of them once. -/
structure Cut (s : SmallSpace) (cells : SizeClass → List Address) : Prop where
  pool : s.pages.Rising
  pages : ∀ page c, s.classes.get? page = some c → bytesPerPage ∣ page ∧
    s.pages.start ≤ page ∧ page + bytesPerPage ≤ s.pages.cursor
  mem : ∀ c a, a ∈ cells c ↔ s.IsCell c a
  nodup : ∀ c, (cells c).Nodup

/-- Which cells there are depends on the pages that were cut. -/
theorem IsCell.congr (h : s.IsCell c a) (classes : s'.classes = s.classes) : s'.IsCell c a :=
  ⟨by rw [classOf?, classes]; exact h.classOf, h.aligned⟩

/-- The cells of a page are all that start in it. -/
theorem mem_pageCells_iff (aligned : bytesPerPage ∣ page) :
    a ∈ pageCells page c ↔ pageStart a = page ∧ c.cellSize ∣ a := by
  refine ⟨pageStart_of_mem aligned, ?_⟩
  rintro ⟨rfl, dvd⟩
  obtain ⟨i, hi⟩ := Nat.dvd_sub dvd (Nat.dvd_trans c.cellSize_dvd aligned)
  refine (mem_pageCells c).2 ⟨i, ?_, ?_⟩
  · have lt : i * c.cellSize < SizeClass.cellsPerPage c * c.cellSize := by
      rw [c.cells_fill, Nat.mul_comm, ← hi]
      exact Nat.sub_lt_left_of_lt_add (pageStart_le a) (lt_pageStart a)
    exact Nat.lt_of_mul_lt_mul_right lt
  · rw [Nat.mul_comm, ← hi, Nat.add_sub_of_le (pageStart_le a)]

namespace Cut

theorem perm (h : s.Cut cells) (e : ∀ c, (cells c).Perm (cells' c)) : s.Cut cells' where
  pool := h.pool
  pages := h.pages
  mem c a := (e c).mem_iff.symm.trans (h.mem c a)
  nodup c := (e c).nodup_iff.1 (h.nodup c)

/-- The stacks and the live objects do not matter. -/
theorem congr (h : s.Cut cells) (pages : s'.pages = s.pages) (classes : s'.classes = s.classes) :
    s'.Cut cells where
  pool := pages ▸ h.pool
  pages := by
    rw [pages, classes]
    exact h.pages
  mem c a := (h.mem c a).trans ⟨fun k => k.congr classes, fun k => k.congr classes.symm⟩
  nodup := h.nodup

/-- The cells of a page that was cut. -/
theorem mem_of_pageCells (h : s.Cut cells) (found : s.classes.get? page = some c)
    (ha : a ∈ pageCells page c) : a ∈ cells c := by
  obtain ⟨start, aligned⟩ := pageStart_of_mem (h.pages page c found).1 ha
  refine (h.mem c a).2 ⟨?_, aligned⟩
  rw [classOf?, start]
  exact found

/-- A listed cell is one of a page that was cut. -/
theorem page_of_mem (h : s.Cut cells) (ha : a ∈ cells c) :
    c.cellSize ∣ a ∧ ∃ page, s.classes.get? page = some c ∧ a ∈ pageCells page c := by
  have cell := (h.mem c a).1 ha
  exact ⟨cell.aligned, pageStart a, cell.classOf,
    (mem_pageCells_iff (pageStart_dvd a)).2 ⟨rfl, cell.aligned⟩⟩

/-- A cell lies in the pages that were cut. -/
theorem inside (h : s.Cut cells) (cell : s.IsCell c a) :
    s.pages.start ≤ a ∧ a + c.cellSize ≤ s.pages.cursor := by
  obtain ⟨-, low, high⟩ := h.pages (pageStart a) c cell.classOf
  exact ⟨Nat.le_trans low (pageStart_le a), Nat.le_trans (cell_le cell.aligned) high⟩

/-- A fresh page is cut into cells. -/
theorem of_page (h : s.Cut cells) (pool : s'.pages.Rising)
    (start : s'.pages.start = s.pages.start)
    (cursor : s'.pages.cursor = s.pages.cursor + bytesPerPage)
    (classes : s'.classes = s.classes.insert s.pages.cursor c) :
    s'.Cut fun d => (if d = c then pageCells s.pages.cursor c else []) ++ cells d := by
  have aligned := h.pool.aligned
  -- no page that was cut is the fresh one
  have fresh : ∀ d page, s.classes.get? page = some d → s.pages.cursor ≠ page := by
    rintro d page found rfl
    exact absurd (h.pages _ d found).2.2
      (Nat.not_le_of_lt (Nat.lt_add_of_pos_right (by decide)))
  have classOf : ∀ a, s'.classOf? a = if s.pages.cursor = pageStart a then some c
      else s.classOf? a := fun a => by
    rw [classOf?, classes, get?_insert_class, classOf?]
  have old : ∀ d a, s.IsCell d a → s.pages.cursor ≠ pageStart a := fun d a cell =>
    fresh d _ cell.classOf
  have split : ∀ d a, s'.IsCell d a ↔
      (d = c ∧ a ∈ pageCells s.pages.cursor c) ∨ s.IsCell d a := by
    intro d a
    rw [mem_pageCells_iff aligned]
    constructor
    · rintro ⟨found, dvd⟩
      rw [classOf] at found
      split at found
      · next page =>
        obtain rfl := Option.some.inj found
        exact .inl ⟨rfl, page.symm, dvd⟩
      · exact .inr ⟨found, dvd⟩
    · rintro (⟨rfl, page, dvd⟩ | cell)
      · exact ⟨by rw [classOf, if_pos page.symm], dvd⟩
      · exact ⟨by rw [classOf, if_neg (old d a cell)]; exact cell.classOf, cell.aligned⟩
  exact {
    pool
    pages := fun page d found => by
      rw [classes, get?_insert_class] at found
      rw [start, cursor]
      split at found
      · next eq =>
        subst eq
        exact ⟨aligned, h.pool.start_le, Nat.le_refl _⟩
      · obtain ⟨dvd, low, high⟩ := h.pages page d found
        exact ⟨dvd, low, Nat.le_trans high (Nat.le_add_right ..)⟩
    mem := fun d a => by
      rw [split, List.mem_append, h.mem]
      refine or_congr_left ?_
      by_cases eq : d = c
      · simp [eq]
      · simp [eq]
    nodup := fun d => by
      refine List.nodup_append.2 ⟨?_, h.nodup d, ?_⟩
      · split
        · exact nodup_pageCells ..
        · exact List.nodup_nil
      · rintro a ha b hb rfl
        split at ha
        · exact old d a ((h.mem d a).1 hb) (pageStart_of_mem aligned ha).1.symm
        · cases ha }

end Cut

/-! ## Taking cells -/

/-- The range of the space stays, and so do the classes of the pages that were cut. -/
structure Grows (s s' : SmallSpace) : Prop where
  start : s'.pages.start = s.pages.start
  limit : s'.pages.limit = s.pages.limit
  classes : ∀ page c, s.classes.get? page = some c → s'.classes.get? page = some c

theorem Grows.refl (s : SmallSpace) : s.Grows s := ⟨rfl, rfl, fun _ _ h => h⟩

theorem Grows.trans {s₁ : SmallSpace} (g₁ : s.Grows s₁) (g₂ : s₁.Grows s') : s.Grows s' :=
  ⟨g₂.start.trans g₁.start, g₂.limit.trans g₁.limit,
    fun page c h => g₂.classes page c (g₁.classes page c h)⟩

/-- The cells that the space hands out are no longer on its stacks, and no cell gets lost. -/
theorem Cut.of_hands {cs : List Address} (h : s.Cut fun d => s.free.get d ++ others d)
    (e : s.Hands c cs s') :
    (s'.Cut fun d => (if d = c then cs else []) ++ (s'.free.get d ++ others d)) ∧ s.Grows s' ∧
      s'.live = s.live := by
  cases e with
  | stack perm =>
    refine ⟨(h.perm fun d => ?_).congr rfl rfl, ⟨rfl, rfl, fun _ _ k => k⟩, rfl⟩
    rw [← List.append_assoc]
    exact (perm d).append_right _
  | page got perm =>
    rcases h.pool.of_acquire (by decide) got with ⟨none, -⟩ | ⟨eq, rising, start, limit, cursor⟩
    · cases none
    obtain rfl := Option.some.inj eq
    rw [Nat.one_mul] at cursor
    have classes : ∀ page d, s.classes.get? page = some d →
        (s.classes.insert s.pages.cursor c).get? page = some d := fun page d found => by
      rw [get?_insert_class, if_neg]
      · exact found
      · rintro rfl
        exact absurd (h.pages _ d found).2.2
          (Nat.not_le_of_lt (Nat.lt_add_of_pos_right (by decide)))
    refine ⟨(h.of_page rising start cursor rfl).perm fun d => ?_, ⟨start, limit, classes⟩, rfl⟩
    rw [← List.append_assoc, ← List.append_assoc]
    exact (perm d).append_right _
  | refused none got =>
    rcases h.pool.of_acquire (by decide) got with ⟨-, rfl⟩ | ⟨eq, -⟩
    · exact ⟨h.perm fun d => .of_eq (by simp [none]), .refl s, rfl⟩
    · cases eq

end SmallSpace

/-! ## Blocks in cells -/

namespace SmallSpace

variable {s s' : SmallSpace} {c d : SizeClass} {a cell : Address} {o : Ref}
  {caches caches' : SizeClass → List Address} {blocks : List Block} {b : Block}

/-- Where the cell of an address starts, in a page of a class. -/
def cellStart (c : SizeClass) (a : Address) : Address := a - a % c.cellSize

theorem cellStart_le (c : SizeClass) (a : Address) : cellStart c a ≤ a := Nat.sub_le ..

/-- Rounding down finds the cell from everywhere in it. -/
theorem cellStart_eq (aligned : c.cellSize ∣ cell) (le : cell ≤ a) (lt : a < cell + c.cellSize) :
    cellStart c a = cell := by
  obtain ⟨k, rfl⟩ := Nat.exists_eq_add_of_le le
  have small : k < c.cellSize := Nat.lt_of_add_lt_add_left lt
  rw [cellStart, Nat.add_mod, Nat.mod_eq_zero_of_dvd aligned, Nat.zero_add, Nat.mod_mod,
    Nat.mod_eq_of_lt small, Nat.add_sub_cancel]

theorem lt_cellStart (c : SizeClass) (a : Address) : a < cellStart c a + c.cellSize := by
  have lt := Nat.mod_lt a c.cellSize_pos
  unfold cellStart
  dsimp only [Address] at *
  omega

theorem isCell_cellStart (found : s.classOf? a = some c) : s.IsCell c (cellStart c a) := by
  have aligned : c.cellSize ∣ cellStart c a := Nat.dvd_sub_mod a
  -- the start of the page is such a multiple, too, so it is not above
  have low : pageStart a ≤ cellStart c a := by
    refine Nat.le_of_not_lt fun lt => ?_
    have next := dvd_apart aligned (Nat.dvd_trans c.cellSize_dvd (pageStart_dvd a)) lt
    exact Nat.not_le_of_lt (lt_cellStart c a) (Nat.le_trans next (pageStart_le a))
  have page := pageStart_eq (pageStart_dvd a) low
    (Nat.lt_of_le_of_lt (cellStart_le c a) (lt_pageStart a))
  exact ⟨by rw [classOf?, page]; exact found, aligned⟩

/-- All of a cell lies in the page of its start. -/
theorem IsCell.classOf?_eq (k : s.IsCell c cell) (le : cell ≤ a) (lt : a < cell + c.cellSize) :
    s.classOf? a = some c := by
  have page := pageStart_eq (pageStart_dvd cell) (Nat.le_trans (pageStart_le cell) le)
    (Nat.lt_of_lt_of_le lt (cell_le k.aligned))
  rw [classOf?, page]
  exact k.classOf

/-- A cell of the class holds the block. -/
structure Keeps (s : SmallSpace) (c : SizeClass) (b : Block) : Prop where
  classOf : s.classOf? b.place = some c
  stop_le : b.stop ≤ cellStart c b.place + c.cellSize

/-- The cells of a class that blocks lie in. -/
def cellsOf (s : SmallSpace) (c : SizeClass) (blocks : List Block) : List Address :=
  (blocks.filter fun b => s.classOf? b.place = some c).map fun b => cellStart c b.place

theorem cellsOf_cons (s : SmallSpace) (c : SizeClass) (b : Block) (blocks : List Block) :
    s.cellsOf c (b :: blocks) =
      (if s.classOf? b.place = some c then [cellStart c b.place] else []) ++
        s.cellsOf c blocks := by
  by_cases mine : s.classOf? b.place = some c
  · simp [cellsOf, mine]
  · simp [cellsOf, mine]

theorem cellsOf_perm (s : SmallSpace) (c : SizeClass) {blocks' : List Block}
    (e : blocks.Perm blocks') : (s.cellsOf c blocks).Perm (s.cellsOf c blocks') :=
  (e.filter _).map _

theorem mem_cellsOf (hb : b ∈ blocks) (found : s.classOf? b.place = some c) :
    cellStart c b.place ∈ s.cellsOf c blocks :=
  List.mem_map_of_mem (List.mem_filter.2 ⟨hb, decide_eq_true found⟩)

/-- The blocks `blocks` were handed out, and allocators keep the cells `caches`. -/
structure Parceled (s : SmallSpace) (caches : SizeClass → List Address) (blocks : List Block) :
    Prop where
  cut : s.Cut fun c => s.free.get c ++ (caches c ++ s.cellsOf c blocks)
  keeps : ∀ b ∈ blocks, ∃ c, s.Keeps c b
  live : ∀ o ∈ s.liveObjects, ∃ b ∈ blocks, b.object = o

theorem Keeps.grows (k : s.Keeps c b) (g : s.Grows s') : s'.Keeps c b :=
  ⟨g.classes _ _ k.classOf, k.stop_le⟩

/-- New pages change nothing about the cells of blocks. -/
theorem cellsOf_grows (g : s.Grows s') (keeps : ∀ b ∈ blocks, ∃ c, s.Keeps c b) (c : SizeClass) :
    s'.cellsOf c blocks = s.cellsOf c blocks := by
  refine congrArg _ (List.filter_congr fun b hb => decide_eq_decide.2 ?_)
  obtain ⟨d, k⟩ := keeps b hb
  rw [k.classOf, (k.grows g).classOf]

/-- Blocks have cells of their own. -/
theorem pairwise_cells (nodup : ∀ c, (s.cellsOf c blocks).Nodup) :
    blocks.Pairwise fun b x => ∀ c d, s.Keeps c b → s.Keeps d x →
      cellStart c b.place ≠ cellStart d x.place := by
  induction blocks with
  | nil => exact .nil
  | cons b blocks ih =>
    have split := fun c => List.nodup_append.1 (s.cellsOf_cons c b blocks ▸ nodup c)
    refine List.pairwise_cons.2 ⟨fun x hx c d kb kx eq => ?_, ih fun c => (split c).2.1⟩
    -- a cell has one class, so it would be listed twice
    have same : c = d := by
      have mine := (isCell_cellStart kb.classOf).classOf
      rw [eq] at mine
      exact Option.some.inj (mine.symm.trans (isCell_cellStart kx.classOf).classOf)
    subst same
    obtain ⟨-, -, apart⟩ := split c
    rw [if_pos kb.classOf] at apart
    exact apart _ (List.mem_singleton_self _) _ (mem_cellsOf hx kx.classOf) eq

namespace Parceled

/-- Which cells an allocator keeps first does not matter. -/
theorem perm (p : s.Parceled caches blocks) (e : ∀ c, (caches c).Perm (caches' c)) :
    s.Parceled caches' blocks where
  cut := p.cut.perm fun c => ((e c).append_right _).append_left _
  keeps := p.keeps
  live := p.live

theorem pairwise (p : s.Parceled caches blocks) :
    blocks.Pairwise fun b x => b.Disjoint x ∧ b.place ≠ x.place := by
  have cells := pairwise_cells fun c => (List.nodup_append.1
    (List.nodup_append.1 (p.cut.nodup c)).2.1).2.1
  refine cells.imp_of_mem fun {b x} hb hx ne => ?_
  obtain ⟨c, kb⟩ := p.keeps b hb
  obtain ⟨d, kx⟩ := p.keeps x hx
  have ne := ne c d kb kx
  refine ⟨?_, fun eq => ?_⟩
  · refine (cells_apart (isCell_cellStart kb.classOf) (isCell_cellStart kx.classOf) ne).imp ?_ ?_
    · exact fun le => Nat.le_trans kb.stop_le (Nat.le_trans le (cellStart_le d x.place))
    · exact fun le => Nat.le_trans kx.stop_le (Nat.le_trans le (cellStart_le c b.place))
  · have same : c = d := Option.some.inj (kb.classOf.symm.trans (eq ▸ kx.classOf))
    exact ne (by rw [same, eq])

/-- A space that has cut no page. -/
theorem fresh {pool : PagePool} (rising : pool.Rising) :
    ({ pages := pool } : SmallSpace).Parceled (fun _ => []) [] := by
  have noFree : ∀ c, ({ pages := pool } : SmallSpace).free.get c = [] := PerClass.get_all []
  have noClass : ∀ page c, ({ pages := pool } : SmallSpace).classes.get? page ≠ some c := by simp
  have empty : ∀ c, ({ pages := pool } : SmallSpace).free.get c ++
      ([] ++ ({ pages := pool } : SmallSpace).cellsOf c []) = [] := fun c => by
    rw [noFree]
    rfl
  exact {
    cut := {
      pool := rising
      pages := fun page c found => absurd found (noClass page c)
      mem := fun c a => by
        rw [empty]
        exact iff_of_false List.not_mem_nil fun cell => noClass _ c cell.classOf
      nodup := fun c => by
        rw [empty]
        exact List.nodup_nil }
    keeps := nofun
    live := fun o ho => absurd (Heap.mem_liveObjects.1 ho) (by simp [isLive]) }

/-- A block lies in the pages that were cut. -/
theorem inside (p : s.Parceled caches blocks) (hb : b ∈ blocks) :
    s.pages.contains b.place = true ∧ b.stop ≤ s.pages.cursor := by
  obtain ⟨c, k⟩ := p.keeps b hb
  obtain ⟨low, high⟩ := p.cut.inside (isCell_cellStart k.classOf)
  refine ⟨PagePool.contains_iff.2 ⟨Nat.le_trans low (cellStart_le ..), ?_⟩,
    Nat.le_trans k.stop_le high⟩
  exact Nat.lt_of_lt_of_le (lt_cellStart c b.place) (Nat.le_trans high p.cut.pool.cursor_le)

/-- Blocks at different places belong to different objects. -/
theorem eq_of_object (p : s.Parceled caches blocks) {x : Block} (hb : b ∈ blocks) (hx : x ∈ blocks)
    (eq : b.object = x.object) : b = x := by
  by_contra ne
  have : Std.Symm fun b x : Block => b.Disjoint x ∧ b.place ≠ x.place :=
    ⟨fun _ _ h => ⟨h.1.symm, h.2.symm⟩⟩
  exact (p.pairwise.forall hb hx ne).2 (congrArg Ref.addr eq)

theorem perm_without (p : s.Parceled caches blocks) (hb : b ∈ blocks) :
    blocks.Perm (b :: blocks.filter (·.object ≠ b.object)) := by
  have nodup : blocks.Nodup := p.pairwise.imp fun {x y} h eq => h.2 (congrArg Block.place eq)
  refine (List.perm_ext_iff_of_nodup nodup (List.nodup_cons.2 ⟨?_, nodup.filter _⟩)).2 fun x => ?_
  · simp
  · rw [List.mem_cons, List.mem_filter, decide_eq_true_eq]
    constructor
    · intro hx
      by_cases eq : x.object = b.object
      · exact .inl (p.eq_of_object hx hb eq)
      · exact .inr ⟨hx, eq⟩
    · rintro (rfl | ⟨hx, -⟩)
      · exact hb
      · exact hx

/-- The cell of a block is listed with the block, and otherwise it may be listed before all. -/
theorem cells_perm (mine : s.Keeps c b) (free caches : List Address) (blocks : List Block) :
    (free ++ (caches ++ s.cellsOf d (b :: blocks))).Perm
      ((if d = c then [cellStart c b.place] else []) ++
        (free ++ (caches ++ s.cellsOf d blocks))) := by
  have here : (if s.classOf? b.place = some d then [cellStart d b.place] else []) =
      if d = c then [cellStart c b.place] else [] := by
    rw [mine.classOf]
    by_cases eq : d = c
    · rw [if_pos eq, if_pos (eq ▸ rfl), eq]
    · rw [if_neg eq, if_neg fun same => eq (Option.some.inj same).symm]
  rw [cellsOf_cons, here]
  refine (List.Perm.append_left _ (List.perm_append_comm_assoc ..)).trans ?_
  exact List.perm_append_comm_assoc ..

/-- A cell is given to a new block. -/
theorem serve (cut : s.Cut fun d => (if d = c then [cellStart c b.place] else []) ++
      (s.free.get d ++ (caches d ++ s.cellsOf d blocks)))
    (keeps : ∀ b ∈ blocks, ∃ c, s.Keeps c b) (mine : s.Keeps c b)
    (live : ∀ o ∈ s.liveObjects, ∃ b ∈ blocks, b.object = o) :
    s.Parceled caches (b :: blocks) where
  cut := cut.perm fun d => (cells_perm mine _ _ blocks).symm
  keeps := List.forall_mem_cons.2 ⟨⟨c, mine⟩, keeps⟩
  live o ho := by
    obtain ⟨x, hx, eq⟩ := live o ho
    exact ⟨x, List.mem_cons_of_mem _ hx, eq⟩

/-- The space finds the cell of a live object, and puts it back on its stack. -/
theorem reclaim (p : s.Parceled caches blocks) (e : s.reclaim o = .ok (cell, s')) :
    s'.Parceled caches (blocks.filter (·.object ≠ o)) ∧ s.Grows s' := by
  have member := fun x => mem_liveObjects_of_reclaim (x := x) e
  obtain ⟨c, found, live, rfl, rfl⟩ := of_reclaim e
  obtain ⟨b, hb, rfl⟩ := p.live o live
  have mine : s.Keeps c b := by
    obtain ⟨d, k⟩ := p.keeps b hb
    obtain rfl : d = c := Option.some.inj (k.classOf.symm.trans found)
    exact k
  refine ⟨{
    cut := (p.cut.perm fun d => ?_).congr rfl rfl
    keeps := fun x hx => ?_
    live := fun x hx => ?_ }, ⟨rfl, rfl, fun _ _ k => k⟩⟩
  · refine (List.Perm.append_left _ (List.Perm.append_left _
      (s.cellsOf_perm d (p.perm_without hb)))).trans ?_
    refine (cells_perm mine _ _ _).trans (.of_eq ?_)
    rw [PerClass.get_put]
    by_cases eq : d = c
    · rw [if_pos eq, if_pos eq.symm, eq]
      rfl
    · rw [if_neg eq, if_neg (Ne.symm eq)]
      rfl
  · obtain ⟨d, k⟩ := p.keeps x (List.mem_filter.1 hx).1
    exact ⟨d, k.classOf, k.stop_le⟩
  · obtain ⟨hx, ne⟩ := (member x).1 hx
    obtain ⟨y, hy, rfl⟩ := p.live x hx
    exact ⟨y, List.mem_filter.2 ⟨hy, decide_eq_true ne⟩, rfl⟩

/-- A live object can be given up. -/
theorem reclaim_eq (p : s.Parceled caches blocks) (ho : o ∈ s.liveObjects) :
    ∃ cell s', s.reclaim o = .ok (cell, s') := by
  obtain ⟨b, hb, rfl⟩ := p.live o ho
  obtain ⟨c, k⟩ := p.keeps b hb
  exact ⟨_, _, SmallSpace.reclaim_eq ho k.classOf⟩

/-- An object is registered where a block starts. -/
theorem register (p : s.Parceled caches blocks) (hb : b ∈ blocks)
    (e : s.setLive b.object = .ok s') :
    s'.Parceled caches blocks ∧ s.Grows s' ∧ b.object ∉ s.liveObjects ∧
      ∀ x, x ∈ s'.liveObjects ↔ x = b.object ∨ x ∈ s.liveObjects := by
  unfold setLive at e
  split at e
  · cases e
  · next new =>
    cases e
    have member := fun x => mem_liveObjects_insert (s := s) (o := b.object) (x := x) rfl
    refine ⟨⟨p.cut.congr rfl rfl, fun x hx => ?_, fun x hx => ?_⟩, ⟨rfl, rfl, fun _ _ k => k⟩,
      mt Heap.mem_liveObjects.1 new, member⟩
    · obtain ⟨c, k⟩ := p.keeps x hx
      exact ⟨c, k.classOf, k.stop_le⟩
    · rcases (member x).1 hx with rfl | hx
      · exact ⟨b, hb, rfl⟩
      · exact p.live x hx

end Parceled

end SmallSpace

namespace CellAllocator

variable {a a' : CellAllocator} {h h' : Heap} {others : SizeClass → List Address}
  {blocks : List Block} {size align offset : Nat} {place : Address}

/-- A new allocator has no cells. -/
theorem get_empty (c : SizeClass) : ({} : CellAllocator).cells.get c = [] := PerClass.get_all [] c

/-- An allocator gives its cells back. -/
theorem parceled_of_release
    (p : h.small.Parceled (fun c => a.cells.get c ++ others c) blocks)
    (e : a.release h = .ok a' h') :
    ∃ free, a' = {} ∧ h' = { h with small := { h.small with free } } ∧
      h'.small.Parceled others blocks := by
  obtain ⟨free, run, cells⟩ := a.release_eq h
  cases run.symm.trans e
  refine ⟨free, rfl, rfl, (p.cut.perm fun c => ?_).congr rfl rfl, fun b hb => ?_, p.live⟩
  · simp only [cells, List.append_assoc]
    exact List.perm_append_comm_assoc ..
  · obtain ⟨c, k⟩ := p.keeps b hb
    exact ⟨c, k.classOf, k.stop_le⟩

/-- A request is placed in the cell that it takes. -/
theorem alignPlace_of_take {bytes : Nat} {c : SizeClass} {cell : Option Address}
    (reserved : reserveSize size align = .ok bytes) (found : SizeClass.ofBytes? bytes = some c)
    (taken : a.take c h = .ok (cell, a') h')
    (e : a.allocate size align offset h = .ok (place, a') h') :
    ∀ x ∈ cell, alignPlace x align offset = .ok place := by
  obtain ⟨_, _, _, reserved', found', taken', placed⟩ := allocate_eq_ok e
  cases reserved.symm.trans reserved'
  cases found.symm.trans found'
  cases taken.symm.trans taken'
  intro x hx
  rcases placed with ⟨rfl, -⟩ | ⟨y, rfl, placed⟩
  · cases hx
  · cases hx
    exact placed

/-- A request takes a cell, or none. -/
theorem parceled_of_take {bytes : Nat} {c : SizeClass} {cell : Option Address}
    (ok : Alignable align offset)
    (p : h.small.Parceled (fun c => a.cells.get c ++ others c) blocks)
    (reserved : reserveSize size align = .ok bytes) (found : SizeClass.ofBytes? bytes = some c)
    (taken : a.take c h = .ok (cell, a') h')
    (e : a.allocate size align offset h = .ok (place, a') h') :
    ∃ small log, h' = { h with small, log } ∧ h.small.Grows small ∧
      small.live = h.small.live ∧
      small.Parceled (fun c => a'.cells.get c ++ others c)
        (Block.inCell cell place size align offset ++ blocks) ∧
      (∀ b ∈ Block.inCell cell place size align offset, b.IsAligned) ∧
      (cell ≠ none → h.small.pages.start ≤ place) := by
  have placed := alignPlace_of_take reserved found taken e
  obtain ⟨cs, small, log, rfl, hands, moved⟩ := take_eq_ok taken
  have listed : h.small.Cut fun d => h.small.free.get d ++ (a.cells.get d ++
      (others d ++ h.small.cellsOf d blocks)) := p.cut.perm fun d => .of_eq (by simp)
  obtain ⟨handed, grows, live⟩ := listed.of_hands hands
  have cut := handed.perm fun d => perm_exchange (moved d)
  have cells := fun d => SmallSpace.cellsOf_grows grows p.keeps d
  have keeps : ∀ b ∈ blocks, ∃ c, small.Keeps c b := fun b hb =>
    let ⟨d, k⟩ := p.keeps b hb
    ⟨d, k.grows grows⟩
  have objects : ∀ o ∈ small.liveObjects, ∃ b ∈ blocks, b.object = o := by
    rw [SmallSpace.liveObjects, live]
    exact p.live
  refine ⟨small, log, rfl, grows, live, ?_⟩
  cases cell with
  | none =>
    refine ⟨⟨cut.perm fun d => .of_eq ?_, keeps, objects⟩, fun b hb => absurd hb List.not_mem_nil,
      fun some => absurd rfl some⟩
    simp [Block.inCell, cells]
  | some cell =>
    have placed := placed cell rfl
    obtain ⟨-, le, lt, aligned⟩ := alignPlace_spec ok.supported placed
    have isCell : small.IsCell c cell := (cut.mem c cell).1 (by simp)
    have inside : place < cell + c.cellSize :=
      Nat.lt_of_lt_of_le lt (Nat.add_le_add_left (c.align_le_cellSize ok.supported) cell)
    have start := SmallSpace.cellStart_eq isCell.aligned le inside
    have mine : small.Keeps c ⟨place, size, align, offset⟩ := by
      refine ⟨isCell.classOf?_eq le inside, ?_⟩
      rw [start]
      exact Nat.le_trans (stop_le_of_reserveSize ok reserved placed)
        (Nat.add_le_add_left (SizeClass.ofBytes?_eq_some found) cell)
    refine ⟨.serve (c := c) (cut.perm fun d => .of_eq ?_) keeps mine objects, fun b hb => ?_,
      fun _ => Nat.le_trans (grows.start ▸ (cut.inside isCell).1) le⟩
    · simp [cells, start]
    · obtain rfl := List.mem_singleton.1 hb
      exact aligned

/-- A request is refused, or it is given a cell. -/
theorem parceled_of_allocate (ok : Alignable align offset) (pos : 0 < h.small.pages.start)
    (p : h.small.Parceled (fun c => a.cells.get c ++ others c) blocks)
    (e : a.allocate size align offset h = .ok (place, a') h') :
    ∃ small log, h' = { h with small, log } ∧ h.small.Grows small ∧
      small.live = h.small.live ∧
      small.Parceled (fun c => a'.cells.get c ++ others c)
        (Block.granted place size align offset ++ blocks) ∧
      ∀ b ∈ Block.granted place size align offset, b.IsAligned := by
  obtain ⟨bytes, c, cell, reserved, found, taken, placed⟩ := allocate_eq_ok e
  obtain ⟨small, log, rfl, grows, live, parceled, aligned, start⟩ :=
    parceled_of_take ok p reserved found taken e
  -- no cell lies at the address zero
  have same : Block.granted place size align offset =
      Block.inCell cell place size align offset := by
    rcases placed with ⟨rfl, rfl⟩ | ⟨y, rfl, -⟩
    · rfl
    · exact if_neg (Nat.ne_of_gt (Nat.lt_of_lt_of_le pos (start nofun)))
  exact ⟨small, log, rfl, grows, live, same ▸ parceled, same ▸ aligned⟩

end CellAllocator

end DeferredCount
