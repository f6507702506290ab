import DeferredCount.Proofs.Gaps
import DeferredCount.Proofs.Disjoint
import DeferredCount.Proofs.Tenants

/-!
# What requests can rely on

The pools of the three spaces know which of their pages are out, and everything that an allocator or
a stack of free cells keeps for the next request lies in the range of its space. A request for any
number of bytes, at any alignment and offset, keeps this if it returns at all. Each of the three
allocators gives up before it changes anything. In particular a bump allocator that finds a new
block finds room in it, so it never takes a second one.

Results:
1. `CellAllocator.take_ends`, `CellAllocator.supplied_of_allocate`, `housed_of_allocatePages`,
   `BumpAllocator.supplied_of_allocate`: what the allocators do.
2. `Allocators.serves_of_allocate`: a request that returns finds nothing and leaves everything as
   it is, or it finds memory and leaves enough to rely on.
-/

namespace DeferredCount

open Relation

/-! ## Pages -/

namespace PagePool

variable {p q : PagePool} {start limit : Address} {n : Nat} {a : Option Address}

/-- The pool has the pages from `start` up to `limit` and knows which of them are out. -/
structure Lends (p : PagePool) (start limit : Address) : Prop where
  canonical : ∃ out, p.Canonical out
  start_eq : p.start = start
  limit_eq : p.limit = limit

theorem pos_of_acquire (e : p.acquire n = .ok (a, q)) : 0 < n := by
  obtain ⟨_, checked, -⟩ := Except.bind_eq_ok.1 e
  exact of_decide_eq_true (of_require checked)

/-- A request gets pages of the range, or nothing, and then the pool stays as it is. -/
theorem Lends.acquire (l : p.Lends start limit) (pos : 0 < n) (lt : n < 2 ^ 52) :
    p.acquire n = .ok (none, p) ∨ ∃ a q, p.acquire n = .ok (some a, q) ∧
      q.Lends start limit ∧ PageRun.Within ⟨a, n⟩ start limit := by
  obtain ⟨⟨out, canonical⟩, rfl, rfl⟩ := l
  obtain ⟨a, q, e, -, same, next⟩ := canonical.acquire_eq pos lt
  cases a with
  | none => exact .inl (same rfl ▸ e)
  | some a =>
    obtain ⟨c, start, limit, -⟩ := next a rfl
    have w := c.packed.within ⟨a, n⟩ (List.mem_append_right _ List.mem_cons_self)
    exact .inr ⟨a, q, e, ⟨⟨_, c⟩, start, limit⟩, w.pos, start ▸ w.lo_le,
      limit ▸ Nat.le_trans w.le_hi c.cursor_le, w.aligned⟩

/-- What a request did that returned. -/
theorem Lends.of_acquire (l : p.Lends start limit) (fits : n * bytesPerPage < Word.limit)
    (e : p.acquire n = .ok (a, q)) : (a = none ∧ q = p) ∨
      ∃ b, a = some b ∧ q.Lends start limit ∧ PageRun.Within ⟨b, n⟩ start limit := by
  have lt : n < 2 ^ 52 := by
    dsimp only [bytesPerPage, Word.limit] at fits
    omega
  rcases l.acquire (pos_of_acquire e) lt with e' | ⟨b, q', e', l', w⟩
  · cases e.symm.trans e'
    exact .inl ⟨rfl, rfl⟩
  · cases e.symm.trans e'
    exact .inr ⟨b, rfl, l', w⟩

end PagePool

/-! ## Places -/

/-- An object may be placed from `a` on, between two addresses. -/
structure Spot (start limit a : Address) : Prop where
  start_le : start ≤ a
  lt_limit : a < limit
  aligned : minAlignment ∣ a

theorem SizeClass.least_dvd (c : SizeClass) : minAlignment ∣ c.cellSize :=
  Nat.dvd_trans (by decide) c.word_dvd

/-- An address that starts a cell in a page of a range. -/
theorem Spot.of_cell {start limit page a : Address} {c : SizeClass}
    (w : PageRun.Within ⟨page, 1⟩ start limit) (inside : pageStart a = page)
    (aligned : c.cellSize ∣ a) : Spot start limit a := by
  have stop : page + 1 * bytesPerPage ≤ limit := w.le_hi
  rw [Nat.one_mul] at stop
  subst inside
  exact ⟨Nat.le_trans w.lo_le (pageStart_le a), Nat.lt_of_lt_of_le (lt_pageStart a) stop,
    Nat.dvd_trans c.least_dvd aligned⟩

/-- A place does not lie below its region. -/
theorem le_of_alignPlace {region align offset : Nat} {place : Address}
    (e : alignPlace region align offset = .ok place) : region ≤ place := by
  obtain ⟨_, -, e⟩ := Except.bind_eq_ok.1 e
  obtain ⟨_, -, e⟩ := Except.bind_eq_ok.1 e
  obtain ⟨_, -, e⟩ := Except.bind_eq_ok.1 e
  obtain ⟨skipped, -, e⟩ := Except.bind_eq_ok.1 e
  exact (Word.add_eq_ok.1 e).2 ▸ Nat.le_add_right ..

/-- A place is found for the two alignments only. -/
theorem supported_of_alignPlace {region align offset : Nat} {place : Address}
    (e : alignPlace region align offset = .ok place) :
    align = minAlignment ∨ align = maxAlignment := by
  obtain ⟨_, bounds, e⟩ := Except.bind_eq_ok.1 e
  obtain ⟨_, power, -⟩ := Except.bind_eq_ok.1 e
  have bounds := of_require bounds
  have power := of_require power
  rw [Bool.and_eq_true, decide_eq_true_eq, decide_eq_true_eq] at bounds
  obtain ⟨low, high⟩ := bounds
  have between : align = 4 ∨ align = 5 ∨ align = 6 ∨ align = 7 ∨ align = 8 := by
    dsimp only [minAlignment, maxAlignment] at low high
    omega
  rcases between with rfl | rfl | rfl | rfl | rfl
  · exact .inl rfl
  · exact absurd power (by decide)
  · exact absurd power (by decide)
  · exact absurd power (by decide)
  · exact .inr rfl

/-! ## What the spaces and the allocators keep -/

/-- Pages that were cut and cells that are free lie in the range of small objects. -/
structure SmallSpace.Supplied (s : SmallSpace) : Prop where
  pool : s.pages.Lends Heap.smallStart Heap.largeStart
  pages : ∀ page c, s.classes.get? page = some c →
    PageRun.Within ⟨page, 1⟩ Heap.smallStart Heap.largeStart
  free : ∀ c, ∀ a ∈ s.free.get c, Spot Heap.smallStart Heap.largeStart a

/-- What is left of a block lies in the range of permanent objects. -/
structure BumpAllocator.Inside (b : BumpAllocator) : Prop where
  start_le : Heap.permanentStart ≤ b.cursor
  le_limit : b.cursor ≤ b.limit
  limit_le : b.limit ≤ Heap.scratchStart

/-- What an allocator keeps for later requests lies in the ranges of its spaces. -/
structure Allocators.Supplied (a : Allocators) : Prop where
  cells : ∀ c, ∀ x ∈ a.cells.cells.get c, Spot Heap.smallStart Heap.largeStart x
  bump : a.bump.cursor ≠ 0 → a.bump.Inside

/-- What the next request relies on. -/
structure Heap.Supplied (h : Heap) : Prop where
  small : h.small.Supplied
  large : ∃ out registered,
    h.large.Housed Heap.largeStart Heap.permanentStart out registered
  permanent : h.permanent.pages.Lends Heap.permanentStart Heap.scratchStart

theorem Allocators.supplied_empty : ({} : Allocators).Supplied where
  cells c x hx := by
    rw [CellAllocator.get_empty] at hx
    exact absurd hx List.not_mem_nil
  bump some := absurd rfl some

namespace Heap.Supplied

variable {h h' : Heap}

/-- Only the spaces matter. -/
theorem congr (s : h.Supplied) (small : h'.small = h.small) (large : h'.large = h.large)
    (permanent : h'.permanent.pages = h.permanent.pages) : h'.Supplied where
  small := small ▸ s.small
  large := large ▸ s.large
  permanent := permanent ▸ s.permanent

theorem withLog (s : h.Supplied) (log : List Event) : Heap.Supplied { h with log } :=
  s.congr rfl rfl rfl

theorem large_lends (s : h.Supplied) : h.large.pages.Lends largeStart permanentStart := by
  obtain ⟨out, registered, housed⟩ := s.large
  obtain ⟨past, history⟩ := housed.history
  obtain ⟨canonical, start, limit⟩ := history.canonical housed.order housed.word
  exact ⟨⟨out, canonical⟩, start, limit⟩

theorem ofSettings (settings : Settings) : (Heap.ofSettings settings).Supplied where
  small := {
    pool := ⟨⟨[], .fresh (by decide) (by decide) (by decide)⟩, rfl, rfl⟩
    pages := fun page c found => by
      rw [Std.ExtTreeMap.get?_eq_getElem?] at found
      cases found.symm.trans Std.ExtTreeMap.getElem?_empty
    free := fun c a ha => by
      have none : (Heap.ofSettings settings).small.free.get c = [] := PerClass.get_all [] c
      rw [none] at ha
      exact absurd ha List.not_mem_nil }
  large := ⟨[], [], .fresh (by decide) (by decide) rfl⟩
  permanent := ⟨⟨[], .fresh (by decide) (by decide) (by decide)⟩, rfl, rfl⟩

end Heap.Supplied

/-! ## Cells -/

theorem HeapM.acquirePages_of_acquire {h : Heap} (space : SpaceId) {n : Nat}
    {a : Option Address} {pool : PagePool} (e : (h.pagePool space).acquire n = .ok (a, pool)) :
    ∃ log, acquirePages space n h = .ok a { h.setPagePool pool space with log } := by
  rw [acquirePages, get_bind_apply, liftM_eq, e]
  cases a <;> exact ⟨_, rfl⟩

namespace SmallSpace

variable {s s' : SmallSpace} {c : SizeClass} {page : Address} {n : Nat}

/-- A fresh page lies in the range, and so do its cells. -/
theorem Supplied.carve (st : s.Supplied) {pool : PagePool}
    (lends : pool.Lends Heap.smallStart Heap.largeStart)
    (w : PageRun.Within ⟨page, 1⟩ Heap.smallStart Heap.largeStart) :
    (carve { s with pages := pool } page c n).2.Supplied ∧
      ∀ a ∈ (carve { s with pages := pool } page c n).1,
        Spot Heap.smallStart Heap.largeStart a := by
  have cells : ∀ a ∈ pageCells page c, Spot Heap.smallStart Heap.largeStart a := fun a ha => by
    obtain ⟨inside, aligned⟩ := pageStart_of_mem w.aligned ha
    exact .of_cell w inside aligned
  refine ⟨⟨lends, fun page' d found => ?_, fun d a ha => ?_⟩,
    fun a ha => cells a (List.mem_of_mem_drop ha)⟩
  · dsimp only [SmallSpace.carve] at found
    rw [get?_insert_class] at found
    split at found
    · next same => exact same ▸ w
    · exact st.pages page' d found
  · dsimp only [SmallSpace.carve] at ha
    rw [PerClass.get_put] at ha
    split at ha
    · rcases List.mem_append.1 ha with ha | ha
      · exact cells a (List.mem_of_mem_take ha)
      · exact st.free c a ha
    · exact st.free d a ha

/-- Some cells of a fresh page are handed out at once. -/
theorem carve_ne_nil (pos : 0 < n) : (s.carve page c n).1 ≠ [] := by
  have some : 0 < SizeClass.cellsPerPage c := by
    revert c
    decide
  rw [ne_eq, ← List.length_eq_zero_iff, SmallSpace.carve, List.length_drop]
  have length : (pageCells page c).length = SizeClass.cellsPerPage c := by
    rw [pageCells, List.length_map, List.length_range]
  omega

/-- A cell that an object gives back. -/
theorem Supplied.of_reclaim {o : Ref} {cell : Address} (st : s.Supplied)
    (e : s.reclaim o = .ok (cell, s')) : s'.Supplied := by
  obtain ⟨c, found, -, rfl, rfl⟩ := SmallSpace.of_reclaim e
  refine ⟨st.pool, st.pages, fun d a ha => ?_⟩
  dsimp only at ha
  rw [PerClass.get_put] at ha
  split at ha
  · next same =>
    subst same
    rcases List.mem_cons.1 ha with rfl | ha
    · have isCell := isCell_cellStart found
      exact .of_cell (st.pages _ c isCell.classOf) rfl isCell.aligned
    · exact st.free c a ha
  · exact st.free d a ha

end SmallSpace

/-- The space hands cells out. There are none if it has no page left, and then it stays as it is. -/
theorem HeapM.acquireCells_ends {h : Heap} {n : Nat} (c : SizeClass) (st : h.small.Supplied)
    (pos : 0 < n) : (∃ log, acquireCells c n h = .ok [] { h with log }) ∨
      ∃ cs small log, acquireCells c n h = .ok cs { h with small, log } ∧ cs ≠ [] ∧
        small.Supplied ∧ ∀ a ∈ cs, Spot Heap.smallStart Heap.largeStart a := by
  rw [acquireCells, get_bind_apply, SmallSpace.takeCells]
  cases free : h.small.free.get c with
  | cons x cs =>
    have spots := free ▸ st.free c
    refine .inr ⟨(x :: cs).take n, _, h.log, rfl, ?_, ⟨st.pool, st.pages, fun d a ha => ?_⟩,
      fun a ha => spots a (List.mem_of_mem_take ha)⟩
    · rw [ne_eq, List.take_eq_nil_iff]
      simp [Nat.ne_of_gt pos]
    · dsimp only at ha
      rw [PerClass.get_put] at ha
      split at ha
      · exact spots a (List.mem_of_mem_drop ha)
      · exact st.free d a ha
  | nil =>
    rcases st.pool.acquire (n := 1) (by decide) (by decide) with e | ⟨page, pool, e, lends, w⟩
    · obtain ⟨log, e⟩ := acquirePages_of_acquire .small e
      exact .inl ⟨log, bind_of_ok e⟩
    · obtain ⟨log, e⟩ := acquirePages_of_acquire .small e
      obtain ⟨supplied, spots⟩ := st.carve (c := c) (n := n) lends w
      exact .inr ⟨_, _, _, bind_of_ok e,
        SmallSpace.carve_ne_nil (s := { h.small with pages := pool }) pos, supplied, spots⟩

namespace CellAllocator

variable {h h' : Heap} {a a' : CellAllocator} {size align offset : Nat} {place : Address}

/-- The cells of an allocator lie in the range of small objects. -/
def Spots (a : CellAllocator) : Prop :=
  ∀ c, ∀ x ∈ a.cells.get c, Spot Heap.smallStart Heap.largeStart x

theorem Spots.put (spots : a.Spots) {c : SizeClass} {cs : List Address}
    (new : ∀ x ∈ cs, Spot Heap.smallStart Heap.largeStart x) :
    Spots { a with cells := a.cells.put c cs } := fun d x hx => by
  dsimp only at hx
  rw [PerClass.get_put] at hx
  split at hx
  · exact new x hx
  · exact spots d x hx

/-- An allocator gets a cell, or there is none, and nothing changes. -/
theorem take_ends (c : SizeClass) (st : h.small.Supplied) (spots : a.Spots) :
    (∃ log, a.take c h = .ok (none, a) { h with log }) ∨
      ∃ x a' small log, a.take c h = .ok (some x, a') { h with small, log } ∧
        Spot Heap.smallStart Heap.largeStart x ∧ small.Supplied ∧ a'.Spots := by
  unfold take
  cases own : a.cells.get c with
  | cons x rest =>
    obtain ⟨spot, rest⟩ := List.forall_mem_cons.1 (own ▸ spots c)
    exact .inr ⟨x, _, h.small, h.log, rfl, spot, st, spots.put rest⟩
  | nil =>
    have here (cs : List Address) : (a.cells.put c cs).get c = cs := by
      rw [PerClass.get_put, if_pos rfl]
    rcases HeapM.acquireCells_ends c st (n := cellsPerRefill) (by decide) with
      ⟨log, e⟩ | ⟨cs, small, log, e, some, supplied, new⟩
    · have refilled : a.refill c h = .ok { a with cells := a.cells.put c [] } { h with log } :=
        HeapM.bind_of_ok e
      refine .inl ⟨log, ?_⟩
      dsimp only
      rw [HeapM.bind_of_ok refilled, here]
      rfl
    · obtain ⟨x, rest, rfl⟩ := List.exists_cons_of_ne_nil some
      have refilled : a.refill c h =
          .ok { a with cells := a.cells.put c (x :: rest) } { h with small, log } :=
        HeapM.bind_of_ok e
      obtain ⟨spot, rest⟩ := List.forall_mem_cons.1 new
      refine .inr ⟨x, _, small, log, ?_, spot, supplied, (spots.put (c := c) new).put (c := c) rest⟩
      dsimp only
      rw [HeapM.bind_of_ok refilled, here]
      rfl

/-- A request that returns: it finds no cell and changes nothing, or it gets one. -/
theorem supplied_of_allocate (st : h.small.Supplied) (spots : a.Spots)
    (e : a.allocate size align offset h = .ok (place, a') h') :
    (place = 0 ∧ a' = a ∧ ∃ log, h' = { h with log }) ∨
      place ≠ 0 ∧ a'.Spots ∧ ∃ small log, h' = { h with small, log } ∧ small.Supplied := by
  obtain ⟨bytes, c, cell, -, -, taken, placed⟩ := allocate_eq_ok e
  rcases take_ends c st spots with ⟨log, e'⟩ | ⟨x, a₁, small, log, e', spot, supplied, left⟩
  · cases e'.symm.trans taken
    rcases placed with ⟨-, rfl⟩ | ⟨_, ⟨⟩, -⟩
    exact .inl ⟨rfl, rfl, log, rfl⟩
  · cases e'.symm.trans taken
    rcases placed with ⟨⟨⟩, -⟩ | ⟨_, ⟨⟩, found⟩
    have pos : 0 < x := Nat.lt_of_lt_of_le (by decide) spot.start_le
    exact .inr ⟨Nat.ne_of_gt (Nat.lt_of_lt_of_le pos (le_of_alignPlace found)), left, small, log,
      rfl, supplied⟩

end CellAllocator

/-! ## Pages for one object -/

section Large

variable {h h' : Heap} {out : List PageRun} {registered : List Ref} {size align offset : Nat}
  {place : Address}

/-- A request that returns: it finds no pages and changes nothing, or it gets some. -/
theorem housed_of_allocatePages
    (st : h.large.Housed Heap.largeStart Heap.permanentStart out registered)
    (e : allocatePages size align offset h = .ok place h') :
    (place = 0 ∧ ∃ log, h' = { h with log }) ∨
      place ≠ 0 ∧ ∃ run large log, h' = { h with large, log } ∧
        large.Housed Heap.largeStart Heap.permanentStart (run :: out) registered := by
  obtain ⟨bytes, pages, cell, pool, log, -, -, fits, got, found⟩ := allocatePages_eq_ok e
  have pos := PagePool.pos_of_acquire got
  have lt : pages < 2 ^ 52 := by
    dsimp only [bytesPerPage, Word.limit] at fits
    omega
  rcases found with ⟨rfl, rfl, rfl⟩ | ⟨a, rfl, placed, rfl⟩
  · obtain rfl := st.refuse pos lt got
    exact .inl ⟨rfl, log, rfl⟩
  · have housed := st.allocate pos lt got
    have w := housed.canonical.packed.within ⟨a, pages⟩
      (List.mem_append_right _ List.mem_cons_self)
    obtain ⟨past, history⟩ := housed.history
    obtain ⟨-, start, -⟩ := history.canonical housed.order housed.word
    have low : Heap.largeStart ≤ a := start ▸ w.lo_le
    have some : place ≠ 0 := Nat.ne_of_gt (Nat.lt_of_lt_of_le (by decide)
      (Nat.le_trans low (le_of_alignPlace placed)))
    exact .inr ⟨some, _, _, log, rfl, housed⟩

end Large

/-! ## Blocks -/

namespace BumpAllocator

variable {h h' : Heap} {b b' : BumpAllocator} {size align offset bytes refills : Nat}
  {place : Address}

theorem le_of_blockFor (e : blockFor size align = .ok bytes) : size + align ≤ bytes := by
  obtain ⟨sum, added, e⟩ := Except.bind_eq_ok.1 e
  obtain ⟨sum', added', e⟩ := Except.bind_eq_ok.1 e
  obtain ⟨-, rfl⟩ := Word.add_eq_ok.1 added
  obtain ⟨-, rfl⟩ := Word.add_eq_ok.1 added'
  obtain rfl := Except.ok.inj e
  dsimp only [blockSize, bytesPerPage]
  omega

/-- An object that is cut off leaves the rest of the block. -/
theorem Inside.cut (inside : b.Inside) (le : b.cursor ≤ place) (fits : place + size ≤ b.limit) :
    Inside { b with cursor := place + size } where
  start_le := Nat.le_trans inside.start_le (Nat.le_trans le (Nat.le_add_right ..))
  le_limit := fits
  limit_le := inside.limit_le

theorem Inside.cursor_ne_zero (inside : b.Inside) : b.cursor ≠ 0 :=
  Nat.ne_of_gt (Nat.lt_of_lt_of_le (by decide) inside.start_le)

/-- A new block lies in the range of permanent objects. -/
theorem inside_of_block {pages start : Nat}
    (w : PageRun.Within ⟨start, pages⟩ Heap.permanentStart Heap.scratchStart)
    (enough : bytes ≤ pages * bytesPerPage) : Inside ⟨start, start + bytes⟩ where
  start_le := w.lo_le
  le_limit := Nat.le_add_right ..
  limit_le := Nat.le_trans (Nat.add_le_add_left enough start) w.le_hi

/-- An object that is cut off lies in the range of permanent objects, and leaves the rest of its
block. -/
theorem supplied_of_cut (block : b.cursor ≠ 0 → b.Inside)
    (e : b.cut? size align offset h = .ok (some (place, b')) h') :
    (Heap.permanentStart ≤ place ∧ place + size ≤ Heap.scratchStart) ∧ b'.Inside ∧
      ∃ log, h' = { h with log } := by
  obtain ⟨log, rfl, ⟨none, -⟩ | ⟨place, some, found, fits, same⟩⟩ := cut?_eq_ok e
  · cases none
  · cases same
    have le := le_of_alignPlace found
    exact ⟨⟨Nat.le_trans (block some).start_le le, Nat.le_trans fits (block some).limit_le⟩,
      (block some).cut le fits, log, rfl⟩

/-- A block that is made for a request is large enough for it. -/
theorem cut?_ne_none {start : Address} (sized : blockFor size align = .ok bytes)
    (some : start ≠ 0) : cut? ⟨start, start + bytes⟩ size align offset h ≠ .ok none h' := by
  intro e
  obtain ⟨-, -, ⟨-, small⟩ | ⟨_, -, -, -, none⟩⟩ := cut?_eq_ok e
  · obtain ⟨place, found, small⟩ := small some
    obtain ⟨-, -, near, -⟩ := alignPlace_spec (supported_of_alignPlace found) found
    have room := le_of_blockFor sized
    dsimp only [Address] at near small place
    omega
  · cases none

/-- There are too few pages for a block, or a new one is in the range of permanent objects and large
enough. -/
theorem supplied_of_refill {r : Option BumpAllocator}
    (st : h.permanent.pages.Lends Heap.permanentStart Heap.scratchStart)
    (e : refill size align h = .ok r h') :
    (r = none ∧ ∃ log, h' = { h with log }) ∨
      ∃ b pages log, r = some b ∧ b.Inside ∧
        h' = { h with permanent := { h.permanent with pages }, log } ∧
        pages.Lends Heap.permanentStart Heap.scratchStart ∧
        ∀ offset k k', b.cut? size align offset k ≠ .ok none k' := by
  obtain ⟨bytes, pages, start, pool, log, sized, enough, lt, got, rfl, rfl⟩ := refill_eq_ok e
  rcases st.of_acquire lt got with ⟨rfl, rfl⟩ | ⟨start, rfl, lends, w⟩
  · exact .inl ⟨rfl, log, rfl⟩
  · have inside := inside_of_block w enough
    exact .inr ⟨_, pool, log, rfl, inside, rfl, lends,
      fun _ _ _ => cut?_ne_none sized inside.cursor_ne_zero⟩

/-- A request that returns: it finds no block and changes nothing, or it is cut off one. -/
theorem supplied_of_allocate
    (st : h.permanent.pages.Lends Heap.permanentStart Heap.scratchStart)
    (block : b.cursor ≠ 0 → b.Inside)
    (e : allocate refills b size align offset h = .ok (place, b') h') :
    (place = 0 ∧ b' = b ∧ ∃ log, h' = { h with log }) ∨
      (Heap.permanentStart ≤ place ∧ place + size ≤ Heap.scratchStart) ∧ b'.Inside ∧ ∃ pages log,
        h' = { h with permanent := { h.permanent with pages }, log } ∧
          pages.Lends Heap.permanentStart Heap.scratchStart := by
  cases cuts_of_allocate e with
  | cut cut =>
    obtain ⟨within, inside, log, rfl⟩ := supplied_of_cut block cut
    exact .inr ⟨within, inside, h.permanent.pages, log, rfl, st⟩
  | refused cut taken =>
    obtain ⟨log, rfl, -⟩ := cut?_eq_ok cut
    rcases supplied_of_refill (by exact st) taken with ⟨-, log, rfl⟩ | ⟨_, _, _, none, -⟩
    · exact .inl ⟨rfl, rfl, log, rfl⟩
    · cases none
  | refilled cut taken rest =>
    obtain ⟨log, rfl, -⟩ := cut?_eq_ok cut
    rcases supplied_of_refill (by exact st) taken with
      ⟨none, -⟩ | ⟨b₁, pages, log, same, inside, rfl, lends, enough⟩
    · cases none
    · cases same
      -- the new block is large enough, so it is the last one
      cases rest with
      | cut cut =>
        obtain ⟨within, inside', log', rfl⟩ := supplied_of_cut (fun _ => inside) cut
        exact .inr ⟨within, inside', pages, log', rfl, lends⟩
      | refused full => exact absurd full (enough _ _ _)
      | refilled full => exact absurd full (enough _ _ _)

end BumpAllocator

/-! ## Requests -/

namespace Allocators

variable {h h' : Heap} {a a' : Allocators} {k : AllocatorKind} {size align offset : Nat}
  {place : Address}

/-- What a request that returns leaves.
* `refused`: it found nothing, and nothing changed.
* `granted`: it got a place, and later requests can rely on what they relied on. -/
inductive Serves (h : Heap) (a : Allocators) : Address → Allocators → Heap → Prop
  | refused {log : List Event} : Serves h a 0 a { h with log }
  | granted {place : Address} {a' : Allocators} {h' : Heap} : place ≠ 0 → h'.Supplied →
    a'.Supplied → h'.client = h.client → Serves h a place a' h'

theorem serves_of_allocate (st : h.Supplied) (own : a.Supplied)
    (e : a.allocate k size align offset h = .ok (place, a') h') : Serves h a place a' h' := by
  cases k with
  | bumpPointer =>
    rw [allocate, HeapM.get_bind_apply] at e
    obtain ⟨⟨place, bump⟩, k, run, e⟩ := HeapM.bind_eq_ok.1 e
    cases e
    rcases BumpAllocator.supplied_of_allocate st.permanent own.bump run with
      ⟨rfl, rfl, log, rfl⟩ | ⟨within, inside, pages, log, rfl, lends⟩
    · exact .refused
    · have some : place ≠ 0 := Nat.ne_of_gt (Nat.lt_of_lt_of_le (by decide) within.1)
      exact .granted some ⟨st.small, st.large, lends⟩ ⟨own.cells, fun _ => inside⟩ rfl
  | largeObject =>
    obtain ⟨place, k, run, e⟩ := HeapM.bind_eq_ok.1 e
    cases e
    obtain ⟨out, registered, housed⟩ := st.large
    rcases housed_of_allocatePages housed run with
      ⟨rfl, log, rfl⟩ | ⟨some, run, large, log, rfl, st'⟩
    · exact .refused
    · exact .granted some ⟨st.small, ⟨_, _, st'⟩, st.permanent⟩ own rfl
  | freeList =>
    obtain ⟨⟨place, cells⟩, k, run, e⟩ := HeapM.bind_eq_ok.1 e
    cases e
    rcases CellAllocator.supplied_of_allocate st.small own.cells run with
      ⟨rfl, rfl, log, rfl⟩ | ⟨some, spots, small, log, rfl, st'⟩
    · exact .refused
    · exact .granted some ⟨st', st.large, st.permanent⟩ ⟨spots, own.bump⟩ rfl
  | none => cases e

/-- Free cells go back to the space. -/
theorem supplied_of_release (st : h.Supplied) (own : a.Supplied)
    (e : a.release h = .ok a' h') : h'.Supplied ∧ a'.Supplied := by
  obtain ⟨cells, k, run, e⟩ := HeapM.bind_eq_ok.1 e
  cases e
  obtain ⟨free, run', back⟩ := a.cells.release_eq h
  cases run'.symm.trans run
  refine ⟨⟨⟨st.small.pool, st.small.pages, fun c x hx => ?_⟩, st.large, st.permanent⟩,
    supplied_empty.cells, own.bump⟩
  rw [back] at hx
  exact (List.mem_append.1 hx).elim (own.cells c x) (st.small.free c x)

end Allocators

end DeferredCount
