import DeferredCount.Proofs.Answering

/-!
# Whether the reserved bytes suffice

A request for a cell or for pages reserves more bytes than its size, so that the object can be moved
up until its offset is aligned. How far it has to be moved depends on where the region starts. The
reserve is computed for regions and offsets that are multiples of the least alignment. The start of
a region is checked for that, the offset is not. With other offsets the object may have to be moved
further than the reserve allows, by up to three bytes, and then it may leave its cell or its pages.

Results:
1. `firstPlace_add_le_iff`: when the reserved bytes hold an object.
2. `Allocators.takes_of_allocate`, `Allocators.Takes.reserves`: what a request takes, and how large
   that is.
3. `reserve_suffices_iff`: at any point, when the object of a request stays in its cell or pages.
-/

namespace DeferredCount

/-! ## The reserve -/

section Reserve

variable {region size align offset bytes : Nat}

/-- The object does not have to be moved at all, or by no more than the difference of the two
alignments. -/
def SlackSuffices (region align offset : Nat) : Prop :=
  (region + offset) % align = 0 ∨ minAlignment ≤ (region + offset) % align

/-- The slack is made for the offsets that are multiples of the least alignment. -/
theorem slackSuffices_of_dvd (supported : align = minAlignment ∨ align = maxAlignment)
    (start : minAlignment ∣ region) (multiple : minAlignment ∣ offset) :
    SlackSuffices region align offset := by
  unfold SlackSuffices
  dsimp only [minAlignment, maxAlignment] at *
  rcases supported with rfl | rfl <;> omega

theorem eq_roomFor_of_reserveSize (supported : align = minAlignment ∨ align = maxAlignment)
    (reserved : reserveSize size align = .ok bytes) : bytes = roomFor size align := by
  rcases reserveSize_cases size supported with same | ⟨-, failed⟩
  · exact Except.ok.inj (reserved.symm.trans same)
  · cases reserved.symm.trans failed

theorem reserveSize_eq (supported : align = minAlignment ∨ align = maxAlignment)
    (low : size < 2 ^ 62) : reserveSize size align = .ok (roomFor size align) := by
  refine (reserveSize_cases size supported).resolve_right fun ⟨beyond, _⟩ => ?_
  unfold roomFor at beyond
  dsimp only [minAlignment, maxAlignment, Word.limit] at *
  rcases supported with rfl | rfl <;> omega

/-- The reserved bytes hold the object exactly if the slack suffices. -/
theorem firstPlace_add_le_iff (supported : align = minAlignment ∨ align = maxAlignment) :
    firstPlace region align offset + size ≤ region + roomFor size align ↔
      SlackSuffices region align offset := by
  unfold firstPlace roomFor SlackSuffices
  dsimp only [minAlignment, maxAlignment] at *
  rcases supported with rfl | rfl <;> omega

/-- The slack is never too small by more than three bytes. -/
theorem firstPlace_add_lt (supported : align = minAlignment ∨ align = maxAlignment) :
    firstPlace region align offset + size < region + roomFor size align + minAlignment := by
  unfold firstPlace roomFor
  dsimp only [minAlignment, maxAlignment] at *
  rcases supported with rfl | rfl <;> omega

end Reserve

/-! ## What a request takes -/

/-- The memory that a request takes.
* `cell`: a cell of a class.
* `pages`: a run of pages.
* `slice`: a part of a block of permanent objects, which is never given back. -/
inductive Ground
  | cell (c : SizeClass) (start : Address)
  | pages (run : PageRun)
  | slice
  deriving DecidableEq

/-- A cell and a run of pages start somewhere and have some room. -/
inductive Ground.Spans : Ground → Address → Nat → Prop
  | cell {c : SizeClass} {start : Address} : Spans (.cell c start) start c.cellSize
  | pages {run : PageRun} : Spans (.pages run) run.start (run.pages * bytesPerPage)

namespace Allocators

variable {h h' : Heap} {a a' : Allocators} {k : AllocatorKind} {size align offset room : Nat}
  {place start : Address} {g g' : Ground}

/-- A request for an allocator of a kind gets a place. It takes memory for it, which leaves the
allocators and the heap behind that it leaves. -/
inductive Takes (a : Allocators) (size align offset : Nat) (h : Heap) :
    AllocatorKind → Address → Ground → Allocators → Heap → Prop
  | cell {bytes : Nat} {c : SizeClass} {start place : Address} {cells : CellAllocator}
      {h' : Heap} : reserveSize size align = .ok bytes → SizeClass.ofBytes? bytes = some c →
      a.cells.take c h = .ok (some start, cells) h' → alignPlace start align offset = .ok place →
      Takes a size align offset h .freeList place (.cell c start) { a with cells } h'
  | pages {bytes n : Nat} {start place : Address} {h' : Heap} :
      reserveSize size align = .ok bytes → bytesToPages bytes = .ok n →
      HeapM.allocateLarge n h = .ok (some start) h' → alignPlace start align offset = .ok place →
      Takes a size align offset h .largeObject place (.pages ⟨start, n⟩) a h'
  | slice {place : Address} {bump : BumpAllocator} {h' : Heap} {refills : Nat} :
      BumpAllocator.allocate refills a.bump size align offset h = .ok (place, bump) h' →
      Takes a size align offset h .bumpPointer place .slice { a with bump } h'

/-- A request that gets a place takes memory for it. -/
theorem takes_of_allocate (e : a.allocate k size align offset h = .ok (place, a') h')
    (some : place ≠ 0) : ∃ g, a.Takes size align offset h k place g a' h' := by
  cases k with
  | bumpPointer =>
    rw [allocate, HeapM.get_bind_apply] at e
    obtain ⟨⟨p, bump⟩, _, run, e⟩ := HeapM.bind_eq_ok.1 e
    cases e
    exact ⟨_, .slice run⟩
  | largeObject =>
    obtain ⟨p, _, run, e⟩ := HeapM.bind_eq_ok.1 e
    cases e
    obtain ⟨bytes, reserved, run⟩ := HeapM.lift_bind_eq_ok.1 run
    obtain ⟨n, counted, run⟩ := HeapM.lift_bind_eq_ok.1 run
    obtain ⟨start, k', taken, run⟩ := HeapM.bind_eq_ok.1 run
    cases start with
    | none =>
      cases run
      exact absurd rfl some
    | some start =>
      obtain ⟨placed, rfl⟩ := HeapM.lift_eq_ok.1 run
      exact ⟨_, .pages reserved counted taken placed⟩
  | freeList =>
    obtain ⟨⟨p, cells⟩, _, run, e⟩ := HeapM.bind_eq_ok.1 e
    cases e
    obtain ⟨bytes, c, cell, reserved, found, taken, placed⟩ := CellAllocator.allocate_eq_ok run
    rcases placed with ⟨-, rfl⟩ | ⟨start, rfl, placed⟩
    · exact absurd rfl some
    · exact ⟨_, .cell reserved found taken placed⟩
  | none => cases e

/-- A request takes one piece of memory. -/
theorem Takes.unique {a'' : Allocators} {h'' : Heap}
    (t : a.Takes size align offset h k place g a' h')
    (t' : a.Takes size align offset h k place g' a'' h'') : g' = g := by
  cases t with
  | cell reserved found taken _ =>
    cases t' with
    | cell reserved' found' taken' _ =>
      cases reserved.symm.trans reserved'
      cases found.symm.trans found'
      cases taken.symm.trans taken'
      rfl
  | pages reserved counted taken _ =>
    cases t' with
    | pages reserved' counted' taken' _ =>
      cases reserved.symm.trans reserved'
      cases counted.symm.trans counted'
      cases taken.symm.trans taken'
      rfl
  | slice =>
    cases t'
    rfl

/-- What a request takes starts at a multiple of the least alignment, and has room for the reserved
bytes. -/
theorem Takes.reserves (t : a.Takes size align offset h k place g a' h') (st : h.Supplied)
    (own : a.Supplied) (spans : g.Spans start room) :
    minAlignment ∣ start ∧ start < 2 ^ 62 ∧ roomFor size align ≤ room ∧
      alignPlace start align offset = .ok place := by
  cases t with
  | cell reserved found taken placed =>
    cases spans
    have enough := SizeClass.ofBytes?_eq_some found
    rw [eq_roomFor_of_reserveSize (supported_of_alignPlace placed) reserved] at enough
    rcases CellAllocator.take_ends _ st.small own.cells with
      ⟨_, none⟩ | ⟨_, _, _, _, taken', spot, -, -⟩
    · cases taken.symm.trans none
    · cases taken.symm.trans taken'
      exact ⟨spot.aligned, Nat.lt_trans spot.lt_limit (by decide), enough, placed⟩
  | @pages _ _ first _ _ reserved counted taken placed =>
    cases spans
    obtain ⟨enough, fits⟩ := bytesToPages_eq_ok counted
    rw [eq_roomFor_of_reserveSize (supported_of_alignPlace placed) reserved] at enough
    obtain ⟨pool, got, -⟩ := HeapM.allocateLarge_eq_ok taken
    rcases st.large_lends.of_acquire fits got with ⟨none, -⟩ | ⟨_, same, -, w⟩
    · cases none
    · cases same
      have low : first ≤ Heap.permanentStart := Nat.le_trans (Nat.le_add_right ..) w.le_hi
      exact ⟨Nat.dvd_trans (by decide) w.aligned, Nat.lt_of_le_of_lt low (by decide), enough,
        placed⟩
  | slice => cases spans

end Allocators

/-! ## At any point -/

section

variable {h h' : Heap} {ms : List Mutator} {m : Mutator} {size align offset : Nat}

/-- The reserve is a matter of the offset. Wherever a region starts, the reserved bytes hold the
object exactly if the slack suffices, and otherwise it leaves them by three bytes at most. Whatever
an instance has come to, the object of a request stays in its cell or its pages as well if the slack
suffices, and otherwise it does not get further out of them. -/
theorem reserve_suffices_iff (run : Reached h ms) (mine : m ∈ ms)
    (supported : align = minAlignment ∨ align = maxAlignment) (low : size < 2 ^ 62)
    (behind : offset < 2 ^ 62) :
    (∀ region, minAlignment ∣ region → region < 2 ^ 62 → ∃ place,
      alignPlace region align offset = .ok place ∧
      reserveSize size align = .ok (roomFor size align) ∧
      (place + size ≤ region + roomFor size align ↔ SlackSuffices region align offset) ∧
      place + size < region + roomFor size align + minAlignment) ∧
    ∀ (k : AllocatorKind) (place : Address) (a : Allocators) (h' : Heap),
      m.allocators.allocate k size align offset h = .ok (place, a) h' → place ≠ 0 →
      ∃ g, m.allocators.Takes size align offset h k place g a h' ∧
        ∀ start room, g.Spans start room → start ≤ place ∧
          (SlackSuffices start align offset → place + size ≤ start + room) ∧
          place + size < start + room + minAlignment := by
  refine ⟨fun region aligned lt => ?_, fun k place a h' e some => ?_⟩
  · have placed := alignPlace_eq supported lt behind
    rw [if_pos aligned] at placed
    exact ⟨_, placed, reserveSize_eq supported low, firstPlace_add_le_iff supported,
      firstPlace_add_lt supported⟩
  · obtain ⟨g, taken⟩ := Allocators.takes_of_allocate e some
    refine ⟨g, taken, fun start room spans => ?_⟩
    obtain ⟨aligned, lt, enough, found⟩ :=
      taken.reserves run.supplied.heap (run.supplied.own m mine) spans
    have placed := alignPlace_eq supported lt behind
    rw [if_pos aligned] at placed
    obtain rfl : place = _ := Except.ok.inj (found.symm.trans placed)
    refine ⟨le_of_alignPlace found, fun slack => ?_, ?_⟩
    · exact Nat.le_trans ((firstPlace_add_le_iff supported).2 slack)
        (Nat.add_le_add_left enough start)
    · exact Nat.lt_of_lt_of_le (firstPlace_add_lt supported)
        (Nat.add_le_add_right (Nat.add_le_add_left enough start) minAlignment)

end

/-- A fresh mutator gets a cell for 2044 bytes, four bytes behind which an address is aligned, and
they end with the cell. With an offset of one they would not, wherever the region starts at a
multiple of eight. -/
theorem reserve_suffices_iff_two_offsets : ∃ h m start place a h', Reached h [m] ∧
    m.allocators.allocate .freeList 2044 8 4 h = .ok (place, a) h' ∧
    m.allocators.Takes 2044 8 4 h .freeList place (.cell 7 start) a h' ∧
    place + 2044 ≤ start + SizeClass.cellSize 7 ∧
    ∀ region, 8 ∣ region → region < 2 ^ 62 → ∃ place, alignPlace region 8 1 = .ok place ∧
      ¬place + 2044 ≤ region + roomFor 2044 8 := by
  have run := Reached.bind (@Reached.fresh {} {}) rfl
  have even := @reserve_suffices_iff _ _ _ 2044 8 4 run List.mem_cons_self (.inr rfl) (by decide)
    (by decide)
  have odd := @reserve_suffices_iff _ _ _ 2044 8 1 run List.mem_cons_self (.inr rfl) (by decide)
    (by decide)
  obtain ⟨g, taken, holds⟩ := even.2 .freeList _ _ _ rfl (by decide)
  obtain rfl := Allocators.Takes.unique (.cell rfl rfl rfl rfl) taken
  have slack : SlackSuffices Heap.smallStart 8 4 :=
    slackSuffices_of_dvd (.inr rfl) (by decide) (by decide)
  refine ⟨_, _, _, _, _, _, run, rfl, taken, (holds _ _ .cell).2.1 slack, ?_⟩
  intro region multiple lt
  obtain ⟨place, placed, -, fits_iff, -⟩ := odd.1 region (Nat.dvd_trans (by decide) multiple) lt
  refine ⟨place, placed, fun fits => ?_⟩
  have enough := fits_iff.1 fits
  unfold SlackSuffices at enough
  dsimp only [minAlignment] at enough
  omega

/-- A fresh mutator asks for a page with an offset of one. The object is moved up by three bytes,
and ends behind its page. -/
theorem odd_offset_leaves_its_page : ∃ h m m' h', Reached h [m] ∧
    m.allocate 4096 4 1 .los h = .ok (Heap.largeStart + 3, m') h' ∧
    m.allocators.Takes 4096 4 1 h .largeObject (Heap.largeStart + 3)
      (.pages ⟨Heap.largeStart, 1⟩) m'.allocators h' ∧
    reserveSize 4096 4 = .ok 4096 ∧ Heap.largeStart + bytesPerPage < Heap.largeStart + 3 + 4096 :=
  ⟨_, _, _, _, Reached.bind (@Reached.fresh {} {}) rfl, rfl, .pages rfl rfl rfl rfl, rfl,
    by decide⟩

end DeferredCount
