import DeferredCount.Proofs.Answering
import DeferredCount.Proofs.Overdrafts

/-!
# How often a block is refilled

A request that does not fit its block takes a new one and tries again, with nothing that would
decrease on the way. It ends because the new block is rounded up from the size and the alignment
together, which is more than the size and the padding in front of it. So the second try succeeds,
whatever the cursor and the limit were before, and whatever the pool has been asked for.

The new block may lie anywhere in the range of the pool, also where the padding cannot be computed
with signs, which is only around the address `2 ^ 63`. This is the one way for a request to fail,
and it fails after it took the pages.

Results:
1. `PagePool.Lending.acquire_of_lt`: the count of pages never stands in the way of a request.
2. `BumpAllocator.Ends`: how a request may end.
3. `BumpAllocator.refills_at_most_once`: every request ends like that, after one new block at most,
   unless the range of the pool comes near `2 ^ 63`.
4. `BumpAllocator.refill_strays_at_sign_limit`: a request that fails there.
-/

namespace DeferredCount

/-! ## The count of pages -/

/-- The wrapped runs have as many pages, as far as an address can tell. -/
theorem PageRun.total_wrappedRuns_mod (out : List PageRun) :
    PageRun.total (PageRun.wrappedRuns out) % 2 ^ 52 = PageRun.total out % 2 ^ 52 := by
  induction out with
  | nil => rfl
  | cons r out ih =>
    rw [PageRun.wrappedRuns_cons]
    split
    · rw [PageRun.total_cons, PageRun.total_cons, PageRun.wrapped]
      dsimp only
      omega
    · rw [PageRun.total_cons]
      omega

namespace PagePool

variable {start limit : Address} {p q : PagePool} {out : List PageRun} {n : Nat}

theorem Finds.total_lt {a : Address} {r : Option Address × PagePool} (f : Finds p out n a q)
    (o : p.Overdrawn out) (e : p.acquire n = .ok r) : PageRun.total out + n < Word.limit := by
  have granted := f.grants o
  rw [Grants, e] at granted
  split at granted
  · assumption
  · cases granted

/-- The pages that are out were counted in a word. -/
theorem Lending.total_lt (order : start ≤ limit) (word : limit < Word.limit)
    (run : Lending start limit p out) : PageRun.total out < Word.limit := by
  induction run with
  | fresh => decide
  | acquired run pos e ih =>
    obtain ⟨o, -⟩ := run.overdrawn order word
    rcases o.refused_or_finds pos with refused | ⟨b, q, f⟩
    · cases e.symm.trans refused
    · rw [PageRun.total_cons, Nat.add_comm]
      exact f.total_lt o e
  | refused _ _ _ ih => exact ih
  | @released _ _ out r _ hr _ ih =>
    have total := (List.perm_cons_erase hr).map (·.pages) |>.sum_eq
    rw [List.map_cons, List.sum_cons] at total
    dsimp only [PageRun.total] at *
    omega

/-- A request for fewer than `2 ^ 52` pages is refused, or gets pages of the range. The count of all
pages does not overflow, however often a request for more was granted before: what such requests add
to the count is a multiple of `2 ^ 52`. -/
theorem Lending.acquire_of_lt (order : start ≤ limit) (word : limit < Word.limit)
    (run : Lending start limit p out) (pos : 0 < n) (lt : n < 2 ^ 52) :
    p.acquire n = .ok (none, p) ∨
      ∃ a q, p.acquire n = .ok (some a, q) ∧ PageRun.Within ⟨a, n⟩ start limit := by
  obtain ⟨o, rfl, rfl⟩ := run.overdrawn order word
  rcases o.acquire_of_lt pos lt with ⟨refused, -⟩ | ⟨a, q, f, within, -⟩
  · exact .inl refused
  · have total := run.total_lt order word
    have same := PageRun.total_wrappedRuns_mod out
    have next := (f.overdrawn ⟨n + PageRun.total out, 0⟩ rfl).canonical
    have room := (next.packed.sublist (List.sublist_append_right ..)).total_le
    rw [PageRun.wrappedRuns_cons_of_lt (r := ⟨a, n⟩) pos lt, PageRun.total_cons] at room
    have cursor : q.cursor < Word.limit := Nat.lt_of_le_of_lt next.cursor_le next.limit_lt
    have counted : PageRun.total out + n < Word.limit := by
      dsimp only [bytesPerPage, Word.limit, Address] at *
      omega
    have granted := f.grants o
    rw [Grants, if_pos counted] at granted
    exact .inr ⟨a, _, granted, within⟩

theorem Lending.within_of_acquire {a : Address} (order : start ≤ limit) (word : limit < Word.limit)
    (run : Lending start limit p out) (pos : 0 < n) (lt : n < 2 ^ 52)
    (e : p.acquire n = .ok (some a, q)) : PageRun.Within ⟨a, n⟩ start limit := by
  rcases run.acquire_of_lt order word pos lt with refused | ⟨_, _, granted, within⟩
  · cases e.symm.trans refused
  · cases e.symm.trans granted
    exact within

end PagePool

namespace BumpAllocator

variable {h : Heap} {b : BumpAllocator} {size align offset : Nat}

/-! ## Tries -/

/-- A request does not fit the block: there is none, or the object would end behind it. -/
def Spent (b : BumpAllocator) (size align offset : Nat) : Prop :=
  b.cursor = 0 ∨ b.limit < firstPlace b.cursor align offset + size

instance : Decidable (b.Spent size align offset) := inferInstanceAs (Decidable (_ ∨ _))

theorem sum_lt_limit (low : size < 2 ^ 62) (ok : Alignable align offset) :
    size + align + (blockSize - 1) < Word.limit := by
  have supported := ok.supported
  dsimp only [blockSize, bytesPerPage, minAlignment, maxAlignment, Word.limit] at *
  omega

theorem firstPlace_add_lt_limit {region : Nat} (lt : region < 2 ^ 62) (low : size < 2 ^ 62)
    (ok : Alignable align offset) : firstPlace region align offset + size < Word.limit := by
  have near : firstPlace region align offset < region + align :=
    firstPlace_lt (pos_of_supported ok.supported)
  have supported := ok.supported
  dsimp only [minAlignment, maxAlignment, Word.limit] at *
  omega

theorem cut?_of_not_gapFits (some : b.cursor ≠ 0) (aligned : minAlignment ∣ b.cursor)
    (ok : Alignable align offset) (not : ¬GapFits b.cursor offset) :
    b.cut? size align offset h = .error .overflow h := by
  rw [cut?, if_neg some, place?, alignPlace_of_not_fits ok.supported ok.lt aligned not]
  rfl

theorem cut?_of_low (cursor : b.cursor = 0 ∨ minAlignment ∣ b.cursor ∧ b.cursor < 2 ^ 62)
    (low : size < 2 ^ 62) (ok : Alignable align offset) :
    ∃ log, b.cut? size align offset h = .ok (if b.Spent size align offset then none
      else some (firstPlace b.cursor align offset,
        { b with cursor := firstPlace b.cursor align offset + size })) { h with log } := by
  by_cases none : b.cursor = 0
  · rw [cut?, if_pos none, if_pos (.inl none)]
    exact ⟨_, rfl⟩
  · obtain ⟨aligned, lt⟩ := cursor.resolve_left none
    have spent : b.Spent size align offset ↔
        b.limit < firstPlace b.cursor align offset + size := or_iff_right none
    rw [if_congr spent rfl rfl]
    exact cut?_of_gapFits none aligned ok (gapFits_of_lt lt ok.lt)
      (firstPlace_add_lt_limit lt low ok)

/-! ## Requests -/

/-- How a request ends.
* `kept`: the object is cut off the block.
* `refused`: the block is used up, and the pool has too few pages for another one.
* `refilled`: the block is used up, and the object is cut off new pages. -/
inductive Ends (b : BumpAllocator) (size align offset : Nat) (h : Heap) :
    Address → BumpAllocator → Heap → Prop
  | kept {place : Address} (log : List Event) : ¬b.Spent size align offset → b.cursor ≤ place →
    place + size ≤ b.limit → align ∣ place + offset →
    Ends b size align offset h place { b with cursor := place + size } { h with log }
  | refused (log : List Event) : b.Spent size align offset →
    h.permanent.pages.acquire (blockPages size align) = .ok (none, h.permanent.pages) →
    Ends b size align offset h 0 b { h with log }
  | refilled {start place : Address} {pool : PagePool} (log : List Event) :
    b.Spent size align offset →
    h.permanent.pages.acquire (blockPages size align) = .ok (some start, pool) → start ≤ place →
    place + size ≤ start + blockPages size align * bytesPerPage → align ∣ place + offset →
    Ends b size align offset h place
      ⟨place + size, start + blockPages size align * bytesPerPage⟩
      { h with permanent := { h.permanent with pages := pool }, log }

/-- A new block is large enough for its request, so it is the last one. -/
theorem ends_of_refilled {start first stop : Address} {pool : PagePool} (log : List Event)
    (ok : Alignable align offset) (spent : b.Spent size align offset)
    (e : h.permanent.pages.acquire (blockPages size align) = .ok (some start, pool))
    (within : PageRun.Within ⟨start, blockPages size align⟩ first stop) (pos : 0 < first)
    (word : stop < Word.limit) (fits : GapFits start offset) :
    ∃ place b' h', b.Ends size align offset h place b' h' ∧ ∀ refills,
      allocate refills ⟨start, start + blockPages size align * bytesPerPage⟩ size align offset
        { h with permanent := { h.permanent with pages := pool }, log } = .ok (place, b') h' := by
  have some : start ≠ 0 := Nat.ne_of_gt (Nat.lt_of_lt_of_le pos within.lo_le)
  have aligned : minAlignment ∣ start := Nat.dvd_trans (by decide) within.aligned
  have room : firstPlace start align offset + size ≤
      start + blockPages size align * bytesPerPage := by
    have near : firstPlace start align offset < start + align :=
      firstPlace_lt (pos_of_supported ok.supported)
    have enough : size + align ≤ blockPages size align * bytesPerPage := le_blockPages
    dsimp only [Address] at *
    omega
  have lt : firstPlace start align offset + size < Word.limit :=
    Nat.lt_of_le_of_lt (Nat.le_trans room within.le_hi) word
  obtain ⟨log', cut⟩ := cut?_of_gapFits
    (b := ⟨start, start + blockPages size align * bytesPerPage⟩)
    (h := { h with permanent := { h.permanent with pages := pool }, log }) some aligned ok fits lt
  rw [if_neg (Nat.not_lt.2 room)] at cut
  obtain ⟨-, le, -, behind⟩ := alignPlace_spec ok.supported
    (alignPlace_of_fits ok.supported ok.lt aligned fits
      (Nat.lt_of_le_of_lt (Nat.le_add_right ..) lt))
  refine ⟨_, _, _, .refilled log' spent e le room behind, fun refills => ?_⟩
  rw [allocate.eq_def, HeapM.bind_of_ok cut]
  rfl

/-- No padding can be computed in pages that lie too near `2 ^ 63`. -/
theorem error_of_not_gapFits {start stop : Address} (ok : Alignable align offset)
    (some : start ≠ 0) (aligned : minAlignment ∣ start) (beyond : ¬GapFits start offset)
    (refills : Nat) : allocate refills ⟨start, stop⟩ size align offset h = .error .overflow h := by
  have cut : cut? ⟨start, stop⟩ size align offset h = .error .overflow h :=
    cut?_of_not_gapFits some aligned ok beyond
  rw [allocate.eq_def, HeapM.bind_of_error cut]

section Requests

variable {start limit : Address} {out : List PageRun} (order : start ≤ limit)
  (word : limit < Word.limit) (nonzero : start ≠ 0)
  (run : PagePool.Lending start limit h.permanent.pages out)
  (cursor : b.cursor = 0 ∨ minAlignment ∣ b.cursor ∧ b.cursor < 2 ^ 62) (low : size < 2 ^ 62)
  (ok : Alignable align offset)
include order word run low ok

/-- The new pages lie in the range of the pool. -/
theorem within_of_granted {first : Address} {pool : PagePool}
    (granted : h.permanent.pages.acquire (blockPages size align) = .ok (some first, pool)) :
    PageRun.Within ⟨first, blockPages size align⟩ start limit :=
  run.within_of_acquire order word (blockPages_pos (pos_of_supported ok.supported))
    (blockPages_lt (sum_lt_limit low ok)) granted

include cursor in
/-- If the block is used up, the rest of a request is a second try, in the new pages. -/
theorem allocate_of_granted (spent : b.Spent size align offset) {first : Address} {pool : PagePool}
    (granted : h.permanent.pages.acquire (blockPages size align) = .ok (some first, pool)) :
    ∃ log, ∀ refills, allocate (refills + 1) b size align offset h =
      allocate refills ⟨first, first + blockPages size align * bytesPerPage⟩ size align offset
        { h with permanent := { h.permanent with pages := pool }, log } := by
  obtain ⟨log, cut⟩ := cut?_of_low (h := h) cursor low ok
  rw [if_pos spent] at cut
  have within := within_of_granted order word run low ok granted
  have stop : ∀ a ∈ some first, a + blockPages size align * bytesPerPage < Word.limit := by
    rintro _ ⟨⟩
    exact Nat.lt_of_le_of_lt within.le_hi word
  obtain ⟨log', taken⟩ :=
    refill_of_acquire (h := { h with log }) (sum_lt_limit low ok) granted stop
  refine ⟨log', fun refills => ?_⟩
  rw [allocate.eq_def, HeapM.bind_of_ok cut]
  dsimp only
  rw [HeapM.bind_of_ok taken]
  rfl

/-- The padding can be computed in new pages, unless the range of the pool comes near `2 ^ 63`. -/
theorem gapFits_of_granted (clear : limit + offset ≤ 2 ^ 63 ∨ 2 ^ 63 < start) {first : Address}
    {pool : PagePool}
    (granted : h.permanent.pages.acquire (blockPages size align) = .ok (some first, pool)) :
    GapFits first offset := by
  have within := within_of_granted order word run low ok granted
  have pos : 0 < blockPages size align := blockPages_pos (pos_of_supported ok.supported)
  have behind : start ≤ first := within.lo_le
  have near : first < limit := Nat.lt_of_lt_of_le
    (Nat.lt_add_of_pos_right (Nat.mul_pos pos (by decide))) within.le_hi
  refine (gapFits_iff (Nat.lt_trans near word) ok.lt).2 ?_
  dsimp only [Word.signLimit, Address] at *
  omega

include nonzero

/-- The answer is zero exactly if a new block was needed, and the pool refused it. -/
theorem Ends.eq_zero_iff {place : Address} {b' : BumpAllocator} {h' : Heap}
    (ends : b.Ends size align offset h place b' h') : place = 0 ↔ b.Spent size align offset ∧
      h.permanent.pages.acquire (blockPages size align) = .ok (none, h.permanent.pages) := by
  cases ends with
  | kept _ spent le =>
    have some := (not_or.1 spent).1
    exact iff_of_false (Nat.ne_of_gt (Nat.lt_of_lt_of_le (Nat.pos_of_ne_zero some) le))
      fun both => spent both.1
  | refused _ spent refused => exact iff_of_true rfl ⟨spent, refused⟩
  | refilled _ spent granted le =>
    have within := within_of_granted order word run low ok granted
    have some := Nat.lt_of_lt_of_le (Nat.pos_of_ne_zero nonzero) within.lo_le
    refine iff_of_false (Nat.ne_of_gt (Nat.lt_of_lt_of_le some le)) fun both => ?_
    cases granted.symm.trans both.2

include cursor

/-- A request ends in one of those ways, and may take one new block for that. It does not matter how
many more it could take. -/
theorem allocate_ends (clear : limit + offset ≤ 2 ^ 63 ∨ 2 ^ 63 < start) :
    ∃ place b' h', b.Ends size align offset h place b' h' ∧
      ∀ refills, allocate (refills + 1) b size align offset h = .ok (place, b') h' := by
  obtain ⟨log, cut⟩ := cut?_of_low (h := h) cursor low ok
  by_cases spent : b.Spent size align offset
  · rw [if_pos spent] at cut
    have lt := sum_lt_limit low ok
    rcases run.acquire_of_lt order word (blockPages_pos (pos_of_supported ok.supported))
      (blockPages_lt lt) with refused | ⟨first, pool, granted, within⟩
    · obtain ⟨log', taken⟩ := refill_of_acquire (h := { h with log }) lt refused nofun
      refine ⟨_, _, _, .refused log' spent refused, fun refills => ?_⟩
      rw [allocate.eq_def, HeapM.bind_of_ok cut]
      dsimp only
      rw [HeapM.bind_of_ok taken]
      rfl
    · obtain ⟨log', again⟩ := allocate_of_granted order word run cursor low ok spent granted
      have fits := gapFits_of_granted order word run low ok clear granted
      obtain ⟨place, b', h', ends, same⟩ :=
        ends_of_refilled log' ok spent granted within (Nat.pos_of_ne_zero nonzero) word fits
      exact ⟨place, b', h', ends, fun refills => (again refills).trans (same refills)⟩
  · rw [if_neg spent] at cut
    obtain ⟨some, fits⟩ := not_or.1 spent
    obtain ⟨aligned, lt⟩ := cursor.resolve_left some
    obtain ⟨-, le, -, behind⟩ := alignPlace_spec ok.supported
      ((alignPlace_eq ok.supported lt ok.lt).trans (if_pos aligned))
    refine ⟨_, _, _, .kept log spent le (Nat.le_of_not_lt fits) behind, fun refills => ?_⟩
    rw [allocate.eq_def, HeapM.bind_of_ok cut]
    rfl

/-- Every request ends after one new block at most, if the range of the pool ends the offset before
`2 ^ 63`, or starts behind it. It gets the address zero exactly if it needed that block and the pool
refused it, and then nothing changes. Else it gets memory in the rest of its old block, or in the
new pages, and the cursor stands behind it. -/
theorem refills_at_most_once (clear : limit + offset ≤ 2 ^ 63 ∨ 2 ^ 63 < start) :
    ∃ place b' h', b.Ends size align offset h place b' h' ∧
      (∀ refills, allocate (refills + 1) b size align offset h = .ok (place, b') h') ∧
      (place = 0 ↔ b.Spent size align offset ∧
        h.permanent.pages.acquire (blockPages size align) = .ok (none, h.permanent.pages)) := by
  obtain ⟨place, b', h', ends, same⟩ := allocate_ends order word nonzero run cursor low ok clear
  exact ⟨place, b', h', ends, same, ends.eq_zero_iff order word nonzero run low ok⟩

end Requests

/-- In a fresh heap an allocator whose limit lies below its cursor takes the first block of the
range. -/
theorem refills_at_most_once_crossed : ∃ place h', Heap.permanentStart ≤ place ∧ 8 ∣ place + 4 ∧
    ∀ refills, allocate (refills + 1) ⟨0x1000, 0x800⟩ 16 8 4 (Heap.ofSettings {}) =
      .ok (place, ⟨place + 16, Heap.permanentStart + 0x8000⟩) h' := by
  have run : PagePool.Lending Heap.permanentStart Heap.scratchStart
      (Heap.ofSettings {}).permanent.pages [] := .fresh rfl
  obtain ⟨place, b', h', ends, same, -⟩ := @refills_at_most_once (Heap.ofSettings {})
    ⟨0x1000, 0x800⟩ 16 8 4 _ _ _ (by decide) (by decide) (by decide) run
    (.inr ⟨by decide, by decide⟩) (by decide) ⟨.inr rfl, by decide, by decide⟩ (.inl (by decide))
  have eight : blockPages 16 8 = 8 := by decide
  have fresh : (Heap.ofSettings {}).permanent.pages =
    ⟨Heap.permanentStart, Heap.scratchStart, Heap.permanentStart, [], {}⟩ := rfl
  have first : (Heap.ofSettings {}).permanent.pages.acquire (blockPages 16 8) =
      .ok (some Heap.permanentStart, ⟨Heap.permanentStart, Heap.scratchStart,
        Heap.permanentStart + 0x8000, [], ⟨8, 8⟩⟩) := by
    rw [eight, fresh]
    rfl
  cases ends with
  | kept _ spent => exact absurd (.inr (by decide)) spent
  | refused _ _ refused => cases refused.symm.trans first
  | refilled _ _ granted le _ behind =>
    cases granted.symm.trans first
    exact ⟨_, _, le, behind, same⟩

/-! ## A pool at the sign limit -/

/-- A heap whose permanent space may lend the eight pages from `2 ^ 63` on. -/
def signLimitHeap : Heap :=
  { Heap.ofSettings {} with permanent :=
      { (Heap.ofSettings {}).permanent with
        pages := { start := 2 ^ 63, limit := 2 ^ 63 + 0x8000, cursor := 2 ^ 63 } } }

/-- There a new allocator takes all pages for an object of 16 bytes, and fails. Read with a sign,
`2 ^ 63` is the least number, and it has no negation. -/
theorem refill_strays_at_sign_limit :
    PagePool.Lending (2 ^ 63) (2 ^ 63 + 0x8000) signLimitHeap.permanent.pages [] ∧
    Alignable 8 0 ∧ ∀ refills, ∃ h', h'.permanent.pages.usage.reserved = 8 ∧
      allocate (refills + 1) {} 16 8 0 signLimitHeap = .error .overflow h' := by
  have run : PagePool.Lending (2 ^ 63) (2 ^ 63 + 0x8000) signLimitHeap.permanent.pages [] :=
    .fresh rfl
  have ok : Alignable 8 0 := ⟨.inr rfl, by decide, by decide⟩
  have eight : blockPages 16 8 = 8 := by decide
  have granted : signLimitHeap.permanent.pages.acquire (blockPages 16 8) =
      .ok (some (2 ^ 63), ⟨2 ^ 63, 2 ^ 63 + 0x8000, 2 ^ 63 + 0x8000, [], ⟨8, 8⟩⟩) := by
    rw [eight]
    decide +kernel
  have beyond : ¬GapFits (2 ^ 63) 0 := by
    rw [gapFits_iff (by decide) (by decide)]
    decide
  obtain ⟨log, again⟩ := allocate_of_granted (b := {}) (by decide) (by decide) run (.inl rfl)
    (by decide) ok (.inl rfl) granted
  exact ⟨run, ok, fun refills => ⟨_, rfl, (again refills).trans
    (error_of_not_gapFits ok (by decide) (by decide) beyond refills)⟩⟩

end BumpAllocator

end DeferredCount
