import DeferredCount.Proofs.Reaching

/-!
# Which requests are answered

A request is answered if it gets a place, or if its client learns that memory is exhausted. That
does not depend on how full the spaces are. It fails in three cases only.

* The sizes that are computed on the way are sums of words. They leave the range for requests that
  no space could serve anyway.
* A request for a large object of no bytes asks for no pages, which the pool refuses to hear.
* A bump allocator does not round its cursor up. After an object whose size is no multiple of the
  least alignment it cannot place the next one, whatever that asks for.

Results:
1. `alignPlace_eq`: where an object is placed.
2. `CellAllocator.allocate_returns`, `allocatePages_returns`, `BumpAllocator.allocate_returns`:
   requests that return.
3. `Mutator.answered_iff_servable`: at any point, which requests are answered, and how the others
   fail.
-/

namespace DeferredCount

/-! ## Sizes and places -/

/-- The first place from the start of a region on at which the offset is aligned. -/
def firstPlace (region align offset : Nat) : Nat :=
  region + (-((region + offset : Nat) : Int) % (align : Int)).toNat

/-- The bytes that are reserved for an object of a size, whatever its offset. -/
def roomFor (size align : Nat) : Nat := size + (align - minAlignment)

section Sizes

variable {region size align offset bytes : Nat}

theorem firstPlace_lt (pos : 0 < align) : firstPlace region align offset < region + align := by
  unfold firstPlace
  have lt := Int.emod_lt_of_pos (-((region + offset : Nat) : Int)) (Int.natCast_pos.2 pos)
  have ge := Int.emod_nonneg (-((region + offset : Nat) : Int)) (Int.natCast_pos.2 pos).ne'
  omega

theorem pos_of_supported (supported : align = minAlignment ∨ align = maxAlignment) : 0 < align := by
  rcases supported with rfl | rfl <;> decide

/-- The distance from a region back to an offset fits a signed word. -/
def GapFits (region offset : Nat) : Prop :=
  -(Word.signLimit : Nat) ≤ -(offset : Int) - Word.toSigned region ∧
    -(offset : Int) - Word.toSigned region < (Word.signLimit : Nat)

/-- The gap fits if a region in the lower half of the addresses does not reach out of it with its
offset. In the upper half only the first address with no offset at all is too far. -/
theorem gapFits_iff (word : region < Word.limit) (behind : offset < 2 ^ 62) :
    GapFits region offset ↔
      (region < Word.signLimit ↔ region + offset ≤ Word.signLimit) := by
  unfold GapFits Word.toSigned
  dsimp only [Word.signLimit, Word.limit] at *
  split <;> omega

theorem gapFits_of_lt (lt : region < 2 ^ 62) (behind : offset < 2 ^ 62) :
    GapFits region offset := by
  rw [gapFits_iff (Nat.lt_trans lt (by decide)) behind]
  dsimp only [Word.signLimit]
  omega

theorem signed_neg_toSigned (behind : offset < 2 ^ 62) :
    Word.signed (-Word.toSigned offset) = .ok (-(offset : Int)) := by
  have back : Word.toSigned offset = offset := if_pos (Nat.lt_trans behind (by decide))
  rw [back]
  refine if_pos ?_
  dsimp only [Word.signLimit]
  omega

/-- The signs do not show in the remainder of the gap. -/
theorem gap_emod (dvd : align ∣ Word.limit) :
    (-(offset : Int) - Word.toSigned region) % (align : Int) =
      -((region + offset : Nat) : Int) % align := by
  have sum : -((region + offset : Nat) : Int) = -(offset : Int) - region := by omega
  rw [Int.sub_emod, Word.toSigned_emod dvd, ← Int.sub_emod, sum]

theorem GapFits.signed (fits : GapFits region offset) :
    Word.signed (-(offset : Int) - Word.toSigned region) =
      .ok (-(offset : Int) - Word.toSigned region) := if_pos fits

theorem signed_of_not_gapFits (not : ¬GapFits region offset) :
    Word.signed (-(offset : Int) - Word.toSigned region) = .error .overflow := if_neg not

/-- The bytes to skip are computed with signs, which loses nothing if the gap fits. -/
theorem padding_of_fits (behind : offset < 2 ^ 62) (fits : GapFits region offset) :
    padding region align offset =
      .ok ((-(offset : Int) - Word.toSigned region) % (align : Int)).toNat := by
  rw [padding, signed_neg_toSigned behind, Except.ok_bind, fits.signed]
  rfl

theorem padding_of_not_fits (behind : offset < 2 ^ 62) (not : ¬GapFits region offset) :
    padding region align offset = .error .overflow := by
  rw [padding, signed_neg_toSigned behind, Except.ok_bind, signed_of_not_gapFits not]
  rfl

/-- A supported alignment passes the checks, and the region is checked to start at a multiple of the
least one. -/
theorem alignPlace_eq_padding (supported : align = minAlignment ∨ align = maxAlignment) :
    alignPlace region align offset = if minAlignment ∣ region
      then padding region align offset >>= Word.add region
      else .error (.check .regionAligned) := by
  have bounds : (minAlignment ≤ align && align ≤ maxAlignment) = true := by
    rcases supported with rfl | rfl <;> rfl
  have power : Word.isPowerOfTwo align = true := by
    rcases supported with rfl | rfl <;> decide
  rw [alignPlace, require, if_pos bounds, Except.ok_bind, require, if_pos power, Except.ok_bind]
  split
  · next aligned =>
    have check : (region % minAlignment == 0) = true :=
      beq_iff_eq.2 (Nat.mod_eq_zero_of_dvd aligned)
    rw [require, if_pos check, Except.ok_bind]
  · next odd =>
    have check : (region % minAlignment == 0) ≠ true := fun aligned =>
      odd (Nat.dvd_of_mod_eq_zero (beq_iff_eq.1 aligned))
    rw [require, if_neg check]
    rfl

/-- An object is placed wherever the gap fits and the place is still a word. -/
theorem alignPlace_of_fits (supported : align = minAlignment ∨ align = maxAlignment)
    (behind : offset < 2 ^ 62) (aligned : minAlignment ∣ region) (fits : GapFits region offset)
    (room : firstPlace region align offset < Word.limit) :
    alignPlace region align offset = .ok (firstPlace region align offset) := by
  rw [alignPlace_eq_padding supported, if_pos aligned, padding_of_fits behind fits,
    Except.ok_bind, gap_emod (dvd_limit_of_supported supported), Word.add]
  exact if_pos room

theorem alignPlace_of_not_fits (supported : align = minAlignment ∨ align = maxAlignment)
    (behind : offset < 2 ^ 62) (aligned : minAlignment ∣ region) (not : ¬GapFits region offset) :
    alignPlace region align offset = .error .overflow := by
  rw [alignPlace_eq_padding supported, if_pos aligned, padding_of_not_fits behind not]
  rfl

/-- An object is placed if its region starts at a multiple of the least alignment. -/
theorem alignPlace_eq (supported : align = minAlignment ∨ align = maxAlignment)
    (lt : region < 2 ^ 62) (behind : offset < 2 ^ 62) :
    alignPlace region align offset = if minAlignment ∣ region
      then .ok (firstPlace region align offset) else .error (.check .regionAligned) := by
  have small : align ≤ 2 ^ 62 := by
    rcases supported with rfl | rfl <;> decide
  have room : firstPlace region align offset < Word.limit :=
    Nat.lt_trans (firstPlace_lt (pos_of_supported supported))
      (Nat.lt_of_lt_of_le (Nat.add_lt_add_of_lt_of_le lt small) (by decide))
  split
  · next aligned =>
    exact alignPlace_of_fits supported behind aligned (gapFits_of_lt lt behind) room
  · next odd => rw [alignPlace_eq_padding supported, if_neg odd]

theorem reserveSize_cases (size : Nat) (supported : align = minAlignment ∨ align = maxAlignment) :
    reserveSize size align = .ok (roomFor size align) ∨
      Word.limit ≤ roomFor size align + minAlignment ∧
        reserveSize size align = .error .overflow := by
  unfold reserveSize roomFor
  rcases supported with rfl | rfl
  · exact .inl rfl
  · rw [if_neg (by decide), Word.add]
    split
    · exact .inl rfl
    · next beyond => exact .inr ⟨Nat.le_of_not_lt beyond, rfl⟩

theorem bytesToPages_of_lt (lt : bytes + bytesPerPage < Word.limit) :
    bytesToPages bytes = .ok ((bytes + bytesPerPage - 1) / bytesPerPage) := by
  rw [bytesToPages, Word.add, if_pos lt]
  rfl

theorem bytesToPages_of_ge (ge : Word.limit ≤ bytes + bytesPerPage) :
    bytesToPages bytes = .error .overflow := by
  rw [bytesToPages, Word.add, if_neg (Nat.not_lt.2 ge)]
  rfl

end Sizes

/-! ## The allocators -/

section Allocators

variable {h : Heap} {size align offset bytes : Nat}

/-- A cell of the right size is found, or there is none left. -/
theorem CellAllocator.allocate_returns {a : CellAllocator} (st : h.small.Supplied)
    (spots : a.Spots) (ok : Alignable align offset) (reserved : reserveSize size align = .ok bytes)
    (le : bytes ≤ maxCell) :
    ∃ place a' h', a.allocate size align offset h = .ok (place, a') h' := by
  rw [allocate, HeapM.liftM_eq, reserved, HeapM.lift_ok, HeapM.pure_bind_apply]
  cases found : SizeClass.ofBytes? bytes with
  | none => exact absurd le (Nat.not_le.2 (SizeClass.ofBytes?_eq_none.1 found))
  | some c =>
    rcases take_ends c st spots with ⟨log, e⟩ | ⟨x, a', small, log, e, spot, -⟩
    · exact ⟨0, a, _, HeapM.bind_of_ok e⟩
    · have low : x < 2 ^ 62 := Nat.lt_trans spot.lt_limit (by decide)
      refine ⟨firstPlace x align offset, a', { h with small, log }, ?_⟩
      dsimp only
      rw [HeapM.bind_of_ok e]
      dsimp only
      rw [HeapM.liftM_eq, alignPlace_eq ok.supported low ok.lt, if_pos spot.aligned]
      rfl

/-- Enough pages are found, or there are too few left. -/
theorem allocatePages_returns
    (lends : h.large.pages.Lends Heap.largeStart Heap.permanentStart) (ok : Alignable align offset)
    (pos : 0 < roomFor size align) (lt : roomFor size align + bytesPerPage < Word.limit) :
    ∃ place h', allocatePages size align offset h = .ok place h' := by
  have reserved : reserveSize size align = .ok (roomFor size align) :=
    (reserveSize_cases size ok.supported).resolve_right fun ⟨ge, _⟩ => by
      dsimp only [minAlignment, bytesPerPage] at ge lt
      omega
  obtain ⟨n, pages⟩ : ∃ n, n = (roomFor size align + bytesPerPage - 1) / bytesPerPage := ⟨_, rfl⟩
  have some : 0 < n ∧ n < 2 ^ 52 := by
    dsimp only [bytesPerPage, Word.limit] at pages lt
    omega
  rw [allocatePages, HeapM.liftM_eq, reserved, HeapM.lift_ok, HeapM.pure_bind_apply,
    HeapM.liftM_eq, bytesToPages_of_lt lt, HeapM.lift_ok, HeapM.pure_bind_apply, ← pages]
  rcases lends.acquire some.1 some.2 with e | ⟨a, q, e, -, w⟩
  · obtain ⟨h', e⟩ := HeapM.allocateLarge_of_acquire e
    exact ⟨0, h', HeapM.bind_of_ok e⟩
  · obtain ⟨h', e⟩ := HeapM.allocateLarge_of_acquire e
    have high : a + n * bytesPerPage ≤ Heap.permanentStart := w.le_hi
    have low : a < 2 ^ 62 :=
      Nat.lt_of_le_of_lt (Nat.le_trans (Nat.le_add_right ..) high) (by decide)
    refine ⟨firstPlace a align offset, h', ?_⟩
    rw [HeapM.bind_of_ok e]
    dsimp only
    rw [HeapM.liftM_eq, alignPlace_eq ok.supported low ok.lt,
      if_pos (Nat.dvd_trans (by decide) w.aligned)]
    rfl

/-- A request for no bytes, or for too many. -/
theorem allocatePages_fails (ok : Alignable align offset)
    (bad : roomFor size align = 0 ∨ Word.limit ≤ roomFor size align + bytesPerPage) :
    allocatePages size align offset h =
      .error (if roomFor size align = 0 then .check .somePages else .overflow) h := by
  rw [allocatePages]
  rcases reserveSize_cases size ok.supported with reserved | ⟨ge, reserved⟩
  · rw [HeapM.liftM_eq, reserved, HeapM.lift_ok, HeapM.pure_bind_apply, HeapM.liftM_eq]
    by_cases none : roomFor size align = 0
    · rw [if_pos none, none]
      rfl
    · rw [if_neg none, bytesToPages_of_ge (bad.resolve_left none)]
      rfl
  · have some : roomFor size align ≠ 0 := by
      dsimp only [minAlignment, Word.limit] at ge
      omega
    rw [if_neg some, HeapM.liftM_eq, reserved]
    rfl

end Allocators

namespace BumpAllocator

variable {h : Heap} {b : BumpAllocator} {size align offset refills : Nat}

/-- The block of a bump allocator can be tried. -/
def Tries (b : BumpAllocator) (size align offset : Nat) : Prop :=
  minAlignment ∣ b.cursor ∧ firstPlace b.cursor align offset + size < Word.limit

theorem Inside.cursor_lt (inside : b.Inside) : b.cursor < 2 ^ 62 :=
  Nat.lt_of_le_of_lt (Nat.le_trans inside.le_limit inside.limit_le) (by decide)

/-- The first place of a block is cut off if it lies inside. -/
theorem cut?_of_gapFits (some : b.cursor ≠ 0) (aligned : minAlignment ∣ b.cursor)
    (ok : Alignable align offset) (fits : GapFits b.cursor offset)
    (lt : firstPlace b.cursor align offset + size < Word.limit) :
    ∃ log, b.cut? size align offset h =
      .ok (if b.limit < firstPlace b.cursor align offset + size then none
        else Option.some (firstPlace b.cursor align offset,
          { b with cursor := firstPlace b.cursor align offset + size })) { h with log } := by
  have placed := alignPlace_of_fits ok.supported ok.lt aligned fits
    (Nat.lt_of_le_of_lt (Nat.le_add_right ..) lt)
  rw [cut?, if_neg some, place?, placed, Except.ok_bind, Word.add, if_pos lt, Except.ok_bind]
  split <;> exact ⟨_, rfl⟩

theorem cut?_returns (block : b.cursor ≠ 0 → b.Inside) (ok : Alignable align offset)
    (tries : b.cursor ≠ 0 → b.Tries size align offset) :
    ∃ r h', b.cut? size align offset h = .ok r h' := by
  by_cases none : b.cursor = 0
  · rw [cut?, if_pos none]
    exact ⟨_, _, rfl⟩
  · obtain ⟨aligned, lt⟩ := tries none
    obtain ⟨log, e⟩ := cut?_of_gapFits (h := h) none aligned ok
      (gapFits_of_lt (block none).cursor_lt ok.lt) lt
    exact ⟨_, _, e⟩

/-- A block that is large enough. -/
theorem cut?_of_fits (inside : b.Inside) (ok : Alignable align offset)
    (aligned : minAlignment ∣ b.cursor) (fits : firstPlace b.cursor align offset + size ≤ b.limit) :
    ∃ r h', b.cut? size align offset h = .ok (some r) h' := by
  have lt : firstPlace b.cursor align offset + size < Word.limit :=
    Nat.lt_of_le_of_lt (Nat.le_trans fits inside.limit_le) (by decide)
  obtain ⟨log, e⟩ := cut?_of_gapFits (h := h) inside.cursor_ne_zero aligned ok
    (gapFits_of_lt inside.cursor_lt ok.lt) lt
  rw [if_neg (Nat.not_lt.2 fits)] at e
  exact ⟨_, _, e⟩

/-- A block that cannot be tried. -/
theorem cut?_fails (inside : b.Inside) (ok : Alignable align offset)
    (fails : ¬b.Tries size align offset) : b.cut? size align offset h =
      .error (if minAlignment ∣ b.cursor then .overflow else .check .regionAligned) h := by
  rw [cut?, if_neg inside.cursor_ne_zero, place?, alignPlace_eq ok.supported inside.cursor_lt ok.lt]
  split
  · next aligned =>
    rw [Except.ok_bind, Word.add, if_neg fun lt => fails ⟨aligned, lt⟩]
    rfl
  · rfl

/-- The pages of the block that a request asks for. -/
def blockPages (size align : Nat) : Nat :=
  (size + align + (blockSize - 1)) / blockSize * (blockSize / bytesPerPage)

theorem le_blockPages : size + align ≤ blockPages size align * bytesPerPage := by
  unfold blockPages
  dsimp only [blockSize, bytesPerPage]
  omega

theorem blockPages_pos (pos : 0 < align) : 0 < blockPages size align := by
  unfold blockPages
  dsimp only [blockSize, bytesPerPage]
  omega

theorem blockPages_lt (lt : size + align + (blockSize - 1) < Word.limit) :
    blockPages size align < 2 ^ 52 := by
  unfold blockPages
  dsimp only [blockSize, bytesPerPage, Word.limit] at *
  omega

/-- The bytes of a block for a request that is not too large. They are whole pages. -/
theorem blockFor_of_lt (lt : size + align + (blockSize - 1) < Word.limit) :
    blockFor size align = .ok (blockPages size align * bytesPerPage) ∧
      bytesToPages (blockPages size align * bytesPerPage) = .ok (blockPages size align) := by
  constructor
  · rw [blockFor, Word.add, if_pos (Nat.lt_of_le_of_lt (Nat.le_add_right ..) lt), Except.ok_bind,
      Word.add, if_pos lt, Except.ok_bind, blockPages]
    dsimp only [blockSize, bytesPerPage]
    exact congrArg Except.ok (by omega)
  · have room : blockPages size align * bytesPerPage + bytesPerPage < Word.limit := by
      unfold blockPages
      dsimp only [blockSize, bytesPerPage, Word.limit] at *
      omega
    rw [bytesToPages_of_lt room]
    dsimp only [bytesPerPage]
    exact congrArg Except.ok (by omega)

theorem blockFor_of_ge (ge : Word.limit ≤ size + align + (blockSize - 1)) :
    blockFor size align = .error .overflow := by
  rw [blockFor, Word.add]
  split
  · rw [Except.ok_bind, Word.add, if_neg (Nat.not_lt.2 ge)]
    rfl
  · rfl

/-- A block is made of the pages that the pool grants, if it does. -/
theorem refill_of_acquire {r : Option Address} {pool : PagePool}
    (lt : size + align + (blockSize - 1) < Word.limit)
    (e : h.permanent.pages.acquire (blockPages size align) = .ok (r, pool))
    (stop : ∀ start ∈ r, start + blockPages size align * bytesPerPage < Word.limit) :
    ∃ log, refill size align h =
      .ok (r.map fun start => ⟨start, start + blockPages size align * bytesPerPage⟩)
        { h with permanent := { h.permanent with pages := pool }, log } := by
  obtain ⟨sized, counted⟩ := blockFor_of_lt lt
  obtain ⟨log, acquired⟩ := HeapM.acquirePages_of_acquire .permanent
    (h := { h with log := .bumpSlow :: h.log }) e
  rw [refill, HeapM.emit_bind_apply, HeapM.liftM_eq, sized, HeapM.lift_ok, HeapM.pure_bind_apply,
    HeapM.liftM_eq, counted, HeapM.lift_ok, HeapM.pure_bind_apply, HeapM.bind_of_ok acquired]
  cases r with
  | none => exact ⟨_, rfl⟩
  | some start =>
    have added : Word.add start (blockPages size align * bytesPerPage) =
        .ok (start + blockPages size align * bytesPerPage) := if_pos (stop start rfl)
    dsimp only
    rw [HeapM.emit_bind_apply, HeapM.liftM_eq, added]
    exact ⟨_, rfl⟩

theorem refill_returns
    (lends : h.permanent.pages.Lends Heap.permanentStart Heap.scratchStart) (pos : 0 < align)
    (lt : size + align + (blockSize - 1) < Word.limit) :
    ∃ r h', refill size align h = .ok r h' := by
  rcases lends.acquire (blockPages_pos pos) (blockPages_lt lt) with e | ⟨a, q, e, -, w⟩
  · obtain ⟨log, taken⟩ := refill_of_acquire lt e nofun
    exact ⟨_, _, taken⟩
  · have stop : ∀ start ∈ some a, start + blockPages size align * bytesPerPage < Word.limit := by
      rintro _ ⟨⟩
      exact Nat.lt_of_le_of_lt w.le_hi (by decide)
    obtain ⟨log, taken⟩ := refill_of_acquire lt e stop
    exact ⟨_, _, taken⟩

theorem refill_fails (ge : Word.limit ≤ size + align + (blockSize - 1)) :
    ∃ h', refill size align h = .error .overflow h' := by
  rw [refill, HeapM.emit_bind_apply, HeapM.liftM_eq, blockFor_of_ge ge]
  exact ⟨_, rfl⟩

/-- The block is large enough, or a new one is, or there is none. -/
theorem allocate_returns
    (lends : h.permanent.pages.Lends Heap.permanentStart Heap.scratchStart)
    (block : b.cursor ≠ 0 → b.Inside) (ok : Alignable align offset)
    (tries : b.cursor ≠ 0 → b.Tries size align offset)
    (lt : size + align + (blockSize - 1) < Word.limit) :
    ∃ place b' h', allocate (refills + 1) b size align offset h = .ok (place, b') h' := by
  have pos : 0 < align := pos_of_supported ok.supported
  rw [allocate.eq_def]
  obtain ⟨r, h₁, cut⟩ := cut?_returns (h := h) block ok tries
  rw [HeapM.bind_of_ok cut]
  obtain ⟨log, rfl, ⟨rfl, -⟩ | ⟨place, -, -, -, rfl⟩⟩ := cut?_eq_ok cut
  · obtain ⟨r, h₂, taken⟩ := refill_returns (h := { h with log }) lends pos lt
    dsimp only
    rw [HeapM.bind_of_ok taken]
    obtain ⟨bytes, pages, start, pool, log, sized, enough, fits, got, rfl, rfl⟩ :=
      refill_eq_ok taken
    rcases lends.of_acquire fits got with ⟨rfl, -⟩ | ⟨start, rfl, -, w⟩
    · exact ⟨_, _, _, rfl⟩
    · have inside := inside_of_block w enough
      have aligned : minAlignment ∣ start := Nat.dvd_trans (by decide) w.aligned
      have room := le_of_blockFor sized
      have near : firstPlace start align offset < start + align :=
        firstPlace_lt (pos_of_supported ok.supported)
      have high : start + bytes ≤ Heap.scratchStart :=
        Nat.le_trans (Nat.add_le_add_left enough start) w.le_hi
      have below : firstPlace start align offset + size ≤ start + bytes := by
        dsimp only [Address] at *
        omega
      obtain ⟨r, h₃, cut⟩ := cut?_of_fits (h := { h with
        permanent := { h.permanent with pages := pool }, log }) inside ok aligned below
      dsimp only [Option.map_some]
      rw [allocate.eq_def, HeapM.bind_of_ok cut]
      exact ⟨_, _, _, rfl⟩
  · exact ⟨_, _, _, rfl⟩

/-- A block that cannot be tried, or a request that no block is made for. -/
theorem allocate_fails (block : b.cursor ≠ 0 → b.Inside) (ok : Alignable align offset)
    (bad : ¬((b.cursor ≠ 0 → b.Tries size align offset) ∧
      size + align + (blockSize - 1) < Word.limit)) :
    ∃ f h', allocate refills b size align offset h = .error f h' ∧
      (f = .overflow ∨ f = .check .regionAligned) := by
  rw [allocate.eq_def]
  by_cases tries : b.cursor ≠ 0 → b.Tries size align offset
  · have ge : Word.limit ≤ size + align + (blockSize - 1) :=
      Nat.le_of_not_lt fun lt => bad ⟨tries, lt⟩
    obtain ⟨r, h₁, cut⟩ := cut?_returns (h := h) block ok tries
    rw [HeapM.bind_of_ok cut]
    obtain ⟨log, rfl, ⟨rfl, -⟩ | ⟨place, some, -, fits, rfl⟩⟩ := cut?_eq_ok cut
    · obtain ⟨h₂, failed⟩ := refill_fails (h := { h with log }) ge
      exact ⟨_, h₂, HeapM.bind_of_error failed, .inl rfl⟩
    · -- so large an object does not fit a block of the range
      have high : place + size ≤ Heap.scratchStart := Nat.le_trans fits (block some).limit_le
      have supported := ok.supported
      dsimp only [Heap.scratchStart, Word.limit, blockSize, bytesPerPage, minAlignment,
        maxAlignment, Address] at *
      omega
  · obtain ⟨some, fails⟩ := not_forall.1 tries
    refine ⟨_, h, HeapM.bind_of_error (cut?_fails (block some) ok fails), ?_⟩
    split
    · exact .inl rfl
    · exact .inr rfl

/-- Where an object is cut off, and what is left of the block then. -/
theorem cursor_of_allocate {b' : BumpAllocator} {place : Address} {h' : Heap}
    (e : allocate refills b size align offset h = .ok (place, b') h') (some : place ≠ 0) :
    ∃ region, alignPlace region align offset = .ok place ∧ b'.cursor = place + size := by
  have cuts := cuts_of_allocate e
  clear e
  induction cuts with
  | cut cut =>
    obtain ⟨-, -, ⟨none, -⟩ | ⟨_, -, found, -, same⟩⟩ := cut?_eq_ok cut
    · cases none
    · cases same
      exact ⟨_, found, rfl⟩
  | refused => exact absurd rfl some
  | refilled _ _ _ ih => exact ih some

end BumpAllocator

/-! ## Requests -/

namespace Mutator

variable {h : Heap} {m : Mutator} {size align offset : Nat} {s : Semantics}

/-- A request is answered.
* `granted`: it gets a place, and the client is told nothing.
* `refused`: the client is told that memory is exhausted, and handles that.
* `reported`: the client is told, and does not return. -/
inductive Answers (m : Mutator) (size align offset : Nat) (s : Semantics) (h : Heap) : Prop
  | granted {place : Address} {m' : Mutator} {h' : Heap} :
    m.allocate size align offset s h = .ok (place, m') h' → place ≠ 0 → h'.client = h.client →
    Answers m size align offset s h
  | refused {m' : Mutator} {h' : Heap} : m.allocate size align offset s h = .ok (0, m') h' →
    h.client.outOfMemory.state = true → h'.client = h.exhausted.client →
    Answers m size align offset s h
  | reported {h' : Heap} : m.allocate size align offset s h = .error .outOfMemory h' →
    h.client.outOfMemory.state = false → h'.client = h.exhausted.client →
    Answers m size align offset s h

/-- A request that its allocator returns from is answered. -/
theorem Answers.of_returns {k : AllocatorKind} (st : h.Supplied) (own : m.allocators.Supplied)
    (chosen : allocatorFor size align s = .ok k)
    (returns : ∃ place as h', m.allocators.allocate k size align offset h = .ok (place, as) h') :
    m.Answers size align offset s h := by
  obtain ⟨place, as, h', run⟩ := returns
  have runs : m.allocate size align offset s h = (do
      if place = 0 then
        HeapM.emit (.allocationFailed size s)
        reportOutOfMemory
      return (place, { m with allocators := as })) h' := by
    rw [allocate, HeapM.liftM_eq, chosen, HeapM.lift_ok, HeapM.pure_bind_apply]
    exact HeapM.bind_of_ok run
  cases Allocators.serves_of_allocate st own run with
  | @refused log =>
    rw [if_pos rfl, HeapM.emit_bind_apply] at runs
    have told := reportOutOfMemory_apply { h with log := .allocationFailed size s :: log }
    by_cases state : h.client.outOfMemory.state = true
    · rw [if_pos state] at told
      exact .refused (runs.trans (HeapM.bind_of_ok told)) state rfl
    · rw [if_neg state] at told
      have fails : h.client.outOfMemory.state = false := Bool.eq_false_of_not_eq_true state
      exact .reported (runs.trans (HeapM.bind_of_error told)) fails rfl
  | granted some _ _ client =>
    rw [if_neg some] at runs
    exact .granted runs some client

/-- A request that its allocator does not return from fails with the same fault. -/
theorem allocate_error_of {k : AllocatorKind} {f : Fault} {h' : Heap}
    (chosen : allocatorFor size align s = .ok k)
    (failed : m.allocators.allocate k size align offset h = .error f h') :
    m.allocate size align offset s h = .error f h' := by
  rw [allocate, HeapM.liftM_eq, chosen, HeapM.lift_ok, HeapM.pure_bind_apply]
  exact HeapM.bind_of_error failed

/-- The computations that a request needs do not leave the range of words, there is something to
allocate, and its bump allocator has not lost its alignment. -/
def Servable (m : Mutator) (size align offset : Nat) (s : Semantics) : Prop :=
  match s.allocator with
  | .freeList => roomFor size align ≤ maxCell ∨ roomFor size align + bytesPerPage < Word.limit
  | .largeObject => 0 < roomFor size align ∧ roomFor size align + bytesPerPage < Word.limit
  | .bumpPointer =>
    (m.allocators.bump.cursor ≠ 0 → m.allocators.bump.Tries size align offset) ∧
      size + align + (blockSize - 1) < Word.limit
  | .none => False

/-- The faults of a request that is not answered: a sum of words leaves their range, no pages are
asked for, or the place to allocate at has lost its alignment. -/
def Slips (f : Fault) : Prop :=
  f = .overflow ∨ f = .check .somePages ∨ f = .check .regionAligned

/-- It hinges on `p` whether the request is answered. If it is not, it fails with one of those
faults. -/
def HingesOn (p : Prop) (m : Mutator) (size align offset : Nat) (s : Semantics) (h : Heap) : Prop :=
  p ∧ m.Answers size align offset s h ∨
    ¬p ∧ ∃ f h', m.allocate size align offset s h = .error f h' ∧ Slips f

section Kinds

variable (st : h.Supplied) (own : m.allocators.Supplied) (ok : Alignable align offset)
include st own ok

theorem hingesOn_pages (chosen : allocatorFor size align s = .ok .largeObject) :
    HingesOn (0 < roomFor size align ∧ roomFor size align + bytesPerPage < Word.limit)
      m size align offset s h := by
  by_cases lt : 0 < roomFor size align ∧ roomFor size align + bytesPerPage < Word.limit
  · obtain ⟨place, h', e⟩ := allocatePages_returns st.large_lends ok lt.1 lt.2
    exact .inl ⟨lt, .of_returns st own chosen ⟨place, _, h', HeapM.bind_of_ok e⟩⟩
  · have bad := (not_and_or.1 lt).imp Nat.eq_zero_of_not_pos Nat.le_of_not_lt
    have failed := allocatePages_fails (h := h) ok bad
    refine .inr ⟨lt, _, h, allocate_error_of chosen (HeapM.bind_of_error failed), ?_⟩
    split
    · exact .inr (.inl rfl)
    · exact .inl rfl

theorem hingesOn_bump (chosen : allocatorFor size align s = .ok .bumpPointer) :
    HingesOn ((m.allocators.bump.cursor ≠ 0 → m.allocators.bump.Tries size align offset) ∧
      size + align + (blockSize - 1) < Word.limit) m size align offset s h := by
  by_cases fits : (m.allocators.bump.cursor ≠ 0 → m.allocators.bump.Tries size align offset) ∧
      size + align + (blockSize - 1) < Word.limit
  · obtain ⟨place, bump, h', e⟩ :=
      BumpAllocator.allocate_returns st.permanent own.bump ok fits.1 fits.2
    exact .inl ⟨fits, .of_returns st own chosen ⟨place, _, h', HeapM.bind_of_ok e⟩⟩
  · obtain ⟨f, h', e, slip⟩ := BumpAllocator.allocate_fails (h := h) own.bump ok fits
    have failed : m.allocators.allocate .bumpPointer size align offset h = .error f h' := by
      rw [Allocators.allocate, HeapM.get_bind_apply]
      exact HeapM.bind_of_error e
    exact .inr ⟨fits, f, h', allocate_error_of chosen failed, slip.imp_right .inr⟩

theorem hingesOn_cells (kind : s.allocator = .freeList) :
    HingesOn (roomFor size align ≤ maxCell ∨ roomFor size align + bytesPerPage < Word.limit)
      m size align offset s h := by
  rcases reserveSize_cases size ok.supported with reserved | ⟨ge, reserved⟩
  · have chosen : allocatorFor size align s =
        .ok (if maxCell < roomFor size align then .largeObject else .freeList) := by
      rw [allocatorFor, kind]
      dsimp only
      rw [reserved]
      rfl
    by_cases small : roomFor size align ≤ maxCell
    · rw [if_neg (Nat.not_lt.2 small)] at chosen
      obtain ⟨place, cells, h', e⟩ :=
        CellAllocator.allocate_returns st.small own.cells ok reserved small
      exact .inl ⟨.inl small, .of_returns st own chosen ⟨place, _, h', HeapM.bind_of_ok e⟩⟩
    · have large : maxCell < roomFor size align := Nat.lt_of_not_le small
      rw [if_pos large] at chosen
      rcases hingesOn_pages st own ok chosen with ⟨lt, answers⟩ | ⟨ge, slips⟩
      · exact .inl ⟨.inr lt.2, answers⟩
      · exact .inr ⟨not_or.2 ⟨small, fun lt => ge ⟨Nat.zero_lt_of_lt large, lt⟩⟩, slips⟩
  · have failed : allocatorFor size align s = .error .overflow := by
      rw [allocatorFor, kind]
      dsimp only
      rw [reserved]
      rfl
    refine .inr ⟨?_, .overflow, h, ?_, .inl rfl⟩
    · dsimp only [maxCell, minAlignment, bytesPerPage, Word.limit] at ge ⊢
      omega
    · rw [allocate, HeapM.liftM_eq, failed]
      rfl

theorem hingesOn_servable (supported : s.allocator ≠ .none) :
    HingesOn (m.Servable size align offset s) m size align offset s h := by
  unfold Servable
  cases kind : s.allocator with
  | none => exact absurd kind supported
  | largeObject => exact hingesOn_pages st own ok (by rw [allocatorFor, kind]; rfl)
  | bumpPointer => exact hingesOn_bump st own ok (by rw [allocatorFor, kind]; rfl)
  | freeList => exact hingesOn_cells st own ok kind

end Kinds

/-- After a permanent object whose size is no multiple of the least alignment, the mutator gets no
other permanent object. -/
theorem not_servable_of_uneven {m' : Mutator} {h' : Heap} {place : Address}
    {size' align' offset' : Nat} {s' : Semantics} (permanent : s.allocator = .bumpPointer)
    (ok : Alignable align offset) (e : m.allocate size align offset s h = .ok (place, m') h')
    (some : place ≠ 0) (uneven : ¬minAlignment ∣ size) (next : s'.allocator = .bumpPointer) :
    ¬m'.Servable size' align' offset' s' := by
  obtain ⟨k, as, h₁, client, log, chosen, run, rfl, -⟩ := allocate_eq_ok e
  rw [allocatorFor, permanent] at chosen
  cases chosen
  rw [Allocators.allocate, HeapM.get_bind_apply] at run
  obtain ⟨⟨p, bump⟩, h₂, run, done⟩ := HeapM.bind_eq_ok.1 run
  cases done
  obtain ⟨region, found, cursor⟩ := BumpAllocator.cursor_of_allocate run some
  have aligned := (alignPlace_multiple ok found).1
  unfold Servable
  rw [next]
  rintro ⟨tries, -⟩
  have nonzero : bump.cursor ≠ 0 := fun zero => some (Nat.eq_zero_of_add_eq_zero (cursor ▸ zero)).1
  exact uneven ((Nat.dvd_add_right aligned).1 (cursor ▸ (tries nonzero).1))

/-- A request that fails with one of those faults is not answered. -/
theorem Answers.not_slips {f : Fault} {h' : Heap} (answers : m.Answers size align offset s h)
    (failed : m.allocate size align offset s h = .error f h') : ¬Slips f := by
  cases answers with
  | granted run => exact absurd (failed.symm.trans run) nofun
  | refused run => exact absurd (failed.symm.trans run) nofun
  | reported run =>
    cases failed.symm.trans run
    rintro (e | e | e) <;> cases e

/-! ## At any point -/

/-- Whatever an instance has come to, a request is answered exactly if it is servable, and the
others fail with an overflow or an assertion. -/
theorem answered_iff_servable {ms : List Mutator} (run : Reached h ms) (mine : m ∈ ms)
    (supported : s.allocator ≠ .none) (ok : Alignable align offset) :
    (m.Answers size align offset s h ↔ m.Servable size align offset s) ∧
      (¬m.Servable size align offset s →
        ∃ f h', m.allocate size align offset s h = .error f h' ∧ Slips f) := by
  rcases hingesOn_servable run.supplied.heap (run.supplied.own m mine) ok supported with
    ⟨servable, answers⟩ | ⟨not, f, h', failed, slips⟩
  · exact ⟨iff_of_true answers servable, fun not => absurd servable not⟩
  · exact ⟨iff_of_false (fun answers => answers.not_slips failed slips) not,
      fun _ => ⟨f, h', failed, slips⟩⟩

/-- A fresh instance answers a request for sixteen bytes, and none for a large object of no
bytes. -/
theorem answered_iff_servable_no_bytes :
    ∃ h m, Reached h [m] ∧ m.Answers 16 8 0 .default h ∧
      ∃ f h', m.allocate 0 4 0 .los h = .error f h' ∧ Slips f := by
  have word : Alignable 8 0 := ⟨.inr rfl, by decide, by decide⟩
  have half : Alignable 4 0 := ⟨.inl rfl, by decide, by decide⟩
  have run := Reached.bind (@Reached.fresh {} {}) rfl
  have some := @answered_iff_servable _ _ 16 8 0 .default _ run List.mem_cons_self nofun word
  have none := @answered_iff_servable _ _ 0 4 0 .los _ run List.mem_cons_self nofun half
  refine ⟨_, _, run, some.1.2 (.inl ?_), none.2 fun servable => absurd servable.1 ?_⟩
  · decide
  · decide

/-- A fresh mutator is asked for as many bytes as a word can tell. The client is not told that
there are too few. -/
theorem all_the_bytes_are_not_answered :
    ∃ h m, Reached h [m] ∧ ¬m.Answers (2 ^ 64 - 1) 8 0 .default h := by
  refine ⟨_, _, Reached.bind (@Reached.fresh {} {}) rfl, fun answers => ?_⟩
  exact answers.not_slips (f := .overflow) rfl (.inl rfl)

end Mutator

end DeferredCount
