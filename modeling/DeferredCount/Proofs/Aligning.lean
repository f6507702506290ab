import DeferredCount.Proofs.Stock

/-!
# Where a block lies in its region

A request names a size, an alignment and an offset. Its place is the first one in the region at
which the offset is aligned. If the offset is a multiple of the least alignment, so is the padding,
and then the bytes that are reserved for the request hold it wherever the region starts.

Results:
1. `alignPlace_spec`: a place is aligned, and less than the alignment behind the region.
2. `stop_le_of_reserveSize`: the bytes that were reserved hold the block.
-/

namespace DeferredCount

/-- Memory that was asked for: `size` bytes from `place` on, such that `offset` bytes behind it an
address is aligned. -/
structure Block where
  place : Address
  size : Nat
  align : Nat
  offset : Nat
  deriving DecidableEq

namespace Block

/-- The address behind a block. -/
def stop (b : Block) : Address := b.place + b.size

/-- The object that starts with the block. -/
def object (b : Block) : Ref := ⟨b.place⟩

/-- Two blocks do not meet. -/
def Disjoint (b d : Block) : Prop := b.stop ≤ d.place ∨ d.stop ≤ b.place

theorem Disjoint.symm {b d : Block} (h : b.Disjoint d) : d.Disjoint b := Or.symm h

/-- The block lies in the range of a pool. -/
def LiesIn (b : Block) (p : PagePool) : Prop := p.start ≤ b.place ∧ b.stop ≤ p.limit

theorem LiesIn.contains {b : Block} {p : PagePool} (l : b.LiesIn p) (pos : 0 < b.size) :
    p.contains b.place = true :=
  PagePool.contains_iff.2 ⟨l.1, Nat.lt_of_lt_of_le (Nat.lt_add_of_pos_right pos) l.2⟩

/-- The address at the offset is aligned. -/
def IsAligned (b : Block) : Prop := b.align ∣ b.place + b.offset

/-- What a request was granted. A request that is refused gets the address zero. -/
def granted (place : Address) (size align offset : Nat) : List Block :=
  if place = 0 then [] else [⟨place, size, align, offset⟩]

/-- What a request was granted that took this cell, or none. It also tells a block at the address
zero from a refusal. -/
def inCell (cell : Option Address) (place : Address) (size align offset : Nat) : List Block :=
  match cell with
  | none => []
  | some _ => [⟨place, size, align, offset⟩]

theorem eq_of_granted {b : Block} {place : Address} {size align offset : Nat}
    (hb : b ∈ granted place size align offset) : b = ⟨place, size, align, offset⟩ := by
  unfold granted at hb
  split at hb
  · cases hb
  · exact List.mem_singleton.1 hb

end Block

/-- What a binding may ask for: the least or the greatest alignment, and an offset that is a
multiple of the least one. -/
structure Alignable (align offset : Nat) : Prop where
  supported : align = minAlignment ∨ align = maxAlignment
  multiple : minAlignment ∣ offset
  lt : offset < 2 ^ 62

/-- An alignment fits every cell. -/
theorem SizeClass.align_le_cellSize {align : Nat} (c : SizeClass)
    (supported : align = minAlignment ∨ align = maxAlignment) : align ≤ c.cellSize := by
  have most := Nat.le_of_dvd c.cellSize_pos c.word_dvd
  dsimp only [minAlignment, maxAlignment, bytesPerWord] at *
  omega

section Align

variable {size region align offset place bytes : Nat}

theorem of_require {c : Check} {p : Bool} (e : require c p = .ok ()) : p = true := by
  unfold require at e
  split at e
  · assumption
  · cases e

theorem Word.signed_eq_ok {i j : Int} (e : Word.signed i = .ok j) : j = i := by
  unfold Word.signed at e
  split at e
  · exact (Except.ok.inj e).symm
  · cases e

/-- A word and its signed reading differ by all words, which every alignment divides. -/
theorem Word.toSigned_emod (dvd : align ∣ Word.limit) (a : Nat) :
    Word.toSigned a % (align : Int) = (a : Int) % align := by
  unfold Word.toSigned
  split
  · rfl
  · obtain ⟨c, whole⟩ := dvd
    rw [whole, Int.natCast_mul, Int.sub_mul_emod_self_left]

theorem dvd_limit_of_supported (supported : align = minAlignment ∨ align = maxAlignment) :
    align ∣ Word.limit := by
  rcases supported with rfl | rfl <;> decide

/-- The place of a request lies less than the alignment behind the start of the region, and it is
aligned at the offset. The region starts at a multiple of the least alignment. -/
theorem alignPlace_spec (supported : align = minAlignment ∨ align = maxAlignment)
    (e : alignPlace region align offset = .ok place) :
    minAlignment ∣ region ∧ region ≤ place ∧ place < region + align ∧ align ∣ place + offset := by
  obtain ⟨_, -, e⟩ := Except.bind_eq_ok.1 e
  obtain ⟨_, -, e⟩ := Except.bind_eq_ok.1 e
  obtain ⟨_, checked, e⟩ := Except.bind_eq_ok.1 e
  obtain ⟨skipped, e₁, e⟩ := Except.bind_eq_ok.1 e
  obtain ⟨back, e₂, e₁⟩ := Except.bind_eq_ok.1 e₁
  obtain ⟨gap, e₃, e₁⟩ := Except.bind_eq_ok.1 e₁
  obtain rfl := Word.signed_eq_ok e₂
  obtain rfl := Word.signed_eq_ok e₃
  cases e₁
  obtain ⟨-, rfl⟩ := Word.add_eq_ok.1 e
  have start := Word.toSigned_emod (dvd_limit_of_supported supported) region
  have behind := Word.toSigned_emod (dvd_limit_of_supported supported) offset
  refine ⟨Nat.dvd_of_mod_eq_zero (beq_iff_eq.1 (of_require checked)), Nat.le_add_right .., ?_, ?_⟩
  all_goals
    dsimp only [minAlignment, maxAlignment] at supported
    rcases supported with rfl | rfl <;> omega

/-- A place is a multiple of the least alignment, and the padding leaves room for such a
multiple. -/
theorem alignPlace_multiple (a : Alignable align offset)
    (e : alignPlace region align offset = .ok place) :
    minAlignment ∣ place ∧ place + minAlignment ≤ region + align := by
  obtain ⟨start, le, lt, aligned⟩ := alignPlace_spec a.supported e
  have multiple := a.multiple
  have supported := a.supported
  dsimp only [minAlignment, maxAlignment] at *
  rcases supported with rfl | rfl <;> omega

/-- The bytes that are reserved for a request hold it, wherever its region starts. -/
theorem stop_le_of_reserveSize (a : Alignable align offset)
    (reserved : reserveSize size align = .ok bytes)
    (e : alignPlace region align offset = .ok place) : place + size ≤ region + bytes := by
  obtain ⟨-, slack⟩ := alignPlace_multiple a e
  unfold reserveSize at reserved
  split at reserved
  · next least =>
    cases reserved
    dsimp only [minAlignment] at *
    omega
  · obtain ⟨sum, added, reserved⟩ := Except.bind_eq_ok.1 reserved
    obtain ⟨-, rfl⟩ := Word.add_eq_ok.1 added
    cases reserved
    dsimp only [minAlignment] at *
    omega

end Align

end DeferredCount
