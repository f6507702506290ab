import DeferredCount.Proofs.Answering

/-!
# The first aligned place of a region

How far an object is moved up is computed with signed words: the offset is negated, the region is
taken off, and of the bits of that negative number all but the lowest ones are dropped. An alignment
is a power of two, so what the mask leaves is the remainder, which is never negative. Region and
offset are small enough for the signs, so no step leaves its range.

Results:
1. `firstPlace_isLeast`: no place before the first one is aligned.
2. `add_masked_gap`: what is computed with signs and a mask leads to the first place.
3. `alignPlace_isLeast`: a place is the least one that is aligned, computed without overflow.
-/

namespace DeferredCount

section

variable {region align offset k : Nat}

/-! ## The least place -/

/-- The first place is aligned at the offset, and no place of the region before it is. -/
theorem firstPlace_isLeast (pos : 0 < align) :
    IsLeast {a | region ≤ a ∧ align ∣ a + offset} (firstPlace region align offset) := by
  unfold firstPlace
  obtain ⟨gap, same⟩ : ∃ gap : Nat, (gap : Int) = -((region + offset : Nat) : Int) % align :=
    ⟨_, Int.toNat_of_nonneg (Int.emod_nonneg _ (by omega))⟩
  rw [← same, Int.toNat_natCast]
  refine ⟨⟨Nat.le_add_right .., ?_⟩, fun a ⟨behind, aligned⟩ => ?_⟩
  · have whole : (align : Int) ∣ -((region + offset : Nat) : Int) - gap :=
      same ▸ Int.dvd_self_sub_emod
    have sum : -((region + offset : Nat) : Int) - gap = -((region + gap + offset : Nat) : Int) := by
      omega
    exact Int.natCast_dvd_natCast.1 (Int.dvd_neg.1 (sum ▸ whole))
  · -- two aligned places are whole alignments apart, and the gap is a remainder
    obtain ⟨d, rfl⟩ : ∃ d, a = region + d := ⟨a - region, by omega⟩
    obtain ⟨c, whole⟩ := aligned
    have parts : -((region + offset : Nat) : Int) = d - align * c := by omega
    have rest : gap = d % align := by
      rw [parts, Int.sub_mul_emod_self_left] at same
      exact Int.ofNat_inj.1 same
    exact Nat.add_le_add_left (rest ▸ Nat.mod_le ..) region

/-! ## The mask -/

/-- The lowest bits of a signed word are its remainder. -/
theorem Word.ofSigned_and_mask (dvd : 2 ^ k ∣ Word.limit) (i : Int) :
    Word.ofSigned i &&& (2 ^ k - 1) = (i % (2 ^ k : Nat)).toNat := by
  have pos : (0 : Int) ≤ i % (Word.limit : Nat) := Int.emod_nonneg _ (by decide)
  rw [Nat.and_two_pow_sub_one_eq_mod, Word.ofSigned]
  refine Int.ofNat_inj.1 ?_
  rw [Int.natCast_emod, Int.toNat_of_nonneg pos,
    Int.emod_emod_of_dvd _ (Int.natCast_dvd_natCast.2 dvd),
    Int.toNat_of_nonneg (Int.emod_nonneg _ (Int.natCast_pos.2 (Nat.two_pow_pos k)).ne')]

/-- What the mask leaves of the gap is the padding, for every alignment that is a power of two. -/
theorem add_masked_gap (le : k ≤ 62) (lt : region < 2 ^ 62) :
    Word.add region (Word.ofSigned (-(offset : Int) - Word.toSigned region) &&& (2 ^ k - 1)) =
      .ok (firstPlace region (2 ^ k) offset) := by
  have dvd : 2 ^ k ∣ Word.limit := Nat.pow_dvd_pow 2 (Nat.le_trans le (by decide : 62 ≤ 64))
  have room : firstPlace region (2 ^ k) offset < Word.limit :=
    Nat.lt_trans (firstPlace_lt (Nat.two_pow_pos k))
      (Nat.lt_of_lt_of_le (Nat.add_lt_add_of_lt_of_le lt (Nat.pow_le_pow_right (by decide) le))
        (by decide))
  rw [Word.ofSigned_and_mask dvd, gap_emod dvd, Word.add]
  exact if_pos room

/-! ## The place of a request -/

/-- Between the two alignments there is no other power of two. -/
theorem supported_of_power (least : minAlignment ≤ 2 ^ k) (most : 2 ^ k ≤ maxAlignment) :
    2 ^ k = minAlignment ∨ 2 ^ k = maxAlignment := by
  have low : 1 < k := (Nat.pow_lt_pow_iff_right (by decide : 1 < 2)).1
    (Nat.lt_of_lt_of_le (by decide : 2 ^ 1 < minAlignment) least)
  have high : k < 4 := (Nat.pow_lt_pow_iff_right (by decide : 1 < 2)).1
    (Nat.lt_of_le_of_lt most (by decide : maxAlignment < 2 ^ 4))
  obtain rfl | rfl : k = 2 ∨ k = 3 := by omega
  · exact .inl rfl
  · exact .inr rfl

/-- The place in a region is the least address at which the offset is aligned, and it lies less than
the alignment behind the start of the region. That holds for every power of two. The negated offset,
the difference of it and the region and the sum of the region and the bits behind the mask all stay
in their ranges. -/
theorem alignPlace_isLeast (lt : region < 2 ^ 62) (start : minAlignment ∣ region)
    (least : minAlignment ≤ align) (most : align ≤ maxAlignment) (power : ∃ k, align = 2 ^ k)
    (behind : offset < 2 ^ 62) :
    ∃ (back gap : Int) (place : Nat),
      Word.signed (-Word.toSigned offset) = .ok back ∧
      Word.signed (back - Word.toSigned region) = .ok gap ∧
      Word.add region (Word.ofSigned gap &&& (align - 1)) = .ok place ∧
      alignPlace region align offset = .ok place ∧
      IsLeast {a | region ≤ a ∧ align ∣ a + offset} place ∧ place < region + align := by
  obtain ⟨k, rfl⟩ := power
  have supported := supported_of_power least most
  have small : k ≤ 62 := by
    refine Nat.le_of_lt ((Nat.pow_lt_pow_iff_right (by decide : 1 < 2)).1 ?_)
    exact Nat.lt_of_le_of_lt most (by decide)
  have placed := alignPlace_eq supported lt behind
  rw [if_pos start] at placed
  have pos := Nat.two_pow_pos k
  exact ⟨_, _, _, signed_neg_toSigned behind, (gapFits_of_lt lt behind).signed,
    add_masked_gap small lt, placed, firstPlace_isLeast pos, firstPlace_lt pos⟩

/-- The region at 4100 with an alignment of eight, and an offset that is no multiple of the least
alignment. -/
theorem alignPlace_isLeast_odd_offset :
    alignPlace 4100 8 3 = .ok 4101 ∧ IsLeast {a | 4100 ≤ a ∧ 8 ∣ a + 3} 4101 := by
  obtain ⟨_, _, place, -, -, -, placed, first, -⟩ := @alignPlace_isLeast 4100 8 3 (by decide)
    (by decide) (by decide) (by decide) ⟨3, rfl⟩ (by decide)
  have same : alignPlace 4100 8 3 = .ok 4101 := rfl
  obtain rfl := Except.ok.inj (same.symm.trans placed)
  exact ⟨same, first⟩

end

end DeferredCount
