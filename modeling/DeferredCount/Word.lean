import DeferredCount.Fault

/-!
# Words of 64 bits

Addresses, sizes and counts of pages are words. The plain operations check their range and fail
with `Fault.overflow`; the wrapping ones drop what does not fit. Alignment is the usual formula on
bits, which is also defined for alignments that are no power of two.

Results:
1. `add_eq_ok`, `sub_eq_ok`, `mul_eq_ok`: a checked operation succeeds exactly when the result
   fits, and then it is the sum, the difference or the product.
2. `toSigned_ofSigned`: signed and unsigned words convert back and forth.
-/

namespace DeferredCount

namespace Word

/-- The number of words: two to the power of 64. -/
abbrev limit : Nat := 18446744073709551616

/-- The largest word. -/
abbrev max : Nat := 18446744073709551615

/-- The number of words that are read as negative, which is half of all. -/
abbrev signLimit : Nat := 9223372036854775808

/-! ## Checked operations -/

/-- The sum of two words. -/
def add (a b : Nat) : Except Fault Nat := if a + b < limit then .ok (a + b) else .error .overflow

/-- The difference of two words. -/
def sub (a b : Nat) : Except Fault Nat := if b ≤ a then .ok (a - b) else .error .overflow

/-- The product of two words. -/
def mul (a b : Nat) : Except Fault Nat := if a * b < limit then .ok (a * b) else .error .overflow

/-- A word shifted right by fewer than 64 places. -/
def shiftRight (a n : Nat) : Except Fault Nat :=
  if n < 64 then .ok (a >>> n) else .error .overflow

/-- A word shifted left by fewer than 64 places. The bits that leave the word are dropped. -/
def shiftLeft (a n : Nat) : Except Fault Nat :=
  if n < 64 then .ok ((a <<< n) % limit) else .error .overflow

theorem add_eq_ok {a b c : Nat} : add a b = .ok c ↔ a + b < limit ∧ c = a + b := by
  unfold add
  split
  · simp_all [eq_comm]
  · simp only [reduceCtorEq, false_iff]
    omega

theorem sub_eq_ok {a b c : Nat} : sub a b = .ok c ↔ b ≤ a ∧ c = a - b := by
  unfold sub
  split
  · simp_all [eq_comm]
  · simp only [reduceCtorEq, false_iff]
    omega

theorem mul_eq_ok {a b c : Nat} : mul a b = .ok c ↔ a * b < limit ∧ c = a * b := by
  unfold mul
  split
  · simp_all [eq_comm]
  · simp only [reduceCtorEq, false_iff]
    omega

/-! ## Wrapping operations -/

/-- The sum of two words, less what does not fit. -/
def wrappingAdd (a b : Nat) : Nat := (a + b) % limit

/-- The difference of two words, modulo the number of words. -/
def wrappingSub (a b : Nat) : Nat := (a + limit - b) % limit

/-- The bits that a word does not have. -/
def complement (a : Nat) : Nat := max - a

/-! ## Signed words -/

/-- A word read as a signed number. -/
def toSigned (a : Nat) : Int := if a < signLimit then a else (a : Int) - (limit : Nat)

/-- A signed number written as a word. -/
def ofSigned (i : Int) : Nat := (i % (limit : Nat)).toNat

/-- A signed number, if it fits a word. -/
def signed (i : Int) : Except Fault Int :=
  if -(signLimit : Nat) ≤ i ∧ i < (signLimit : Nat) then .ok i else .error .overflow

theorem ofSigned_toSigned {a : Nat} (h : a < limit) : ofSigned (toSigned a) = a := by
  unfold ofSigned toSigned
  simp only [limit, signLimit] at h ⊢
  split <;> omega

theorem toSigned_ofSigned {i : Int} (h : signed i = .ok i) : toSigned (ofSigned i) = i := by
  have h' : -(signLimit : Nat) ≤ i ∧ i < (signLimit : Nat) := by
    unfold signed at h
    split at h <;> simp_all
  unfold ofSigned toSigned
  simp only [limit, signLimit] at h' ⊢
  split <;> omega

/-- A word moved by a signed distance. The word counts as signed, too. -/
def addSigned (a : Nat) (d : Int) : Except Fault Nat := do
  let moved ← signed (toSigned a + d)
  return ofSigned moved

/-! ## Alignment -/

/-- The greatest multiple of the alignment that is not above the word. -/
def alignDown (a align : Nat) : Nat := a &&& complement (wrappingSub align 1)

/-- The least multiple of the alignment that is not below the word. -/
def alignUp (a align : Nat) : Nat :=
  wrappingSub (wrappingAdd a align) 1 &&& complement (wrappingSub align 1)

/-- Is the word a multiple of the alignment? -/
def isAligned (a align : Nat) : Bool := a &&& wrappingSub align 1 == 0

/-- The number of zeros below the lowest bit of a word that is set. All bits of zero are zeros. -/
def trailingZeros (n : Nat) : Nat := ((List.range 64).find? n.testBit).getD 64

/-- Is the number a power of two? -/
def isPowerOfTwo (n : Nat) : Bool := 1 <<< n.log2 == n

end Word

/-! ## Pages and words of memory -/

/-- The bytes of a word. -/
abbrev bytesPerWord : Nat := 8

/-- The bytes of a page. -/
abbrev bytesPerPage : Nat := 4096

/-- The bytes of so many pages. The bits that leave the word are dropped. -/
def pagesToBytes (pages : Nat) : Nat := (pages * bytesPerPage) % Word.limit

/-- The pages needed for so many bytes. One page more than the bytes must fit a word. -/
def bytesToPages (bytes : Nat) : Except Fault Nat := do
  let beyond ← Word.add bytes bytesPerPage
  return (beyond - 1) / bytesPerPage

/-- The index of the word that holds the byte at an offset. -/
def bytesToWords (bytes : Nat) : Nat := bytes / bytesPerWord

/-- The start of the page of an address. -/
def pageStart (a : Address) : Address := a - a % bytesPerPage

/-- Is the address the start of a page? -/
def isPageStart (a : Address) : Bool := a % bytesPerPage == 0

/-- The bytes from `b` up to `a`, which must not be below it. -/
def distance (a b : Address) : Except Fault Nat :=
  if b ≤ a then .ok (a - b) else .error (.addressOrder a b)

end DeferredCount
