import DeferredCount.Word

/-!
# Aligned placement

An object may be asked to lie so that a given offset inside it is aligned. `align` finds the first
such place from the start of a region on, and `reserve` says how many bytes a region needs so that
there is one wherever it starts.
-/

namespace DeferredCount

/-- The least alignment. -/
abbrev minAlignment : Nat := 4

/-- The greatest alignment. -/
abbrev maxAlignment : Nat := 8

/-- The bytes from the start of a region to the first place whose offset is aligned. Both are read
as signed words, and what is computed from them has to fit one. -/
def padding (region align offset : Nat) : Except Fault Nat := do
  let back ← Word.signed (-Word.toSigned offset)
  let gap ← Word.signed (back - Word.toSigned region)
  return (gap % (align : Int)).toNat

/-- The first place in a region such that the offset behind it is a multiple of the alignment. -/
def alignPlace (region align offset : Nat) : Except Fault Address := do
  require .alignmentSupported (minAlignment ≤ align && align ≤ maxAlignment)
  require .alignmentPowerOfTwo (Word.isPowerOfTwo align)
  require .regionAligned (region % minAlignment == 0)
  let skipped ← padding region align offset
  Word.add region skipped

/-- The bytes that hold an object of a size at any offset, wherever its region starts. -/
def reserveSize (size align : Nat) : Except Fault Nat := do
  if align ≤ minAlignment then return size
  let sum ← Word.add size align
  return sum - minAlignment

end DeferredCount
