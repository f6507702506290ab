import DeferredCount.Word

/-!
# Reading numbers

Settings are written in decimal digits, with a plus sign in front or without. A client may also
write a word in hexadecimal digits behind `0x`, and a signed number with a minus sign in front.
-/

namespace DeferredCount

/-- The value of a decimal digit. -/
def decimalDigit? (c : Char) : Option Nat :=
  if c.isDigit then some (c.toNat - '0'.toNat) else none

/-- The value of a hexadecimal digit. -/
def hexDigit? (c : Char) : Option Nat :=
  if 'a' ≤ c ∧ c ≤ 'f' then some (c.toNat - 'a'.toNat + 10)
  else if 'A' ≤ c ∧ c ≤ 'F' then some (c.toNat - 'A'.toNat + 10)
  else decimalDigit? c

/-- The number that digits stand for. At least one digit is needed. -/
def digitsValue? (base : Nat) (digit? : Char → Option Nat) (digits : List Char) : Option Nat :=
  if digits.isEmpty then none
  else digits.foldlM (fun n c => (digit? c).map (base * n + ·)) 0

/-- Text without a plus sign in front. -/
def withoutPlus (s : List Char) : List Char :=
  match s with
  | '+' :: rest => rest
  | s => s

/-- Reads a word: decimal digits, with a plus sign in front or without. -/
def readWord? (s : String) : Option Nat :=
  (digitsValue? 10 decimalDigit? (withoutPlus s.toList)).filter (· < Word.limit)

/-- Reads a word that may also be written in hexadecimal digits. -/
def readAnyWord? (s : String) : Option Nat :=
  match s.toList with
  | '0' :: 'x' :: digits => (digitsValue? 16 hexDigit? (withoutPlus digits)).filter (· < Word.limit)
  | _ => readWord? s

/-- Reads a signed number. -/
def readSigned? (s : String) : Option Int :=
  match s.toList with
  | '-' :: digits => (digitsValue? 10 decimalDigit? digits).map fun n => -(n : Int)
  | digits => (digitsValue? 10 decimalDigit? (withoutPlus digits)).map Int.ofNat

end DeferredCount
