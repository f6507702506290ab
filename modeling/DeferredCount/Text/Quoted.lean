import DeferredCount.Text.Hex
import DeferredCount.Text.Unprintable

/-!
# Quoted text

A text that appears in a message stands between double quotes. A quote and a backslash are
written behind a backslash, the usual controls by a letter, and any other character without a
visible form by its number.
-/

namespace DeferredCount

/-- A character as it is written between quotes. -/
def escapedChar (c : Char) : List Char :=
  match c with
  | '\x00' => ['\\', '0']
  | '\t' => ['\\', 't']
  | '\r' => ['\\', 'r']
  | '\n' => ['\\', 'n']
  | '"' => ['\\', '"']
  | '\\' => ['\\', '\\']
  | c =>
    if isUnprintable c then ['\\', 'u', '\x7b'] ++ Nat.toDigits 16 c.toNat ++ ['\x7d'] else [c]

/-- A text between quotes. -/
def quoted (s : String) : String :=
  "\"" ++ String.ofList (s.toList.flatMap escapedChar) ++ "\""

end DeferredCount
