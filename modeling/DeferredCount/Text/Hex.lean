/-!
# Hexadecimal text

Every address is written as `0x` and lower-case hexadecimal digits without leading zeros; zero
is `0x0`.
-/

namespace DeferredCount

/-- The hexadecimal digits of a number, most significant first. -/
def hexDigits (n : Nat) : String := String.ofList (Nat.toDigits 16 n)

/-- A number as `0x` and its hexadecimal digits. -/
def hexText (n : Nat) : String := "0x" ++ hexDigits n

end DeferredCount
