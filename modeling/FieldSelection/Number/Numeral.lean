/-
# Whole numbers in a base

Digits go from `0` to `9` and on with letters of either case. A numeral has at
least one digit.

Key definitions: `Numeral.digit?`, `Numeral.inBase?`, `Numeral.decimal`,
`Numeral.signed`.
-/
import FieldSelection.Text.Basic

namespace FieldSelection
namespace Numeral

/-- The value of a digit, up to the letter that stands for 15. -/
def value? (c : Char) : Option Nat :=
  if '0' ≤ c && c ≤ '9' then some (c.toNat - '0'.toNat)
  else if 'a' ≤ c && c ≤ 'f' then some (c.toNat - 'a'.toNat + 10)
  else if 'A' ≤ c && c ≤ 'F' then some (c.toNat - 'A'.toNat + 10)
  else none

/-- The value of a digit in a base up to 16. -/
def digit? (base : Nat) (c : Char) : Option Nat := (value? c).filter (· < base)

/-- The number that the digits go on to from `n`, if each of them is one. -/
def extend? (base : Nat) : (n : Nat) → Text → Option Nat
  | n, [] => some n
  | n, c :: s => (digit? base c).bind fun d => extend? base (n * base + d) s

/-- The number that a numeral in a base up to 16 stands for. -/
def inBase? (base : Nat) : Text → Option Nat
  | [] => none
  | s => extend? base 0 s

/-- The decimal numeral of a number. -/
def decimal (n : Nat) : Text := Nat.toDigits 10 n

/-- The decimal numeral of a number with its sign. -/
def signed (n : Int) : Text := if n < 0 then '-' :: decimal n.natAbs else decimal n.natAbs

end Numeral
end FieldSelection
