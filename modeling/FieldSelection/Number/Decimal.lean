/-
# Decimal numbers

A decimal number is a whole number times a power of ten. It is written with
digits, a point that may stand before, between or after them, and an exponent
that may be left out; there is at least one digit besides the exponent.

Key definitions: `Decimal`, `Decimal.read?`.
-/
import FieldSelection.Number.Numeral

namespace FieldSelection

/-- The number `mantissa * 10 ^ exponent`. -/
structure Decimal where
  mantissa : Nat
  exponent : Int
  deriving DecidableEq, Repr

namespace Decimal

/-- The exponent that follows a number: a mark, a sign or none, and digits. No
text at all is the exponent zero. -/
def readExponent? : Text → Option Int
  | [] => some 0
  | c :: s =>
    if c = 'e' || c = 'E' then
      match s with
      | '-' :: r => (Numeral.inBase? 10 r).map fun n => -(n : Int)
      | '+' :: r => (Numeral.inBase? 10 r).map Int.ofNat
      | r => (Numeral.inBase? 10 r).map Int.ofNat
    else none

/-- The number of a whole part, the digits of a fraction, and an exponent. -/
def ofParts? (whole fraction exponent : Text) : Option Decimal := do
  let n ← Numeral.inBase? 10 (whole ++ fraction)
  let e ← readExponent? exponent
  pure ⟨n, e - fraction.length⟩

/-- The number that a text stands for. -/
def read? (s : Text) : Option Decimal :=
  let whole := s.takeWhile Char.isDigit
  match s.dropWhile Char.isDigit with
  | '.' :: r => ofParts? whole (r.takeWhile Char.isDigit) (r.dropWhile Char.isDigit)
  | r => ofParts? whole [] r

/-- The number without an exponent: a point only where a fraction is left. -/
def positional (d : Decimal) : Text :=
  let digits := Numeral.decimal d.mantissa
  let shift := d.exponent.toNat
  let places := (-d.exponent).toNat
  if places = 0 then digits ++ List.replicate shift '0'
  else if places < digits.length then
    digits.take (digits.length - places) ++ '.' :: digits.drop (digits.length - places)
  else '0' :: '.' :: List.replicate (places - digits.length) '0' ++ digits

end Decimal
end FieldSelection
