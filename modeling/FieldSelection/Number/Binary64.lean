/-
# Double-precision numbers

A finite number is a mantissa below `2 ^ 53` times a power of two from `2 ^ -1074`
to `2 ^ 971`. Values are kept in exact form, so that reading a decimal number,
rounding and printing are whole-number arithmetic. A decimal number is read as
the nearest of them, a tie going to the even mantissa; what lies too high is
infinite.

Key definitions: `Binary64`, `Binary64.nearest`, `Binary64.ofDecimal`,
`Binary64.round`.
-/
import FieldSelection.Number.Decimal

namespace FieldSelection

/-- A double-precision number. -/
inductive Binary64 where
  | finite (negative : Bool) (mantissa : Nat) (exponent : Int)
  | infinite (negative : Bool)
  | nan
  deriving DecidableEq, Repr

namespace Binary64

/-- The least exponent. -/
def minExponent : Int := -1074

/-- The greatest exponent. -/
def maxExponent : Int := 971

/-- A fraction rounded to the nearest whole number, a tie going to the even one. -/
def roundToEven (num den : Nat) : Nat :=
  let q := num / den
  let r := num % den
  if 2 * r < den then q
  else if den < 2 * r then q + 1
  else if q % 2 = 0 then q else q + 1

/-- The fraction `num / den / 2 ^ e`, as numerator and denominator. -/
def scaled (num den : Nat) (e : Int) : Nat × Nat :=
  (num * Nat.pow 2 (-e).toNat, den * Nat.pow 2 e.toNat)

/-- The exponent at which a fraction above zero has a mantissa of 53 bits, or the
least one if that is greater. -/
def exponentFor (num den : Nat) : Int :=
  let e : Int := (num.log2 : Int) - (den.log2 : Int) - 52
  let s := scaled num den e
  max minExponent (if s.1 / s.2 < Nat.pow 2 52 then e - 1 else e)

/-- The number nearest to a fraction. -/
def nearest (negative : Bool) (num den : Nat) : Binary64 :=
  if num = 0 then finite negative 0 minExponent
  else
    let e := exponentFor num den
    let s := scaled num den e
    let m := roundToEven s.1 s.2
    let n := if m = Nat.pow 2 53 then finite negative (Nat.pow 2 52) (e + 1) else finite negative m e
    if maxExponent < (if m = Nat.pow 2 53 then e + 1 else e) then infinite negative else n

/-- The number nearest to a decimal number. Far outside the range no arithmetic
is needed. -/
def ofDecimal (negative : Bool) (d : Decimal) : Binary64 :=
  let places : Int := (Numeral.decimal d.mantissa).length + d.exponent
  if d.mantissa = 0 ∨ places < -330 then finite negative 0 minExponent
  else if 320 < places then infinite negative
  else nearest negative (d.mantissa * Nat.pow 10 d.exponent.toNat) (Nat.pow 10 (-d.exponent).toNat)

/-- Whether the number is finite. -/
def isFinite : Binary64 → Bool
  | finite .. => true
  | infinite _ | nan => false

/-- Whether the number is zero, of either sign. -/
def isZero : Binary64 → Bool
  | finite _ m _ => m = 0
  | infinite _ | nan => false

/-- The nearest whole number to the size of a finite number, a half going up. -/
def roundSize (mantissa : Nat) (exponent : Int) : Nat :=
  let s := scaled mantissa 1 (-exponent)
  (2 * s.1 + s.2) / (2 * s.2)

end Binary64
end FieldSelection
