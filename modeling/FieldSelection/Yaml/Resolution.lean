/-
# What a plain YAML scalar stands for

A scalar without quotes may stand for something other than its text: nothing, a
truth value, a whole number or a floating-point number. Such a text has to be
quoted where the text is meant. So has a row of digits that starts with a zero:
it is no number, but looks like one.

Key definition: `Yaml.isSpecial`.
-/
import FieldSelection.Number.Binary64

namespace FieldSelection
namespace Yaml

/-- The texts for nothing. -/
def nulls : List Text := ["", "null", "Null", "NULL", "~"].map String.toList

/-- The texts for truth values. -/
def booleans : List Text :=
  ["true", "True", "TRUE", "false", "False", "FALSE"].map String.toList

/-- The texts for an infinite number, and for no number. -/
def infinities : List Text := [".inf", ".Inf", ".INF"].map String.toList

/-- The texts for what is not a number. -/
def nans : List Text := [".nan", ".NaN", ".NAN"].map String.toList

/-- The text without a sign in front. -/
def dropSign : Text → Text
  | '+' :: s | '-' :: s => s
  | s => s

/-- The text without a plus in front. -/
def dropPlus : Text → Text
  | '+' :: s => s
  | s => s

/-- Whether the text is a row of two or more digits that starts with a zero,
with a sign or without. -/
def isPaddedDigits (s : Text) : Bool :=
  match dropSign s with
  | '0' :: c :: r => (c :: r).all Char.isDigit
  | _ => false

/-- The size of a whole number in base 16, 8 or 2, each with its mark. -/
def markedNumber? : Text → Option Nat
  | '0' :: 'x' :: s => Numeral.inBase? 16 s
  | '0' :: 'o' :: s => Numeral.inBase? 8 s
  | '0' :: 'b' :: s => Numeral.inBase? 2 s
  | _ => none

/-- The size of a whole number without its sign. -/
def wholeNumber? (s : Text) : Option Nat :=
  match markedNumber? s with
  | some n => some n
  | none => if isPaddedDigits s then none else Numeral.inBase? 10 s

/-- Whether the text is a whole number of at most 128 bits. -/
def isWhole (s : Text) : Bool :=
  match s with
  | '-' :: r => (wholeNumber? r).any (· ≤ Nat.pow 2 127)
  | r => (wholeNumber? (dropPlus r)).any (· < Nat.pow 2 128)

/-- Whether the text is a decimal number that a double-precision number can hold. -/
def isFiniteFloat (s : Text) : Bool :=
  (Decimal.read? s).any fun d => (Binary64.ofDecimal false d).isFinite

/-- Whether the text is a floating-point number. -/
def isFloat (s : Text) : Bool :=
  infinities.contains (dropSign s) || nans.contains s
    || (!isPaddedDigits s && isFiniteFloat (dropSign s))

/-- Whether the text, without quotes, would not be taken for itself. -/
def isSpecial (s : Text) : Bool :=
  nulls.contains s || booleans.contains s || isPaddedDigits s || isWhole s || isFloat s

end Yaml
end FieldSelection
