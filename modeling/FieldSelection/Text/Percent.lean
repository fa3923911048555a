/-
# Values in percent encoding

A value carries reserved characters in disguise: a plus is a blank, and a percent
sign with two hexadecimal digits is the byte they stand for. A percent sign
without such digits is itself. The bytes that come out are read as UTF-8, and
leniently if they are not.

Key definitions: `Percent.decodeBytes`, `Percent.decode`.
-/
import FieldSelection.Number.Numeral
import FieldSelection.Text.Utf8

namespace FieldSelection
namespace Percent

/-- The value of a byte that is a hexadecimal digit. -/
def digit? (b : UInt8) : Option Nat := Numeral.digit? 16 (Char.ofNat b.toNat)

/-- The byte of two digits after a percent sign. -/
def escaped? : List UInt8 → Option UInt8
  | a :: b :: _ => do return UInt8.ofNat (16 * (← digit? a) + (← digit? b))
  | _ => none

/-- The bytes with each escape read, once `skip` digits of the last one are passed over. -/
def decodeFrom : (skip : Nat) → List UInt8 → List UInt8
  | _, [] => []
  | skip + 1, _ :: bs => decodeFrom skip bs
  | 0, b :: bs =>
    match if b = '%'.toUInt8 then escaped? bs else none with
    | some e => e :: decodeFrom 2 bs
    | none => b :: decodeFrom 0 bs

/-- The bytes with each escape read. -/
def decodeBytes (bs : List UInt8) : List UInt8 := decodeFrom 0 bs

/-- The text with a blank for each plus. -/
def plusToSpace (s : Text) : Text := s.map fun c => if c = '+' then ' ' else c

/-- The text that a value in percent encoding stands for. -/
def decode (value : Text) : Text :=
  let bytes := decodeBytes (Utf8.encode (plusToSpace value))
  match Utf8.decode? bytes with
  | some s => s
  | none => Utf8.decodeLenient bytes

end Percent
end FieldSelection
