/-
# UTF-8

A text is written in UTF-8 character by character. Bytes are read back in units:
a first byte says which bytes may follow it, and the unit takes as many of them
as fit. A unit is a character if all of them are there; otherwise it is broken,
and it is as long as it could be. Strict reading refuses a broken unit, lenient
reading puts one replacement character in its place.

Key definitions: `Utf8.encode`, `Utf8.units`, `Utf8.decode?`, `Utf8.decodeLenient`.
-/
import FieldSelection.Text.Basic

namespace FieldSelection
namespace Utf8

/-- The bytes of a text. -/
def encode (s : Text) : List UInt8 := s.flatMap String.utf8EncodeChar

/-- Any byte that continues a character. -/
def anyTail : UInt8 × UInt8 := (0x80, 0xBF)

/-- The ranges of the bytes that must follow a first byte, if it can be first. -/
def tails? (b : UInt8) : Option (List (UInt8 × UInt8)) :=
  if b < 0x80 then some []
  else if b < 0xC2 then none
  else if b < 0xE0 then some [anyTail]
  else if b = 0xE0 then some [(0xA0, 0xBF), anyTail]
  else if b = 0xED then some [(0x80, 0x9F), anyTail]
  else if b < 0xF0 then some [anyTail, anyTail]
  else if b = 0xF0 then some [(0x90, 0xBF), anyTail, anyTail]
  else if b < 0xF4 then some [anyTail, anyTail, anyTail]
  else if b = 0xF4 then some [(0x80, 0x8F), anyTail, anyTail]
  else none

/-- The bytes at the front that lie in the ranges, one after the other. -/
def fitting : List (UInt8 × UInt8) → List UInt8 → List UInt8
  | r :: rs, b :: bs => if r.1 ≤ b && b ≤ r.2 then b :: fitting rs bs else []
  | _, _ => []

/-- The bits of a first byte that count when `n` bytes follow it. -/
def leadBits (b : UInt8) : (n : Nat) → Nat
  | 0 => b.toNat
  | 1 => b.toNat % 32
  | 2 => b.toNat % 16
  | _ => b.toNat % 8

/-- The character of a first byte and the bytes that follow it. -/
def assemble (b : UInt8) (tail : List UInt8) : Char :=
  Char.ofNat (tail.foldl (fun n t => n * 64 + t.toNat % 64) (leadBits b tail.length))

/-- The unit that a first byte starts: its character, unless it is broken, and
how many bytes it takes after the first. -/
def unit (b : UInt8) (bs : List UInt8) : Option Char × Nat :=
  match tails? b with
  | none => (none, 0)
  | some rs =>
    let tail := fitting rs bs
    (if tail.length = rs.length then some (assemble b tail) else none, tail.length)

/-- The units of a list of bytes once `skip` bytes of the last one are passed over. -/
def unitsFrom : (skip : Nat) → List UInt8 → List (Option Char)
  | _, [] => []
  | skip + 1, _ :: bs => unitsFrom skip bs
  | 0, b :: bs =>
    let u := unit b bs
    u.1 :: unitsFrom u.2 bs

/-- The units of a list of bytes, nothing standing for a broken one. -/
def units (bs : List UInt8) : List (Option Char) := unitsFrom 0 bs

/-- The text that the bytes write, if no unit is broken. -/
def decode? (bs : List UInt8) : Option Text := (units bs).mapM id

/-- The text that the bytes write, with a replacement character for each broken unit. -/
def decodeLenient (bs : List UInt8) : Text := (units bs).map (·.getD '\uFFFD')

end Utf8
end FieldSelection
