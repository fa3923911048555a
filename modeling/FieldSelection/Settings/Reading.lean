/-
# Reading values of settings

A value is read leniently as what its place asks for: numbers and words may stand
for truth values, truth values and numbers for text, and so on. Where that fails,
the error says what was found, what was expected, under which key and in which
file. A section is a table of known fields, or an array that lists them in order;
unknown keys and surplus items do not count. A field that cannot be read is
reported before one that is missing.

Key definitions: `SettingsError`, `Setting.readText`, `Setting.readBool`,
`Setting.readSize`, `Section.Content`, `Section.contents`.
-/
import FieldSelection.Number.Shortest
import FieldSelection.Settings.Value
import FieldSelection.Text.Quoted

namespace FieldSelection

/-- What a value turned out to be. -/
inductive Found where
  | nothing
  | map
  | sequence
  | string (s : Text)
  | bool (b : Bool)
  | integer (n : Int)
  | signedWord (n : Int)
  | float (x : Binary64)
  deriving DecidableEq, Repr

namespace Found

/-- The text of a number, with a point even if it is whole. -/
def pointed (x : Binary64) : Text :=
  if x.isFinite && !x.text.contains '.' then x.text ++ ['.', '0'] else x.text

/-- The word for a truth value. -/
def boolName (b : Bool) : String := if b then "true" else "false"

/-- A text between grave accents. -/
def marked (s : Text) : String := "\x60" ++ String.ofList s ++ "\x60"

/-- What was found, in words. -/
def message : Found → String
  | nothing => "unit value"
  | map => "map"
  | sequence => "sequence"
  | string s => "string " ++ String.ofList s.quoted
  | bool b => "boolean " ++ marked (boolName b).toList
  | integer n => "integer " ++ marked (Numeral.signed n)
  | signedWord n => "64-bit integer " ++ marked (Numeral.signed n)
  | float x => "floating point " ++ marked (pointed x)

/-- What a value is. -/
def ofSetting : Setting → Found
  | .scalar _ .nil => nothing
  | .scalar _ (.bool b) => bool b
  | .scalar _ (.integer n) => integer n
  | .scalar _ (.float x) => float x
  | .scalar _ (.string s) => string s
  | .table .. => map
  | .array .. => sequence

end Found

/-- What a place asks for. -/
inductive Expected where
  | text
  | bool
  | integer
  | size
  deriving DecidableEq, Repr

/-- What was expected, in words. -/
def Expected.message : Expected → String
  | text => "a string"
  | bool => "a boolean"
  | integer => "an integer"
  | size => "an unsigned 64 bit or less integer"

/-- A section of the settings: the name of what it holds, and its fields in order. -/
structure Section where
  name : String
  fields : List String
  deriving DecidableEq, Repr

/-- What can be wrong with the settings. -/
inductive SettingsError where
  | path (fault : KeyPath.Fault)
  | type (found : Found) (expected : Expected) (key : Text) (origin : Option Text)
  | notSection (found : Found) (part : Section)
  | missingField (name : String)
  | shortSection (length : Nat) (part : Section)
  | unknownFormat (name : Text)
  | notFormat
  | missingFile (name : Text)
  | badFile (name : Text)
  deriving DecidableEq, Repr

/-- A number of elements in words. -/
def elements (n : Nat) : String := if n = 1 then "1 element" else s!"{n} elements"

/-- The text of an error. The syntax of a file is not explained. -/
def SettingsError.message : SettingsError → String
  | path fault => fault.message
  | type found expected key origin =>
    "invalid type: " ++ found.message ++ ", expected " ++ expected.message
      ++ " for key " ++ Found.marked key
      ++ (match origin with
          | some file => " in " ++ String.ofList file
          | none => "")
  | notSection found part =>
    "invalid type: " ++ found.message ++ ", expected struct " ++ part.name
  | missingField name => "missing field " ++ Found.marked name.toList
  | shortSection n part =>
    s!"invalid length {n}, expected struct " ++ part.name ++ " with "
      ++ elements part.fields.length
  | unknownFormat name =>
    "enum OutputFormat does not have variant constructor " ++ String.ofList name
  | notFormat =>
    "value of enum OutputFormat should be represented by either string or "
      ++ "table with exactly one key"
  | missingFile name => "configuration file \"" ++ String.ofList name ++ "\" not found"
  | badFile _ => "TOML parse error"

namespace Setting

/-- The words for true. -/
def trueWords : List Text := ["true", "on", "yes"].map String.toList

/-- The words for false. -/
def falseWords : List Text := ["false", "off", "no"].map String.toList

/-- The greatest size. -/
def maxSize : Nat := Nat.pow 2 64 - 1

/-- A value read as text. -/
def readText : Setting → Except (Found × Expected) Text
  | scalar _ (.string s) => .ok s
  | scalar _ (.bool b) => .ok (Found.boolName b).toList
  | scalar _ (.integer n) => .ok (Numeral.signed n)
  | scalar _ (.float x) => .ok x.text
  | v => .error (.ofSetting v, .text)

/-- A value read as a truth value. -/
def readBool : Setting → Except (Found × Expected) Bool
  | scalar _ (.bool b) => .ok b
  | scalar _ (.integer n) => .ok (n ≠ 0)
  | scalar _ (.float x) => .ok (!x.isZero)
  | scalar _ (.string s) =>
    let word := Text.lowercase s
    if word = ['1'] ∨ trueWords.contains word then .ok true
    else if word = ['0'] ∨ falseWords.contains word then .ok false
    else .error (.string word, .bool)
  | v => .error (.ofSetting v, .bool)

/-- A word or a numeral read as a size. -/
def sizeOfText? (s : Text) : Option Nat :=
  let word := Text.lowercase s
  if trueWords.contains word then some 1
  else if falseWords.contains word then some 0
  else
    let digits := match s with
      | '+' :: r => r
      | r => r
    (Numeral.inBase? 10 digits).filter (· ≤ maxSize)

/-- A number read as a size: rounded, and kept within the range of sizes. -/
def sizeOfFloat : Binary64 → Nat
  | .finite negative m e => if negative then 0 else min (Binary64.roundSize m e) maxSize
  | .infinite negative => if negative then 0 else maxSize
  | .nan => 0

/-- A value read as a size. -/
def readSize : Setting → Except (Found × Expected) Nat
  | scalar _ (.bool b) => .ok b.toNat
  | scalar _ (.integer n) => if n < 0 then .error (.signedWord n, .size) else .ok n.toNat
  | scalar _ (.float x) => .ok (sizeOfFloat x)
  | scalar _ (.string s) =>
    match sizeOfText? s with
    | some n => .ok n
    | none => .error (.string s, .integer)
  | v => .error (.ofSetting v, .integer)

end Setting

namespace Section

/-- A section that is open for reading: its fields in order, each with its full
key where it is there, and the error if one that is missing is asked for. -/
structure Content where
  fields : List (Option (Text × Setting))
  lacking : SettingsError

/-- The full key of a field. -/
def fieldKey (outer : Text) (name : String) : Text :=
  if outer.isEmpty then name.toList else outer ++ '.' :: name.toList

/-- The full key of an item. -/
def itemKey (outer : Text) (position : Nat) : Text :=
  outer ++ '[' :: Numeral.decimal position ++ [']']

/-- The first field that is not among the keys. -/
def firstMissing (part : Section) (es : Entries Setting) : SettingsError :=
  .missingField ((part.fields.find? fun f => (Entries.get? f.toList es).isNone).getD "")

/-- The fields of a value that stands under the key `outer`. -/
def contents (part : Section) (outer : Text) : Setting → Except SettingsError Content
  | .table _ es => .ok
    { fields := part.fields.map fun f => (Entries.get? f.toList es).map (fieldKey outer f, ·)
      lacking := firstMissing part es }
  | .array _ vs => .ok
    { fields := (List.range part.fields.length).map fun i => vs[i]?.map (itemKey outer i, ·)
      lacking := .shortSection vs.length part }
  | v => .error (.notSection (.ofSetting v) part)

/-- The field at a place, if it is there, read with its full key. -/
def Content.read? {α : Type} (c : Content) (i : Nat)
    (read : Text → Setting → Except SettingsError α) : Except SettingsError (Option α) :=
  match c.fields[i]? with
  | some (some (key, v)) => (read key v).map some
  | _ => .ok none

/-- What was read, if it was there. -/
def Content.need {α : Type} (c : Content) : Option α → Except SettingsError α
  | some a => .ok a
  | none => .error c.lacking

end Section

/-- A reader of plain values, with its errors placed at a key and a file. -/
def Setting.located {α : Type} (read : Setting → Except (Found × Expected) α)
    (key : Text) (v : Setting) : Except SettingsError α :=
  (read v).mapError fun (found, expected) => .type found expected key v.origin

end FieldSelection
