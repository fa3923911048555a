/-
# Reading JSON

The reader takes JSON text as its standard describes it: blanks around every
sign, escapes with code units and their pairs, numbers kept as they are spelled.
What follows a value is handed back; `Json.read?` accepts a text that holds one
value and blanks. A step of the reader takes one from its fuel, and twice the
length of the text is enough, for every second step takes a character.

Key definitions: `Json.readValue?`, `Json.read?`.
-/
import FieldSelection.Json
import FieldSelection.Number.Numeral

namespace FieldSelection
namespace Json

/-- The blanks of JSON. -/
def isBlank (c : Char) : Bool := c = ' ' || c = '\n' || c = '\r' || c = '\t'

/-- The text from its first character on that is no blank. -/
def skipBlank (s : Text) : Text := s.dropWhile isBlank

/-- The code unit of four hexadecimal digits. -/
def readUnit? : Text → Option (Nat × Text)
  | a :: b :: c :: d :: r => (Numeral.inBase? 16 [a, b, c, d]).map (·, r)
  | _ => none

/-- The character of an escape by code units; the `u` is already read. -/
def readCodePoint? (s : Text) : Option (Char × Text) := do
  let (high, r) ← readUnit? s
  if high < 0xD800 || 0xE000 ≤ high then pure (Char.ofNat high, r)
  else if 0xDC00 ≤ high then none
  else
    match r with
    | '\\' :: 'u' :: r =>
      let (low, r) ← readUnit? r
      if 0xDC00 ≤ low && low < 0xE000 then
        pure (Char.ofNat (0x10000 + (high - 0xD800) * 0x400 + (low - 0xDC00)), r)
      else none
    | _ => none

/-- The character of an escape; the backslash is already read. -/
def readEscape? : Text → Option (Char × Text)
  | '"' :: r => some ('"', r)
  | '\\' :: r => some ('\\', r)
  | '/' :: r => some ('/', r)
  | 'b' :: r => some ('\x08', r)
  | 'f' :: r => some ('\x0c', r)
  | 'n' :: r => some ('\n', r)
  | 'r' :: r => some ('\r', r)
  | 't' :: r => some ('\t', r)
  | 'u' :: r => readCodePoint? r
  | _ => none

/-- The rest of a string up to its closing quote; the opening one is already read. -/
def readString? : (fuel : Nat) → Text → Option (Text × Text)
  | 0, _ => none
  | _ + 1, [] => none
  | fuel + 1, c :: r =>
    if c = '"' then some ([], r)
    else if c = '\\' then do
      let (c, r) ← readEscape? r
      let (s, r) ← readString? fuel r
      pure (c :: s, r)
    else if c < ' ' then none
    else do
      let (s, r) ← readString? fuel r
      pure (c :: s, r)

/-- One or more digits. -/
def readDigits? (s : Text) : Option (Text × Text) :=
  let ds := s.takeWhile Char.isDigit
  if ds.isEmpty then none else some (ds, s.dropWhile Char.isDigit)

/-- The whole part of a number: a zero, or digits that start with none. -/
def readWhole? : Text → Option (Text × Text)
  | '0' :: r => some (['0'], r)
  | s => readDigits? s

/-- A point with digits after it, or nothing. -/
def readFraction? : Text → Option (Text × Text)
  | '.' :: r => (readDigits? r).map fun (ds, r) => ('.' :: ds, r)
  | s => some ([], s)

/-- A sign of an exponent, or nothing. -/
def readSign : Text → Text × Text
  | '+' :: r => (['+'], r)
  | '-' :: r => (['-'], r)
  | s => ([], s)

/-- An exponent, or nothing. -/
def readExponent? : Text → Option (Text × Text)
  | [] => some ([], [])
  | c :: r =>
    if c = 'e' || c = 'E' then
      let (sign, r) := readSign r
      (readDigits? r).map fun (ds, r) => (c :: sign ++ ds, r)
    else some ([], c :: r)

/-- A number without its sign. -/
def readUnsigned? (s : Text) : Option (Text × Text) := do
  let (whole, r) ← readWhole? s
  let (fraction, r) ← readFraction? r
  let (exponent, r) ← readExponent? r
  pure (whole ++ fraction ++ exponent, r)

/-- A number, as it is spelled. -/
def readNumber? : Text → Option (Text × Text)
  | '-' :: r => (readUnsigned? r).map fun (l, r) => ('-' :: l, r)
  | s => readUnsigned? s

mutual

/-- A value and what follows it. -/
def readValue? : (fuel : Nat) → Text → Option (Json × Text)
  | 0, _ => none
  | fuel + 1, s =>
    match skipBlank s with
    | '"' :: r => (readString? (r.length + 1) r).map fun (s, r) => (string s, r)
    | '[' :: r =>
      match skipBlank r with
      | ']' :: r => some (array [], r)
      | r => (readItems? fuel r).map fun (js, r) => (array js, r)
    | '{' :: r =>
      match skipBlank r with
      | '}' :: r => some (object [], r)
      | r => (readMembers? fuel r).map fun (ms, r) => (object ms, r)
    | 'n' :: 'u' :: 'l' :: 'l' :: r => some (null, r)
    | 't' :: 'r' :: 'u' :: 'e' :: r => some (bool true, r)
    | 'f' :: 'a' :: 'l' :: 's' :: 'e' :: r => some (bool false, r)
    | r => (readNumber? r).map fun (l, r) => (number l, r)

/-- One or more items and the bracket that closes the array. -/
def readItems? : (fuel : Nat) → Text → Option (List Json × Text)
  | 0, _ => none
  | fuel + 1, s => do
    let (j, r) ← readValue? fuel s
    match skipBlank r with
    | ',' :: r =>
      let (js, r) ← readItems? fuel r
      pure (j :: js, r)
    | ']' :: r => pure ([j], r)
    | _ => none

/-- One or more members and the brace that closes the object. -/
def readMembers? : (fuel : Nat) → Text → Option (List (Text × Json) × Text)
  | 0, _ => none
  | fuel + 1, s =>
    match skipBlank s with
    | '"' :: r => do
      let (k, r) ← readString? (r.length + 1) r
      match skipBlank r with
      | ':' :: r =>
        let (j, r) ← readValue? fuel r
        match skipBlank r with
        | ',' :: r =>
          let (ms, r) ← readMembers? fuel r
          pure ((k, j) :: ms, r)
        | '}' :: r => pure ([(k, j)], r)
        | _ => none
      | _ => none
    | _ => none

end

/-- The value that a text holds, with nothing but blanks around it. -/
def read? (s : Text) : Option Json :=
  match readValue? (2 * s.length + 2) s with
  | some (j, r) => if (skipBlank r).isEmpty then some j else none
  | none => none

end Json
end FieldSelection
