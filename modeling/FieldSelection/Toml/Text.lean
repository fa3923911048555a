/-
# TOML strings, keys and blanks

Strings stand between one quote or three of either kind. Between double quotes
there are escapes, and a backslash at the end of a line swallows the blanks and
line ends after it. A line feed right after three opening quotes does not count,
and up to two quotes may stand right before three closing ones. Controls other
than the tab are nowhere allowed.

Key definitions: `Toml.readString?`, `Toml.readKey?`, `Toml.skipGap`,
`Toml.endLine?`.
-/
import FieldSelection.Number.Numeral

namespace FieldSelection
namespace Toml

/-- The blanks within a line. -/
def isSpace (c : Char) : Bool := c = ' ' || c = '\t'

/-- The characters that strings and comments may hold as they are. -/
def isTextChar (c : Char) : Bool := c = '\t' || (' ' ≤ c && c ≠ '\x7f')

/-- The text from its first character on that is no blank. -/
def skipSpace (s : Text) : Text := s.dropWhile isSpace

/-- The text after a line end, if it starts with one. -/
def newline? : Text → Option Text
  | '\n' :: s => some s
  | '\r' :: '\n' :: s => some s
  | _ => none

/-- The text after any blanks and line ends. -/
def skipLines : Text → Text
  | [] => []
  | '\r' :: '\n' :: s => skipLines s
  | c :: s => if isSpace c || c = '\n' then skipLines s else c :: s

/-- The text after any blanks, line ends and comments. -/
def skipGap : (inComment : Bool) → Text → Text
  | _, [] => []
  | _, '\r' :: '\n' :: s => skipGap false s
  | inComment, c :: s =>
    if c = '\n' then skipGap false s
    else if inComment then (if isTextChar c then skipGap true s else c :: s)
    else if isSpace c then skipGap false s
    else if c = '#' then skipGap true s
    else c :: s

/-- The text without a comment at its front. -/
def skipComment : Text → Text
  | '#' :: s => s.dropWhile isTextChar
  | s => s

/-- The text after the rest of a line, if that holds blanks and a comment only. -/
def endLine? (s : Text) : Option Text :=
  match skipComment (skipSpace s) with
  | [] => some []
  | r => newline? r

/-! ### Strings -/

/-- The character of an escape by code point in so many digits. -/
def readCodePoint? (width : Nat) (s : Text) : Option (Char × Text) :=
  if (s.take width).length = width then
    (Numeral.inBase? 16 (s.take width)).bind fun n =>
      if n.isValidChar then some (Char.ofNat n, s.drop width) else none
  else none

/-- The character of an escape; the backslash is already read. -/
def readEscape? : Text → Option (Char × Text)
  | '"' :: r => some ('"', r)
  | '\\' :: r => some ('\\', r)
  | 'b' :: r => some ('\x08', r)
  | 'f' :: r => some ('\x0c', r)
  | 'n' :: r => some ('\n', r)
  | 'r' :: r => some ('\r', r)
  | 't' :: r => some ('\t', r)
  | 'u' :: r => readCodePoint? 4 r
  | 'U' :: r => readCodePoint? 8 r
  | _ => none

/-- A character in front of what a reader found. -/
def withChar (c : Char) : Text × Text → Text × Text
  | (s, r) => (c :: s, r)

/-- The rest of a string between double quotes; the opening one is already read. -/
def readBasic? : (fuel : Nat) → Text → Option (Text × Text)
  | 0, _ => none
  | _ + 1, [] => none
  | fuel + 1, c :: r =>
    if c = '"' then some ([], r)
    else if c = '\\' then
      (readEscape? r).bind fun (d, r) => (readBasic? fuel r).map (withChar d)
    else if isTextChar c then (readBasic? fuel r).map (withChar c)
    else none

/-- The rest of a string between single quotes; the opening one is already read. -/
def readLiteral? : Text → Option (Text × Text)
  | [] => none
  | c :: r =>
    if c = '\'' then some ([], r)
    else if isTextChar c then (readLiteral? r).map (withChar c)
    else none

/-- The quotes that still belong to a string when three have closed it: all but
the last three of up to five. -/
def extraQuotes (quote : Char) : Text → Text × Text
  | c :: d :: r =>
    if c = quote ∧ d = quote then ([c, d], r)
    else if c = quote then ([c], d :: r)
    else ([], c :: d :: r)
  | [c] => if c = quote then ([c], []) else ([], [c])
  | [] => ([], [])

/-- The rest of a string between three double quotes; the opening ones are already read. -/
def readLongBasic? : (fuel : Nat) → Text → Option (Text × Text)
  | 0, _ => none
  | fuel + 1, s =>
    match s with
    | '"' :: '"' :: '"' :: r => some (extraQuotes '"' r)
    | '\\' :: r =>
      match newline? (skipSpace r) with
      | some r => readLongBasic? fuel (skipLines r)
      | none => (readEscape? r).bind fun (d, r) => (readLongBasic? fuel r).map (withChar d)
    | '\r' :: '\n' :: r => (readLongBasic? fuel r).map (withChar '\n')
    | c :: r =>
      if c = '\n' || isTextChar c then (readLongBasic? fuel r).map (withChar c) else none
    | [] => none

/-- The rest of a string between three single quotes; the opening ones are already read. -/
def readLongLiteral? : (fuel : Nat) → Text → Option (Text × Text)
  | 0, _ => none
  | fuel + 1, s =>
    match s with
    | '\'' :: '\'' :: '\'' :: r => some (extraQuotes '\'' r)
    | '\r' :: '\n' :: r => (readLongLiteral? fuel r).map (withChar '\n')
    | c :: r =>
      if c = '\n' || isTextChar c then (readLongLiteral? fuel r).map (withChar c) else none
    | [] => none

/-- The text without a line end at its front. -/
def dropNewline (s : Text) : Text := (newline? s).getD s

/-- A string on one line. -/
def readShortString? : Text → Option (Text × Text)
  | '"' :: r => readBasic? (r.length + 1) r
  | '\'' :: r => readLiteral? r
  | _ => none

/-- A string of any kind. -/
def readString? : Text → Option (Text × Text)
  | '"' :: '"' :: '"' :: r => readLongBasic? (r.length + 1) (dropNewline r)
  | '\'' :: '\'' :: '\'' :: r => readLongLiteral? (r.length + 1) (dropNewline r)
  | s => readShortString? s

/-! ### Keys -/

/-- The characters of a key without quotes. -/
def isKeyChar (c : Char) : Bool := c.isAlphanum || c = '_' || c = '-'

/-- One part of a key. -/
def readKeyPart? (s : Text) : Option (Text × Text) :=
  match s with
  | '"' :: _ | '\'' :: _ => readShortString? s
  | _ => if (s.takeWhile isKeyChar).isEmpty then none
    else some (s.takeWhile isKeyChar, s.dropWhile isKeyChar)

/-- A key of at most so many parts, with points between them. -/
def readKeyUpTo? : (parts : Nat) → Text → Option (List Text × Text)
  | 0, _ => none
  | parts + 1, s => do
    let (k, r) ← readKeyPart? (skipSpace s)
    match skipSpace r with
    | '.' :: r =>
      let (ks, r) ← readKeyUpTo? parts r
      pure (k :: ks, r)
    | r => pure ([k], r)

/-- The greatest number of parts of a key, and of brackets around a value. -/
def depthLimit : Nat := 79

/-- A key: the path to a table, and the name in it. -/
def readKey? (s : Text) : Option ((List Text × Text) × Text) := do
  let (ks, r) ← readKeyUpTo? depthLimit s
  let k ← ks.getLast?
  pure ((ks.dropLast, k), r)

end Toml
end FieldSelection
