/-
# YAML scalars

A text is written plain where that cannot be misread. Text with line feeds goes
into a block after a bar, one line of the block to a line; other text goes
between single quotes, and between double quotes with escapes if it holds
characters that do not print or blanks around a line break.

Key definitions: `Yaml.Style`, `Yaml.style`, `Yaml.scalarLine`.
-/
import FieldSelection.Yaml.Resolution

namespace FieldSelection
namespace Yaml

/-! ### Classes of characters -/

/-- The line breaks of YAML. -/
def isBreak (c : Char) : Bool :=
  c = '\n' || c = '\r' || c = '\u0085' || c = '\u2028' || c = '\u2029'

/-- Blanks and line breaks. -/
def isBlank (c : Char) : Bool := c = ' ' || c = '\t' || isBreak c

/-- The characters that are written as they are. -/
def isPrintable (c : Char) : Bool :=
  let n := c.toNat
  c = '\n' || (0x20 ≤ n && n ≤ 0x7E) || (0xA0 ≤ n && n ≤ 0xD7FF)
    || (0xE000 ≤ n && n ≤ 0xFFFD && n ≠ 0xFEFF) || 0x10000 ≤ n

/-- The characters that mean something at the start of a plain scalar. -/
def indicators : List Char :=
  ['#', ',', '[', ']', '{', '}', '&', '*', '!', '|', '>', '\'', '"', '%', '@', '\x60']

/-! ### Where a plain scalar would be misread -/

/-- Whether a blank or the end comes next. -/
def blankNext : Text → Bool
  | [] => true
  | c :: _ => isBlank c

/-- Whether the first character, with what follows it, would start something else. -/
def indicatesAtFront : Text → Bool
  | [] => false
  | c :: s => indicators.contains c || ((c = '?' || c = ':' || c = '-') && blankNext s)

/-- Whether a later character would end the scalar: a colon before a blank, or a
number sign after one. -/
def indicatesLater : (afterBlank : Bool) → Text → Bool
  | _, [] => false
  | afterBlank, c :: s =>
    (c = ':' && blankNext s) || (c = '#' && afterBlank) || indicatesLater (isBlank c) s

/-- Whether the text would be read as something other than a scalar. -/
def indicates (s : Text) : Bool :=
  ['-', '-', '-'].isPrefixOf s || ['.', '.', '.'].isPrefixOf s || indicatesAtFront s ||
    match s with
    | [] => false
    | c :: r => indicatesLater (isBlank c) r

/-- Whether a character of one class stands right before one of the other. -/
def adjacent (p q : Char → Bool) (s : Text) : Bool :=
  (s.zip s.tail).any fun cd => p cd.1 && q cd.2

/-- Whether the first or last character is of a class. -/
def atEdge (p : Char → Bool) (s : Text) : Bool := s.head?.any p || s.getLast?.any p

/-! ### The style of a scalar -/

/-- The four ways to write a scalar. -/
inductive Style where
  | plain
  | single
  | double
  | block
  deriving DecidableEq, Repr

/-- Whether all characters print and no blank stands before a line break. -/
def isClean (s : Text) : Bool := s.all isPrintable && !adjacent (· = ' ') isBreak s

/-- Whether the text may be written without quotes. -/
def plainAllowed (s : Text) : Bool :=
  s.all isPrintable && !s.any isBreak && !atEdge (· = ' ') s && !indicates s

/-- Whether the text may be written between single quotes. -/
def singleAllowed (s : Text) : Bool := isClean s && !adjacent isBreak (· = ' ') s

/-- Whether the text may be written as a block. -/
def blockAllowed (s : Text) : Bool := isClean s && s.getLast? ≠ some ' '

/-- The way in which a text is written. -/
def style (s : Text) : Style :=
  if '\n' ∈ s then (if blockAllowed s then .block else .double)
  else if !isSpecial s && plainAllowed s then .plain
  else if singleAllowed s then .single
  else .double

/-! ### Writing -/

/-- The blanks at the start of a line. -/
def margin (indent : Nat) : Text := List.replicate indent ' '

/-- The inside of single quotes: a quote is written twice, and a line that
follows a break starts with the margin. -/
def singleFrom (indent : Nat) : (afterBreak : Bool) → Text → Text
  | afterBreak, [] => if afterBreak then margin indent else []
  | afterBreak, c :: s =>
    if isBreak c then c :: singleFrom indent true s
    else (if afterBreak then margin indent else [])
      ++ (if c = '\'' then [c, c] else [c]) ++ singleFrom indent false s

/-- A number in hexadecimal, in upper case, with `width` digits. -/
def hexOfWidth (width n : Nat) : Text :=
  let digits := (Nat.toDigits 16 n).map Char.toUpper
  List.replicate (width - digits.length) '0' ++ digits

/-- The letter of a short escape. -/
def shortEscape? (c : Char) : Option Char :=
  if c = '\x00' then some '0'
  else if c = '\x07' then some 'a'
  else if c = '\x08' then some 'b'
  else if c = '\t' then some 't'
  else if c = '\n' then some 'n'
  else if c = '\x0b' then some 'v'
  else if c = '\x0c' then some 'f'
  else if c = '\r' then some 'r'
  else if c = '\x1b' then some 'e'
  else if c = '"' ∨ c = '\\' then some c
  else if c = '\u0085' then some 'N'
  else if c = '\u2028' then some 'L'
  else if c = '\u2029' then some 'P'
  else none

/-- An escape by code point, as short as its width allows. -/
def codePointEscape (c : Char) : Text :=
  let n := c.toNat
  if n ≤ 0xFF then 'x' :: hexOfWidth 2 n
  else if n ≤ 0xFFFF then 'u' :: hexOfWidth 4 n
  else 'U' :: hexOfWidth 8 n

/-- A character as it stands inside double quotes. -/
def doubleChar (c : Char) : Text :=
  if isPrintable c && !isBreak c && c ≠ '"' && c ≠ '\\' then [c]
  else '\\' :: ((shortEscape? c).map ([·])).getD (codePointEscape c)

/-- What stands after the bar of a block: the margin, if the text starts with a
blank or a break, and what becomes of the breaks at its end. -/
def blockHints (s : Text) : Text :=
  let start := if s.head?.any fun c => c = ' ' || isBreak c then ['2'] else []
  let ending :=
    match s.reverse with
    | [] => ['-']
    | [c] => if isBreak c then ['+'] else ['-']
    | c :: d :: _ => if !isBreak c then ['-'] else if isBreak d then ['+'] else []
  start ++ ending

/-- The lines of a block, each with the margin; an empty line has none. -/
def blockFrom (indent : Nat) : (atStart : Bool) → Text → Text
  | _, [] => []
  | atStart, c :: s =>
    if isBreak c then c :: blockFrom indent true s
    else (if atStart then margin indent else []) ++ c :: blockFrom indent false s

/-- The text of a scalar whose lines after the first have a margin. -/
def scalar (indent : Nat) (s : Text) : Text :=
  match style s with
  | .plain => s
  | .single => '\'' :: singleFrom indent false s ++ ['\'']
  | .double => '"' :: s.flatMap doubleChar ++ ['"']
  | .block => '|' :: blockHints s ++ '\n' :: blockFrom indent true s

/-- A scalar and the end of its line. A block that ends in a break is at the
start of a line already. -/
def scalarLine (indent : Nat) (s : Text) : Text :=
  if style s = .block ∧ s.getLast?.any isBreak then scalar indent s
  else scalar indent s ++ ['\n']

end Yaml
end FieldSelection
