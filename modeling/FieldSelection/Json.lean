/-
# JSON values and their text

A number is kept as the literal that stands for it, so that no rounding is part
of a value, and the members of an object are kept in order. The text of a value
puts each item of an array and each member of an object on a line of its own,
two blanks deeper than the bracket; an empty array or object is its two brackets
side by side. In a string only the quote, the backslash and the controls below
the blank are escaped.

Key definitions: `Json`, `Json.pretty`, `Json.quoted`.
-/
import FieldSelection.Text.Basic

namespace FieldSelection

/-- A JSON value. -/
inductive Json where
  | null
  | bool (b : Bool)
  | number (literal : Text)
  | string (s : Text)
  | array (items : List Json)
  | object (members : List (Text × Json))

namespace Json

/-- A hexadecimal digit, in lower case. -/
def hexDigit (n : Nat) : Char := Nat.digitChar (n % 16)

/-- A character as it stands in a JSON string. -/
def quotedChar (c : Char) : Text :=
  if c = '"' ∨ c = '\\' then ['\\', c]
  else if c = '\x08' then ['\\', 'b']
  else if c = '\x0c' then ['\\', 'f']
  else if c = '\n' then ['\\', 'n']
  else if c = '\r' then ['\\', 'r']
  else if c = '\t' then ['\\', 't']
  else if c < ' ' then ['\\', 'u', '0', '0', hexDigit (c.toNat / 16), hexDigit c.toNat]
  else [c]

/-- A text as a JSON string. -/
def quoted (s : Text) : Text := '"' :: s.flatMap quotedChar ++ ['"']

/-- The start of a line at a depth: two blanks for each level. -/
def newline (depth : Nat) : Text := '\n' :: List.replicate (2 * depth) ' '

mutual

/-- The text of a value whose line starts at `depth`. -/
def prettyAt (depth : Nat) : Json → Text
  | null => "null".toList
  | bool b => (if b then "true" else "false").toList
  | number l => l
  | string s => quoted s
  | array [] => ['[', ']']
  | array (j :: js) =>
    '[' :: newline (depth + 1) ++ prettyAt (depth + 1) j ++ prettyItems (depth + 1) js
      ++ newline depth ++ [']']
  | object [] => ['{', '}']
  | object ((k, j) :: ms) =>
    '{' :: newline (depth + 1) ++ quoted k ++ [':', ' '] ++ prettyAt (depth + 1) j
      ++ prettyMembers (depth + 1) ms ++ newline depth ++ ['}']

/-- The items after the first one of an array, at `depth`. -/
def prettyItems (depth : Nat) : List Json → Text
  | [] => []
  | j :: js => ',' :: newline depth ++ prettyAt depth j ++ prettyItems depth js

/-- The members after the first one of an object, at `depth`. -/
def prettyMembers (depth : Nat) : List (Text × Json) → Text
  | [] => []
  | (k, j) :: ms =>
    ',' :: newline depth ++ quoted k ++ [':', ' '] ++ prettyAt depth j ++ prettyMembers depth ms

end

/-- The text of a value, one item or member to a line. -/
def pretty (j : Json) : Text := prettyAt 0 j

end Json
end FieldSelection
