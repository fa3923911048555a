/-
# Quoted text

Error texts show a text between double quotes. A quote and a backslash take a
backslash, the usual controls have a letter, and any other character that does
not show alone is written as its code point in braces: `\u{301}`.

Key definition: `Text.quoted`.
-/
import FieldSelection.Text.Basic
import FieldSelection.Text.Printable

namespace FieldSelection
namespace Text

/-- A character by its code point, in lower-case hexadecimal between braces. -/
def codePointEscape (c : Char) : Text :=
  ['\\', 'u', '{'] ++ Nat.toDigits 16 c.toNat ++ ['}']

/-- A character as it stands inside quotes. -/
def quotedChar (c : Char) : Text :=
  if c = '\x00' then ['\\', '0']
  else if c = '\t' then ['\\', 't']
  else if c = '\r' then ['\\', 'r']
  else if c = '\n' then ['\\', 'n']
  else if c = '\\' ∨ c = '"' then ['\\', c]
  else if showsAlone c then [c]
  else codePointEscape c

/-- The text between double quotes. -/
def quoted (s : Text) : Text := '"' :: s.flatMap quotedChar ++ ['"']

end Text
end FieldSelection
