/-
# Text, its length in bytes, and cutting it at a separator

A text is a list of characters, so that every rule of the library is a
recursion on it. Lengths and positions are counted in bytes of UTF-8, which is
what limits and error texts speak of. `splitOn` looks for the separator from
the left and without overlap, and keeps empty pieces: a text with `n` hits
falls into `n + 1` pieces. `joinWith` puts the separator back between them.

Key definitions: `Text.byteLength`, `Text.occursIn`, `Text.splitOn`,
`Text.joinWith`, `Span`.
-/
namespace FieldSelection

/-- Text, one character after the other. -/
abbrev Text := List Char

/-- A range of bytes of a text, from `start` up to but without `stop`. -/
structure Span where
  start : Nat
  stop : Nat
  deriving DecidableEq, Repr

namespace Text

/-- The number of bytes that the text takes in UTF-8. -/
def byteLength : Text → Nat
  | [] => 0
  | c :: s => c.utf8Size + byteLength s

@[simp] theorem byteLength_nil : byteLength [] = 0 := rfl

@[simp] theorem byteLength_cons (c : Char) (s : Text) :
    byteLength (c :: s) = c.utf8Size + byteLength s := rfl

@[simp] theorem byteLength_append (s t : Text) :
    byteLength (s ++ t) = byteLength s + byteLength t := by
  induction s with
  | nil => simp
  | cons c s ih => rw [List.cons_append, byteLength_cons, byteLength_cons, ih, Nat.add_assoc]

/-- Whether the text `sub` occurs in another. -/
def occursIn (sub : Text) : Text → Bool
  | [] => sub.isEmpty
  | c :: s => sub.isPrefixOf (c :: s) || occursIn sub s

theorem occursIn_iff {sub : Text} : ∀ {s : Text}, occursIn sub s = true ↔ sub <:+: s
  | [] => by simp [occursIn]
  | c :: s => by simp [occursIn, occursIn_iff, List.infix_cons_iff]

/-- The pieces of a text between the hits of `sep`, once `skip` characters
that belong to the last hit are passed over. -/
def splitFrom (sep : Text) : Nat → Text → List Text
  | _, [] => [[]]
  | skip + 1, _ :: s => splitFrom sep skip s
  | 0, c :: s =>
    if sep.isPrefixOf (c :: s) then [] :: splitFrom sep (sep.length - 1) s
    else (splitFrom sep 0 s).modifyHead (c :: ·)

/-- The pieces of a text between the occurrences of `sep`, which are looked for
from the left and without overlap. -/
def splitOn (sep s : Text) : List Text := splitFrom sep 0 s

/-- The pieces with `sep` between each two neighbours. -/
def joinWith (sep : Text) (pieces : List Text) : Text := List.intercalate sep pieces

/-- The text without its last characters for as long as they satisfy `p`. -/
def trimEnd (p : Char → Bool) (s : Text) : Text := (s.reverse.dropWhile p).reverse

end Text

end FieldSelection
