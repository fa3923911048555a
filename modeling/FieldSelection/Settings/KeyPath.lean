/-
# Paths to a setting

A setting is named by the key of its section and the steps from there: keys after
points and positions between brackets, `markers.open` or `list[0].name`. A key is
a run of letters, digits, blanks, underscores and hyphens. A position below zero
counts from the end.

Key definitions: `KeyPath`, `KeyPath.read`, `KeyPath.Fault`.
-/
import FieldSelection.Number.Numeral

namespace FieldSelection

/-- A step into a setting. -/
inductive KeyPath.Step where
  | key (name : Text)
  | index (position : Int)
  deriving DecidableEq, Repr

/-- The steps to a setting. -/
abbrev KeyPath := List KeyPath.Step

namespace KeyPath

/-- What can be wrong with the text of a path: no key where one has to start, a
sign that cannot stand there, no digit in brackets, or too great a position. -/
inductive Fault where
  | key
  | sign
  | digit
  | range
  deriving DecidableEq, Repr

/-- The text of a fault. -/
def Fault.message : Fault → String
  | key => "IsA"
  | sign => "Char"
  | digit => "Digit"
  | range => "Map on Result"

/-- The characters of a key. -/
def isKeyChar (c : Char) : Bool := c.isAlphanum || c = ' ' || c = '_' || c = '-'

/-- The blanks around a position. -/
def isSpace (c : Char) : Bool := c = ' ' || c = '\t'

/-- A position of 64 bits with its sign, and the blanks around it. -/
def readPosition (s : Text) : Except Fault (Int × Text) :=
  let s := s.dropWhile isSpace
  let negative := s.head? = some '-'
  let digits := if negative then s.drop 1 else s
  match Numeral.inBase? 10 (digits.takeWhile Char.isDigit) with
  | none => .error .digit
  | some n =>
    if n < Nat.pow 2 63 ∨ (negative ∧ n = Nat.pow 2 63) then
      .ok (if negative then -(n : Int) else n, (digits.dropWhile Char.isDigit).dropWhile isSpace)
    else .error .range

/-- The next step of a path. -/
def readStep : Text → Except Fault (Step × Text)
  | '.' :: s =>
    if (s.takeWhile isKeyChar).isEmpty then .error .sign
    else .ok (.key (s.takeWhile isKeyChar), s.dropWhile isKeyChar)
  | '[' :: s =>
    match readPosition s with
    | .ok (i, ']' :: r) => .ok (.index i, r)
    | .ok _ => .error .sign
    | .error e => .error e
  | _ => .error .sign

/-- The steps that are left of a path. Each takes a character or more, so a
fuel of the length of the text is enough. -/
def readSteps : (fuel : Nat) → Text → Except Fault (List Step)
  | _, [] => .ok []
  | 0, _ => .error .sign
  | fuel + 1, s => do
    let (step, r) ← readStep s
    let steps ← readSteps fuel r
    pure (step :: steps)

/-- The path that a text writes. -/
def read (s : Text) : Except Fault KeyPath :=
  if (s.takeWhile isKeyChar).isEmpty then .error .key
  else (readSteps s.length (s.dropWhile isKeyChar)).map (.key (s.takeWhile isKeyChar) :: ·)

end KeyPath
end FieldSelection
