/-
# Expansion

A pass spreads every group of a source that can be spread. Expansion is passes
until no group is left, on the text that the last pass made: where a
marker has more than one character, text that comes together may form a new one.

Such markers can also make a source whose passes never come to an end: it grows
for ever, or comes back to a text that it has been before. The outcome is then
`Outcome.unfinished`, which is no answer of the expansion.

A limit on the length is looked at after each pass; the source itself may have
any length.

Key definitions: `pass`, `Outcome`, `Markers.passes`, `expand`,
`Expansion.strings`.
-/
import FieldSelection.Group

namespace FieldSelection

/-- The source with every group spread that can be; nothing if there is none. -/
def pass (m : Markers) (s : Text) : Option Text :=
  let ps := pieces (tokenize m s)
  if ps.any (·.group?.isSome) then some (ps.flatMap (Piece.spread m)) else none

/-- A working string that grew past the limit: the limit, the length it had
reached, and the pass that made it. -/
structure LimitError where
  limit : Nat
  reached : Nat
  pass : Nat
  deriving DecidableEq, Repr

/-- The text of a limit error. -/
def LimitError.message (e : LimitError) : String :=
  s!"expansion exceeded {e.limit} bytes (reached {e.reached} after pass {e.pass})"

/-- What passes come to: an answer, a working string past the limit, or no end. -/
inductive Outcome (α : Type) where
  | done (answer : α)
  | exceeded (error : LimitError)
  | unfinished
  deriving DecidableEq, Repr

/-- The outcome with its answer changed. -/
def Outcome.map {α β : Type} (f : α → β) : Outcome α → Outcome β
  | done a => done (f a)
  | exceeded e => exceeded e
  | unfinished => unfinished

theorem Outcome.map_eq_done_iff {α β : Type} {f : α → β} {o : Outcome α} {b : β} :
    o.map f = .done b ↔ ∃ a, o = .done a ∧ f a = b := by
  cases o <;> simp [Outcome.map]

namespace Expansion

/-- The complaint about a working string that pass number `n` has made. -/
def overrun? (limit : Option Nat) (n : Nat) (s : Text) : Option LimitError :=
  limit.bind fun l => if l < s.byteLength then some ⟨l, s.byteLength, n⟩ else none

variable (m : Markers)

/-- The working strings after each of at most `fuel` passes. -/
def strings : (fuel : Nat) → Text → List Text
  | 0, _ => []
  | fuel + 1, s =>
    match pass m s with
    | none => []
    | some t => t :: strings fuel t

/-- More passes than there is time for, and at least the number of characters of
the source. -/
def passBudget (s : Text) : Nat := s.length + Nat.pow 2 62

end Expansion

/-- Passes from `s` on, after `n` passes before: the text at which they end or the
complaint that stops them, and nothing if they go on for ever. -/
def Markers.passes (m : Markers) (limit : Option Nat) (n : Nat) (s : Text) :
    Option (Except LimitError Text) :=
  match pass m s with
  | none => some (.ok s)
  | some t =>
    match Expansion.overrun? limit (n + 1) t with
    | some e => some (.error e)
    | none => m |>.passes limit (n + 1) t
partial_fixpoint

/-- What passes that end come to, or that they do not end. -/
def Outcome.ofEnd {α : Type} : Option (Except LimitError α) → Outcome α
  | some (.ok a) => done a
  | some (.error e) => exceeded e
  | none => unfinished

/-- The source expanded until no group is left, under a limit on the working
string if there is one. -/
def expand (m : Markers) (limit : Option Nat) (s : Text) : Outcome Text :=
  .ofEnd (m.passes limit 0 s)

end FieldSelection
