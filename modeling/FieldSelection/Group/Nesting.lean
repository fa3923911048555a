/-
# What nests further to the right

An opener nests if the next opener or closer after it is an opener again. A
group may be spread only once nothing to its right nests, so every position
of a token list needs to know whether something does from there on. One walk
from the right answers for all positions: it carries the nearest opener or
closer and the answers found so far.

Key definition: `nestingAhead`.
-/
import FieldSelection.Token

namespace FieldSelection
namespace Nesting

/-- What a walk from the right knows at a position: the nearest opener or closer
at or after it, and for every position from there on whether something nests. -/
structure Outlook where
  nearest : Option Mark
  table : List Bool

/-- The outlook at the end of the tokens: nothing is left to nest. -/
def Outlook.atEnd : Outlook := ⟨none, [false]⟩

/-- The outlook one token further to the left. -/
def Outlook.before (t : Token) (o : Outlook) : Outlook :=
  let later := o.table.headD false
  match t with
  | .mark .opener => ⟨some .opener, (later || o.nearest == some .opener) :: o.table⟩
  | .mark .closer => ⟨some .closer, later :: o.table⟩
  | .mark .delimiter | .text _ => ⟨o.nearest, later :: o.table⟩

end Nesting

/-- For every position of a token list, its end included, whether an opener from
there on nests. -/
def nestingAhead (ts : List Token) : List Bool :=
  (ts.foldr Nesting.Outlook.before Nesting.Outlook.atEnd).table

@[simp] theorem nestingAhead_nil : nestingAhead [] = [false] := rfl

theorem length_nestingAhead (ts : List Token) : (nestingAhead ts).length = ts.length + 1 := by
  induction ts with
  | nil => rfl
  | cons t ts ih =>
    simp only [nestingAhead, List.foldr_cons] at ih ⊢
    cases t with
    | text s => simpa [Nesting.Outlook.before] using ih
    | mark k => cases k <;> simpa [Nesting.Outlook.before] using ih

end FieldSelection
