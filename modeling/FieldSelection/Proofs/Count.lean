/-
# The number of paths

A segment stands for as many choices as the groups in it multiplied, a selection for as
many as its segments added. The tokens of a selection settle that number
(`Selection.choices_eq_of_tokens`), and a source whose passes read back has as many paths
(`Seamless.counts`).

Key definitions: `Selection.choices`, `Counts`.
Key theorem: `Seamless.counts`.
-/
import FieldSelection.Proofs.WellFormed

namespace FieldSelection

open Token

variable {m : Markers}

mutual

/-- The choices of the segments, added. -/
def Selection.choices : Selection → Nat
  | .one seg => seg.choices
  | .more seg rest => seg.choices + rest.choices

/-- The choices of the groups, multiplied. -/
def Segment.choices : Segment → Nat
  | .nil => 1
  | .text _ rest => rest.choices
  | .group content rest => content.choices * rest.choices

end

mutual

theorem Selection.length_meaning : ∀ sel : Selection, sel.meaning.length = sel.choices
  | .one seg => by rw [Selection.meaning, Selection.choices, seg.length_meaning]
  | .more seg rest => by
    rw [Selection.meaning, Selection.choices, List.length_append, seg.length_meaning,
      rest.length_meaning]

theorem Segment.length_meaning : ∀ seg : Segment, seg.meaning.length = seg.choices
  | .nil => rfl
  | .text s rest => by
    rw [Segment.meaning, Segment.choices, Text.length_combine, rest.length_meaning,
      List.length_singleton, Nat.one_mul]
  | .group content rest => by
    rw [Segment.meaning, Segment.choices, Text.length_combine, content.length_meaning,
      rest.length_meaning]

end

theorem Selection.choices_eq_of_tokens {sel sel' : Selection} (h : sel.tokens = sel'.tokens) :
    sel.choices = sel'.choices := by
  have hmeaning : some sel.meaning = some sel'.meaning := by
    rw [← sel.meaning_tokens, ← sel'.meaning_tokens, h]
  rw [← sel.length_meaning, ← sel'.length_meaning, Option.some.inj hmeaning]

/-- The source is that of a selection, and has as many paths as the selection has
choices. -/
def Counts (m : Markers) (s : Text) : Prop :=
  ∃ sel : Selection, sel.tokens = tokenize m s ∧
    ∀ default, ∃ ps, paths m default (some s) = .done ps ∧ ps.length = sel.choices

/-- **Balanced sources whose passes read back have as many paths as choices.** -/
theorem Seamless.counts {s : Text} (h : Seamless m s) (hs : s ≠ [])
    (hbal : balanced 0 (tokenize m s) = true) : Counts m s := by
  obtain ⟨sel, hsel⟩ := exists_selection hbal
  have hmeaning : meaning (tokenize m s) = some sel.meaning := by rw [← hsel, sel.meaning_tokens]
  obtain ⟨n, t, -, -, -, -, hpaths⟩ := h.ends_in_meaning hmeaning
  exact ⟨sel, hsel, fun default => ⟨sel.meaning, hpaths hs default, sel.length_meaning⟩⟩

end FieldSelection
