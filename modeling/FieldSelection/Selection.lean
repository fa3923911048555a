/-
# From a selection to its paths

A selection is expanded and then cut at every delimiter that is left; empty
paths are kept, so that their number is the number of choices the selection
describes. An absent or empty selection is not expanded and stands for a list
of default paths.

Key definitions: `splitPaths`, `paths`, `Selector`, `Selector.paths`.
-/
import FieldSelection.Expansion

namespace FieldSelection

/-- The paths of an expanded selection: its pieces between delimiters. -/
def splitPaths (m : Markers) (expanded : Text) : List Text :=
  Text.splitOn (m.text .delimiter) expanded

/-- The paths of a selection, without a limit on the expansion. -/
def paths (m : Markers) (default : List Text) : Option Text → Outcome (List Text)
  | none | some [] => .done default
  | some s => (expand m none s).map (splitPaths m)

theorem paths_of_ne_nil (m : Markers) (default : List Text) {s : Text} (hs : s ≠ []) :
    paths m default (some s) = (expand m none s).map (splitPaths m) := by
  obtain ⟨c, s, rfl⟩ := List.exists_cons_of_ne_nil hs
  rfl

/-- A way to read selections: the markers, the paths of an absent or empty
selection, and the limit on the working string, if there is one. -/
structure Selector where
  markers : Markers := .standard
  default : List Text := []
  limit : Option Nat := none

/-- The paths of a selection, under the selector's limit. -/
def Selector.paths (r : Selector) : Option Text → Outcome (List Text)
  | none | some [] => .done r.default
  | some s => (expand r.markers r.limit s).map (splitPaths r.markers)

theorem Selector.paths_of_ne_nil (r : Selector) {s : Text} (hs : s ≠ []) :
    r.paths (some s) = (expand r.markers r.limit s).map (splitPaths r.markers) := by
  obtain ⟨c, s, rfl⟩ := List.exists_cons_of_ne_nil hs
  rfl

end FieldSelection
