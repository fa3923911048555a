/-
# Markers

A selection is written with three markers: one opens a group, one closes it and
one stands between alternatives. Each is a text of one or more characters. At
any position at most one of them may start, so no marker is empty and none
occurs in another; a value of `Markers` carries both facts.

Key definitions: `Mark`, `Markers`, `Markers.ofTexts`, `Markers.standard`,
`MarkerError.message`.
Key theorem: `MarkerError.fault?_eq_none_iff`.
-/
import FieldSelection.Text.Quoted

namespace FieldSelection

/-- The three things that a marker can say. -/
inductive Mark where
  | opener
  | closer
  | delimiter
  deriving DecidableEq, Repr

namespace Mark

/-- The marks, in the order in which they are looked at. -/
def all : List Mark := [.opener, .closer, .delimiter]

@[simp] theorem mem_all (k : Mark) : k ∈ all := by cases k <;> simp [all]

/-- The name of a mark in an error text. -/
def name : Mark → String
  | .opener => "open"
  | .closer => "close"
  | .delimiter => "delimiter"

/-- A choice of one text for each mark. -/
def choose (opener closer delimiter : Text) : Mark → Text
  | .opener => opener
  | .closer => closer
  | .delimiter => delimiter

end Mark

/-- The markers in use: a text for each mark, none empty and none inside another. -/
structure Markers where
  text : Mark → Text
  ne_nil : ∀ k, text k ≠ []
  apart : ∀ k l, k ≠ l → ¬ text k <:+: text l

/-- What can be wrong with a choice of markers. -/
inductive MarkerError where
  | empty (mark : Mark)
  | overlap (first second : Mark) (firstText secondText : Text)
  deriving DecidableEq, Repr

namespace MarkerError

/-- The pairs of different marks, in the order in which they are compared. -/
def pairs : List (Mark × Mark) :=
  [(.opener, .closer), (.opener, .delimiter), (.closer, .delimiter)]

theorem mem_pairs_or {k l : Mark} (h : k ≠ l) : (k, l) ∈ pairs ∨ (l, k) ∈ pairs := by
  cases k <;> cases l <;> simp_all [pairs]

/-- Whether one of two texts occurs in the other. -/
def overlapping (s t : Text) : Bool := s.occursIn t || t.occursIn s

/-- The first empty marker; failing that, the first two that overlap. -/
def fault? (text : Mark → Text) : Option MarkerError :=
  match Mark.all.find? fun k => (text k).isEmpty with
  | some k => some (.empty k)
  | none =>
    match pairs.find? fun p => overlapping (text p.1) (text p.2) with
    | some (k, l) => some (.overlap k l (text k) (text l))
    | none => none

theorem fault?_eq_none_iff {text : Mark → Text} :
    fault? text = none ↔ (∀ k, text k ≠ []) ∧ ∀ k l, k ≠ l → ¬ text k <:+: text l := by
  have hempty : (Mark.all.find? fun k => (text k).isEmpty) = none ↔ ∀ k, text k ≠ [] := by
    simp [List.find?_eq_none]
  have hpairs : (pairs.find? fun p => overlapping (text p.1) (text p.2)) = none ↔
      ∀ k l, k ≠ l → ¬ text k <:+: text l := by
    simp only [List.find?_eq_none, overlapping, Bool.or_eq_true, Text.occursIn_iff, not_or]
    constructor
    · intro h k l hkl
      rcases mem_pairs_or hkl with hp | hp
      · exact (h _ hp).1
      · exact (h _ hp).2
    · intro h p hp
      have hne : p.1 ≠ p.2 := by
        rcases p with ⟨k, l⟩
        cases k <;> cases l <;> simp_all [pairs]
      exact ⟨h _ _ hne, h _ _ hne.symm⟩
  rw [← hempty, ← hpairs]
  cases he : Mark.all.find? fun k => (text k).isEmpty with
  | some k => simp [fault?, he]
  | none =>
    cases hp : pairs.find? fun p => overlapping (text p.1) (text p.2) with
    | some p => simp [fault?, he, hp]
    | none => simp [fault?, he, hp]

/-- The text of a marker error. -/
def message : MarkerError → String
  | .empty k => s!"the {k.name} marker must not be empty"
  | .overlap k l s t =>
    let first := String.ofList s.quoted
    let second := String.ofList t.quoted
    s!"the {k.name} and {l.name} markers overlap ({first} / {second})"

end MarkerError

namespace Markers

/-- The markers with the chosen texts, if nothing is wrong with them. -/
def ofTexts (text : Mark → Text) : Except MarkerError Markers :=
  match h : MarkerError.fault? text with
  | some e => .error e
  | none => .ok
    { text := text
      ne_nil := (MarkerError.fault?_eq_none_iff.1 h).1
      apart := (MarkerError.fault?_eq_none_iff.1 h).2 }

/-- Parentheses around a group and a comma between alternatives. -/
def standard : Markers where
  text := Mark.choose ['('] [')'] [',']
  ne_nil := by intro k; cases k <;> simp [Mark.choose]
  apart := by
    intro k l h
    rw [← Text.occursIn_iff]
    cases k <;> cases l <;> first | exact absurd rfl h | decide

instance : Inhabited Markers := ⟨standard⟩

end Markers
end FieldSelection
