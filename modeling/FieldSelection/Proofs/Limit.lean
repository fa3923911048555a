/-
# What a limit does

A limit says how long a working string may be. It is looked at after every pass, and the
first string past it ends the expansion (`expand_of_overruns`), even if a later one would be
short again: a group of one alternative loses its markers when it is spread. The source itself
has no limit, and where no pass makes a string past the limit the expansion does not know of it
(`expand_of_not_overruns`).

So a selector under a limit gives the paths that it would give without one, or it stops
(`Selector.paths_up_to_overrun`).

Key definitions: `Expansion.Overruns`, `Expansion.Raised`.
Key theorems: `expand_of_overruns`, `expand_of_not_overruns`, `Selector.paths_up_to_overrun`.
-/
import Mathlib.Order.Bounds.Defs
import Mathlib.Data.Nat.Find
import FieldSelection.Proofs.Run
import FieldSelection.Selection

namespace FieldSelection
namespace Expansion

variable {m : Markers} {limit limit' : Option Nat} {s : Text}

/-- The working string that pass `k` makes is past the limit. -/
def Overruns (m : Markers) (limit : Option Nat) (s : Text) (k : Nat) : Prop :=
  0 < k ∧ ∃ l t, limit = some l ∧ after m k s = some t ∧ l < t.byteLength

/-- The limit is raised or taken away. -/
def Raised (limit limit' : Option Nat) : Prop :=
  ∀ l', limit' = some l' → ∃ l, limit = some l ∧ l ≤ l'

/-- What is past a raised limit was past it before. -/
theorem Overruns.of_raised {k : Nat} (hr : Raised limit limit') (h : Overruns m limit' s k) :
    Overruns m limit s k := by
  obtain ⟨hk, l', t, hl', ht, hlt⟩ := h
  obtain ⟨l, hl, hle⟩ := hr l' hl'
  exact ⟨hk, l, t, hl, ht, by omega⟩

/-- A limit covers the strings of some passes if none of them makes one past it. -/
theorem within_iff_not_overruns {n : Nat} :
    Within m limit s n ↔ ∀ k, k ≤ n → ¬ Overruns m limit s k := by
  constructor
  · rintro hw k hk ⟨h0, l, t, hl, ht, hlt⟩
    have := hw k t h0 hk ht l hl
    omega
  · intro h k t h0 hk ht l hl
    by_contra hlt
    exact h k hk ⟨h0, l, t, hl, ht, by omega⟩

end Expansion

open Expansion

variable {m : Markers} {limit limit' : Option Nat} {s : Text}

/-- **The first working string past the limit ends the expansion.** -/
theorem expand_of_overruns (h : ∃ k, Overruns m limit s k) :
    ∃ k l t, IsLeast {k | Overruns m limit s k} k ∧ limit = some l ∧ after m k s = some t ∧
      expand m limit s = .exceeded ⟨l, t.byteLength, k⟩ := by
  classical
  obtain ⟨hk, l, t, hl, ht, hlt⟩ := Nat.find_spec h
  have hleast : IsLeast {k | Overruns m limit s k} (Nat.find h) :=
    ⟨Nat.find_spec h, fun k hk => Nat.find_min' h hk⟩
  generalize Nat.find h = k at hk ht hleast
  obtain ⟨n, rfl⟩ : ∃ n, k = n + 1 := ⟨k - 1, by omega⟩
  have hwithin : Within m limit s n := within_iff_not_overruns.2 fun j hj hover => by
    have := hleast.2 hover
    omega
  exact ⟨n + 1, l, t, hleast, hl, ht, expand_eq_exceeded_iff.2 ⟨n, t, l, ht, hwithin, hl, hlt, rfl⟩⟩

/-- **A limit that no working string is past** is as good as none. -/
theorem expand_of_not_overruns (h : ∀ k, ¬ Overruns m limit s k) :
    expand m limit s = expand m none s := by
  have hwithin : ∀ n, Within m limit s n := fun n => within_iff_not_overruns.2 fun k _ => h k
  cases hnone : expand m none s with
  | done t =>
    obtain ⟨n, ht, hp, -⟩ := expand_eq_done_iff.1 hnone
    exact expand_eq_done_iff.2 ⟨n, ht, hp, hwithin n⟩
  | exceeded e =>
    obtain ⟨_, _, l, -, -, hl, -⟩ := expand_eq_exceeded_iff.1 hnone
    cases hl
  | unfinished =>
    have hrun := expand_eq_unfinished_iff.1 hnone
    exact expand_eq_unfinished_iff.2 fun n => ⟨(hrun n).1, hwithin n⟩

/-- An expansion that is done under a limit is done so under a raised one. -/
theorem expand_of_raised {t : Text} (hr : Raised limit limit') (h : expand m limit s = .done t) :
    expand m limit' s = .done t := by
  obtain ⟨n, ht, hp, hw⟩ := expand_eq_done_iff.1 h
  refine expand_eq_done_iff.2 ⟨n, ht, hp, within_iff_not_overruns.2 fun k hk hover => ?_⟩
  exact within_iff_not_overruns.1 hw k hk (hover.of_raised hr)

/-! ### Selectors -/

namespace Selector

variable (r : Selector)

theorem paths_of_overruns (hs : s ≠ []) (h : ∃ k, Overruns r.markers r.limit s k) :
    ∃ k l t, IsLeast {k | Overruns r.markers r.limit s k} k ∧ r.limit = some l ∧
      after r.markers k s = some t ∧ r.paths (some s) = .exceeded ⟨l, t.byteLength, k⟩ := by
  obtain ⟨k, l, t, hleast, hl, ht, hexpand⟩ := expand_of_overruns h
  exact ⟨k, l, t, hleast, hl, ht, by rw [r.paths_of_ne_nil hs, hexpand]; rfl⟩

theorem paths_of_not_overruns (hs : s ≠ []) (h : ∀ k, ¬ Overruns r.markers r.limit s k) :
    r.paths (some s) = FieldSelection.paths r.markers r.default (some s) := by
  rw [r.paths_of_ne_nil hs, FieldSelection.paths_of_ne_nil _ _ hs, expand_of_not_overruns h]

/-- Passes that end within the limit give paths. -/
theorem paths_of_within (hs : s ≠ []) {n : Nat} {t : Text} (ht : after r.markers n s = some t)
    (hp : pass r.markers t = none) (hw : Within r.markers r.limit s n) :
    r.paths (some s) = .done (splitPaths r.markers t) := by
  rw [r.paths_of_ne_nil hs, expand_eq_done_iff.2 ⟨n, ht, hp, hw⟩]
  rfl

/-- Paths that are given under a limit are given under a raised one. -/
theorem paths_of_raised {limit' : Option Nat} (hr : Raised r.limit limit') {raw : Option Text}
    {ps : List Text} (h : r.paths raw = .done ps) :
    (Selector.mk r.markers r.default limit').paths raw = .done ps := by
  match raw, h with
  | none, h => exact h
  | some [], h => exact h
  | some (c :: s), h =>
    obtain ⟨t, ht, hps⟩ := Outcome.map_eq_done_iff.1 h
    exact Outcome.map_eq_done_iff.2 ⟨t, expand_of_raised hr ht, hps⟩

/-- **A selector under a limit gives the paths that it gives without one, up to the first
working string past the limit.** An absent or empty selection is not measured, and neither is a
source. Where a pass makes a string past the limit, the error names the first that does, and the
length of its string; where none does, the answer is that without a limit, and there is
one if the passes end. Raising the limit loses no answer and changes none. -/
theorem paths_up_to_overrun :
    (r.paths none = .done r.default ∧ r.paths (some []) = .done r.default) ∧
      (∀ s ≠ [],
        ((∃ k, Overruns r.markers r.limit s k) →
          ∃ k l t, IsLeast {k | Overruns r.markers r.limit s k} k ∧ r.limit = some l ∧
            after r.markers k s = some t ∧ r.paths (some s) = .exceeded ⟨l, t.byteLength, k⟩) ∧
        ((∀ k, ¬ Overruns r.markers r.limit s k) →
          r.paths (some s) = FieldSelection.paths r.markers r.default (some s) ∧
          ∀ n t, after r.markers n s = some t → pass r.markers t = none →
            r.paths (some s) = .done (splitPaths r.markers t)) ∧
        (scan r.markers s = [] → r.paths (some s) = .done (splitPaths r.markers s))) ∧
      ∀ limit', Raised r.limit limit' → ∀ raw ps, r.paths raw = .done ps →
        (Selector.mk r.markers r.default limit').paths raw = .done ps := by
  refine ⟨⟨rfl, rfl⟩, fun s hs => ⟨r.paths_of_overruns hs, fun hnone => ?_, fun hscan => ?_⟩,
    fun limit' hr raw ps => r.paths_of_raised hr⟩
  · refine ⟨r.paths_of_not_overruns hs hnone, fun n t ht hp => r.paths_of_within hs ht hp ?_⟩
    exact within_iff_not_overruns.2 fun k _ => hnone k
  · exact r.paths_of_within hs (after_zero _ s) (scan_eq_nil_iff.1 hscan) (within_zero _ _ s)

/-- Two groups. The first pass makes the text longer, and the second makes it short. -/
def swelling : Text := ['(', 'a', ',', 'b', ')', '(', 'c', 'd', ')']

/-- Its passes make strings of 11 and then 7 bytes. A limit of 10 stops the first of them, one
of 11 stops none, and so does no limit. A limit of 0 lets a source without a group through. -/
theorem paths_up_to_overrun_swelling :
    (Selector.mk .standard [] (some 10)).paths (some swelling) = .exceeded ⟨10, 11, 1⟩ ∧
      (Selector.mk .standard [] (some 11)).paths (some swelling) =
        .done [['a', 'c', 'd'], ['b', 'c', 'd']] ∧
      (Selector.mk .standard [] none).paths (some swelling) =
        .done [['a', 'c', 'd'], ['b', 'c', 'd']] ∧
      (Selector.mk .standard [] (some 0)).paths (some ['a']) = .done [['a']] := by
  obtain ⟨-, htight, -⟩ := paths_up_to_overrun ⟨.standard, [], some 10⟩
  obtain ⟨-, hwide, hraise⟩ := paths_up_to_overrun ⟨.standard, [], some 11⟩
  obtain ⟨-, hzero, -⟩ := paths_up_to_overrun ⟨.standard, [], some 0⟩
  have hlast : after .standard 2 swelling = some ['a', 'c', 'd', ',', 'b', 'c', 'd'] := by decide
  have hfirst : Overruns .standard (some 10) swelling 1 :=
    ⟨by decide, 10, ['a', '(', 'c', 'd', ')', ',', 'b', '(', 'c', 'd', ')'], rfl,
      by decide, by decide⟩
  have hnone : ∀ k, ¬ Overruns .standard (some 11) swelling k := by
    rintro k ⟨hk, l, t, hl, ht, hlt⟩
    cases hl
    by_cases hle : k ≤ 2
    · obtain rfl | rfl : k = 1 ∨ k = 2 := by omega
      · cases ht
        exact absurd hlt (by decide)
      · cases ht
        exact absurd hlt (by decide)
    · rw [after_of_end _ hlast (by decide) (by omega)] at ht
      cases ht
  have hdone : (Selector.mk .standard [] (some 11)).paths (some swelling) =
      .done [['a', 'c', 'd'], ['b', 'c', 'd']] :=
    ((hwide swelling (by decide)).2.1 hnone).2 2 _ hlast (by decide)
  have hfree := (hzero ['a'] (by decide)).2.2 (by decide)
  refine ⟨?_, hdone, hraise none (by simp [Raised]) _ _ hdone, hfree⟩
  obtain ⟨k, l, t, hleast, hl, ht, hpaths⟩ := (htight swelling (by decide)).1 ⟨1, hfirst⟩
  obtain rfl : k = 1 := Nat.le_antisymm (hleast.2 hfirst) hleast.1.1
  cases hl
  cases ht
  exact hpaths

end Selector
end FieldSelection
