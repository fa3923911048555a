/-
# Expansions that come back

A limit on the length does not make every expansion end. There are only so many texts
within the limit, so that a run which stays within it and does not end comes to some
text twice, and then for ever (`expand_eq_unfinished_iff_recurs`). With markers of more
than one character this happens: a pass may put the very text together that it took
apart (`expand_knot`). Where passes read back it does not.

Key definition: `Recurs`.
Key theorem: `expand_eq_unfinished_iff_recurs`.
-/
import Mathlib.Data.Fintype.Pigeonhole
import Mathlib.Data.Set.Finite.List
import FieldSelection.Proofs.Load

namespace FieldSelection

open Expansion

variable {m : Markers}

/-! ### Finitely many texts within a limit -/

instance finite_char : Finite Char :=
  Finite.of_injective (fun c : Char => c.val.toFin) fun _ _ h =>
    Char.ext (UInt32.toFin_inj.1 h)

theorem length_le_byteLength (s : Text) : s.length ≤ s.byteLength := by
  induction s with
  | nil => simp
  | cons c s ih =>
    have := c.utf8Size_pos
    rw [List.length_cons, Text.byteLength_cons]
    omega

/-- Of infinitely many texts within a limit two are the same. -/
theorem exists_lt_of_byteLength_le {limit : Nat} {f : Nat → Text}
    (h : ∀ n, (f n).byteLength ≤ limit) : ∃ i j, i < j ∧ f i = f j := by
  have hfinite : {s : Text | s.length ≤ limit}.Finite := List.finite_length_le Char limit
  have hmem : ∀ n, f n ∈ {s : Text | s.length ≤ limit} := fun n =>
    Nat.le_trans (length_le_byteLength _) (h n)
  have : Finite {s : Text | s.length ≤ limit} := hfinite
  obtain ⟨i, j, hne, hij⟩ := Finite.exists_ne_map_eq_of_infinite
    fun n => (⟨f n, hmem n⟩ : {s : Text | s.length ≤ limit})
  have heq : f i = f j := congrArg Subtype.val hij
  rcases Nat.lt_or_gt_of_ne hne with h | h
  · exact ⟨i, j, h, heq⟩
  · exact ⟨j, i, h, heq.symm⟩

/-! ### Runs that come back -/

/-- The run from the source comes to the same working string twice, and the limit
covers every working string until then. -/
def Recurs (m : Markers) (limit : Option Nat) (s : Text) : Prop :=
  ∃ i j t, i < j ∧ after m i s = some t ∧ after m j s = some t ∧ Within m limit s j

theorem exists_after_of_le {s t : Text} {i j : Nat} (hij : i ≤ j) (h : after m j s = some t) :
    ∃ u, after m i s = some u := by
  obtain ⟨d, rfl⟩ := Nat.exists_eq_add_of_le hij
  rw [after_add] at h
  obtain ⟨u, hu, -⟩ := Option.bind_eq_some_iff.1 h
  exact ⟨u, hu⟩

/-- A run that has come back goes on as it did before. -/
theorem after_of_recurs {s t : Text} {i j : Nat} (hi : after m i s = some t)
    (hj : after m j s = some t) (d : Nat) : after m (j + d) s = after m (i + d) s := by
  rw [after_add, after_add, hi, hj]

theorem unfinished_of_recurs {limit : Option Nat} {s : Text} (h : Recurs m limit s) :
    expand m limit s = .unfinished := by
  obtain ⟨i, j, t, hij, hi, hj, hw⟩ := h
  suffices hrun : ∀ n, ∃ u, after m n s = some u ∧ (0 < n → Covers limit u) by
    rw [expand_eq_unfinished_iff]
    intro n
    obtain ⟨u, hu, -⟩ := hrun n
    refine ⟨⟨u, hu⟩, fun k v h0 _ hv => ?_⟩
    obtain ⟨w, hw, hc⟩ := hrun k
    rw [hv, Option.some.injEq] at hw
    exact hw ▸ hc h0
  intro n
  induction n using Nat.strongRecOn with
  | ind n ih =>
    rcases Nat.lt_or_ge j n with hn | hn
    · obtain ⟨d, rfl⟩ := Nat.exists_eq_add_of_lt hn
      obtain ⟨u, hu, hc⟩ := ih (i + (d + 1)) (by omega)
      exact ⟨u, by rw [Nat.add_assoc, after_of_recurs hi hj, hu], fun _ => hc (by omega)⟩
    · obtain ⟨u, hu⟩ := exists_after_of_le hn hj
      exact ⟨u, hu, fun h0 => hw n u h0 hn hu⟩

theorem recurs_of_unfinished {limit : Nat} {s : Text}
    (h : expand m (some limit) s = .unfinished) : Recurs m (some limit) s := by
  rw [expand_eq_unfinished_iff] at h
  have hrun : ∀ n, ∃ t, after m n s = some t ∧ Within m (some limit) s n := by
    intro n
    obtain ⟨⟨t, ht⟩, hw⟩ := h n
    exact ⟨t, ht, hw⟩
  choose f hf hw using hrun
  -- the source itself may be too long, so that the texts behind it are looked at
  have hle : ∀ n, (f (n + 1)).byteLength ≤ limit := fun n =>
    hw (n + 1) (n + 1) _ (by omega) (by omega) (hf (n + 1)) limit rfl
  obtain ⟨i, j, hij, he⟩ := exists_lt_of_byteLength_le hle
  exact ⟨i + 1, j + 1, f (i + 1), by omega, hf _, by rw [hf, he], hw _⟩

/-- **When an expansion under a limit does not end**: just when its run comes back to a
working string before the limit stops it. Where passes read back it does not. -/
theorem expand_eq_unfinished_iff_recurs (m : Markers) (limit : Nat) (s : Text) :
    (expand m (some limit) s = .unfinished ↔ Recurs m (some limit) s) ∧
      (Seamless m s → expand m (some limit) s ≠ .unfinished) := by
  refine ⟨⟨recurs_of_unfinished, unfinished_of_recurs⟩, fun h hu => ?_⟩
  obtain ⟨n, t, -, ht, hp⟩ := h.exists_end
  obtain ⟨⟨u, hu⟩, -⟩ := expand_eq_unfinished_iff.1 hu (n + 1)
  rw [after_of_end m ht hp (Nat.lt_succ_self n)] at hu
  cases hu

/-- Markers of which a text can begin and another end with the same characters. -/
def Markers.crossed : Markers :=
  .ofSound (show MarkerError.fault? (Mark.choose ['u', 'v'] ['x', 'y'] ['d']) = none by decide)

/-- The texts of this source cannot be mistaken, so that it ends under any limit. -/
theorem expand_apart :
    expand .crossed (some 0) ['u', 'v', 'a', 'd', 'b', 'x', 'y'] ≠ .unfinished :=
  (expand_eq_unfinished_iff_recurs .crossed 0 _).2 (seamless_of_blunt (by decide))

/-- A source that a pass takes apart into other tokens and puts together again. -/
def knot : Text := ['y', 'x', 'u', 'v', 'u', 'd', 'y', 'x', 'y', 'v', 'u']

/-- A pass over the knot gives the knot, so that no limit that covers it ends the run. -/
theorem expand_knot :
    pass .crossed knot = some knot ∧ expand .crossed (some 11) knot = .unfinished := by
  have hpass : pass .crossed knot = some knot := by decide
  refine ⟨hpass, unfinished_of_recurs ⟨0, 1, knot, by omega, rfl, ?_, fun k t h0 h1 ht => ?_⟩⟩
  · rw [after, hpass, Option.bind_some, after_zero]
  · obtain rfl : k = 1 := by omega
    rw [after, hpass, Option.bind_some, after_zero, Option.some.injEq] at ht
    subst ht
    rintro l ⟨⟩
    decide

end FieldSelection
