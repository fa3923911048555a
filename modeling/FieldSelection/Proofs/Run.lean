/-
# The run of an expansion

`Expansion.after m n s` is the working string after `n` passes from `s`. An
expansion under a limit ends in one of two ways, or not at all: after some number
of passes no group is left (`expand_eq_done_iff`), or a pass makes the first
working string past the limit (`expand_eq_exceeded_iff`); else there is a working
string after every number of passes and the limit covers them all
(`expand_eq_unfinished_iff`).

Key definitions: `Expansion.after`, `Expansion.Within`.
Key theorems: `expand_eq_done_iff`, `expand_eq_exceeded_iff`,
`expand_eq_unfinished_iff`.
-/
import FieldSelection.Expansion

namespace FieldSelection

/-- A scan reports nothing just where a pass finds nothing. -/
theorem scan_eq_nil_iff {m : Markers} {s : Text} : scan m s = [] ↔ pass m s = none := by
  have hlocated : ∀ (ps : List Piece) (start : Nat),
      Piece.locatedGroups m start ps = [] ↔ ps.any (·.group?.isSome) = false := by
    intro ps
    induction ps with
    | nil => simp [Piece.locatedGroups]
    | cons p ps ih => cases p <;> simp [Piece.locatedGroups, Piece.group?, ih]
  rw [scan, hlocated, pass]
  cases (pieces (tokenize m s)).any (·.group?.isSome) <;> simp

namespace Expansion

variable (m : Markers) (limit : Option Nat)

/-- The working string after `n` passes from `s`, if there are as many. -/
def after : Nat → Text → Option Text
  | 0, s => some s
  | n + 1, s => (pass m s).bind (after n)

theorem after_zero (s : Text) : after m 0 s = some s := rfl

theorem after_succ_of_pass {s t : Text} (h : pass m s = some t) (n : Nat) :
    after m (n + 1) s = after m n t := by
  simp [after, h]

theorem after_add : ∀ (i j : Nat) (s : Text),
    after m (i + j) s = (after m i s).bind (after m j)
  | 0, j, s => by simp [after]
  | i + 1, j, s => by
    rw [Nat.add_right_comm, after, after, Option.bind_assoc]
    exact congrArg _ (funext fun t => after_add i j t)

/-- One pass more, at the end of the run. -/
theorem after_succ (n : Nat) (s : Text) : after m (n + 1) s = (after m n s).bind (pass m) := by
  rw [after_add]
  congr 1
  funext t
  cases h : pass m t with
  | none => simp [after, h]
  | some u => simp [after, h]

/-- A run does not go past its end. -/
theorem after_of_end {n : Nat} {s t : Text} (ht : after m n s = some t) (hp : pass m t = none)
    {k : Nat} (hk : n < k) : after m k s = none := by
  obtain ⟨d, rfl⟩ : ∃ d, k = n + (d + 1) := ⟨k - n - 1, by omega⟩
  rw [after_add, ht, Option.bind_some, after, hp, Option.bind_none]

/-- The limit, if there is one, covers the text. -/
def Covers (t : Text) : Prop := ∀ l, limit = some l → t.byteLength ≤ l

theorem overrun?_eq_none_iff {n : Nat} {t : Text} : overrun? limit n t = none ↔ Covers limit t := by
  cases limit with
  | none => simp [overrun?, Covers]
  | some l => simp [overrun?, Covers]

theorem overrun?_eq_some_iff {n : Nat} {t : Text} {e : LimitError} :
    overrun? limit n t = some e ↔
      ∃ l, limit = some l ∧ l < t.byteLength ∧ e = ⟨l, t.byteLength, n⟩ := by
  cases limit with
  | none => simp [overrun?]
  | some l => simp [overrun?, eq_comm]

/-- The limit covers the working strings of the passes `1` to `n`. -/
def Within (s : Text) (n : Nat) : Prop :=
  ∀ k t, 0 < k → k ≤ n → after m k s = some t → Covers limit t

theorem within_zero (s : Text) : Within m limit s 0 := fun k _ h0 h1 => by omega

theorem within_succ_of_pass {s t : Text} (h : pass m s = some t) (n : Nat) :
    Within m limit s (n + 1) ↔ Covers limit t ∧ Within m limit t n := by
  constructor
  · intro hw
    refine ⟨hw 1 t (by omega) (by omega) (by simp [after, h]), fun k u h0 h1 hu => ?_⟩
    exact hw (k + 1) u (by omega) (by omega) (by rw [after_succ_of_pass m h, hu])
  · rintro ⟨hc, hw⟩ k u h0 h1 hu
    obtain ⟨k, rfl⟩ : ∃ j, k = j + 1 := ⟨k - 1, by omega⟩
    rw [after_succ_of_pass m h] at hu
    rcases Nat.eq_zero_or_pos k with rfl | hk
    · cases hu
      exact hc
    · exact hw k u hk (by omega) hu

/-- How passes from `s` stop, the first of them having number `n + 1`. -/
def Stop (n : Nat) (s : Text) : Except LimitError Text → Prop
  | .ok t => ∃ k, after m k s = some t ∧ pass m t = none ∧ Within m limit s k
  | .error e => ∃ k t l, after m (k + 1) s = some t ∧ Within m limit s k ∧ limit = some l ∧
      l < t.byteLength ∧ e = ⟨l, t.byteLength, n + (k + 1)⟩

/-- Passes that stop later stop all the same. -/
theorem Stop.later {n : Nat} {s t : Text} {r : Except LimitError Text} (h : pass m s = some t)
    (hc : Covers limit t) (hr : Stop m limit (n + 1) t r) : Stop m limit n s r := by
  cases r with
  | ok u =>
    obtain ⟨k, hk, hp, hw⟩ := hr
    exact ⟨k + 1, by rw [after_succ_of_pass m h, hk], hp,
      (within_succ_of_pass m limit h k).2 ⟨hc, hw⟩⟩
  | error e =>
    obtain ⟨k, u, l, hk, hw, hl, hlt, he⟩ := hr
    refine ⟨k + 1, u, l, by rw [after_succ_of_pass m h, hk],
      (within_succ_of_pass m limit h k).2 ⟨hc, hw⟩, hl, hlt, ?_⟩
    rw [he, Nat.add_right_comm n 1, Nat.add_assoc n]

theorem stop_of_passes : ∀ (n : Nat) (s : Text) (r : Except LimitError Text),
    m.passes limit n s = some r → Stop m limit n s r := by
  refine Markers.passes.partial_correctness m limit _ fun f ih n s r hr => ?_
  cases hp : pass m s with
  | none =>
    simp only [hp, Option.some.injEq] at hr
    subst hr
    exact ⟨0, rfl, hp, within_zero m limit s⟩
  | some t =>
    simp only [hp] at hr
    cases ho : overrun? limit (n + 1) t with
    | none =>
      simp only [ho] at hr
      exact Stop.later m limit hp ((overrun?_eq_none_iff limit).1 ho) (ih _ _ _ hr)
    | some e =>
      simp only [ho, Option.some.injEq] at hr
      subst hr
      obtain ⟨l, hl, hlt, rfl⟩ := (overrun?_eq_some_iff limit).1 ho
      exact ⟨0, t, l, by simp [after, hp], within_zero m limit s, hl, hlt, rfl⟩

/-- A pass within the limit is the same as its working string's passes. -/
theorem passes_of_covers {n : Nat} {s t : Text} (h : pass m s = some t) (hc : Covers limit t) :
    m.passes limit n s = m.passes limit (n + 1) t := by
  rw [Markers.passes]
  simp only [h, (overrun?_eq_none_iff limit (n := n + 1)).2 hc]

theorem passes_of_stop : ∀ (k n : Nat) (s t : Text), after m k s = some t →
    Within m limit s k → m.passes limit n s = m.passes limit (n + k) t
  | 0, _, _, _, h, _ => by cases h; rfl
  | k + 1, n, s, t, h, hw => by
    cases hp : pass m s with
    | none => simp [after, hp] at h
    | some u =>
      rw [after_succ_of_pass m hp] at h
      obtain ⟨hc, hw'⟩ := (within_succ_of_pass m limit hp k).1 hw
      rw [passes_of_covers m limit hp hc, passes_of_stop k (n + 1) u t h hw',
        Nat.add_right_comm, Nat.add_assoc]

theorem passes_eq_some_iff {n : Nat} {s : Text} {r : Except LimitError Text} :
    m.passes limit n s = some r ↔ Stop m limit n s r := by
  refine ⟨stop_of_passes m limit n s r, fun hr => ?_⟩
  cases r with
  | ok t =>
    obtain ⟨k, hk, hp, hw⟩ := hr
    rw [passes_of_stop m limit k n s t hk hw, Markers.passes, hp]
  | error e =>
    obtain ⟨k, t, l, hk, hw, hl, hlt, rfl⟩ := hr
    rw [after_succ] at hk
    obtain ⟨u, hu, hp⟩ := Option.bind_eq_some_iff.1 hk
    rw [passes_of_stop m limit k n s u hu hw, Markers.passes, hp]
    simp only [(overrun?_eq_some_iff limit).2 ⟨l, hl, hlt, rfl⟩, Nat.add_assoc]

/-- Passes without an end have a working string after every number of passes. -/
theorem passes_eq_none_iff {n : Nat} {s : Text} :
    m.passes limit n s = none ↔ ∀ k, (∃ t, after m k s = some t) ∧ Within m limit s k := by
  constructor
  · intro h k
    induction k generalizing n s with
    | zero => exact ⟨⟨s, rfl⟩, within_zero m limit s⟩
    | succ k ih =>
      cases hp : pass m s with
      | none => rw [Markers.passes, hp] at h; cases h
      | some t =>
        have hc : Covers limit t := by
          rw [← overrun?_eq_none_iff limit (n := n + 1)]
          cases ho : overrun? limit (n + 1) t with
          | none => rfl
          | some e => rw [Markers.passes, hp] at h; simp [ho] at h
        rw [passes_of_covers m limit hp hc] at h
        obtain ⟨ht, hw⟩ := ih h
        exact ⟨by rwa [after_succ_of_pass m hp], (within_succ_of_pass m limit hp k).2 ⟨hc, hw⟩⟩
  · intro h
    cases hr : m.passes limit n s with
    | none => rfl
    | some r =>
      exfalso
      have hs := stop_of_passes m limit n s r hr
      cases r with
      | ok t =>
        obtain ⟨k, hk, hp, -⟩ := hs
        obtain ⟨⟨u, hu⟩, -⟩ := h (k + 1)
        rw [after_of_end m hk hp (Nat.lt_succ_self k)] at hu
        cases hu
      | error e =>
        obtain ⟨k, t, l, hk, -, hl, hlt, -⟩ := hs
        have := (h (k + 1)).2 (k + 1) t (by omega) (by omega) hk l hl
        omega

end Expansion

open Expansion

variable {m : Markers} {limit : Option Nat}

/-- **An expansion that ends.** It is done with `t` if `t` is the working string
after some number of passes, nothing is left to spread in it, and the limit covers
every working string on the way. -/
theorem expand_eq_done_iff {s t : Text} : expand m limit s = .done t ↔
    ∃ n, after m n s = some t ∧ pass m t = none ∧ Within m limit s n := by
  have hs : Stop m limit 0 s (.ok t) ↔
      ∃ n, after m n s = some t ∧ pass m t = none ∧ Within m limit s n := Iff.rfl
  rw [expand, ← hs, ← passes_eq_some_iff]
  cases m.passes limit 0 s with
  | none => simp [Outcome.ofEnd]
  | some r => cases r <;> simp [Outcome.ofEnd]

/-- **An expansion that a limit stops.** The error names the limit, the first working
string past it by its length, and the pass that made it. -/
theorem expand_eq_exceeded_iff {s : Text} {e : LimitError} : expand m limit s = .exceeded e ↔
    ∃ n t l, after m (n + 1) s = some t ∧ Within m limit s n ∧ limit = some l ∧
      l < t.byteLength ∧ e = ⟨l, t.byteLength, n + 1⟩ := by
  have hs : Stop m limit 0 s (.error e) ↔ ∃ n t l, after m (n + 1) s = some t ∧
      Within m limit s n ∧ limit = some l ∧ l < t.byteLength ∧ e = ⟨l, t.byteLength, n + 1⟩ := by
    simp [Stop]
  rw [expand, ← hs, ← passes_eq_some_iff]
  cases m.passes limit 0 s with
  | none => simp [Outcome.ofEnd]
  | some r => cases r <;> simp [Outcome.ofEnd]

/-- **An expansion without an end.** There is a working string after every number of
passes, and the limit covers them all. -/
theorem expand_eq_unfinished_iff {s : Text} : expand m limit s = .unfinished ↔
    ∀ n, (∃ t, after m n s = some t) ∧ Within m limit s n := by
  rw [expand, ← passes_eq_none_iff (n := 0)]
  cases m.passes limit 0 s with
  | none => simp [Outcome.ofEnd]
  | some r => cases r <;> simp [Outcome.ofEnd]

end FieldSelection
