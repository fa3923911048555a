/-
# The markers are but names

A pass asks what the tokens of a source are and never how they are written. So a token list
may be written with one set of markers or with another: where no text has a character of
either set, the two writings stay writings of one list, pass after pass (`after_writeAll`),
and their expansions end in one list (`expand_with_any_markers`).

Spreading a group puts texts side by side, and a source does not show where one of them ends.
`joined` is the form of a list in which its tokens are read back: texts side by side are one
text, and no text is empty. It does not depend on the markers.

Key definitions: `Token.joined`, `Token.advanced`.
Key theorems: `Token.tokenize_joined`, `after_writeAll`, `expand_with_any_markers`.
-/
import FieldSelection.Proofs.Load

namespace FieldSelection

open Token Expansion

variable {m m' : Markers}

/-! ### Texts side by side -/

namespace Token

/-- The tokens with texts that stand side by side joined, and none of them empty. -/
def joined : List Token → List Token
  | [] => []
  | mark k :: ts => mark k :: joined ts
  | text s :: ts => s.foldr consChar (joined ts)

theorem flatMap_fine_foldr (s : Text) (ts : List Token) :
    (s.foldr consChar ts).flatMap fine = (text s).fine ++ ts.flatMap fine := by
  induction s with
  | nil => rfl
  | cons c s ih =>
    rw [List.foldr_cons, flatMap_fine_consChar, ih]
    rfl

/-- Joining changes no symbol. -/
theorem flatMap_fine_joined : ∀ ts : List Token, (joined ts).flatMap fine = ts.flatMap fine
  | [] => rfl
  | mark k :: ts => by rw [joined, List.flatMap_cons, List.flatMap_cons, flatMap_fine_joined ts]
  | text s :: ts => by
    rw [joined, flatMap_fine_foldr, flatMap_fine_joined ts, List.flatMap_cons]

theorem writeAll_joined (ts : List Token) : writeAll m (joined ts) = writeAll m ts := by
  rw [← writeAll_flatMap_fine, flatMap_fine_joined, writeAll_flatMap_fine]

theorem tight_joined : ∀ ts : List Token, Tight (joined ts)
  | [] => trivial
  | mark _ :: ts => tight_joined ts
  | text s :: ts => by
    have ih := tight_joined ts
    show Tight (s.foldr consChar (joined ts))
    induction s with
    | nil => exact ih
    | cons c s ihs => exact tight_consChar c ihs

theorem Clean.joined {ts : List Token} (h : Clean m ts) : Clean m (joined ts) := by
  rw [← clean_flatMap_fine_iff, flatMap_fine_joined]
  exact clean_flatMap_fine_iff.2 h

/-- **The tokens of what is written** are the tokens joined. -/
theorem tokenize_joined {ts : List Token} (h : Clean m ts) :
    tokenize m (writeAll m ts) = joined ts := by
  have hlegible : Legible m (joined ts) := legible_of_inert fun _ => inert_of_clean h.joined
  rw [← writeAll_joined]
  exact tokenize_writeAll (tight_joined ts) hlegible

/-! ### Passes on tokens -/

/-- The tokens after `n` passes, if there are as many. -/
def advanced : Nat → List Token → Option (List Token)
  | 0, ts => some ts
  | n + 1, ts => (advance? ts).bind (advanced n)

/-- A pass writes no text that was not there. -/
theorem Clean.advance {ts us : List Token} (h : Clean m ts) (ha : advance? ts = some us) :
    Clean m us := by
  unfold advance? at ha
  split at ha
  · obtain rfl := Option.some.inj ha
    intro s hs
    rcases mem_settle hs with hs | hs
    · exact h s hs
    · cases hs
  · cases ha

theorem Clean.advanced : ∀ {n : Nat} {ts us : List Token}, Clean m ts →
    advanced n ts = some us → Clean m us
  | 0, _, _, h, ha => Option.some.inj ha ▸ h
  | n + 1, _, _, h, ha => by
    obtain ⟨vs, hv, ha⟩ := Option.bind_eq_some_iff.1 ha
    exact (h.advance hv).advanced ha

theorem Clean.pass_eq {ts : List Token} (h : Clean m ts) :
    pass m (writeAll m ts) = (advance? ts).map (writeAll m) :=
  pass_writeAll (read_of_inert fun _ => inert_of_clean h)

end Token

/-- **A run on texts is a run on tokens**, written out. -/
theorem after_writeAll : ∀ (n : Nat) {ts : List Token}, Clean m ts →
    after m n (writeAll m ts) = (advanced n ts).map (writeAll m)
  | 0, _, _ => rfl
  | n + 1, ts, h => by
    rw [after, h.pass_eq, advanced]
    cases ha : advance? ts with
    | none => rfl
    | some us => exact after_writeAll n (h.advance ha)

theorem pass_writeAll_eq_none_iff {ts : List Token} (h : Clean m ts) :
    pass m (writeAll m ts) = none ↔ advance? ts = none := by
  rw [h.pass_eq, Option.map_eq_none_iff]

/-- The passes on tokens come to an end. -/
theorem exists_advanced {ts : List Token} (h : Clean m ts) :
    ∃ n us, advanced n ts = some us ∧ advance? us = none := by
  have hsymbols : symbols m (writeAll m ts) = ts.flatMap fine := by
    rw [← writeAll_flatMap_fine]
    exact symbols_writeAll (read_of_inert fun _ => inert_of_clean h)
  have hseamless := seamless_of_inert hsymbols fun _ => inert_of_clean h
  obtain ⟨n, t, -, hafter, hend⟩ := hseamless.exists_end
  rw [after_writeAll n h] at hafter
  obtain ⟨us, hus, rfl⟩ := Option.map_eq_some_iff.1 hafter
  exact ⟨n, us, hus, (pass_writeAll_eq_none_iff (h.advanced hus)).1 hend⟩

/-- The expansion of what is written ends in what the tokens joined at the end write. -/
theorem expand_writeAll_of_end {n : Nat} {ts us : List Token} (h : Clean m ts)
    (hus : advanced n ts = some us) (hend : advance? us = none) :
    expand m none (writeAll m ts) = .done (writeAll m (joined us)) := by
  have hafter : after m n (writeAll m ts) = some (writeAll m us) := by
    rw [after_writeAll n h, hus, Option.map_some]
  rw [writeAll_joined]
  exact expand_none_of_end hafter ((pass_writeAll_eq_none_iff (h.advanced hus)).2 hend)

/-- **Expansion depends on the markers only through the tokens.** Let no text have a character
of a marker, of the ones or of the others. The list written with the ones and with the others
expands to one list, written with the ones and with the others, which is the list of tokens of
both; and there is nothing to spread in the one writing just where there is nothing in the
other. -/
theorem expand_with_any_markers {ts : List Token} (h : Clean m ts) (h' : Clean m' ts) :
    (∃ us, expand m none (writeAll m ts) = .done (writeAll m us) ∧
        expand m' none (writeAll m' ts) = .done (writeAll m' us) ∧
        tokenize m (writeAll m us) = us ∧ tokenize m' (writeAll m' us) = us) ∧
      (pass m (writeAll m ts) = none ↔ pass m' (writeAll m' ts) = none) := by
  obtain ⟨n, us, hus, hend⟩ := exists_advanced h
  have hread : ∀ {m₀ : Markers}, Clean m₀ ts → tokenize m₀ (writeAll m₀ (joined us)) = joined us :=
    fun h₀ => by rw [writeAll_joined, tokenize_joined (h₀.advanced hus)]
  refine ⟨⟨joined us, ?_, ?_, hread h, hread h'⟩, ?_⟩
  · exact expand_writeAll_of_end h hus hend
  · exact expand_writeAll_of_end h' hus hend
  · rw [pass_writeAll_eq_none_iff h, pass_writeAll_eq_none_iff h']

/-- Markers each of which ends as another begins. -/
def Markers.woven : Markers :=
  .ofSound (show MarkerError.fault? (Mark.choose ['a', 'b'] ['b', 'c'] ['c', 'a']) = none by decide)

/-- A stray closer, a group with a delimiter at each end, and an opener that is never closed. -/
def ragged : List Token :=
  [.mark .closer, .mark .delimiter, .text ['x'], .mark .opener, .mark .delimiter, .text ['y'],
    .mark .delimiter, .mark .closer, .mark .opener, .text ['z'], .mark .closer, .mark .opener]

/-- The tokens are told apart where the markers run into one another as well. -/
theorem expand_with_any_markers_ragged :
    writeAll .standard ragged = [')', ',', 'x', '(', ',', 'y', ',', ')', '(', 'z', ')', '('] ∧
      writeAll .woven ragged = ['b', 'c', 'c', 'a', 'x', 'a', 'b', 'c', 'a', 'y', 'c', 'a', 'b',
        'c', 'a', 'b', 'z', 'b', 'c', 'a', 'b'] ∧
      (∃ us, expand .standard none (writeAll .standard ragged) = .done (writeAll .standard us) ∧
        expand .woven none (writeAll .woven ragged) = .done (writeAll .woven us) ∧
        tokenize .standard (writeAll .standard us) = us ∧
        tokenize .woven (writeAll .woven us) = us) ∧
      (pass .standard (writeAll .standard ragged) = none ↔
        pass .woven (writeAll .woven ragged) = none) :=
  ⟨rfl, rfl, expand_with_any_markers (by decide) (by decide)⟩

end FieldSelection
