/-
# Well-formed selections

A selection is one or more segments, a segment any number of texts and groups, and a
group a selection between an opener and a closer. What a selection means is said on
its tree alone. Written out, and with no text that has a character of a marker, it is
read back as the tokens it was written from, so its paths are its meaning, in order
(`paths_eq_meaning`).

The token lists of selections are the balanced ones (`exists_selection`): no balanced
source is left out where each marker is one character.

Key definitions: `Selection`, `Selection.meaning`, `Selection.write`.
Key theorems: `Selection.meaning_tokens`, `exists_selection`, `paths_eq_meaning`.
-/
import FieldSelection.Proofs.Meaning

namespace FieldSelection

open Token
open Text (combine)

mutual

/-- Segments, one or more. -/
inductive Selection where
  | one (seg : Segment)
  | more (seg : Segment) (rest : Selection)

/-- Texts and groups, in any order and number. -/
inductive Segment where
  | nil
  | text (s : Text) (rest : Segment)
  | group (content : Selection) (rest : Segment)

end

mutual

/-- The texts of the segments, one segment after the other. -/
def Selection.meaning : Selection → List Text
  | .one seg => seg.meaning
  | .more seg rest => seg.meaning ++ rest.meaning

/-- The texts that come of one choice in each group, the leftmost varying slowest. -/
def Segment.meaning : Segment → List Text
  | .nil => [[]]
  | .text s rest => combine [s] rest.meaning
  | .group content rest => combine content.meaning rest.meaning

end

mutual

/-- The tokens of a selection. -/
def Selection.tokens : Selection → List Token
  | .one seg => seg.tokens
  | .more seg rest => seg.tokens ++ mark .delimiter :: rest.tokens

/-- The tokens of a segment. -/
def Segment.tokens : Segment → List Token
  | .nil => []
  | .text s rest => Token.text s :: rest.tokens
  | .group content rest => mark .opener :: (content.tokens ++ mark .closer :: rest.tokens)

end

namespace Selection

variable (m : Markers)

/-- A selection written out with the markers. -/
def write (sel : Selection) : Text := writeAll m sel.tokens

/-- No text of the selection has a character that occurs in a marker. -/
def Clean (sel : Selection) : Prop := Token.Clean m sel.tokens

instance (sel : Selection) : Decidable (sel.Clean m) :=
  inferInstanceAs (Decidable (Token.Clean _ _))

end Selection

/-! ### The tree and its tokens mean the same -/

mutual

theorem Selection.exists_frame : ∀ (sel : Selection) (S : List Text),
    ∃ f : Frame, f.all = S ++ sel.meaning ∧ ∀ (outer : List Frame) (ts : List Token),
      meaningFrom ⟨S, [[]]⟩ outer (sel.tokens ++ ts) = meaningFrom f outer ts
  | .one seg, S => by
    refine ⟨⟨S, seg.meaning⟩, by rw [Frame.all, Selection.meaning], fun outer ts => ?_⟩
    rw [Selection.tokens, seg.meaningFrom_tokens]
    simp only [Frame.extend, Text.one_combine]
  | .more seg rest, S => by
    obtain ⟨f, hf, hrun⟩ := rest.exists_frame (S ++ seg.meaning)
    refine ⟨f, by rw [hf, Selection.meaning, List.append_assoc], fun outer ts => ?_⟩
    rw [Selection.tokens, List.append_assoc, seg.meaningFrom_tokens, List.cons_append, meaningFrom]
    simp only [Frame.extend, Text.one_combine, Frame.close, Frame.all]
    exact hrun outer ts

theorem Segment.meaningFrom_tokens : ∀ (seg : Segment) (f : Frame) (outer : List Frame)
    (ts : List Token), meaningFrom f outer (seg.tokens ++ ts) =
      meaningFrom (f.extend seg.meaning) outer ts
  | .nil, f, outer, ts => by
    rw [Segment.tokens, Segment.meaning, Frame.extend_one, List.nil_append]
  | .text s rest, f, outer, ts => by
    rw [Segment.tokens, List.cons_append, meaningFrom, rest.meaningFrom_tokens,
      Frame.extend_extend, Segment.meaning]
  | .group content rest, f, outer, ts => by
    obtain ⟨g, hg, hrun⟩ := content.exists_frame []
    rw [Segment.tokens, List.cons_append, List.append_assoc, List.cons_append, meaningFrom,
      Frame.start, hrun, meaningFrom, hg, List.nil_append, rest.meaningFrom_tokens,
      Frame.extend_extend, Segment.meaning]

end

/-- The tokens of a selection mean what the selection means. -/
theorem Selection.meaning_tokens (sel : Selection) :
    FieldSelection.meaning sel.tokens = some sel.meaning := by
  obtain ⟨f, hf, hrun⟩ := sel.exists_frame []
  have h := hrun [] []
  rw [List.append_nil] at h
  rw [FieldSelection.meaning, Frame.start, h, meaningFrom, hf, List.nil_append]

/-! ### Every balanced list is a selection -/

namespace Selection

/-- A selection with its first segment changed. -/
def change (f : Segment → Segment) : Selection → Selection
  | one seg => one (f seg)
  | more seg rest => more (f seg) rest

theorem tokens_change {f : Segment → Segment} {x : List Token}
    (h : ∀ seg : Segment, (f seg).tokens = x ++ seg.tokens) :
    ∀ sel : Selection, (sel.change f).tokens = x ++ sel.tokens
  | one seg => by rw [change, tokens, h, tokens]
  | more seg rest => by rw [change, tokens, h, tokens, List.append_assoc]

end Selection

/-- Tokens behind which `depth` groups are still to be closed are a selection, and as
many more, each behind a closer. -/
theorem exists_selections : ∀ (ts : List Token) {depth : Nat}, balanced depth ts = true →
    ∃ (sel : Selection) (sels : List Selection), sels.length = depth ∧
      ts = sel.tokens ++ sels.flatMap fun e => mark .closer :: e.tokens
  | [], depth, h => by
    refine ⟨.one .nil, [], ?_, rfl⟩
    rw [balanced, beq_iff_eq] at h
    exact h.symm
  | .text s :: ts, depth, h => by
    obtain ⟨sel, sels, hlen, rfl⟩ := exists_selections ts (by rwa [balanced] at h)
    refine ⟨sel.change (.text s), sels, hlen, ?_⟩
    rw [Selection.tokens_change (x := [.text s]) fun seg => rfl]
    rfl
  | .mark .delimiter :: ts, depth, h => by
    obtain ⟨sel, sels, hlen, rfl⟩ := exists_selections ts (by rwa [balanced] at h)
    exact ⟨.more .nil sel, sels, hlen, rfl⟩
  | .mark .closer :: ts, depth + 1, h => by
    obtain ⟨sel, sels, hlen, rfl⟩ := exists_selections ts (by rwa [balanced] at h)
    exact ⟨.one .nil, sel :: sels, by rw [List.length_cons, hlen], rfl⟩
  | .mark .opener :: ts, depth, h => by
    obtain ⟨sel, sels, hlen, hts⟩ := exists_selections ts (by rwa [balanced] at h)
    cases sels with
    | nil => cases hlen
    | cons e sels =>
      refine ⟨e.change (.group sel), sels, by simpa using hlen, ?_⟩
      rw [Selection.tokens_change (x := mark .opener :: (sel.tokens ++ [mark .closer]))
        fun seg => by simp [Segment.tokens], hts]
      simp

/-- **Every balanced token list is that of a selection.** -/
theorem exists_selection {ts : List Token} (h : balanced 0 ts = true) :
    ∃ sel : Selection, sel.tokens = ts := by
  obtain ⟨sel, sels, hlen, rfl⟩ := exists_selections ts h
  obtain rfl := List.eq_nil_of_length_eq_zero hlen
  exact ⟨sel, by simp⟩

/-! ### From a selection to its paths -/

open Expansion

/-- A selection whose text has no character of a marker is read back. -/
theorem symbols_write {m : Markers} {sel : Selection} (h : sel.Clean m) :
    symbols m (sel.write m) = sel.tokens.flatMap fine := by
  have hread : Read m (sel.tokens.flatMap fine) := read_of_inert fun _ => inert_of_clean h
  rw [← symbols_writeAll hread, writeAll_flatMap_fine, Selection.write]

/-- **The paths of a selection are its meaning**, in order: for a selection of any
shape whose text has no character of a marker, the expansion ends, leaves no opener and
no closer, and its pieces are the meaning. With markers of one character each these are
all the sources whose openers and closers balance. -/
theorem paths_eq_meaning (m : Markers) (default : List Text) :
    (∀ sel : Selection, sel.Clean m → sel.write m ≠ [] →
      ∃ n t, after m n (sel.write m) = some t ∧ pass m t = none ∧
        expand m none (sel.write m) = .done t ∧ (∀ u ∈ tokenize m t, u.isBracket = false) ∧
        paths m default (some (sel.write m)) = .done sel.meaning) ∧
    ((∀ k, (m.text k).length = 1) → ∀ s, balanced 0 (tokenize m s) = true →
      ∃ sel : Selection, sel.Clean m ∧ sel.write m = s) := by
  constructor
  · intro sel hclean hne
    have hsymbols := symbols_write hclean
    have hseamless := seamless_of_inert hsymbols fun _ => inert_of_clean hclean
    have hmeaning : meaning (tokenize m (sel.write m)) = some sel.meaning := by
      rw [← meaning_symbols, hsymbols, meaning, meaningFrom_fine, ← meaning, sel.meaning_tokens]
    obtain ⟨n, t, ht, hp, hexpand, hfree, hpaths⟩ := hseamless.ends_in_meaning hmeaning
    exact ⟨n, t, ht, hp, hexpand, hfree, hpaths hne default⟩
  · intro hm s hbal
    obtain ⟨sel, hsel⟩ := exists_selection hbal
    refine ⟨sel, ?_, ?_⟩
    · rw [Selection.Clean, hsel]
      exact clean_tokenize_of_length hm s
    · rw [Selection.write, hsel, writeAll_tokenize]

/-- Doubled angle brackets around a group, and doubled bars between alternatives. -/
def Markers.angled : Markers :=
  .ofSound (show MarkerError.fault? (Mark.choose ['<', '<'] ['>', '>'] ['|', '|']) = none by decide)

/-- The selection of `a`, or of `b` or `c` before `d`, with `e` behind it. -/
def nested : Selection :=
  .one (.group (.more (.text ['a'] .nil)
    (.one (.group (.more (.text ['b'] .nil) (.one (.text ['c'] .nil))) (.text ['d'] .nil))))
    (.text ['e'] .nil))

theorem paths_nested : nested.write .angled = ['<', '<', 'a', '|', '|', '<', '<', 'b', '|', '|',
      'c', '>', '>', 'd', '>', '>', 'e'] ∧
    paths .angled [] (some (nested.write .angled)) =
      .done [['a', 'e'], ['b', 'd', 'e'], ['c', 'd', 'e']] := by
  refine ⟨by decide, ?_⟩
  obtain ⟨n, t, -, -, -, -, h⟩ := (paths_eq_meaning .angled []).1 nested (by decide) (by decide)
  exact h

end FieldSelection
