/-
# The last cut

When no group is left, a text is cut at its delimiters once more, and the pieces are the paths.
The cut looks for the delimiter alone, from the front, where the tokens of the text are found by
looking for all three markers. So it may find a delimiter that begins in an opener or a closer
which is left over and ends behind it, and cut that marker in two. It does not just where the
tokens of the text are `Divided`: then the paths are the sections of the text
(`cutsAtSections_iff_divided`).

Markers never lead to such a cut if and only if no opener or closer ends as the delimiter begins
(`splitPaths_eq_sections_iff`). One that does, with the rest of the delimiter behind it, is a
text on which the two readings differ (`exists_miscut`). A delimiter of one character leaves no
room for it.

Wherever the cut is made, it is undone by writing the delimiter between the pieces
(`Text.joinWith_splitOn`). What comes out is the text that the expansion ended with, in which
there is nothing to expand, so that its paths are the same again (`paths_joinWith`). Only
the empty text is not expanded and cut like any other.

Key definition: `CutsAtSections`.
Key theorems: `cutsAtSections_iff_divided`, `splitPaths_eq_sections_iff`,
`Text.joinWith_splitOn`, `paths_joinWith`.
-/
import FieldSelection.Proofs.Fusion
import FieldSelection.Proofs.Sections
import FieldSelection.Proofs.Tokenization

namespace FieldSelection

open Token

variable {m : Markers}

/-! ### Cutting where tokens are -/

/-- A text is cut into what is read at its sections. -/
def CutsAtSections (m : Markers) (t : Text) : Prop :=
  (sections m t 0 t.byteLength).mapM t.slice? = some (splitPaths m t)

/-- At its sections the tokens of a text are read, cut at the delimiters among them. -/
theorem cutsAtSections_iff {t : Text} : CutsAtSections m t ↔
    Text.splitOn (m.text .delimiter) t = ((tokenize m t).splitOn (mark .delimiter)).map (writeAll m) := by
  have hsections := mapM_slice?_sections (m := m) (s := t) (x := []) (y := tokenize m t) (z := [])
    (by simp)
  rw [writeAll_nil, Text.byteLength_nil, Nat.zero_add, writeAll_tokenize] at hsections
  unfold CutsAtSections splitPaths
  rw [hsections, Option.some.injEq, eq_comm]

/-! ### Cutting a text -/

namespace Text

variable {sep : Text} (h : sep ≠ [])
include h

/-- A text is empty, starts with the separator, or starts with a character at which it does not
start. -/
theorem separator_induction {motive : Text → Prop} (nil : motive [])
    (separator : ∀ s, motive s → motive (sep ++ s))
    (char : ∀ c s, ¬ sep <+: c :: s → motive s → motive (c :: s)) (s : Text) : motive s := by
  induction hn : s.length using Nat.strongRecOn generalizing s with
  | ind n ih =>
    subst hn
    cases s with
    | nil => exact nil
    | cons c s =>
      by_cases hp : sep <+: c :: s
      · obtain ⟨rest, hrest⟩ := hp
        have hpos := List.length_pos_of_ne_nil h
        have hlen : rest.length < (c :: s).length := by
          rw [← hrest, List.length_append]
          omega
        rw [← hrest]
        exact separator rest (ih _ hlen rest rfl)
      · exact char c s hp (ih _ (by simp) s rfl)

theorem exists_cons_splitOn (s : Text) : ∃ x xs, splitOn sep s = x :: xs := by
  induction s using separator_induction h with
  | nil => exact ⟨[], [], rfl⟩
  | separator s _ => exact ⟨[], splitOn sep s, splitOn_sep h s⟩
  | char c s hp ih =>
    obtain ⟨x, xs, hx⟩ := ih
    exact ⟨c :: x, xs, by rw [splitOn_char hp, hx, List.modifyHead_cons]⟩

/-- **Cutting is undone by joining**: with the separator between its pieces a text is itself. -/
theorem joinWith_splitOn (s : Text) : joinWith sep (splitOn sep s) = s := by
  induction s using separator_induction h with
  | nil => rfl
  | separator s ih =>
    obtain ⟨x, xs, hx⟩ := exists_cons_splitOn h s
    rw [hx, joinWith] at ih
    rw [splitOn_sep h, hx, joinWith, List.intercalate_cons_cons, ih, List.nil_append]
  | char c s hp ih =>
    obtain ⟨x, xs, hx⟩ := exists_cons_splitOn h s
    rw [hx] at ih
    rw [splitOn_char hp, hx, List.modifyHead_cons, ← ih]
    cases xs with
    | nil => simp [joinWith]
    | cons y ys => simp [joinWith]

/-- The first piece ends where a separator stands, if not before. -/
theorem exists_head_splitOn (r : Text) : ∀ w : Text,
    ∃ x xs, splitOn sep (w ++ (sep ++ r)) = x :: xs ∧ x.length ≤ w.length
  | [] => ⟨[], _, splitOn_sep h r, Nat.le_refl _⟩
  | c :: w => by
    by_cases hp : sep <+: c :: (w ++ (sep ++ r))
    · obtain ⟨v, hv⟩ := hp
      refine ⟨[], splitOn sep v, ?_, Nat.zero_le _⟩
      rw [List.cons_append, ← hv, splitOn_sep h]
    · obtain ⟨x, xs, hx, hlen⟩ := exists_head_splitOn r w
      refine ⟨c :: x, xs, ?_, Nat.succ_le_succ hlen⟩
      rw [List.cons_append, splitOn_char hp, hx, List.modifyHead_cons]

end Text

/-! ### Divided tokens -/

/-- Tokens at which their text is cut are divided: where a delimiter starts in a bracket, the
text is cut before the bracket ends. -/
theorem divided_of_splitOn : ∀ {ts : List Token}, Legible m ts →
    Text.splitOn (m.text .delimiter) (writeAll m ts) =
      (ts.splitOn (mark .delimiter)).map (writeAll m) → Divided m ts
  | [], _, _ => trivial
  | t :: ts, hl, h => by
    obtain ⟨y, ys, hys⟩ := List.exists_cons_of_ne_nil (List.splitOn_ne_nil (mark .delimiter) ts)
    have ih := @divided_of_splitOn ts (legible_tail hl)
    rw [writeAll_cons, List.splitOn_cons_eq_if_modifyHead] at h
    by_cases ht : t = mark .delimiter
    · rw [ht, write, Text.splitOn_sep (m.ne_nil _), if_pos (by simp), List.map_cons] at h
      exact ⟨.inl ht, ih (List.cons.inj h).2⟩
    rw [if_neg (by simpa using ht), hys, List.modifyHead_cons, List.map_cons, writeAll_cons] at h
    rw [hys, List.map_cons] at ih
    by_cases hin : ∀ c u, c :: u <:+ t.write m →
        ¬ m.text .delimiter <+: c :: (u ++ writeAll m ts)
    · obtain ⟨x, xs, hx⟩ := Text.exists_cons_splitOn (m.ne_nil .delimiter) (writeAll m ts)
      rw [Text.splitOn_append hin, hx, List.modifyHead_cons, List.cons.injEq] at h
      refine ⟨.inr hin, ih ?_⟩
      rw [hx, h.2, List.append_cancel_left h.1]
    · simp only [not_forall, not_not] at hin
      obtain ⟨c, u, ⟨w, hw⟩, r, hr⟩ := hin
      obtain ⟨x, xs, hx, hlen⟩ := Text.exists_head_splitOn (m.ne_nil .delimiter) r w
      have hfirst : t.write m ++ writeAll m ts = w ++ (m.text .delimiter ++ r) := by
        rw [← hw, hr, List.append_assoc, List.cons_append]
      rw [hfirst, hx, List.cons.injEq] at h
      have hcut := congrArg List.length h.1
      have hwhole := congrArg List.length hw
      simp only [List.length_append, List.length_cons] at hcut hwhole
      omega

/-- **A text is cut at its sections** just where no delimiter starts in an opener or a closer. -/
theorem cutsAtSections_iff_divided (m : Markers) (t : Text) :
    CutsAtSections m t ↔ Divided m (tokenize m t) := by
  have hsplit : CutsAtSections m t ↔ Text.splitOn (m.text .delimiter) (writeAll m (tokenize m t)) =
      ((tokenize m t).splitOn (mark .delimiter)).map (writeAll m) := by
    rw [writeAll_tokenize, cutsAtSections_iff]
  rw [hsplit]
  exact ⟨divided_of_splitOn (legible_tokenize t), splitOn_of_divided⟩

/-! ### Markers that end as the delimiter begins -/

/-- No opener or closer ends as the delimiter begins. -/
def Clear (m : Markers) : Prop :=
  ∀ k, k ≠ .delimiter → ∀ p, p ≠ [] → p <:+ m.text k → ¬ p <+: m.text .delimiter

theorem Clear.divided (hm : Clear m) : ∀ {ts : List Token}, Legible m ts → Divided m ts
  | [], _ => trivial
  | Token.text s :: ts, h => divided_text h.1 (hm.divided h.2)
  | mark k :: ts, h => by
    have ih : Divided m ts := hm.divided (legible_tail h)
    by_cases hk : k = .delimiter
    · exact ⟨.inl (by rw [hk]), ih⟩
    refine ⟨.inr fun c u hu hp => ?_, ih⟩
    rw [write] at hu
    rw [← List.cons_append] at hp
    rcases List.prefix_or_prefix_of_prefix hp (List.prefix_append (c :: u) _) with hin | hout
    · exact m.apart .delimiter k (Ne.symm hk) (hin.isInfix.trans hu.isInfix)
    · exact hm k hk (c :: u) (List.cons_ne_nil c u) hu hout

/-- **A marker that ends as the delimiter begins**, with the rest of the delimiter behind it,
holds no group and no delimiter, and is cut nonetheless. -/
theorem exists_miscut {k : Mark} (hk : k ≠ .delimiter) {p : Text} (hp : p ≠ [])
    (hs : p <:+ m.text k) (hd : p <+: m.text .delimiter) :
    ∃ t, pass m t = none ∧ ¬ CutsAtSections m t := by
  obtain ⟨r, hr⟩ := hd
  have hne : r ≠ [] := by
    rintro rfl
    rw [List.append_nil] at hr
    exact m.apart .delimiter k (Ne.symm hk) (hr ▸ hs.isInfix)
  have hfrag := (Fragment.of_append hr.symm hp hne).2
  have hlegible : Legible m [mark k, text r] := ⟨hfrag.quiet_nil, trivial⟩
  have hread : tokenize m (writeAll m [mark k, text r]) = [mark k, text r] :=
    tokenize_writeAll ⟨hne, by simp, trivial⟩ hlegible
  refine ⟨writeAll m [mark k, text r], ?_, ?_⟩
  · refine pass_eq_none_of_advance? ?_ hlegible
    cases k with
    | delimiter => exact absurd rfl hk
    | opener => with_unfolding_all rfl
    | closer => with_unfolding_all rfl
  · rw [cutsAtSections_iff_divided, hread]
    rintro ⟨hmark | hin, -⟩
    · exact hk (Token.mark.inj hmark)
    · obtain ⟨c, u, rfl⟩ := List.exists_cons_of_ne_nil hp
      refine hin c u hs ?_
      have hwrite : writeAll m [text r] = r := by simp [write]
      rw [hwrite, ← hr, List.cons_append]

/-- **Where the paths of an expanded text are its sections**: for a text, just where no delimiter
starts in an opener or a closer that is left over; for markers, whatever is expanded, just where
no opener or closer ends as the delimiter begins. None does where the delimiter is one
character. -/
theorem splitPaths_eq_sections_iff (m : Markers) :
    (∀ s t, expand m none s = .done t → (CutsAtSections m t ↔ Divided m (tokenize m t))) ∧
    ((∀ s t, expand m none s = .done t → CutsAtSections m t) ↔ Clear m) ∧
    ((m.text .delimiter).length = 1 → ∀ s t, expand m none s = .done t → CutsAtSections m t) := by
  have hclear : Clear m → ∀ s t, expand m none s = .done t → CutsAtSections m t :=
    fun hm _ t _ => (cutsAtSections_iff_divided m t).2 (hm.divided (legible_tokenize t))
  refine ⟨fun _ t _ => cutsAtSections_iff_divided m t, ⟨fun h k hk p hp hs hd => ?_, hclear⟩,
    fun hlen => hclear fun k hk p hp hs hd => ?_⟩
  · obtain ⟨t, hpass, hcut⟩ := exists_miscut hk hp hs hd
    exact hcut (h t t (expand_none_of_end (n := 0) rfl hpass))
  · have heq : p = m.text .delimiter :=
      hd.eq_of_length_le (hlen ▸ List.length_pos_of_ne_nil hp)
    exact m.apart .delimiter k (Ne.symm hk) (heq ▸ hs.isInfix)

/-- A closer that ends as the delimiter begins. -/
def Markers.arrows : Markers :=
  .ofSound (show MarkerError.fault? (Mark.choose ['<', '-'] ['-', '>'] ['>', '>']) = none by decide)

/-- A closer that was never opened, with half of a delimiter behind it. -/
def stray : Text := ['a', '-', '>', '>', 'b']

/-- The text is one section from end to end, and is cut in the middle of its closer. -/
theorem splitPaths_stray : expand .arrows none stray = .done stray ∧
    sections .arrows stray 0 stray.byteLength = [⟨0, stray.byteLength⟩] ∧
    splitPaths .arrows stray = [['a', '-'], ['b']] ∧ ¬ CutsAtSections .arrows stray := by
  have hsections : sections .arrows stray 0 stray.byteLength = [⟨0, stray.byteLength⟩] := by decide
  have hsplit : splitPaths .arrows stray = [['a', '-'], ['b']] := by decide
  refine ⟨expand_none_of_end (n := 0) rfl (by decide), hsections, hsplit, fun h => ?_⟩
  unfold CutsAtSections at h
  rw [hsections, hsplit] at h
  revert h
  decide

/-! ### Paths of paths -/

/-- **Paths joined again have the same paths.** With the delimiter between them the paths are
the text that the expansion ended with. If there is anything in it, its paths are the same;
if there is nothing, the source has one path, the empty one, and the empty text has the
default. -/
theorem paths_joinWith (m : Markers) (default default' : List Text) {s t : Text} (hs : s ≠ [])
    (h : expand m none s = .done t) : ∃ ps, paths m default (some s) = .done ps ∧
      Text.joinWith (m.text .delimiter) ps = t ∧
      (t ≠ [] → paths m default' (some (Text.joinWith (m.text .delimiter) ps)) = .done ps) ∧
      (t = [] → ps = [[]] ∧
        paths m default' (some (Text.joinWith (m.text .delimiter) ps)) = .done default') := by
  have hjoin : Text.joinWith (m.text .delimiter) (splitPaths m t) = t :=
    Text.joinWith_splitOn (m.ne_nil .delimiter) t
  obtain ⟨n, -, hend, -⟩ := expand_eq_done_iff.1 h
  have hagain : expand m none t = .done t := expand_none_of_end (n := 0) rfl hend
  refine ⟨splitPaths m t, paths_of_expand hs h default, hjoin, fun ht => ?_, fun ht => ?_⟩
  · rw [hjoin, paths_of_expand ht hagain]
  · rw [hjoin, ht]
    exact ⟨rfl, rfl⟩

/-- A group, and an opener that is never closed. -/
def leftOpen : Text :=
  ['x', '<', '|', 'a', '|', '|', '|', 'b', '|', '>', '|', '|', '<', '|']

/-- Paths with bars and an opener in them come back; an empty group leaves nothing to expand. -/
theorem paths_joinWith_leftOpen :
    (∃ ps, paths .barred [] (some leftOpen) = .done ps ∧
      Text.joinWith ['|', '|'] ps = ['x', 'a', '|', '|', 'x', '|', 'b', '|', '|', '<', '|'] ∧
      paths .barred [['z']] (some (Text.joinWith ['|', '|'] ps)) = .done ps) ∧
    ∃ ps, paths .barred [] (some ['<', '|', '|', '>']) = .done ps ∧ ps = [[]] ∧
      paths .barred [['z']] (some (Text.joinWith ['|', '|'] ps)) = .done [['z']] := by
  have hopen : expand .barred none leftOpen =
      .done ['x', 'a', '|', '|', 'x', '|', 'b', '|', '|', '<', '|'] :=
    expand_none_of_end (n := 1) (by decide) (by decide)
  have hempty : expand .barred none ['<', '|', '|', '>'] = .done [] :=
    expand_none_of_end (n := 1) (by decide) (by decide)
  obtain ⟨ps, hps, hjoin, hagain, -⟩ := paths_joinWith .barred [] [['z']] (by decide) hopen
  obtain ⟨qs, hqs, -, -, hnothing⟩ := paths_joinWith .barred [] [['z']] (by decide) hempty
  exact ⟨⟨ps, hps, hjoin, hagain (by decide)⟩, qs, hqs, hnothing rfl⟩

end FieldSelection
