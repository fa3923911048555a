/-
# Markers of more than one character

Where every marker is one character, the paths of a balanced source are as many as its
choices. Where one has more, they are not for every source: a pass puts a text that the
marker begins with before one that it ends with, or before a delimiter, and makes a
marker that the source does not hold. `miscounts_of_length` finds such a source for any
markers of which one has more than one character.

Which source it is depends on how the markers overlap. With a delimiter of one character
nothing overlaps it (`miscounts_of_single`). A longer one may itself be made
(`miscounts_of_quiet`, `miscounts_of_uniform`), unless its first character and the
delimiter behind it begin with another marker; then a text that ends so takes the
delimiter behind it away (`miscounts_of_closer`, `miscounts_of_opener`). What must not
meet is kept apart by a `Gap`.

Key definitions: `Miscounts`, `Fragment`, `Gap`.
Key theorems: `miscounts_of_length`, `length_paths_eq_choices`.
-/
import Mathlib.Data.List.Perm.Subperm
import FieldSelection.Proofs.Count

namespace FieldSelection

open Token Expansion Markers

variable {m : Markers}

/-! ### Parts of markers, and gaps between them -/

/-- A part of a marker, and not the whole. -/
def Fragment (m : Markers) (p : Text) : Prop :=
  ∃ k, p <:+: m.text k ∧ p.length < (m.text k).length

namespace Fragment

theorem of_infix {p s : Text} (h : Fragment m s) (hp : p <:+: s) : Fragment m p := by
  obtain ⟨k, hs, hlt⟩ := h
  exact ⟨k, hp.trans hs, Nat.lt_of_le_of_lt hp.length_le hlt⟩

theorem of_append {k : Mark} {p q : Text} (h : m.text k = p ++ q) (hp : p ≠ []) (hq : q ≠ []) :
    Fragment m p ∧ Fragment m q := by
  have hp' := List.length_pos_of_ne_nil hp
  have hq' := List.length_pos_of_ne_nil hq
  refine ⟨⟨k, h ▸ (List.prefix_append p q).isInfix, ?_⟩,
    ⟨k, h ▸ (List.suffix_append p q).isInfix, ?_⟩⟩
  · rw [h, List.length_append]; omega
  · rw [h, List.length_append]; omega

/-- No marker lies in a part of one. -/
theorem not_isInfix {p : Text} (h : Fragment m p) (l : Mark) : ¬ m.text l <:+: p := by
  obtain ⟨k, hp, hlt⟩ := h
  intro hl
  by_cases hkl : l = k
  · have := hl.length_le
    rw [hkl] at this
    omega
  · exact m.apart l k hkl (hl.trans hp)

/-- A marker that starts in a part of one ends behind it. -/
theorem quiet {p v : Text} (h : Fragment m p) (hv : ∀ l s r, s ≠ [] → s <:+ p → r ≠ [] →
    r <+: v → m.text l ≠ s ++ r) : Quiet m p v := by
  intro c u hu
  refine markAt?_eq_none_iff.2 fun l hl => ?_
  rw [← List.cons_append] at hl
  rcases List.prefix_or_prefix_of_prefix hl (List.prefix_append (c :: u) v) with hin | ⟨r, hr⟩
  · exact h.not_isInfix l (hin.isInfix.trans hu.isInfix)
  · rw [← hr, List.prefix_append_right_inj] at hl
    refine hv l (c :: u) r (List.cons_ne_nil c u) hu ?_ hl hr.symm
    rintro rfl
    rw [List.append_nil] at hr
    exact h.not_isInfix l (hr ▸ hu.isInfix)

theorem quiet_nil {p : Text} (h : Fragment m p) : Quiet m p [] :=
  h.quiet fun _ _ _ _ _ hr hnil => absurd (List.prefix_nil.1 hnil) hr

end Fragment

/-- A text that keeps apart what stands on its two sides: no marker is longer, and
none begins or ends with one of its characters. -/
structure Gap (m : Markers) (w : Text) : Prop where
  ne_nil : w ≠ []
  long : ∀ k, (m.text k).length ≤ w.length
  head : ∀ c ∈ w, ∀ k s, m.text k ≠ c :: s
  last : ∀ c ∈ w, ∀ k s, m.text k ≠ s ++ [c]

namespace Gap

variable {w : Text}

theorem inert (hw : Gap m w) : Inert m w := by
  intro v c u hu
  refine markAt?_eq_none_iff.2 fun k hk => ?_
  obtain ⟨d, s, hds⟩ := exists_cons_text m k
  rw [hds, List.cons_prefix_cons] at hk
  exact hw.head c (hu.subset List.mem_cons_self) k s (by rw [hds, hk.1])

/-- Behind a part of a marker a gap ends what starts in it. -/
theorem quiet_fragment (hw : Gap m w) {p : Text} (hp : Fragment m p) (v : Text) :
    Quiet m p (w ++ v) := by
  refine hp.quiet fun l s r hs _ hr hrv heq => ?_
  have hlen : r.length ≤ w.length := by
    have := hw.long l
    rw [heq, List.length_append] at this
    omega
  have hrw : r <+: w := List.prefix_of_prefix_length_le hrv (List.prefix_append w v) hlen
  obtain ⟨r', c, rfl⟩ := (List.eq_nil_or_concat r).resolve_left hr
  rw [List.concat_eq_append] at hrw heq
  refine hw.last c (hrw.subset (by simp)) l (s ++ r') ?_
  rw [heq, List.append_assoc]

/-- Behind an opener or closer a gap ends what starts in it. -/
theorem not_delimiter (hw : Gap m w) {k : Mark} (hk : k ≠ .delimiter) (v : Text) {c : Char}
    {u : Text} (hu : c :: u <:+ m.text k) : ¬ m.text .delimiter <+: c :: (u ++ (w ++ v)) := by
  intro hd
  rcases Nat.lt_or_ge (c :: u).length (m.text k).length with hlt | hge
  · have hp : Fragment m (c :: u) := ⟨k, hu.isInfix, hlt⟩
    exact markAt?_eq_none_iff.1 (hw.quiet_fragment hp v c u (List.suffix_refl _)) _ hd
  · have heq : c :: u = m.text k := hu.eq_of_length_le hge
    refine hk (eq_of_isPrefix (s := c :: (u ++ (w ++ v))) ?_ hd)
    rw [← heq, ← List.cons_append]
    exact List.prefix_append _ _

end Gap

/-- There is always a character with which no marker begins or ends. -/
theorem exists_gap (m : Markers) : ∃ w, Gap m w := by
  let used := Mark.all.flatMap fun k =>
    [(m.text k).head (m.ne_nil k), (m.text k).getLast (m.ne_nil k)]
  have hused : ∀ k, (m.text k).head (m.ne_nil k) ∈ used ∧ (m.text k).getLast (m.ne_nil k) ∈ used :=
    fun k => ⟨List.mem_flatMap.2 ⟨k, Mark.mem_all k, by simp⟩,
      List.mem_flatMap.2 ⟨k, Mark.mem_all k, by simp⟩⟩
  obtain ⟨c, hc⟩ : ∃ c, c ∉ used := by
    by_contra h
    have hall : ['a', 'b', 'c', 'd', 'e', 'f', 'g'] ⊆ used := fun c _ => by
      by_contra hc
      exact h ⟨c, hc⟩
    have hlen : 7 ≤ used.length := (List.subperm_of_subset (by decide) hall).length_le
    have hsix : used.length = 6 := rfl
    omega
  let size := (m.text .opener).length + (m.text .closer).length + (m.text .delimiter).length
  have hsize : ∀ k, (m.text k).length ≤ size := by
    intro k
    cases k <;> simp only [size] <;> omega
  have hpos : 0 < size :=
    Nat.lt_of_lt_of_le (List.length_pos_of_ne_nil (m.ne_nil .opener)) (hsize _)
  refine ⟨List.replicate size c, ?_, ?_, ?_, ?_⟩
  · rw [List.ne_nil_iff_length_pos, List.length_replicate]
    exact hpos
  · simpa using hsize
  · intro d hd k s hk
    rw [List.eq_of_mem_replicate hd] at hk
    exact hc (by simpa [hk] using (hused k).1)
  · intro d hd k s hk
    rw [List.eq_of_mem_replicate hd] at hk
    exact hc (by simpa [hk] using (hused k).2)

/-! ### Sources that are miscounted -/

/-- Some balanced source has another number of paths than choices. -/
def Miscounts (m : Markers) : Prop :=
  ∃ s, s ≠ [] ∧ balanced 0 (tokenize m s) = true ∧ ¬ Counts m s

/-- A selection that is read back is miscounted if its run ends in a text with another
number of delimiters. -/
theorem miscounts_of_end (sel : Selection) {n : Nat} {t : Text} (us : List Token)
    (hne : sel.tokens ≠ []) (htight : Tight sel.tokens) (hlegible : Legible m sel.tokens)
    (hrun : after m n (sel.write m) = some t) (hend : pass m t = none)
    (hus : writeAll m us = t) (hdivided : Divided m us)
    (hcount : us.count (mark .delimiter) + 1 ≠ sel.choices) : Miscounts m := by
  have hread : tokenize m (sel.write m) = sel.tokens := tokenize_writeAll htight hlegible
  have hs : sel.write m ≠ [] := by
    intro hnil
    rw [hnil] at hread
    exact hne hread.symm
  refine ⟨sel.write m, hs, ?_, ?_⟩
  · rw [hread, ← isSome_meaning, sel.meaning_tokens, Option.isSome_some]
  · rintro ⟨sel', hsel', hcounts⟩
    obtain ⟨ps, hps, hlen⟩ := hcounts []
    rw [paths_of_expand hs (expand_none_of_end hrun hend), Outcome.done.injEq] at hps
    rw [← hps, splitPaths, ← hus, length_splitOn_writeAll hdivided,
      Selection.choices_eq_of_tokens (hsel'.trans hread)] at hlen
    exact hcount hlen

/-- A step on legible tokens is a pass on what they write, and may be read as other
tokens that write the same. -/
theorem pass_of_advance? {ts us vs : List Token} (ha : advance? ts = some us) (h : Legible m ts)
    (hv : writeAll m us = writeAll m vs) : pass m (writeAll m ts) = some (writeAll m vs) := by
  rw [pass_writeAll (read_of_legible h), ha, Option.map_some, hv]

theorem pass_eq_none_of_advance? {ts : List Token} (ha : advance? ts = none) (h : Legible m ts) :
    pass m (writeAll m ts) = none := by
  rw [pass_writeAll (read_of_legible h), ha, Option.map_none]

/-- A group of two alternatives, with the rest of the segment behind it. -/
def Segment.pair (a b rest : Segment) : Segment := .group (.more a (.one b)) rest

namespace Token

/-- The token of an opener. -/
abbrev opener : Token := mark .opener

/-- The token of a closer. -/
abbrev closer : Token := mark .closer

/-- The token of a delimiter. -/
abbrev delimiter : Token := mark .delimiter

end Token

/-! ### A delimiter of one character -/

/-- A group, and another that holds a third, in which the marker is in two parts. -/
def bracketInParts (x : Char) (q : Text) : Selection :=
  .one (.pair .nil .nil (.pair (.pair (.text [x] .nil) .nil (.text q .nil)) .nil .nil))

section
variable {q : Text} (hq : ∀ v, Quiet m q (m.text .delimiter ++ v))
include hq

/-- An opener that the source does not hold takes the closer of the outer group. -/
theorem run_of_opener_made :
    after m 2 (writeAll m [opener, delimiter, closer, opener, opener, delimiter, text q, delimiter,
        closer]) = some (writeAll m [delimiter, opener, delimiter, text q, delimiter]) ∧
      pass m (writeAll m [delimiter, opener, delimiter, text q, delimiter]) = none := by
  have ha : advance? [opener, delimiter, closer, opener, opener, delimiter, text q, delimiter,
      closer] = some [opener, delimiter, closer, opener, delimiter, text q, delimiter] := by
    with_unfolding_all rfl
  have hb : advance? [opener, delimiter, closer, opener, delimiter, text q, delimiter] =
      some [delimiter, opener, delimiter, text q, delimiter] := by with_unfolding_all rfl
  have h1 := pass_of_advance? ha ⟨hq _, trivial⟩ rfl
  have h2 := pass_of_advance? hb ⟨hq _, trivial⟩ rfl
  constructor
  · rw [after_succ_of_pass m h1, after_succ_of_pass m h2, after_zero]
  · exact pass_eq_none_of_advance? (by with_unfolding_all rfl) ⟨hq _, trivial⟩

/-- A closer that the source does not hold closes the outer group too early. -/
theorem run_of_closer_made :
    after m 2 (writeAll m [opener, delimiter, closer, opener, closer, delimiter, text q, delimiter,
        closer]) = some (writeAll m [delimiter, delimiter, text q, delimiter, closer]) ∧
      pass m (writeAll m [delimiter, delimiter, text q, delimiter, closer]) = none := by
  have ha : advance? [opener, delimiter, closer, opener, closer, delimiter, text q, delimiter,
      closer] = some [opener, closer, delimiter, opener, closer, delimiter, text q, delimiter,
        closer] := by with_unfolding_all rfl
  have hb : advance? [opener, closer, delimiter, opener, closer, delimiter, text q, delimiter,
      closer] = some [delimiter, delimiter, text q, delimiter, closer] := by with_unfolding_all rfl
  have h1 := pass_of_advance? ha ⟨hq _, trivial⟩ rfl
  have h2 := pass_of_advance? hb ⟨hq _, trivial⟩ rfl
  constructor
  · rw [after_succ_of_pass m h1, after_succ_of_pass m h2, after_zero]
  · exact pass_eq_none_of_advance? (by with_unfolding_all rfl) ⟨hq _, trivial⟩

end

section
variable {e : Char} (hd : m.text .delimiter = [e])
include hd

/-- No marker starts in a part of one and ends in the delimiter behind it. -/
theorem Fragment.quiet_single {p : Text} (hp : Fragment m p) (v : Text) :
    Quiet m p (m.text .delimiter ++ v) := by
  refine hp.quiet fun l s r hs _ hr hrv heq => ?_
  have he : e ∈ m.text l := by
    obtain ⟨c, r', rfl⟩ := List.exists_cons_of_ne_nil hr
    rw [hd, List.singleton_append, List.cons_prefix_cons] at hrv
    rw [heq, ← hrv.1]
    simp
  have hl : l = .delimiter := by
    by_contra hl
    exact not_mem_of_single hd hl he
  rw [hl, hd] at heq
  have hlen := congrArg List.length heq
  have hs' := List.length_pos_of_ne_nil hs
  have hr' := List.length_pos_of_ne_nil hr
  rw [List.length_append, List.length_singleton] at hlen
  omega

/-- A marker made by a pass opens a group that the source does not hold, or closes one. -/
theorem miscounts_of_single {x : Char} {q : Text} {k : Mark} (hk : m.text k = x :: q)
    (hq : q ≠ []) : Miscounts m := by
  have hkd : k ≠ .delimiter := by
    rintro rfl
    rw [hd] at hk
    exact hq (List.cons.inj hk).2.symm
  obtain ⟨hx, hfrag⟩ := Fragment.of_append (p := [x]) hk (List.cons_ne_nil x []) hq
  have hne : q ≠ [] := hq
  have hx := hx.quiet_single hd
  have hq := hfrag.quiet_single hd
  have he : e ∉ q := fun he => not_mem_of_single hd hkd (hk ▸ List.mem_cons_of_mem x he)
  have hstart : Legible m (bracketInParts x q).tokens := ⟨hx _, hq _, trivial⟩
  have hfuse : advance? (bracketInParts x q).tokens = some [opener, delimiter, closer, opener,
      text [x], text q, delimiter, text q, delimiter, closer] := by
    with_unfolding_all rfl
  have h1 : pass m ((bracketInParts x q).write m) = some (writeAll m [opener, delimiter, closer,
      opener, mark k, delimiter, text q, delimiter, closer]) :=
    pass_of_advance? hfuse hstart (by simp [write, hk])
  have htight : Tight (bracketInParts x q).tokens := by
    simp [bracketInParts, Segment.pair, Selection.tokens, Segment.tokens, Tight, hne]
  have hrun : ∀ {t : Text}, after m 2 (writeAll m [opener, delimiter, closer, opener, mark k,
      delimiter, text q, delimiter, closer]) = some t →
      after m 3 ((bracketInParts x q).write m) = some t := fun h => by
    rw [after_succ_of_pass m h1, h]
  cases k with
  | delimiter => exact absurd rfl hkd
  | opener =>
    obtain ⟨hafter, hend⟩ := run_of_opener_made hq
    exact miscounts_of_end (bracketInParts x q) _ (List.cons_ne_nil _ _) htight hstart
      (hrun hafter) hend rfl (divided_of_single hd (by simpa using he)) (show 4 ≠ 6 by decide)
  | closer =>
    obtain ⟨hafter, hend⟩ := run_of_closer_made hq
    exact miscounts_of_end (bracketInParts x q) _ (List.cons_ne_nil _ _) htight hstart
      (hrun hafter) hend rfl (divided_of_single hd (by simpa using he)) (show 4 ≠ 6 by decide)

end

/-! ### A longer delimiter -/

/-- What starts one character before a marker ends in it. -/
theorem markAt?_cons_marker (c : Char) (k : Mark) (v : Text) :
    m.markAt? (c :: (m.text k ++ v)) = m.markAt? (c :: m.text k) := by
  refine Option.ext fun l => ?_
  rw [markAt?_eq_some_iff, markAt?_eq_some_iff]
  constructor
  · intro hl
    rw [← List.cons_append] at hl
    rcases List.prefix_or_prefix_of_prefix hl (List.prefix_append _ v) with h | h
    · exact h
    · have hlen := h.length_le
      rw [List.length_cons] at hlen
      by_cases hkl : k = l
      · rw [hkl] at hlen
        omega
      · exact absurd ((List.suffix_cons c _).isInfix.trans h.isInfix) (m.apart k l hkl)
  · intro hl
    rw [← List.cons_append]
    exact hl.trans (List.prefix_append _ v)

/-- A text that begins as it goes on is one character over and over. -/
theorem append_of_prefix_cons : ∀ {x : Char} {q : Text}, q <+: x :: q → q ++ [x] = x :: q
  | _, [], _ => rfl
  | _, _ :: _, h => by
    rw [List.cons_prefix_cons] at h
    obtain ⟨rfl, h⟩ := h
    rw [List.cons_append, append_of_prefix_cons h]

/-- A group with the delimiter in two parts, one in it and one behind it. -/
def delimiterInParts (x : Char) (q : Text) : Selection :=
  .one (.pair (.text [x] .nil) .nil (.text q .nil))

/-- A group of two empty alternatives, with a part of the delimiter behind it. -/
def delimiterShort (q : Text) : Selection := .one (.pair .nil .nil (.text q .nil))

section
variable {x : Char} {q : Text} (hd : m.text .delimiter = x :: q) (hq : q ≠ [])
include hd hq

/-- A delimiter is made out of its first character and the rest. -/
theorem miscounts_of_quiet (h : m.markAt? (x :: m.text .delimiter) = none) : Miscounts m := by
  obtain ⟨-, hfrag⟩ := Fragment.of_append (p := [x]) hd (List.cons_ne_nil x []) hq
  have hx : ∀ v, Quiet m [x] (m.text .delimiter ++ v) := by
    intro v c u hu
    obtain ⟨rfl, rfl⟩ : c = x ∧ u = [] := by simpa [List.suffix_cons_iff] using hu
    rw [List.nil_append, markAt?_cons_marker, h]
  have hstart : Legible m (delimiterInParts x q).tokens := ⟨hx _, hfrag.quiet_nil, trivial⟩
  have htight : Tight (delimiterInParts x q).tokens := by
    simp [delimiterInParts, Segment.pair, Selection.tokens, Segment.tokens, Tight, hq]
  have ha : advance? (delimiterInParts x q).tokens =
      some [text [x], text q, delimiter, text q] := by
    with_unfolding_all rfl
  have hpass : pass m ((delimiterInParts x q).write m) =
      some (writeAll m [delimiter, delimiter, text q]) :=
    pass_of_advance? ha hstart (by simp [write, hd])
  have hend : pass m (writeAll m [delimiter, delimiter, text q]) = none :=
    pass_eq_none_of_advance? (by with_unfolding_all rfl) ⟨hfrag.quiet_nil, trivial⟩
  exact miscounts_of_end (delimiterInParts x q) _ (List.cons_ne_nil _ _) htight hstart
    (after_succ_of_pass m hpass 0) hend rfl
    (divided_delimiter (divided_delimiter (divided_text hfrag.quiet_nil trivial)))
    (show 3 ≠ 2 by decide)

/-- A delimiter of one character over and over is made out of what is before it and a
part of it. -/
theorem miscounts_of_uniform (h : m.text .delimiter <+: x :: m.text .delimiter) :
    Miscounts m := by
  obtain ⟨-, hfrag⟩ := Fragment.of_append (p := [x]) hd (List.cons_ne_nil x []) hq
  rw [hd, List.cons_prefix_cons] at h
  have hmove := append_of_prefix_cons h.2
  obtain ⟨c, q', rfl⟩ := List.exists_cons_of_ne_nil hq
  obtain rfl : c = x := (List.cons_prefix_cons.1 h.2).1
  have hq' : Fragment m q' := hfrag.of_infix (List.suffix_cons c q').isInfix
  have hstart : Legible m (delimiterShort (c :: q')).tokens := ⟨hfrag.quiet_nil, trivial⟩
  have htight : Tight (delimiterShort (c :: q')).tokens := by
    simp [delimiterShort, Segment.pair, Selection.tokens, Segment.tokens, Tight]
  have ha : advance? (delimiterShort (c :: q')).tokens =
      some [text (c :: q'), delimiter, text (c :: q')] := by
    with_unfolding_all rfl
  -- the character that is too many in the second delimiter is passed on twice
  have hwrite : c :: q' ++ (c :: c :: q' ++ (c :: q' ++ [])) =
      c :: c :: q' ++ (c :: c :: q' ++ (q' ++ [])) :=
    calc c :: q' ++ (c :: c :: q' ++ (c :: q' ++ []))
        = (c :: q' ++ [c]) ++ ((c :: q' ++ [c]) ++ q') := by simp
      _ = c :: c :: q' ++ (c :: c :: q' ++ (q' ++ [])) := by rw [hmove, List.append_nil]
  have hpass : pass m ((delimiterShort (c :: q')).write m) =
      some (writeAll m [delimiter, delimiter, text q']) :=
    pass_of_advance? ha hstart (by simpa only [writeAll_cons, writeAll_nil, write, hd] using hwrite)
  have hend : pass m (writeAll m [delimiter, delimiter, text q']) = none :=
    pass_eq_none_of_advance? (by with_unfolding_all rfl) ⟨hq'.quiet_nil, trivial⟩
  exact miscounts_of_end (delimiterShort (c :: q')) _ (List.cons_ne_nil _ _) htight hstart
    (after_succ_of_pass m hpass 0) hend rfl
    (divided_delimiter (divided_delimiter (divided_text hq'.quiet_nil trivial)))
    (show 3 ≠ 2 by decide)

end

/-! ### A delimiter taken away -/

/-- Gaps side by side. -/
def gaps (n : Nat) (w : Text) : List Token := List.replicate n (text w)

/-- A group of a gap or nothing, with a gap behind it. -/
def block (w : Text) : List Token := [opener, text w, delimiter, closer, text w]

/-- Three groups in a row, with the character behind them. -/
def groupsInRow (w : Text) (x : Char) : Selection :=
  .one (.pair (.text w .nil) .nil (.text w (.pair (.text w .nil) .nil (.text w
    (.pair (.text w .nil) .nil (.text (w ++ [x]) .nil))))))

/-- The copy of the last two groups in a row that comes second. -/
def secondCopy (w : Text) (x : Char) : List Token :=
  gaps 1 w ++ (block w ++ (block w ++ [text [x]]))

/-- The copy of the last two groups in a row that comes first, when they are spread. -/
def firstCopy (w : Text) (us : List Token) : List Token :=
  gaps 6 w ++ delimiter :: (gaps 5 w ++ delimiter :: (gaps 5 w ++ delimiter :: (gaps 4 w ++ us)))

/-- A group that holds another, a third behind it, and a segment more, which ends with
the character. -/
def groupsNested (w : Text) (x : Char) : Selection :=
  .more
    (.group (.one (.text w (.pair (.text w .nil) .nil (.text w .nil))))
      (.text w (.pair (.text w .nil) .nil (.text w .nil))))
    (.one (.group (.more (.text w .nil) (.more .nil (.one .nil))) (.text (w ++ [x]) .nil)))

/-- The first segment of the nested groups after a pass. -/
def nestedSpread (w : Text) (us : List Token) : List Token :=
  opener :: (gaps 3 w ++ delimiter :: (gaps 2 w ++ closer ::
    (gaps 1 w ++ (block w ++ delimiter :: us))))

section
variable {w : Text} (hw : Gap m w)
include hw

theorem legible_gaps {ts : List Token} (h : Legible m ts) : ∀ n, Legible m (gaps n w ++ ts)
  | 0 => h
  | n + 1 => ⟨hw.inert _, legible_gaps h n⟩

theorem legible_block {ts : List Token} (h : Legible m ts) : Legible m (block w ++ ts) :=
  ⟨hw.inert _, hw.inert _, h⟩

theorem divided_gaps {ts : List Token} (h : Divided m ts) : ∀ n, Divided m (gaps n w ++ ts)
  | 0 => h
  | n + 1 => divided_text (hw.inert _) (divided_gaps h n)

theorem divided_bracket {k : Mark} (hk : k ≠ .delimiter) {ts : List Token} (h : Divided m ts) :
    Divided m (mark k :: text w :: ts) :=
  ⟨.inr fun _ _ => hw.not_delimiter hk _, divided_text (hw.inert _) h⟩

theorem divided_block {ts : List Token} (h : Divided m ts) : Divided m (block w ++ ts) :=
  divided_bracket hw (by simp) (divided_delimiter (divided_bracket hw (by simp) h))

theorem legible_firstCopy {ts : List Token} (h : Legible m ts) : Legible m (firstCopy w ts) := by
  have h4 := legible_gaps hw h 4
  have h5 := legible_gaps hw (legible_mark .delimiter h4) 5
  have h6 := legible_gaps hw (legible_mark .delimiter h5) 5
  exact legible_gaps hw (legible_mark .delimiter h6) 6

theorem divided_firstCopy {ts : List Token} (h : Divided m ts) : Divided m (firstCopy w ts) := by
  have h4 := divided_gaps hw h 4
  have h5 := divided_gaps hw (divided_delimiter h4) 5
  have h6 := divided_gaps hw (divided_delimiter h5) 5
  exact divided_gaps hw (divided_delimiter h6) 6

theorem legible_nestedSpread {ts : List Token} (h : Legible m ts) :
    Legible m (nestedSpread w ts) := by
  have hblock := legible_block hw (legible_mark .delimiter h)
  have hcloser := legible_mark .closer (legible_gaps hw hblock 1)
  have hinner := legible_mark .delimiter (legible_gaps hw hcloser 2)
  exact legible_mark .opener (legible_gaps hw hinner 3)

theorem divided_nestedSpread {ts : List Token} (h : Divided m ts) :
    Divided m (nestedSpread w ts) := by
  have hblock := divided_block hw (divided_delimiter h)
  have hcloser : Divided m (closer :: (gaps 1 w ++ (block w ++ delimiter :: ts))) :=
    divided_bracket hw (by simp) hblock
  have hinner := divided_delimiter (divided_gaps hw hcloser 2)
  exact divided_bracket hw (by simp) (divided_gaps hw hinner 2)

end

/-- Of a character and the delimiter behind it another marker takes a part. -/
theorem exists_of_markAt?_cons {x : Char} {q : Text} (hd : m.text .delimiter = x :: q) {k : Mark}
    (hk : k ≠ .delimiter) (h : m.markAt? (x :: m.text .delimiter) = some k) :
    ∃ r r', r ≠ [] ∧ r' ≠ [] ∧ m.text k = x :: r ∧ m.text .delimiter = r ++ r' := by
  have hp := markAt?_eq_some h
  obtain ⟨y, r, hy⟩ := exists_cons_text m k
  rw [hy, List.cons_prefix_cons] at hp
  obtain ⟨rfl, r', hr'⟩ := hp
  refine ⟨r, r', ?_, ?_, hy, hr'.symm⟩
  · rintro rfl
    refine m.apart k .delimiter hk ?_
    rw [hy, hd]
    exact (List.prefix_append [y] q).isInfix
  · rintro rfl
    refine m.apart .delimiter k (Ne.symm hk) ?_
    rw [hy, ← hr', List.append_nil]
    exact (List.suffix_cons y r).isInfix

section
variable {x : Char} {r r' w : Text} (hw : Gap m w) (hr : r ≠ []) (hr' : r' ≠ [])
  (hd : m.text .delimiter = r ++ r')
include hw hr hr' hd

/-- The facts about the character and the delimiter behind it, of which the marker
takes a part. -/
theorem taken {k : Mark} (hkd : k ≠ .delimiter) (hk : m.text k = x :: r)
    (h : m.markAt? (x :: m.text .delimiter) = some k) :
    Quiet m [x] [] ∧ (∀ v, Quiet m r' (w ++ v)) ∧
      ∀ {ts : List Token}, Divided m ts → Divided m (text [x] :: delimiter :: ts) := by
  refine ⟨(Fragment.of_append (p := [x]) hk (List.cons_ne_nil x []) hr).1.quiet_nil,
    hw.quiet_fragment (Fragment.of_append hd hr hr').2, fun hts => ⟨.inr fun c u hu hp => ?_,
      divided_delimiter hts⟩⟩
  obtain ⟨rfl, rfl⟩ : c = x ∧ u = [] := by simpa [write, List.suffix_cons_iff] using hu
  rw [List.nil_append, writeAll_cons, write, ← markAt?_eq_some_iff, markAt?_cons_marker, h,
    Option.some.injEq] at hp
  exact hkd hp

/-- A closer that is never opened keeps the groups behind it from being spread. -/
theorem miscounts_of_closer (hk : m.text .closer = x :: r)
    (h : m.markAt? (x :: m.text .delimiter) = some .closer) : Miscounts m := by
  obtain ⟨hx, hrest, hkeep⟩ := taken hw hr hr' hd (by simp) hk h
  have hstart : Legible m (groupsInRow w x).tokens :=
    legible_block hw (legible_block hw ⟨hw.inert _, (hw.inert _).append hx, trivial⟩)
  have htight : Tight (groupsInRow w x).tokens := by
    simp [groupsInRow, Segment.pair, Selection.tokens, Segment.tokens, Tight, hw.ne_nil]
  have hchar : Legible m [text [x]] := ⟨hx, trivial⟩
  have hchar' : Divided m [text [x]] := divided_text hx trivial
  -- the second copy with the delimiter before it, as it is read and as it was written
  let back := closer :: text r' :: secondCopy w x
  let back' := text [x] :: delimiter :: secondCopy w x
  have hback : Legible m back :=
    ⟨hrest _, legible_gaps hw (legible_block hw (legible_block hw hchar)) 1⟩
  have hback' : Divided m back' :=
    hkeep (divided_gaps hw (divided_block hw (divided_block hw hchar')) 1)
  have hwrite : writeAll m back' = writeAll m back := by simp [back, back', write, hk, hd]
  -- the two groups of the first copy are spread in turn
  have ha : advance? (groupsInRow w x).tokens = some (gaps 2 w ++ (block w ++ opener :: text w ::
      delimiter :: closer :: text (w ++ [x]) :: delimiter :: (gaps 1 w ++ (block w ++ [opener,
      text w, delimiter, closer, text (w ++ [x])])))) := by with_unfolding_all rfl
  have hb : advance? (gaps 2 w ++ (block w ++ (block w ++ back))) = some (gaps 4 w ++ (block w ++
      delimiter :: (gaps 3 w ++ (block w ++ back)))) := by with_unfolding_all rfl
  have hc : advance? (gaps 4 w ++ (block w ++ delimiter :: (gaps 3 w ++ (block w ++ back)))) =
      some (firstCopy w back) := by with_unfolding_all rfl
  have h1 : pass m ((groupsInRow w x).write m) =
      some (writeAll m (gaps 2 w ++ (block w ++ (block w ++ back)))) :=
    pass_of_advance? ha hstart (by simp [block, gaps, back, secondCopy, write, hk, hd])
  have hblock := legible_block hw hback
  have hmiddle := legible_mark .delimiter (legible_gaps hw hblock 3)
  have h2 := pass_of_advance? hb (legible_gaps hw (legible_block hw hblock) 2) rfl
  have h3 := pass_of_advance? hc (legible_gaps hw (legible_block hw hmiddle) 4) rfl
  have hend : pass m (writeAll m (firstCopy w back)) = none :=
    pass_eq_none_of_advance? (by with_unfolding_all rfl) (legible_firstCopy hw hback)
  have hrun : after m 3 ((groupsInRow w x).write m) = some (writeAll m (firstCopy w back)) := by
    rw [after_succ_of_pass m h1, after_succ_of_pass m h2, after_succ_of_pass m h3, after_zero]
  refine miscounts_of_end (groupsInRow w x) (firstCopy w back') (List.cons_ne_nil _ _) htight hstart
    hrun hend ?_ (divided_firstCopy hw hback') (show 7 ≠ 8 by decide)
  simp only [firstCopy, writeAll_append, writeAll_cons, hwrite]

/-- Openers that are never closed nest, and keep the groups before them from being
spread. -/
theorem miscounts_of_opener (hk : m.text .opener = x :: r)
    (h : m.markAt? (x :: m.text .delimiter) = some .opener) : Miscounts m := by
  obtain ⟨hx, hrest, hkeep⟩ := taken hw hr hr' hd (by simp) hk h
  have hlast : Legible m [opener, text w, delimiter, delimiter, closer, text (w ++ [x])] :=
    ⟨hw.inert _, (hw.inert _).append hx, trivial⟩
  have hblock := legible_block hw (legible_mark .delimiter hlast)
  have hstart : Legible m (groupsNested w x).tokens :=
    ⟨hw.inert _, legible_block hw (legible_mark .closer (legible_gaps hw hblock 1))⟩
  have htight : Tight (groupsNested w x).tokens := by
    simp [groupsNested, Segment.pair, Selection.tokens, Segment.tokens, Tight, hw.ne_nil]
  -- the last group when it is spread, as it is read and as written
  let once := gaps 1 w ++ opener :: text r' :: (gaps 1 w ++ [text [x]])
  let back := gaps 2 w ++ opener :: text r' :: once
  let back' := gaps 2 w ++ text [x] :: delimiter :: (gaps 1 w ++ text [x] :: delimiter ::
    (gaps 1 w ++ [text [x]]))
  have hchar : Legible m [text [x]] := ⟨hx, trivial⟩
  have hchar' : Divided m [text [x]] := divided_text hx trivial
  have hinner : Legible m (opener :: text r' :: (gaps 1 w ++ [text [x]])) :=
    ⟨hrest _, legible_gaps hw hchar 1⟩
  have houter : Legible m (opener :: text r' :: once) := ⟨hrest _, legible_gaps hw hinner 1⟩
  have hback : Legible m back := legible_gaps hw houter 2
  have hback' : Divided m back' := divided_gaps hw (hkeep (divided_gaps hw (hkeep
    (divided_gaps hw hchar' 1)) 1)) 2
  have hwrite : writeAll m back' = writeAll m back := by simp [back, back', once, write, hk, hd]
  have ha : advance? (groupsNested w x).tokens = some (nestedSpread w [text w, text (w ++ [x]),
      delimiter, text (w ++ [x]), delimiter, text (w ++ [x])]) := by with_unfolding_all rfl
  have hpass : pass m ((groupsNested w x).write m) = some (writeAll m (nestedSpread w back)) :=
    pass_of_advance? ha hstart (by simp [nestedSpread, block, gaps, back, once, write, hk, hd])
  have hend : pass m (writeAll m (nestedSpread w back)) = none :=
    pass_eq_none_of_advance? (by with_unfolding_all rfl) (legible_nestedSpread hw hback)
  refine miscounts_of_end (groupsNested w x) (nestedSpread w back') (List.cons_ne_nil _ _) htight
    hstart (after_succ_of_pass m hpass 0) hend ?_ (divided_nestedSpread hw hback')
    (show 6 ≠ 7 by decide)
  simp only [nestedSpread, writeAll_append, writeAll_cons, hwrite]

end

/-- **Markers of which one has more than one character miscount some source.** -/
theorem miscounts_of_length {k : Mark} (h : (m.text k).length ≠ 1) : Miscounts m := by
  obtain ⟨x, q, hd⟩ := exists_cons_text m .delimiter
  by_cases hq : q = []
  · rw [hq] at hd
    obtain ⟨y, u, hk⟩ := exists_cons_text m k
    refine miscounts_of_single hd hk ?_
    rintro rfl
    exact h (by rw [hk]; rfl)
  · cases hm : m.markAt? (x :: m.text .delimiter) with
    | none => exact miscounts_of_quiet hd hq hm
    | some l =>
      obtain ⟨w, hw⟩ := exists_gap m
      cases l with
      | delimiter => exact miscounts_of_uniform hd hq (markAt?_eq_some hm)
      | closer =>
        obtain ⟨r, r', hr, hr', hl, hrr⟩ := exists_of_markAt?_cons hd (by simp) hm
        exact miscounts_of_closer hw hr hr' hrr hl hm
      | opener =>
        obtain ⟨r, r', hr, hr', hl, hrr⟩ := exists_of_markAt?_cons hd (by simp) hm
        exact miscounts_of_opener hw hr hr' hrr hl hm

/-- **The number of paths is the number of choices**, for every balanced source, just
where every marker is one character. Other markers have it for the sources whose passes
read back; they do if no text of the source ends as a marker begins. -/
theorem length_paths_eq_choices (m : Markers) :
    ((∀ s, s ≠ [] → balanced 0 (tokenize m s) = true → Counts m s) ↔
      ∀ k, (m.text k).length = 1) ∧
    (∀ s, s ≠ [] → balanced 0 (tokenize m s) = true → Seamless m s → Counts m s) ∧
    (∀ s, Blunt m (tokenize m s) → Seamless m s) := by
  refine ⟨⟨fun h k => ?_, fun hm s hs hbal => ?_⟩, fun s hs hbal h => h.counts hs hbal,
    fun s => seamless_of_blunt⟩
  · by_contra hk
    obtain ⟨s, hs, hbal, hcounts⟩ := miscounts_of_length hk
    exact hcounts (h s hs hbal)
  · have hblunt := blunt_of_clean (clean_tokenize_of_length hm s)
    exact (seamless_of_blunt hblunt).counts hs hbal

/-- Text may hold characters of markers, if only it does not end with one. -/
theorem length_paths_barred :
    Counts .angled ['<', '<', '|', 'a', '|', '|', 'b', '>', '>', '<', 'c'] ∧
      Counts .standard ['(', 'a', ',', 'b', ')', 'c'] := by
  constructor
  · have h := (length_paths_eq_choices .angled).2
    exact h.1 _ (by decide) (by decide) (h.2 _ (by decide))
  · refine (length_paths_eq_choices .standard).1.2 (fun k => ?_) _ (by decide) (by decide)
    cases k <;> rfl

/-- A source with one choice, of which a pass makes a delimiter. -/
def seam : Text := ['<', '<', 'a', '|', '>', '>', '|', 'b']

/-- The source stands for one choice and has two paths. -/
theorem paths_seam : ∃ sel : Selection, sel.tokens = tokenize .angled seam ∧ sel.choices = 1 ∧
    balanced 0 (tokenize .angled seam) = true ∧
    paths .angled [] (some seam) = .done [['a'], ['b']] := by
  refine ⟨.one (.group (.one (.text ['a', '|'] .nil)) (.text ['|', 'b'] .nil)), by decide,
    by decide, by decide, ?_⟩
  have hend : expand .angled none seam = .done ['a', '|', '|', 'b'] :=
    expand_none_of_end (n := 1) (by decide) (by decide)
  rw [paths_of_expand (by decide) hend]
  decide

end FieldSelection
