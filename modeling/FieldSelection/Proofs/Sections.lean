/-
# Sections of a source

The delimiters in a stretch of a source cut it into sections: one before the first, one between
each two, and one behind the last (`Span.between`). A section is a span of bytes. What is read
at the sections between two tokens is what the tokens there write, cut at the delimiters among
them (`mapM_slice?_sections`).

A group takes its alternatives from the text between its markers alone, and looks for the
delimiter from the front of that text. A delimiter that it finds could overlap another one, or
begin elsewhere than the tokens of the source have it. It does not: the alternatives are the
sections of the source between the group's opener and closer (`alternatives_eq_sections`). No
marker lies in one of them, nor in the text before the group.

Key definitions: `Span.between`, `Token.delimiterSpans`, `delimitersIn`, `sections`.
Key theorems: `mapM_slice?_between`, `mapM_slice?_sections`, `alternatives_eq_sections`.
-/
import FieldSelection.Proofs.Candidates
import FieldSelection.Proofs.Strategy

namespace FieldSelection

open Token

/-! ### Spans between spans -/

namespace Span

/-- Whether the span lies in the bytes from `start` to `stop`. -/
def within (start stop : Nat) (r : Span) : Bool := start ≤ r.start && r.stop ≤ stop

/-- What spans that follow one another leave of the bytes from `start` to `stop`. -/
def between : (start stop : Nat) → List Span → List Span
  | start, stop, [] => [⟨start, stop⟩]
  | start, stop, r :: rs => ⟨start, r.start⟩ :: between r.stop stop rs

theorem within_iff {start stop : Nat} {r : Span} :
    r.within start stop = true ↔ start ≤ r.start ∧ r.stop ≤ stop := by simp [within]

end Span

namespace Token

/-- The spans of the delimiters among located tokens. -/
def delimiterSpans (ts : List (Token × Span)) : List Span :=
  (ts.filter (·.1 = mark .delimiter)).map Prod.snd

theorem delimiterSpans_append (ts us : List (Token × Span)) :
    delimiterSpans (ts ++ us) = delimiterSpans ts ++ delimiterSpans us := by
  simp [delimiterSpans]

theorem delimiterSpans_delimiter (r : Span) (ts : List (Token × Span)) :
    delimiterSpans ((mark .delimiter, r) :: ts) = r :: delimiterSpans ts := rfl

theorem delimiterSpans_of_ne {t : Token} (h : t ≠ mark .delimiter) (r : Span)
    (ts : List (Token × Span)) : delimiterSpans ((t, r) :: ts) = delimiterSpans ts := by
  unfold delimiterSpans
  rw [List.filter_cons_of_neg (by simpa using h)]

theorem mem_delimiterSpans {r : Span} {ts : List (Token × Span)} :
    r ∈ delimiterSpans ts ↔ (mark .delimiter, r) ∈ ts := by
  simp [delimiterSpans]

end Token

/-- The spans of the delimiters of a source that lie in its bytes from `start` to `stop`. -/
def delimitersIn (m : Markers) (s : Text) (start stop : Nat) : List Span :=
  (delimiterSpans (located m 0 (tokenize m s))).filter (Span.within start stop)

/-- The spans that the delimiters of a source leave of its bytes from `start` to `stop`. -/
def sections (m : Markers) (s : Text) (start stop : Nat) : List Span :=
  Span.between start stop (delimitersIn m s start stop)

variable {m : Markers}

/-! ### Tokens in a stretch -/

namespace Token

theorem located_append (start : Nat) (x y : List Token) : located m start (x ++ y) =
    located m start x ++ located m (start + (writeAll m x).byteLength) y := by
  induction x generalizing start with
  | nil => simp [located]
  | cons t x ih =>
    rw [List.cons_append, located, located, ih, writeAll_cons, Text.byteLength_append,
      Nat.add_assoc]
    rfl

/-- A token stands behind the bytes of the tokens before it. -/
theorem mem_located_append (start : Nat) (x y : List Token) (t : Token) :
    (t, ⟨start + (writeAll m x).byteLength,
      start + (writeAll m x).byteLength + (t.write m).byteLength⟩) ∈
        located m start (x ++ t :: y) := by
  rw [located_append, located]
  simp

/-- A located token takes its bytes behind those of the tokens before it. -/
theorem mem_located {start : Nat} {ts : List Token} {t : Token} {r : Span}
    (h : (t, r) ∈ located m start ts) : start ≤ r.start ∧
      r.stop = r.start + (t.write m).byteLength ∧
      r.stop ≤ start + (writeAll m ts).byteLength := by
  induction ts generalizing start with
  | nil => cases h
  | cons u ts ih =>
    rw [located, List.mem_cons] at h
    rw [writeAll_cons, Text.byteLength_append]
    rcases h with heq | h
    · obtain ⟨rfl, rfl⟩ := Prod.mk.inj heq
      refine ⟨Nat.le_refl _, rfl, ?_⟩
      show start + (t.write m).byteLength ≤ _
      omega
    · have htail := ih h
      omega

theorem length_delimiterSpans_located (start : Nat) (ts : List Token) :
    (delimiterSpans (located m start ts)).length = ts.count (mark .delimiter) := by
  induction ts generalizing start with
  | nil => rfl
  | cons t ts ih =>
    by_cases ht : t = mark .delimiter
    · subst ht
      rw [located, delimiterSpans_delimiter, List.length_cons, ih, List.count_cons_self]
    · rw [located, delimiterSpans_of_ne ht, ih, List.count_cons_of_ne ht]

/-- A delimiter takes bytes. -/
theorem lt_of_mem_delimiterSpans {start : Nat} {ts : List Token} {r : Span}
    (h : r ∈ delimiterSpans (located m start ts)) : start ≤ r.start ∧ r.start < r.stop ∧
      r.stop ≤ start + (writeAll m ts).byteLength := by
  have hr := mem_located (mem_delimiterSpans.1 h)
  have hpos := Text.byteLength_pos (m.ne_nil .delimiter)
  have hstop : r.stop = r.start + (m.text .delimiter).byteLength := hr.2.1
  omega

end Token

/-- The delimiters between two tokens are those among the tokens there. -/
theorem delimitersIn_of_tokens {s : Text} {x y z : List Token}
    (h : tokenize m s = x ++ (y ++ z)) :
    delimitersIn m s (writeAll m x).byteLength
        ((writeAll m x).byteLength + (writeAll m y).byteLength) =
      delimiterSpans (located m (writeAll m x).byteLength y) := by
  unfold delimitersIn
  rw [h, located_append, located_append, Nat.zero_add, delimiterSpans_append,
    delimiterSpans_append, List.filter_append, List.filter_append]
  have hbefore : (delimiterSpans (located m 0 x)).filter (Span.within (writeAll m x).byteLength
      ((writeAll m x).byteLength + (writeAll m y).byteLength)) = [] := by
    refine List.filter_eq_nil_iff.2 fun r hr hin => ?_
    have hlt := lt_of_mem_delimiterSpans hr
    have hle := Span.within_iff.1 hin
    omega
  have hinside : (delimiterSpans (located m (writeAll m x).byteLength y)).filter
      (Span.within (writeAll m x).byteLength
        ((writeAll m x).byteLength + (writeAll m y).byteLength)) =
      delimiterSpans (located m (writeAll m x).byteLength y) := by
    refine List.filter_eq_self.2 fun r hr => Span.within_iff.2 ?_
    have hlt := lt_of_mem_delimiterSpans hr
    omega
  have hbehind : (delimiterSpans (located m ((writeAll m x).byteLength +
      (writeAll m y).byteLength) z)).filter (Span.within (writeAll m x).byteLength
        ((writeAll m x).byteLength + (writeAll m y).byteLength)) = [] := by
    refine List.filter_eq_nil_iff.2 fun r hr hin => ?_
    have hlt := lt_of_mem_delimiterSpans hr
    have hle := Span.within_iff.1 hin
    omega
  rw [hbefore, hinside, hbehind, List.nil_append, List.append_nil]

/-! ### What is read at sections -/

/-- **What is read between the delimiters of tokens** is what the tokens write, cut there. The
section at hand begins behind `x`, and `w` is what has been read of it. -/
theorem mapM_slice?_between : ∀ (ts : List Token) (x w z : Text),
    (Span.between x.byteLength (x.byteLength + w.byteLength + (writeAll m ts).byteLength)
        (delimiterSpans (located m (x.byteLength + w.byteLength) ts))).mapM
      (x ++ (w ++ (writeAll m ts ++ z))).slice? =
    some (((ts.splitOn (mark .delimiter)).map (writeAll m)).modifyHead (w ++ ·))
  | [], x, w, z => by
    have hslice := Text.slice?_append x w z
    simp [located, delimiterSpans, Span.between, hslice]
  | t :: ts, x, w, z => by
    obtain ⟨y, ys, hys⟩ := List.exists_cons_of_ne_nil (List.splitOn_ne_nil (mark .delimiter) ts)
    rw [List.splitOn_cons_eq_if_modifyHead, located, writeAll_cons, Text.byteLength_append]
    by_cases ht : t = mark .delimiter
    · subst ht
      have ih := mapM_slice?_between ts (x ++ (w ++ m.text .delimiter)) [] z
      have hslice := Text.slice?_append x w (m.text .delimiter ++ (writeAll m ts ++ z))
      simp only [Text.byteLength_append, Text.byteLength_nil, Nat.add_zero, List.append_assoc,
        List.nil_append, ← Nat.add_assoc, hys] at ih
      rw [delimiterSpans_delimiter, Span.between, List.mapM_cons]
      simp only [write, List.append_assoc, ← Nat.add_assoc, hslice, ih, hys]
      simp
    · have ih := mapM_slice?_between ts x (w ++ t.write m) z
      simp only [Text.byteLength_append, List.append_assoc, ← Nat.add_assoc] at ih
      rw [delimiterSpans_of_ne ht, if_neg (by simpa using ht)]
      simp only [List.append_assoc, ← Nat.add_assoc, ih, hys]
      simp

theorem eq_of_tokens {s : Text} {x y z : List Token} (h : tokenize m s = x ++ (y ++ z)) :
    s = writeAll m x ++ (writeAll m y ++ writeAll m z) := by
  rw [← writeAll_append, ← writeAll_append, ← h, writeAll_tokenize]

/-- **What is read at the sections between two tokens** is what the tokens there write, cut at
the delimiters among them. -/
theorem mapM_slice?_sections {s : Text} {x y z : List Token} (h : tokenize m s = x ++ (y ++ z)) :
    (sections m s (writeAll m x).byteLength
        ((writeAll m x).byteLength + (writeAll m y).byteLength)).mapM s.slice? =
      some ((y.splitOn (mark .delimiter)).map (writeAll m)) := by
  have hs := eq_of_tokens h
  have hread := mapM_slice?_between (m := m) y (writeAll m x) [] (writeAll m z)
  have hid : (fun v : Text => [] ++ v) = id := rfl
  rw [Text.byteLength_nil, Nat.add_zero, List.nil_append, ← hs, hid, List.modifyHead_id] at hread
  unfold sections
  rw [delimitersIn_of_tokens h, hread]
  rfl

/-! ### The text of a source between its markers -/

/-- No marker lies in a run of text. -/
theorem not_isInfix_of_mem {s v : Text} (h : text v ∈ tokenize m s) (k : Mark) :
    ¬ m.text k <:+: v := by
  rintro ⟨x, y, rfl⟩
  obtain ⟨c, u, hcu⟩ := m.exists_cons_text k
  have hsuffix : c :: (u ++ y) <:+ x ++ m.text k ++ y := by
    rw [hcu, List.append_assoc]
    exact List.suffix_append x _
  have hnone := markAt?_of_mem (read_symbols s) h hsuffix
  apply Markers.markAt?_eq_none_iff.1 hnone k
  rw [hcu, ← List.cons_append]
  exact List.prefix_append _ y

/-- No marker lies in what texts of a source write that stand side by side. -/
theorem not_isInfix_of_texts {s : Text} {x y z : List Token} (h : tokenize m s = x ++ (y ++ z))
    (hy : ∀ t ∈ y, t.isText = true) (k : Mark) : ¬ m.text k <:+: writeAll m y := by
  have htight : Tight (x ++ (y ++ z)) := h ▸ tight_tokenize s
  rcases eq_of_tight_texts (tight_of_append htight) hy with rfl | ⟨v, rfl⟩
  · intro hk
    exact m.ne_nil k (List.infix_nil.1 hk)
  · have hmem : text v ∈ tokenize m s := by
      rw [h]
      simp
    have hwrite : writeAll m [text v] = v := by simp [write]
    rw [hwrite]
    exact not_isInfix_of_mem hmem k

/-- A list stands in what it is put together to with others. -/
theorem isInfix_intercalate {α : Type} (sep : List α) {x : List α} : ∀ {xs : List (List α)},
    x ∈ xs → x <:+: sep.intercalate xs
  | [y], h => by
    rw [List.intercalate_singleton, List.mem_singleton.1 h]
  | y :: y' :: xs, h => by
    rw [List.intercalate_cons_cons]
    rcases List.mem_cons.1 h with rfl | h
    · rw [List.append_assoc]
      exact (List.prefix_append x _).isInfix
    · exact (isInfix_intercalate sep h).trans (List.suffix_append (y ++ sep) _).isInfix

section
variable {s : Text} {g : Group} {x z : List Token} (hts : tokenize m s = x ++ (g.tokens ++ z))
include hts

/-- The tokens of a source around the text before a group. -/
theorem tokenize_eq_lead : tokenize m s =
    x ++ (g.site.lead ++ mark .opener :: (g.content ++ mark .closer :: (g.trail ++ z))) := by
  rw [hts, ← g.tokens_site]
  simp [Site.tokens, Group.site]

/-- The tokens of a source around the content of a group. -/
theorem tokenize_eq_content : tokenize m s =
    (x ++ (g.site.lead ++ [mark .opener])) ++ (g.content ++ mark .closer :: (g.trail ++ z)) := by
  rw [tokenize_eq_lead hts]
  simp

variable (hfit : g.site.Fits z)
include hfit

theorem alternatives_of_tokenize : g.alternatives m = g.site.alternatives.map (writeAll m) := by
  have hread := read_symbols (m := m) s
  rw [symbols, tokenize_eq_content hts, List.flatMap_append] at hread
  exact Group.alternatives_eq hfit.content hread.of_append

/-- No marker lies in an alternative. -/
theorem not_isInfix_of_mem_alternatives {a : Text} (ha : a ∈ g.alternatives m) (k : Mark) :
    ¬ m.text k <:+: a := by
  rw [alternatives_of_tokenize hts hfit] at ha
  obtain ⟨piece, hpiece, rfl⟩ := List.mem_map.1 ha
  have hin : piece <:+: g.content := by
    have hjoined := isInfix_intercalate [mark .delimiter] hpiece
    rwa [Site.alternatives, List.intercalate_splitOn] at hjoined
  obtain ⟨u, v, huv⟩ := hin
  have halone : tokenize m s = (x ++ (g.site.lead ++ [mark .opener])) ++ u ++
      (piece ++ (v ++ mark .closer :: (g.trail ++ z))) := by
    rw [tokenize_eq_content hts, ← huv]
    simp
  exact not_isInfix_of_texts halone (hfit.texts hpiece) k

end

/-- **The alternatives of a group are its sections.** The source has its opener and closer right
behind the text before the group and right before the text after it. What is read between the
delimiters that the tokens of the source have there is what the group has as alternatives, one
more than delimiters. No marker lies in one of them or in the text before the group. -/
theorem alternatives_eq_sections (m : Markers) (s : Text) {g : Group} {span : Span}
    (h : (g, span) ∈ scan m s) : ∃ opened closed : Span,
      (mark .opener, opened) ∈ located m 0 (tokenize m s) ∧
      (mark .closer, closed) ∈ located m 0 (tokenize m s) ∧
      opened.start = span.start + g.leadText.byteLength ∧
      span.stop = closed.stop + (g.trailText m).byteLength ∧
      s.slice? ⟨opened.stop, closed.start⟩ = some (g.contentText m) ∧
      (sections m s opened.stop closed.start).mapM s.slice? = some (g.alternatives m) ∧
      (g.alternatives m).length = (delimitersIn m s opened.stop closed.start).length + 1 ∧
      ∀ k, ¬ m.text k <:+: g.leadText ∧ ∀ a ∈ g.alternatives m, ¬ m.text k <:+: a := by
  obtain ⟨x, z, hts, hstands, hstart, hstop⟩ := exists_of_scan h
  have hfit := hstands.fits
  have hparts := tokenize_eq_lead hts
  have hcontent := tokenize_eq_content hts
  have halt := alternatives_of_tokenize hts hfit
  have hsections := mapM_slice?_sections hcontent
  have hslice := Text.slice?_append (writeAll m (x ++ (g.site.lead ++ [mark .opener])))
    (g.contentText m) (writeAll m (mark .closer :: (g.trail ++ z)))
  rw [Group.contentText, ← eq_of_tokens hcontent] at hslice
  have hopened := mem_located_append (m := m) 0 (x ++ g.site.lead)
    (g.content ++ mark .closer :: (g.trail ++ z)) (mark .opener)
  have hclosed := mem_located_append (m := m) 0 (x ++ (g.site.lead ++ mark .opener :: g.content))
    (g.trail ++ z) (mark .closer)
  have hlead : writeAll m g.site.lead = g.leadText := g.writeAll_lead
  have hcount : (g.alternatives m).length = g.content.count (mark .delimiter) + 1 := by
    rw [halt, List.length_map]
    exact length_splitOn_delimiter g.content
  have hdelimiters := congrArg List.length (delimitersIn_of_tokens hcontent)
  rw [length_delimiterSpans_located] at hdelimiters
  -- all of this speaks of the same bytes, added up from the front of the source
  simp only [writeAll_append, writeAll_cons, writeAll_nil, List.append_nil, hlead, write,
    Text.byteLength_append, Nat.zero_add, ← Nat.add_assoc, List.append_assoc]
    at hsections hslice hopened hclosed hdelimiters
  refine ⟨⟨(writeAll m x).byteLength + g.leadText.byteLength, _⟩,
    ⟨(writeAll m x).byteLength + g.leadText.byteLength + (m.text .opener).byteLength +
      (g.contentText m).byteLength, (writeAll m x).byteLength + g.leadText.byteLength +
      (m.text .opener).byteLength + (g.contentText m).byteLength + (m.text .closer).byteLength⟩,
    hparts ▸ hopened, hparts ▸ hclosed, ?_, ?_, hslice, hsections.trans (congrArg some halt.symm),
    hcount.trans (congrArg (· + 1) hdelimiters.symm),
    fun k => ⟨?_, fun a ha => not_isInfix_of_mem_alternatives hts hfit ha k⟩⟩
  · rw [hstart]
  · rw [hstop, writeAll_append, g.writeAll_tokens]
    simp [Group.contentText, Nat.add_assoc]
  · rw [← hlead]
    exact not_isInfix_of_texts hparts hfit.lead k

/-- Markers of which each begins or ends as another one does, and a delimiter that overlaps
itself. -/
def Markers.barred : Markers :=
  .ofSound (show MarkerError.fault? (Mark.choose ['<', '|'] ['|', '>'] ['|', '|']) = none by decide)

/-- A group with a bar right behind its opener, three before its closer, and three in between. -/
def bars : Text := ['x', '<', '|', '|', 'a', '|', '|', '|', 'b', '|', '|', '|', '>', 'c']

/-- Which two of three bars are a delimiter is the same for the group as for the source. -/
theorem alternatives_eq_sections_bars : ∃ found ∈ scan .barred bars, ∃ start stop,
    bars.slice? ⟨start, stop⟩ = some ['|', 'a', '|', '|', '|', 'b', '|', '|'] ∧
    (sections .barred bars start stop).mapM bars.slice? = some [['|', 'a'], ['|', 'b'], []] := by
  let g : Group := ⟨some ['x'], [.text ['|', 'a'], .mark .delimiter, .text ['|', 'b'],
    .mark .delimiter], [.text ['c']]⟩
  have hfound : (g, ⟨0, 14⟩) ∈ scan .barred bars := by decide
  obtain ⟨opened, closed, -, -, -, -, hslice, hsections, -⟩ :=
    alternatives_eq_sections .barred bars hfound
  exact ⟨_, hfound, opened.stop, closed.start, hslice, hsections⟩

end FieldSelection
