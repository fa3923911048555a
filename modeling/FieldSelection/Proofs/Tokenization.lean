/-
# The one tokenization

What a tokenization of a source is may be said without reading it from the left: spans that
cover the source without a gap, none of them empty and none that cuts a character, some of them
markers where the source has the marker, the others runs of text, with no marker that starts in
a run and no two runs side by side. `Tokenizes` says this from some byte on.

There is exactly one such list, the spans of the tokens (`tokenizes_iff_eq_extents`). It exists
because the runs of text that are read hold no marker (`legible_tokenize`). It is unique because
spans are cut from the source in one way, so that they are those of tokens that read back
(`Tokenizes.exists_tokens`); two markers that start at one place would make a second list, and
no marker begins another. For the same reason it does not matter which marker is looked for
first (`tokenizeTrying_eq`).

Key definitions: `Tiles`, `Tokenizes`, `Token.extents`, `Token.tokenizeTrying`.
Key theorems: `Tokenizes.exists_tokens`, `tokenizes_extents`,
`tokenizes_iff_eq_extents`.
-/
import Mathlib.Data.List.Chain
import FieldSelection.Proofs.Slice
import FieldSelection.Proofs.Symbols

namespace FieldSelection

open Token

namespace Text

/-- Where a text of three parts is cut inside the one in the middle. -/
theorem exists_of_between {x v t y z : Text} (h : x ++ (v ++ t) = y ++ z)
    (hstart : x.byteLength ≤ y.byteLength) (hstop : y.byteLength < x.byteLength + v.byteLength) :
    ∃ w c u, y = x ++ w ∧ v = w ++ c :: u ∧ z = c :: (u ++ t) := by
  obtain ⟨w, rfl, hw⟩ : ∃ w, y = x ++ w ∧ v ++ t = w ++ z := by
    rcases List.append_eq_append_iff.1 h with ⟨w, rfl, hw⟩ | ⟨w, rfl, hw⟩
    · exact ⟨w, rfl, hw⟩
    · have hnil : w = [] := by
        by_contra hne
        have := byteLength_pos hne
        rw [byteLength_append] at hstart
        omega
      subst hnil
      exact ⟨[], by simp, by simpa using hw.symm⟩
  rw [byteLength_append] at hstop
  rcases List.append_eq_append_iff.1 hw with ⟨u, rfl, -⟩ | ⟨u, rfl, rfl⟩
  · rw [byteLength_append] at hstop
    omega
  · cases u with
    | nil =>
      rw [List.append_nil] at hstop
      omega
    | cons c u => exact ⟨w, c, u, rfl, rfl, rfl⟩

end Text

/-! ### Tokenizations -/

/-- The spans follow one another without a gap, from byte `start` to byte `stop`. -/
def Tiles : (start stop : Nat) → List Span → Prop
  | start, stop, [] => start = stop
  | start, stop, r :: rs => r.start = start ∧ Tiles r.stop stop rs

/-- The spans with their marks, none for a run of text, are a tokenization of the source from
byte `start` on. -/
structure Tokenizes (m : Markers) (s : Text) (start : Nat) (rs : List (Option Mark × Span)) :
    Prop where
  tiles : Tiles start s.byteLength (rs.map Prod.snd)
  proper : ∀ r ∈ rs, r.2.start < r.2.stop
  whole : ∀ r ∈ rs, ∃ p, s.slice? r.2 = some p
  marker : ∀ k r, (some k, r) ∈ rs → s.slice? r = some (m.text k)
  apart : rs.IsChain fun a b => ¬ (a.1 = none ∧ b.1 = none)
  quiet : ∀ r, (none, r) ∈ rs → ∀ x y, s = x ++ y → r.start ≤ Text.byteLength x →
    Text.byteLength x < r.stop → ∀ k, ¬ m.text k <+: y

namespace Token

/-- What a token marks; nothing if it is a run of text. -/
def mark? : Token → Option Mark
  | mark k => some k
  | text _ => none

/-- The spans of tokens with what they mark, the first one starting at `start`. -/
def extentsFrom (m : Markers) (start : Nat) (ts : List Token) : List (Option Mark × Span) :=
  (located m start ts).map fun p => (p.1.mark?, p.2)

/-- The spans of the tokens of a source, with what they mark. -/
def extents (m : Markers) (s : Text) : List (Option Mark × Span) :=
  extentsFrom m 0 (tokenize m s)

theorem extentsFrom_cons (m : Markers) (start : Nat) (t : Token) (ts : List Token) :
    extentsFrom m start (t :: ts) = (t.mark?, ⟨start, start + (t.write m).byteLength⟩) ::
      extentsFrom m (start + (t.write m).byteLength) ts := rfl

end Token

variable {m : Markers} {s : Text}

/-- The tokenization behind its first token. -/
theorem Tokenizes.tail {start : Nat} {r : Option Mark × Span} {rs : List (Option Mark × Span)}
    (h : Tokenizes m s start (r :: rs)) : Tokenizes m s r.2.stop rs where
  tiles := h.tiles.2
  proper := fun q hq => h.proper q (List.mem_cons_of_mem _ hq)
  whole := fun q hq => h.whole q (List.mem_cons_of_mem _ hq)
  marker := fun k q hq => h.marker k q (List.mem_cons_of_mem _ hq)
  apart := h.apart.tail
  quiet := fun q hq => h.quiet q (List.mem_cons_of_mem _ hq)

/-- The first span of a tokenization reads a piece off the rest of the source. -/
theorem Tokenizes.exists_head {x y : Text} {r : Option Mark × Span}
    {rs : List (Option Mark × Span)} (h : Tokenizes m (x ++ y) x.byteLength (r :: rs)) :
    ∃ p z, y = p ++ z ∧ p ≠ [] ∧ r.2 = ⟨x.byteLength, x.byteLength + p.byteLength⟩ ∧
      (x ++ y).slice? r.2 = some p := by
  obtain ⟨p, hp⟩ := h.whole r List.mem_cons_self
  obtain ⟨x', z, hs, hr⟩ := Text.slice?_eq_some_iff.1 hp
  have hstart : r.2.start = x.byteLength := h.tiles.1
  have hlen : Text.byteLength x = Text.byteLength x' := by rw [← hstart, hr]
  obtain ⟨rfl, rfl⟩ := Text.append_inj_of_byteLength hs hlen
  refine ⟨p, z, rfl, ?_, hr, hp⟩
  rintro rfl
  have hproper := h.proper r List.mem_cons_self
  rw [hr] at hproper
  simp at hproper

/-- **Spans of a tokenization are those of tokens** that write the rest of the source and are
read back. -/
theorem Tokenizes.exists_tokens : ∀ {rs : List (Option Mark × Span)} {x y : Text},
    Tokenizes m (x ++ y) x.byteLength rs → ∃ ts, rs = extentsFrom m x.byteLength ts ∧
      writeAll m ts = y ∧ Tight ts ∧ Legible m ts
  | [], x, y, h => by
    have hlen : Text.byteLength x = Text.byteLength (x ++ y) := h.tiles
    have hy : y = [] := by
      by_contra hne
      have := Text.byteLength_pos hne
      rw [Text.byteLength_append] at hlen
      omega
    exact ⟨[], rfl, hy.symm, trivial, trivial⟩
  | r :: rs, x, y, h => by
    obtain ⟨p, z, rfl, hne, hr, hslice⟩ := h.exists_head
    have htail := h.tail
    rw [hr, ← List.append_assoc] at htail
    simp only at htail
    rw [← Text.byteLength_append] at htail
    obtain ⟨ts, rfl, rfl, htight, hlegible⟩ := htail.exists_tokens
    obtain ⟨mark?, span⟩ := r
    simp only at hr
    subst hr
    cases mark? with
    | some k =>
      have hk : p = m.text k :=
        Option.some.inj (hslice.symm.trans (h.marker k _ List.mem_cons_self))
      subst hk
      refine ⟨mark k :: ts, ?_, rfl, htight, hlegible⟩
      rw [extentsFrom_cons, Text.byteLength_append]
      rfl
    | none =>
      refine ⟨text p :: ts, ?_, rfl, ⟨hne, ?_, htight⟩, ?_, hlegible⟩
      · rw [extentsFrom_cons, Text.byteLength_append]
        rfl
      · rintro u us rfl
        have hapart := h.apart
        rw [extentsFrom_cons, List.isChain_cons_cons] at hapart
        exact hapart.1 ⟨rfl, rfl⟩
      · intro c u hu
        obtain ⟨w, rfl⟩ := hu
        refine Markers.markAt?_eq_none_iff.2 ?_
        have hc := c.utf8Size_pos
        apply h.quiet _ List.mem_cons_self (x ++ w)
        · simp
        · simp
        · simp
          omega

/-! ### The tokens of a source are one -/

namespace Token

theorem legible_consChar {c : Char} : ∀ {ts : List Token},
    m.markAt? (c :: writeAll m ts) = none → Legible m ts → Legible m (consChar c ts)
  | [], hc, h => by
    refine ⟨fun d u hu => ?_, h⟩
    obtain ⟨rfl, rfl⟩ : d = c ∧ u = [] := by simpa [List.suffix_cons_iff] using hu
    exact hc
  | mark k :: ts, hc, h => by
    refine ⟨fun d u hu => ?_, h⟩
    obtain ⟨rfl, rfl⟩ : d = c ∧ u = [] := by simpa [List.suffix_cons_iff] using hu
    exact hc
  | text v :: ts, hc, h => by
    refine ⟨fun d u hu => ?_, h.2⟩
    rcases List.suffix_cons_iff.1 hu with heq | hu
    · obtain ⟨rfl, rfl⟩ := List.cons.inj heq
      exact hc
    · exact h.1 d u hu

/-- No marker starts in a run of text that is read. -/
theorem legible_tokenize (s : Text) : Legible m (tokenize m s) := by
  induction s using source_induction (m := m) with
  | nil => trivial
  | marker k s ih => rw [tokenize_marker]; exact ih
  | char c s hc ih =>
    rw [tokenize_char hc]
    exact legible_consChar (by rwa [writeAll_tokenize]) ih

theorem write_ne_nil {t : Token} {ts : List Token} (h : Tight (t :: ts)) : t.write m ≠ [] := by
  cases t with
  | mark k => exact m.ne_nil k
  | text v => exact h.1

theorem tight_tail {t : Token} {ts : List Token} (h : Tight (t :: ts)) : Tight ts :=
  tight_of_append (x := [t]) h

theorem legible_tail {t : Token} {ts : List Token} (h : Legible m (t :: ts)) : Legible m ts := by
  cases t with
  | mark k => exact h
  | text v => exact h.2

end Token

/-- **Tokens that read back are a tokenization** of what they write, also behind a text. -/
theorem tokenizes_extentsFrom : ∀ {ts : List Token} {x : Text}, Tight ts → Legible m ts →
    Tokenizes m (x ++ writeAll m ts) x.byteLength (extentsFrom m x.byteLength ts)
  | [], x, _, _ => by
    have hend : Text.byteLength x = Text.byteLength (x ++ writeAll m []) := by
      rw [writeAll_nil, List.append_nil]
    exact ⟨hend, by simp [extentsFrom, located], by simp [extentsFrom, located],
      by simp [extentsFrom, located], .nil, by simp [extentsFrom, located]⟩
  | t :: ts, x, ht, hl => by
    have ih := @tokenizes_extentsFrom ts (x ++ t.write m) (tight_tail ht) (legible_tail hl)
    have hlen := Text.byteLength_pos (write_ne_nil (m := m) ht)
    have hslice := Text.slice?_append x (t.write m) (writeAll m ts)
    rw [List.append_assoc, Text.byteLength_append, ← writeAll_cons] at ih
    rw [← writeAll_cons] at hslice
    rw [extentsFrom_cons]
    refine ⟨⟨rfl, ih.tiles⟩, ?_, ?_, ?_, ?_, ?_⟩
    · rintro r (_ | ⟨_, hr⟩)
      · show x.byteLength < x.byteLength + (t.write m).byteLength
        omega
      · exact ih.proper r hr
    · rintro r (_ | ⟨_, hr⟩)
      · exact ⟨_, hslice⟩
      · exact ih.whole r hr
    · intro k r hr
      rcases List.mem_cons.1 hr with heq | hr
      · cases t with
        | mark l =>
          obtain ⟨hk, rfl⟩ := Prod.mk.inj heq
          obtain rfl := Option.some.inj hk
          exact hslice
        | text v => cases heq
      · exact ih.marker k r hr
    · cases ts with
      | nil => exact .singleton _
      | cons u us =>
        refine List.isChain_cons_cons.2 ⟨?_, ih.apart⟩
        rintro ⟨hmark, hmark'⟩
        cases t with
        | mark k => cases hmark
        | text v =>
          cases u with
          | mark k => cases hmark'
          | text w => exact ht.2.1 w us rfl
    · intro r hr
      rcases List.mem_cons.1 hr with heq | hr
      · cases t with
        | mark l => cases heq
        | text v =>
          obtain ⟨-, rfl⟩ := Prod.mk.inj heq
          intro y z hs hstart hstop k
          obtain ⟨w, c, u, rfl, rfl, rfl⟩ := Text.exists_of_between hs hstart hstop
          exact Markers.markAt?_eq_none_iff.1 (hl.1 c u (List.suffix_append w _)) k
      · exact ih.quiet r hr

/-! ### The order in which markers are looked for -/

/-- The first mark of the list whose marker starts the text, if one does. -/
def Markers.markTrying? (m : Markers) (order : List Mark) (s : Text) : Option Mark :=
  order.find? fun k => (m.text k).isPrefixOf s

/-- The tokens of a source where the marks are tried in the order of a list, once `skip`
characters that belong to the last marker are passed over. -/
def Token.tokenizeTrying (m : Markers) (order : List Mark) : (skip : Nat) → Text → List Token
  | _, [] => []
  | skip + 1, _ :: s => tokenizeTrying m order skip s
  | 0, c :: s =>
    match m.markTrying? order (c :: s) with
    | some k => mark k :: tokenizeTrying m order ((m.text k).length - 1) s
    | none => consChar c (tokenizeTrying m order 0 s)

/-- Two markers never start at one place, so the first one that is found is the only one. -/
theorem Markers.markTrying?_eq {order : List Mark} (h : ∀ k, k ∈ order) (s : Text) :
    m.markTrying? order s = m.markAt? s := by
  cases ht : m.markTrying? order s with
  | none =>
    refine (markAt?_eq_none_iff.2 fun k hk => ?_).symm
    have hnone := List.find?_eq_none.1 ht k (h k)
    exact hnone (List.isPrefixOf_iff_prefix.2 hk)
  | some k =>
    have hk : m.text k <+: s := by simpa using List.find?_some ht
    exact (markAt?_eq_some_iff.2 hk).symm

theorem Token.tokenizeTrying_eq {order : List Mark} (h : ∀ k, k ∈ order) :
    ∀ (skip : Nat) (s : Text), tokenizeTrying m order skip s = tokenizeFrom m skip s
  | _, [] => by rw [tokenizeTrying, tokenizeFrom]
  | skip + 1, _ :: s => by rw [tokenizeTrying, tokenizeFrom, tokenizeTrying_eq h skip s]
  | 0, c :: s => by
    rw [tokenizeTrying, tokenizeFrom, Markers.markTrying?_eq h]
    cases m.markAt? (c :: s) with
    | none => exact congrArg (consChar c) (tokenizeTrying_eq h 0 s)
    | some k => exact congrArg (mark k :: ·) (tokenizeTrying_eq h _ s)

/-! ### The tokenization -/

theorem tokenizes_extents (m : Markers) (s : Text) : Tokenizes m s 0 (extents m s) := by
  have h := tokenizes_extentsFrom (x := []) (tight_tokenize (m := m) s) (legible_tokenize s)
  rwa [List.nil_append, writeAll_tokenize] at h

theorem Tokenizes.eq_extents {rs : List (Option Mark × Span)} (h : Tokenizes m s 0 rs) :
    rs = extents m s := by
  obtain ⟨ts, hrs, hwrite, htight, hlegible⟩ := Tokenizes.exists_tokens (x := []) (y := s) h
  rw [hrs, extents, ← hwrite, tokenize_writeAll htight hlegible]
  rfl

/-- What is read at the spans of tokens is what they write. -/
theorem mapM_slice?_located : ∀ (ts : List Token) (x : Text),
    (located m x.byteLength ts).mapM (fun p => (x ++ writeAll m ts).slice? p.2) =
      some (ts.map (write m))
  | [], _ => rfl
  | t :: ts, x => by
    have ih := mapM_slice?_located ts (x ++ t.write m)
    have hslice := Text.slice?_append x (t.write m) (writeAll m ts)
    rw [List.append_assoc, Text.byteLength_append] at ih
    rw [located, List.mapM_cons, writeAll_cons]
    simp only [hslice, ih]
    rfl

/-- **A source has one tokenization**, and its tokens are it: spans tokenize the source if and
only if they are those of its tokens. The tokens are the same in whatever order the markers are
tried, and what is read at their spans, put together, is the source. -/
theorem tokenizes_iff_eq_extents (m : Markers) (s : Text) :
    (∀ rs, Tokenizes m s 0 rs ↔ rs = extents m s) ∧
      (∀ order, (∀ k, k ∈ order) → tokenizeTrying m order 0 s = tokenize m s) ∧
      ∃ pieces, (located m 0 (tokenize m s)).mapM (fun p => s.slice? p.2) = some pieces ∧
        pieces.flatten = s := by
  refine ⟨fun rs => ⟨fun h => h.eq_extents, ?_⟩, fun order h => tokenizeTrying_eq h 0 s,
    (tokenize m s).map (write m), ?_, ?_⟩
  · rintro rfl
    exact tokenizes_extents m s
  · have h := mapM_slice?_located (m := m) (tokenize m s) []
    rwa [List.nil_append, writeAll_tokenize] at h
  · rw [← List.flatMap_def]
    exact writeAll_tokenize s

end FieldSelection
