/-
# Spreading one group at a time

Instead of all groups that a scan of the source reports, one may be spread, any of them,
and the text that this makes scanned again. A strategy is a way to choose the group, such
as always the first.

Where no text has a character of a marker, a group spread in the source is a site spread
in its symbols (`SpreadsOne.spreads_symbols`), and the symbols settle the rest: whatever
is chosen, the strategy ends after the same number of groups, and in the text in which
the expansion ends (`expand_in_any_order`).

Key definitions: `spreadAt`, `SpreadsOne`, `spreadFirst`, `firstAfter`.
Key theorems: `exists_of_scan`, `SpreadsOne.spreads_symbols`, `expand_in_any_order`.
-/
import FieldSelection.Proofs.Order

namespace FieldSelection

open Token Expansion

/-! ### Bytes of a text -/

namespace Text

/-- The longest beginning of the text that takes at most `n` bytes. -/
def takeBytes : (n : Nat) → Text → Text
  | _, [] => []
  | n, c :: s => if c.utf8Size ≤ n then c :: takeBytes (n - c.utf8Size) s else []

/-- The text without its longest beginning that takes at most `n` bytes. -/
def dropBytes : (n : Nat) → Text → Text
  | _, [] => []
  | n, c :: s => if c.utf8Size ≤ n then dropBytes (n - c.utf8Size) s else c :: s

theorem takeBytes_append (s t : Text) : takeBytes s.byteLength (s ++ t) = s := by
  induction s with
  | nil =>
    cases t with
    | nil => rfl
    | cons c t =>
      have hc := c.utf8Size_pos
      rw [List.nil_append, byteLength_nil, takeBytes, if_neg (by omega)]
  | cons c s ih =>
    rw [List.cons_append, byteLength_cons, takeBytes, if_pos (by omega), Nat.add_sub_cancel_left,
      ih]

theorem dropBytes_append (s t : Text) : dropBytes s.byteLength (s ++ t) = t := by
  induction s with
  | nil =>
    cases t with
    | nil => rfl
    | cons c t =>
      have hc := c.utf8Size_pos
      rw [List.nil_append, byteLength_nil, dropBytes, if_neg (by omega)]
  | cons c s ih =>
    rw [List.cons_append, byteLength_cons, dropBytes, if_pos (by omega), Nat.add_sub_cancel_left,
      ih]

end Text

/-! ### One group of a source -/

section
variable (m : Markers)

/-- The source with the bytes of the span replaced by the group spread. -/
def spreadAt (s : Text) (g : Group) (span : Span) : Text :=
  s.takeBytes span.start ++ g.spread m ++ s.dropBytes span.stop

/-- The text is the source with one group spread, any that a scan reports. -/
def SpreadsOne (s t : Text) : Prop :=
  ∃ g span, (g, span) ∈ scan m s ∧ t = spreadAt m s g span

/-- The source with the first group spread that a scan reports, if it reports one. -/
def spreadFirst (s : Text) : Option Text :=
  (scan m s).head?.map fun found => spreadAt m s found.1 found.2

/-- The text after the first group has been spread `n` times, if that can be done. -/
def firstAfter : (n : Nat) → Text → Option Text
  | 0, s => some s
  | n + 1, s => (firstAfter n s).bind (spreadFirst m)

end

variable {m : Markers}

theorem SpreadsOne.of_spreadFirst {s t : Text} (h : spreadFirst m s = some t) :
    SpreadsOne m s t := by
  obtain ⟨⟨g, span⟩, hfound, rfl⟩ := Option.map_eq_some_iff.1 h
  exact ⟨g, span, List.mem_of_head? hfound, rfl⟩

theorem exists_spreadFirst {s : Text} (h : scan m s ≠ []) : ∃ t, spreadFirst m s = some t := by
  obtain ⟨found, rest, hscan⟩ := List.exists_cons_of_ne_nil h
  exact ⟨spreadAt m s found.1 found.2, by rw [spreadFirst, hscan]; rfl⟩

/-- The bytes of a located group are those of its tokens, behind those of the tokens
before it. -/
theorem exists_of_locatedGroups : ∀ {ps : List Piece} {start : Nat} {g : Group} {span : Span},
    (g, span) ∈ Piece.locatedGroups m start ps → ∃ a c, ps = a ++ .group g :: c ∧
      span.start = start + (writeAll m (a.flatMap Piece.tokens)).byteLength ∧
      span.stop = span.start + (writeAll m g.tokens).byteLength
  | [], _, _, _, h => by cases h
  | p :: ps, start, g, span, h => by
    rw [Piece.locatedGroups, List.mem_append] at h
    rcases h with h | h
    · cases p with
      | token t => cases h
      | group e =>
        have heq : (g, span) = (e, ⟨start, start + (writeAll m e.tokens).byteLength⟩) := by
          simpa [Piece.group?, Piece.tokens] using h
        cases heq
        exact ⟨[], ps, rfl, rfl, rfl⟩
    · obtain ⟨a, c, rfl, hstart, hstop⟩ := exists_of_locatedGroups h
      refine ⟨p :: a, c, rfl, ?_, hstop⟩
      rw [hstart, List.flatMap_cons, writeAll_append, Text.byteLength_append, Nat.add_assoc]

/-- **A scan reports sites**, each with the bytes that it takes. -/
theorem exists_of_scan {s : Text} {g : Group} {span : Span} (h : (g, span) ∈ scan m s) :
    ∃ x z, tokenize m s = x ++ (g.tokens ++ z) ∧ g.site.Stands x z ∧
      span.start = (writeAll m x).byteLength ∧
      span.stop = (writeAll m (x ++ g.tokens)).byteLength := by
  obtain ⟨a, c, hps, hstart, hstop⟩ := exists_of_locatedGroups h
  obtain ⟨z, hts, hstands⟩ := exists_of_pieces (tight_tokenize s) hps
  rw [Nat.zero_add] at hstart
  refine ⟨_, z, hts, hstands, hstart, ?_⟩
  rw [hstop, hstart, writeAll_append, Text.byteLength_append]

/-- A group spread in the source is a site spread in its tokens, written out. -/
theorem SpreadsOne.exists_spreads {s t : Text} (h : SpreadsOne m s t) :
    ∃ us, Spreads (tokenize m s) us ∧ t = writeAll m us := by
  obtain ⟨g, span, hg, rfl⟩ := h
  obtain ⟨x, z, hts, hstands, hstart, hstop⟩ := exists_of_scan hg
  have hread := read_symbols (m := m) s
  rw [symbols, hts] at hread
  have hs : s = writeAll m x ++ (writeAll m g.tokens ++ writeAll m z) := by
    rw [← writeAll_append, ← writeAll_append, ← hts, writeAll_tokenize]
  refine ⟨x ++ (g.site.spread ++ z), ⟨g.site, x, z, hstands, by rw [hts, g.tokens_site], rfl⟩, ?_⟩
  have htake : s.takeBytes span.start = writeAll m x := by
    rw [hs, hstart, Text.takeBytes_append]
  have hdrop : s.dropBytes span.stop = writeAll m z := by
    rw [hs, ← List.append_assoc, hstop, writeAll_append, Text.dropBytes_append]
  rw [spreadAt, htake, hdrop, writeAll_append, writeAll_append,
    writeAll_spread_of_read hstands.fits hread, List.append_assoc]

/-! ### From tokens to symbols -/

/-- Where a site may start it may with runs of text cut into characters. -/
theorem boundaryAfter_fine {x : List Token} (h : boundaryAfter true x = true) :
    boundaryAfter true (x.flatMap fine) = true := by
  rcases List.eq_nil_or_concat x with rfl | ⟨x, t, rfl⟩
  · rfl
  · rw [List.concat_eq_append, boundaryAfter_append] at h
    rw [List.concat_eq_append, List.flatMap_append, boundaryAfter_append]
    cases t with
    | text u => cases h
    | mark k => exact h

theorem Spreads.fine {ts us : List Token} (h : Spreads ts us) :
    Spreads (ts.flatMap Token.fine) (us.flatMap Token.fine) := by
  obtain ⟨p, x, z, hp, rfl, rfl⟩ := h
  refine ⟨p.fine, x.flatMap Token.fine, z.flatMap Token.fine,
    ⟨boundaryAfter_fine hp.front, hp.fits.fine⟩, ?_, ?_⟩
  · rw [List.flatMap_append, List.flatMap_append, p.tokens_fine]
  · rw [List.flatMap_append, List.flatMap_append, p.spread_fine]

/-- **A group spread in a source is a site spread in its symbols**, if no text of the
source has a character of a marker; nor has one then. -/
theorem SpreadsOne.spreads_symbols {s t : Text} (hc : Clean m (tokenize m s))
    (h : SpreadsOne m s t) : Clean m (tokenize m t) ∧ Spreads (symbols m s) (symbols m t) := by
  obtain ⟨us, hus, rfl⟩ := h.exists_spreads
  have hclean : Clean m us := fun u hu => (hus.mem hu).elim (hc u) (by simp)
  have hsymbols : symbols m (writeAll m us) = us.flatMap fine := by
    rw [← writeAll_flatMap_fine, symbols_writeAll (read_of_inert fun _ => inert_of_clean hclean)]
  constructor
  · rw [← clean_flatMap_fine_iff, ← symbols, hsymbols, clean_flatMap_fine_iff]
    exact hclean
  · rw [hsymbols]
    exact hus.fine

/-- Groups spread one after the other are sites spread one after the other. -/
theorem steps_symbols {k : Nat} {s t : Text} (h : Steps (SpreadsOne m) k s t) :
    Clean m (tokenize m s) → Steps Spreads k (symbols m s) (symbols m t) := by
  induction h with
  | refl s => exact fun _ => .refl _
  | head h _ ih =>
    intro hc
    obtain ⟨hc', hspreads⟩ := h.spreads_symbols hc
    exact .head hspreads (ih hc')

/-! ### All strategies -/

theorem not_spreads_of_scan {t : Text} (h : scan m t = []) (us : List Token) :
    ¬ Spreads (symbols m t) us := by
  rw [scan_eq_nil_iff, pass_eq, Option.map_eq_none_iff] at h
  exact not_spreads_of_advance? h us

/-- The first group can be spread as often as any group. -/
theorem exists_firstAfter {s : Text} {n : Nat}
    (h : ∀ k u, k < n → Steps (SpreadsOne m) k s u → scan m u ≠ []) :
    ∃ t, firstAfter m n s = some t ∧ Steps (SpreadsOne m) n s t := by
  induction n with
  | zero => exact ⟨s, rfl, .refl s⟩
  | succ n ih =>
    obtain ⟨u, hu, hsteps⟩ := ih fun k u hk => h k u (by omega)
    obtain ⟨t, ht⟩ := exists_spreadFirst (h n u (by omega) hsteps)
    exact ⟨t, by rw [firstAfter, hu, Option.bind_some, ht], hsteps.snoc (.of_spreadFirst ht)⟩

/-- **The order in which groups are spread does not matter.** Let no text of the source
have a character of a marker. Whichever groups are spread one after the other, they are
at most `n`; it is `n` of them just where a scan reports no more, and then the text is the
expansion. So it is if always the first is spread. -/
theorem expand_in_any_order (m : Markers) {s : Text} (h : Clean m (tokenize m s)) :
    ∃ n t, expand m none s = .done t ∧ scan m t = [] ∧ firstAfter m n s = some t ∧
      ∀ k u, Steps (SpreadsOne m) k s u →
        k ≤ n ∧ (scan m u = [] ↔ k = n) ∧ (scan m u = [] → u = t) := by
  have hseamless := seamless_of_blunt (blunt_of_clean h)
  obtain ⟨i, t, -, hafter, hend⟩ := hseamless.exists_end
  obtain ⟨n, hn⟩ := hseamless.exists_steps_after hafter
  have hscan : scan m t = [] := scan_eq_nil_iff.2 hend
  have hnormal := not_spreads_of_scan hscan
  -- what is missing of a way through the symbols leads to those of the expansion
  have hrest : ∀ {k u}, Steps (SpreadsOne m) k s u →
      k ≤ n ∧ Steps Spreads (n - k) (symbols m u) (symbols m t) := fun hu =>
    Steps.rest_of_normal Spreads.diamond hnormal (steps_symbols hu h) hn
  have hall : ∀ k u, Steps (SpreadsOne m) k s u →
      k ≤ n ∧ (scan m u = [] ↔ k = n) ∧ (scan m u = [] → u = t) := by
    intro k u hu
    obtain ⟨hle, hsteps⟩ := hrest hu
    have hdone : scan m u = [] → k = n ∧ u = t := by
      intro hnil
      obtain ⟨hk, heq⟩ := hsteps.of_normal (not_spreads_of_scan hnil)
      refine ⟨by omega, ?_⟩
      rw [← writeAll_symbols (m := m) u, heq, writeAll_symbols]
    refine ⟨hle, ⟨fun hnil => (hdone hnil).1, fun hk => ?_⟩, fun hnil => (hdone hnil).2⟩
    by_contra hne
    obtain ⟨v, hv⟩ := exists_spreadFirst hne
    have := (hrest (hu.snoc (.of_spreadFirst hv))).1
    omega
  obtain ⟨v, hv, hsteps⟩ := exists_firstAfter (m := m) (s := s) (n := n) fun k u hk hu hnil => by
    have := (hall k u hu).2.1.1 hnil
    omega
  obtain ⟨-, hnil, heq⟩ := hall n v hsteps
  rw [heq (hnil.2 rfl)] at hv
  exact ⟨n, t, expand_none_of_end hafter hend, hscan, hv, hall⟩

/-- A group of two groups, either of which may be spread first. -/
def stacked : Text := ['(', '(', 'a', ',', 'b', ')', ',', '(', 'c', ',', 'd', ')', ')', 'e']

/-- Whichever is, and whatever next, the end is the same. -/
theorem expand_in_any_order_stacked : (scan .standard stacked).length = 2 ∧
    ∀ k u, Steps (SpreadsOne .standard) k stacked u → scan .standard u = [] →
      expand .standard none stacked = .done u := by
  obtain ⟨n, t, hexpand, -, -, hall⟩ := expand_in_any_order .standard (s := stacked) (by decide)
  refine ⟨by decide, fun k u hu hnil => ?_⟩
  rw [hexpand, (hall k u hu).2.2 hnil]

end FieldSelection
