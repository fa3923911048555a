/-
# What a scan reports

Where a group can be spread is a matter of the tokens around it, and may be said of their
indices: a `Candidate` starts at the front of the source or behind an opener or a delimiter,
has at most one run of text before its opener, closes with the next bracket, and nothing
behind it nests. The scan goes from the left and jumps behind each group that it finds. It
finds all candidates nonetheless, since none stands inside what another takes
(`exists_part_of_fits`, from `Site.Stands.same_or_apart`).

What goes with a group behind its closer is a `Run`: text, and stretches from an opener to the
first closer behind it. It is the longest there is (`Run.prefix_of_stops`), and it stops at an
end, at a delimiter, at a closer, or at an opener that is never closed.

Key definitions: `Token.Candidate`, `Token.Run`, `Token.EndsAt`, `Piece.placed`, `Reports`,
`splice?`.
Key theorems: `Candidate.exists_site`, `Site.Stands.candidate`, `locatedGroups_eq`,
`reports_of_mem_placed`, `splice?_scan`, `scan_reports_candidates`.
-/
import Mathlib.Data.List.Forall2
import FieldSelection.Proofs.Bracket
import FieldSelection.Proofs.Pass
import FieldSelection.Proofs.Run
import FieldSelection.Proofs.Slice

namespace FieldSelection

open Token

variable {m : Markers}

/-! ### Candidates -/

namespace Token

/-- A group can be spread whose text before it, or else its opener, stands at index `i`, its
opener at `o` and its closer at `c`. -/
structure Candidate (ts : List Token) (i o c : Nat) : Prop where
  start : i = 0 ∨ ∃ t, ts[i - 1]? = some t ∧ t.isBoundary = true
  lead : o = i ∨ o = i + 1 ∧ ∃ s, ts[i]? = some (text s)
  opener : ts[o]? = some (mark .opener)
  next : NextBracket ts o c
  closer : ts[c]? = some (mark .closer)
  flat : ∀ j k, c < j → ts[j]? = some (mark .opener) → NextBracket ts j k →
    ts[k]? ≠ some (mark .opener)

variable {ts : List Token}

theorem boundaryAfter_take {i : Nat} (h : i ≤ ts.length) :
    boundaryAfter true (ts.take i) = true ↔
      i = 0 ∨ ∃ t, ts[i - 1]? = some t ∧ t.isBoundary = true := by
  cases i with
  | zero => simp [boundaryAfter]
  | succ i =>
    have hi : ts[i]? = some ts[i] := List.getElem?_eq_getElem h
    rw [List.take_add_one, hi, Option.toList_some, boundaryAfter_append, Nat.add_sub_cancel, hi]
    simp [boundaryAfter]

theorem Candidate.le_length {i o c : Nat} (h : Candidate ts i o c) : i ≤ ts.length := by
  have ho : o < ts.length := (List.getElem?_eq_some_iff.1 h.opener).1
  rcases h.lead with heq | ⟨heq, -⟩ <;> omega

/-- Nothing nests behind the opener of a candidate. -/
theorem Candidate.flat_behind {i o c : Nat} (h : Candidate ts i o c) :
    nests (ts.drop (o + 1)) = false := by
  by_contra hn
  obtain ⟨j, k, hoj, hj, hk, hget⟩ := nests_drop_iff.1 (Bool.not_eq_false _ ▸ hn)
  rcases Nat.lt_trichotomy j c with hlt | rfl | hgt
  · have hfree := h.next.between j _ (by omega) hlt hj
    cases hfree
  · have hne := h.closer.symm.trans hj
    cases hne
  · exact h.flat j k hgt hj hk hget

/-- **A candidate is a site** that stands where the candidate starts. -/
theorem Candidate.exists_site {i o c : Nat} (h : Candidate ts i o c) :
    ∃ p z, ts = ts.take i ++ (p.tokens ++ z) ∧ Site.Stands p (ts.take i) z := by
  have hopener : (ts.drop i).dropWhile isText = mark .opener :: ts.drop (o + 1) := by
    rcases h.lead with rfl | ⟨rfl, s, hs⟩
    · rw [drop_eq_cons h.opener, List.dropWhile_cons_of_neg (by simp [isText])]
    · rw [drop_eq_cons hs, List.dropWhile_cons_of_pos rfl, drop_eq_cons h.opener,
        List.dropWhile_cons_of_neg (by simp [isText])]
  have hnearest : nearest? (ts.drop (o + 1)) = some .closer :=
    nearest?_drop_iff.2 ⟨c, h.next, h.closer⟩
  have hsite := site?_ne_none_iff.2 ⟨_, hopener, hnearest, h.flat_behind⟩
  obtain ⟨p, hp⟩ := Option.ne_none_iff_exists'.1 hsite
  obtain ⟨z, hz, hfit⟩ := exists_of_site? hp
  refine ⟨p, z, ?_, (boundaryAfter_take h.le_length).2 h.start, hfit⟩
  rw [← hz, List.take_append_drop]

/-- Texts side by side are at most one, if they are read. -/
theorem eq_of_tight_texts {x y : List Token} (h : Tight (x ++ y))
    (hx : ∀ t ∈ x, t.isText = true) : x = [] ∨ ∃ s, x = [text s] := by
  cases x with
  | nil => exact .inl rfl
  | cons t x =>
    cases t with
    | mark k =>
      have hk := hx (mark k) List.mem_cons_self
      cases hk
    | text s =>
      cases x with
      | nil => exact .inr ⟨s, rfl⟩
      | cons u x =>
        cases u with
        | mark k =>
          have hk := hx (mark k) (by simp)
          cases hk
        | text v => exact absurd rfl (h.2.1 v (x ++ y))

end Token

/-- **A site that stands in tokens is a candidate.** -/
theorem Site.Stands.candidate {p : Site} {x z : List Token} (h : p.Stands x z)
    (ht : Tight (x ++ (p.tokens ++ z))) :
    Candidate (x ++ (p.tokens ++ z)) x.length (x.length + p.lead.length)
      (x.length + p.lead.length + 1 + p.content.length) := by
  have hfit := h.fits
  have hdrop : (x ++ (p.tokens ++ z)).drop x.length =
      p.lead ++ mark .opener :: (p.content ++ mark .closer :: (p.trail ++ z)) := by
    rw [List.drop_left]
    simp [Site.tokens]
  have hopener := getElem?_of_drop hdrop
  have hcontent : (x ++ (p.tokens ++ z)).drop (x.length + p.lead.length + 1) =
      p.content ++ mark .closer :: (p.trail ++ z) := drop_of_drop hdrop
  have hcloser := getElem?_of_drop hcontent
  refine ⟨?_, ?_, hopener, nextBracket_of_drop hcontent hfit.content rfl, hcloser, ?_⟩
  · have hfront := h.front
    have hi : x.length ≤ (x ++ (p.tokens ++ z)).length := by simp
    refine (boundaryAfter_take hi).1 ?_
    rwa [List.take_left]
  · have htight := tight_of_append ht
    rw [Site.tokens, List.append_assoc] at htight
    rcases eq_of_tight_texts htight hfit.lead with hlead | ⟨s, hlead⟩
    · left
      simp [hlead]
    · right
      refine ⟨by simp [hlead], s, ?_⟩
      rw [hlead, List.singleton_append] at hdrop
      exact getElem?_of_drop (x := []) hdrop
  · intro j k hcj hj hk hget
    have hrest : (x ++ (p.tokens ++ z)).drop (x.length + p.lead.length + 1 + p.content.length + 1) =
        p.trail ++ z := drop_of_drop hcontent
    have hnests := nests_drop_iff.2 ⟨j, k, hcj, hj, hk, hget⟩
    rw [hrest, nests_trail_append hfit.trail, hfit.flat] at hnests
    cases hnests

/-! ### The scan misses none -/

/-- A site that stands in the tokens is among the parts of their cut. -/
theorem exists_part_of_fits {p : Site} {z : List Token} (h : p.Fits z) {b : Bool}
    {ts : List Token} : ∀ {x : List Token}, ts = x ++ (p.tokens ++ z) →
      boundaryAfter b x = true →
      ∃ a c, cut b ts = a ++ .site p :: c ∧ a.flatMap Part.tokens = x := by
  obtain ⟨u, us, hus⟩ := p.tokens_eq_cons
  induction b, ts using cut_induction with
  | nil b =>
    intro x hts _
    rw [hus] at hts
    simp at hts
  | token b t ts hnone ih =>
    intro x hts hb
    cases x with
    | nil =>
      have hp := h.eq_front
      rw [← List.nil_append (p.tokens ++ z), ← hts, hnone hb] at hp
      cases hp
    | cons t' x =>
      obtain ⟨rfl, htail⟩ := List.cons.inj hts
      obtain ⟨a, c, hcut, hx⟩ := ih htail hb
      refine ⟨.token t :: a, c, ?_, ?_⟩
      · rw [cut_token hnone, hcut, List.cons_append]
      · rw [List.flatMap_cons, hx]
        rfl
  | site q rest hq ih =>
    intro x hts hb
    have hfirst : q.Stands [] rest := ⟨rfl, hq⟩
    rcases hfirst.same_or_apart ⟨hb, h⟩ hts with
      ⟨rfl, rfl, rfl⟩ | ⟨y, rfl, hrest⟩ | ⟨y, hnil, -⟩
    · exact ⟨[], cut false rest, cut_site hq, rfl⟩
    · rw [List.nil_append, boundaryAfter_append, boundaryAfter_site hq.trail] at hb
      obtain ⟨a, c, hcut, hy⟩ := ih hrest hb
      refine ⟨.site q :: a, c, ?_, ?_⟩
      · rw [cut_site hq, hcut, List.cons_append]
      · rw [List.flatMap_cons, hy]
        rfl
    · rw [hus] at hnil
      simp at hnil

namespace Piece

/-- The groups among the pieces, each with the index of the token at which it starts, the
first piece starting at index `i`. -/
def placed : (i : Nat) → List Piece → List (Nat × Group)
  | _, [] => []
  | i, p :: ps => (p.group?.map (i, ·)).toList ++ placed (i + p.tokens.length) ps

theorem placed_token (i : Nat) (t : Token) (ps : List Piece) :
    placed i (.token t :: ps) = placed (i + 1) ps := rfl

theorem placed_group (i : Nat) (g : Group) (ps : List Piece) :
    placed i (.group g :: ps) = (i, g) :: placed (i + g.tokens.length) ps := rfl

theorem mem_placed_iff {j : Nat} {g : Group} : ∀ {ps : List Piece} {i : Nat},
    (j, g) ∈ placed i ps ↔
      ∃ a c, ps = a ++ .group g :: c ∧ j = i + (a.flatMap tokens).length
  | [], i => by simp [placed]
  | .token t :: ps, i => by
    rw [placed_token, mem_placed_iff]
    constructor
    · rintro ⟨a, c, rfl, rfl⟩
      refine ⟨.token t :: a, c, rfl, ?_⟩
      simp [tokens]
      omega
    · rintro ⟨a, c, hps, rfl⟩
      cases a with
      | nil => cases hps
      | cons q a =>
        obtain ⟨rfl, rfl⟩ := List.cons.inj hps
        refine ⟨a, c, rfl, ?_⟩
        simp [tokens]
        omega
  | .group e :: ps, i => by
    rw [placed_group, List.mem_cons, mem_placed_iff]
    constructor
    · rintro (heq | ⟨a, c, rfl, rfl⟩)
      · obtain ⟨rfl, rfl⟩ := Prod.mk.inj heq
        exact ⟨[], ps, rfl, rfl⟩
      · refine ⟨.group e :: a, c, rfl, ?_⟩
        simp [tokens]
        omega
    · rintro ⟨a, c, hps, rfl⟩
      cases a with
      | nil =>
        cases hps
        exact .inl rfl
      | cons q a =>
        obtain ⟨rfl, rfl⟩ := List.cons.inj hps
        refine .inr ⟨a, c, rfl, ?_⟩
        simp [tokens]
        omega

/-- Each group starts behind the ones before it. -/
theorem pairwise_placed : ∀ (ps : List Piece) (i : Nat),
    (placed i ps).Pairwise fun a b => a.1 + a.2.tokens.length ≤ b.1
  | [], _ => .nil
  | .token t :: ps, i => pairwise_placed ps (i + 1)
  | .group g :: ps, i => by
    refine List.pairwise_cons.2 ⟨?_, pairwise_placed ps (i + g.tokens.length)⟩
    rintro ⟨j, e⟩ hj
    obtain ⟨a, c, -, rfl⟩ := mem_placed_iff.1 hj
    exact Nat.le_add_right _ _

/-- The bytes of the located groups are those between offsets of tokens. -/
theorem locatedGroups_eq : ∀ (ps : List Piece) (x : List Token),
    locatedGroups m (writeAll m x).byteLength ps = (placed x.length ps).map fun q =>
      (q.2, ⟨offset m (x ++ ps.flatMap tokens) q.1,
        offset m (x ++ ps.flatMap tokens) (q.1 + q.2.tokens.length)⟩)
  | [], _ => rfl
  | p :: ps, x => by
    have ih := locatedGroups_eq ps (x ++ p.tokens)
    have hlist : x ++ (p :: ps).flatMap tokens = x ++ p.tokens ++ ps.flatMap tokens := by
      rw [List.flatMap_cons, List.append_assoc]
    have hstart : offset m (x ++ (p :: ps).flatMap tokens) x.length =
        (writeAll m x).byteLength := offset_append m _ _
    have hstop : offset m (x ++ (p :: ps).flatMap tokens) (x.length + p.tokens.length) =
        (writeAll m x).byteLength + (writeAll m p.tokens).byteLength := by
      rw [hlist, ← List.length_append, offset_append, writeAll_append, Text.byteLength_append]
    rw [writeAll_append, Text.byteLength_append, List.length_append, ← hlist] at ih
    cases p with
    | token t => rw [locatedGroups, ih]; rfl
    | group g =>
      rw [locatedGroups, ih, placed_group, List.map_cons]
      simp only [tokens] at hstart hstop
      rw [hstart, hstop]
      rfl

end Piece

/-- A cut leaves no token out. -/
theorem flatMap_tokens_cut (b : Bool) (ts : List Token) :
    (cut b ts).flatMap Part.tokens = ts := by
  induction b, ts using cut_induction with
  | nil b => rw [cut_nil]; rfl
  | token b t ts h ih => rw [cut_token h, List.flatMap_cons, ih]; rfl
  | site p rest h ih => rw [cut_site h, List.flatMap_cons, ih]; rfl

theorem flatMap_tokens_pieces {ts : List Token} (ht : Tight ts) :
    (pieces ts).flatMap Piece.tokens = ts := by
  have hparts : (pieces ts).flatMap Piece.tokens = (cut true ts).flatMap Part.tokens := by
    rw [← map_part_pieces ht, List.flatMap_map]
    exact List.flatMap_congr fun p _ => p.tokens_part.symm
  rw [hparts, flatMap_tokens_cut]

/-- **The groups of the pieces start where candidates do.** -/
theorem mem_placed_pieces_iff {ts : List Token} (ht : Tight ts) {i : Nat} :
    (∃ g, (i, g) ∈ Piece.placed 0 (pieces ts)) ↔ ∃ o c, Candidate ts i o c := by
  constructor
  · rintro ⟨g, hg⟩
    obtain ⟨a, c, hps, rfl⟩ := Piece.mem_placed_iff.1 hg
    obtain ⟨z, hts, hstands⟩ := exists_of_pieces ht hps
    rw [← g.tokens_site] at hts
    have hcand := hstands.candidate (hts ▸ ht)
    rw [← hts] at hcand
    rw [Nat.zero_add]
    exact ⟨_, _, hcand⟩
  · rintro ⟨o, c, h⟩
    obtain ⟨p, z, hts, hstands⟩ := h.exists_site
    obtain ⟨a, d, hcut, ha⟩ := exists_part_of_fits hstands.fits hts hstands.front
    rw [← map_part_pieces ht] at hcut
    obtain ⟨a, e, hps, rfl, he⟩ := List.map_eq_append_iff.1 hcut
    obtain ⟨q, d, rfl, hq, -⟩ := List.map_eq_cons_iff.1 he
    cases q with
    | token t => cases hq
    | group g =>
      refine ⟨g, Piece.mem_placed_iff.2 ⟨a, d, hps, ?_⟩⟩
      have hlen : (a.flatMap Piece.tokens).length = (ts.take i).length := by
        rw [← ha, List.flatMap_map]
        exact congrArg List.length (List.flatMap_congr fun p _ => p.tokens_part.symm)
      rw [hlen, List.length_take, Nat.min_eq_left h.le_length, Nat.zero_add]

/-! ### What goes with a group -/

namespace Token

/-- Text, and stretches from an opener to the first closer behind it. -/
inductive Run : List Token → Prop
  | nil : Run []
  | text (s : Text) {ts : List Token} (h : Run ts) : Run (text s :: ts)
  | stretch {x ts : List Token} (hx : mark .closer ∉ x) (h : Run ts) :
      Run (mark .opener :: (x ++ mark .closer :: ts))

/-- At index `e` the tokens end, or there is a delimiter, a closer, or an opener behind which
nothing closes. -/
def EndsAt (ts : List Token) (e : Nat) : Prop :=
  ts[e]? = none ∨ ts[e]? = some (mark .delimiter) ∨ ts[e]? = some (mark .closer) ∨
    ts[e]? = some (mark .opener) ∧ ∀ k, e < k → ts[k]? ≠ some (mark .closer)

theorem not_mem_of_free {k : Mark} {x : List Token} (h : ∀ t ∈ x, t.isBracket = false)
    (hk : (mark k).isBracket = true) : mark k ∉ x := by
  intro hmem
  have hfree := h _ hmem
  rw [hk] at hfree
  cases hfree

theorem Trail.run {x : List Token} (h : Trail x) : Run x := by
  induction h with
  | nil => exact .nil
  | text s _ ih => exact .text s ih
  | group hc _ ih => exact .stretch (not_mem_of_free hc rfl) ih

/-- In a trail an opener is closed by the next bracket. -/
theorem Trail.exists_closer {w : List Token} (h : Trail w) : ∀ {x y : List Token},
    w = x ++ mark .opener :: y →
      ∃ u v, y = u ++ mark .closer :: v ∧ ∀ t ∈ u, t.isBracket = false := by
  induction h with
  | nil => intro x y hw; simp at hw
  | text s _ ih =>
    intro x y hw
    cases x with
    | nil => cases hw
    | cons t x => exact ih (List.cons.inj hw).2
  | @group content ts hc _ ih =>
    intro x y hw
    cases x with
    | nil => exact ⟨content, ts, (List.cons.inj hw).2.symm, hc⟩
    | cons t x =>
      have hrest := (List.cons.inj hw).2
      -- the opener is none of the content nor the closer, so it stands behind them
      rcases List.append_eq_append_iff.1 hrest with ⟨d, rfl, hd⟩ | ⟨d, rfl, hd⟩
      · cases d with
        | nil => cases hd
        | cons u d => exact ih (List.cons.inj hd).2
      · cases d with
        | nil => cases hd
        | cons u d =>
          obtain ⟨rfl, -⟩ := List.cons.inj hd
          exact absurd (by simp) (not_mem_of_free (k := .opener) hc rfl)

/-- Only one of the tokens like it is the first. -/
theorem append_cons_inj_of_not_mem {t : Token} {x x' y y' : List Token} (hx : t ∉ x) (hx' : t ∉ x')
    (h : x ++ t :: y = x' ++ t :: y') : x = x' ∧ y = y' := by
  rcases List.append_eq_append_iff.1 h with ⟨d, rfl, hd⟩ | ⟨d, rfl, hd⟩
  · cases d with
    | nil => exact ⟨(List.append_nil x).symm, (List.cons.inj hd).2⟩
    | cons u d =>
      obtain ⟨rfl, -⟩ := List.cons.inj hd
      exact absurd (by simp) hx'
  · cases d with
    | nil => exact ⟨List.append_nil x', (List.cons.inj hd).2.symm⟩
    | cons u d =>
      obtain ⟨rfl, -⟩ := List.cons.inj hd
      exact absurd (by simp) hx

/-- **A run up to tokens that stop it is the longest.** -/
theorem Run.prefix_of_stops {x y z : List Token} (hy : Run y) (hx : Run x) (hz : Stops z) :
    y <+: x ++ z → y <+: x := by
  induction hy generalizing x with
  | nil => exact fun _ => List.nil_prefix
  | text s _ ih =>
    rintro ⟨r, hr⟩
    cases hx with
    | nil =>
      rw [List.nil_append] at hr
      exact absurd (hr ▸ hz) (not_stops_text s _)
    | text s' hx =>
      obtain ⟨hs, hr⟩ := List.cons.inj hr
      exact List.cons_prefix_cons.2 ⟨hs, ih hx ⟨r, hr⟩⟩
    | stretch _ _ => cases hr
  | @stretch w y hw _ ih =>
    rintro ⟨r, hr⟩
    cases hx with
    | nil =>
      rw [List.nil_append, List.cons_append] at hr
      rw [← hr, stops_opener] at hz
      exact absurd (by simp) hz
    | text s' hx => cases hr
    | @stretch w' x hw' hx =>
      rw [List.cons_append, List.cons_append, List.cons.injEq, List.append_assoc,
        List.append_assoc] at hr
      obtain ⟨rfl, hy⟩ := append_cons_inj_of_not_mem hw hw' hr.2
      refine List.cons_prefix_cons.2 ⟨rfl, (List.prefix_append_right_inj _).2 ?_⟩
      exact List.cons_prefix_cons.2 ⟨rfl, ih hx ⟨r, hy⟩⟩

/-- Tokens that stop a trail are of one of four kinds. -/
theorem Stops.endsAt {z : List Token} (h : Stops z) (x : List Token) :
    EndsAt (x ++ z) x.length := by
  have hget : ∀ i, (x ++ z)[x.length + i]? = z[i]? := fun i => by
    rw [List.getElem?_append_right (by omega), Nat.add_sub_cancel_left]
  have hfirst := hget 0
  rw [Nat.add_zero] at hfirst
  unfold EndsAt
  rw [hfirst]
  match z, h with
  | [], _ => exact .inl rfl
  | text s :: z, h => exact absurd h (not_stops_text s z)
  | mark .delimiter :: _, _ => exact .inr (.inl rfl)
  | mark .closer :: _, _ => exact .inr (.inr (.inl rfl))
  | mark .opener :: z, h =>
    refine .inr (.inr (.inr ⟨rfl, fun k hk hclose => stops_opener.1 h ?_⟩))
    obtain ⟨d, rfl⟩ : ∃ d, k = x.length + (d + 1) := ⟨k - x.length - 1, by omega⟩
    rw [hget, List.getElem?_cons_succ] at hclose
    exact List.mem_of_getElem? hclose

end Token

/-! ### What is reported -/

/-- What a scan reports of a group with the bytes that it takes: which tokens it consists of,
how far it goes, and what is read at its spans. -/
structure Reports (m : Markers) (s : Text) (i o c e : Nat) (g : Group) (span : Span) : Prop where
  candidate : Candidate (tokenize m s) i o c
  lead : (tokenize m s).extract i o = (g.lead.map text).toList
  content : (tokenize m s).extract (o + 1) c = g.content
  trail : (tokenize m s).extract (c + 1) e = g.trail
  free : ∀ t ∈ g.content, t.isBracket = false
  run : Run g.trail
  longest : ∀ x, Run x → x <+: (tokenize m s).drop (c + 1) → x <+: g.trail
  ends : EndsAt (tokenize m s) e
  closed : ∀ x y, g.trail = x ++ mark .opener :: y →
    ∃ u v, y = u ++ mark .closer :: v ∧ ∀ t ∈ u, t.isBracket = false
  span_eq : span = ⟨offset m (tokenize m s) i, offset m (tokenize m s) e⟩
  proper : span.start < span.stop
  leadSlice : s.slice? ⟨offset m (tokenize m s) i, offset m (tokenize m s) o⟩ = some g.leadText
  contentSlice : s.slice? ⟨offset m (tokenize m s) (o + 1), offset m (tokenize m s) c⟩ =
    some (g.contentText m)
  trailSlice : s.slice? ⟨offset m (tokenize m s) (c + 1), offset m (tokenize m s) e⟩ =
    some (g.trailText m)
  slice : s.slice? span = some (g.leadText ++ m.text .opener ++ g.contentText m ++
    m.text .closer ++ g.trailText m)

theorem Group.writeAll_lead (g : Group) :
    writeAll m ((g.lead.map text).toList) = g.leadText := by
  cases h : g.lead <;> simp [leadText, h, write]

theorem Group.writeAll_tokens (g : Group) : writeAll m g.tokens =
    g.leadText ++ m.text .opener ++ g.contentText m ++ m.text .closer ++ g.trailText m := by
  simp [tokens, writeAll_lead, contentText, trailText, write]

/-- What is read between the offsets of two tokens is what the tokens between them write. -/
theorem slice?_extract {s : Text} {i j : Nat} (h : i ≤ j) {us : List Token}
    (hus : (tokenize m s).extract i j = us) :
    s.slice? ⟨offset m (tokenize m s) i, offset m (tokenize m s) j⟩ = some (writeAll m us) := by
  have hslice := slice?_offset (m := m) (tokenize m s) h
  rw [writeAll_tokenize] at hslice
  rw [hslice, ← hus]

theorem extract_eq {ts x y z : List Token} {i j : Nat} (h : ts = x ++ (y ++ z))
    (hi : i = x.length) (hj : j = i + y.length) : ts.extract i j = y := by
  subst h hi hj
  simp

theorem Group.length_tokens (g : Group) : g.tokens.length =
    g.site.lead.length + 1 + g.content.length + 1 + g.trail.length := by
  rw [← g.tokens_site]
  simp [Site.tokens, Group.site]
  omega

/-- The tokens of a group with the index `o` of its opener and `c` of its closer. -/
theorem Group.extract_parts {g : Group} {ts x z : List Token} {o c : Nat}
    (h : ts = x ++ (g.tokens ++ z)) (ho : o = x.length + g.site.lead.length)
    (hc : c = o + 1 + g.content.length) :
    ts.extract x.length o = g.site.lead ∧ ts.extract (o + 1) c = g.content ∧
      ts.extract (c + 1) (x.length + g.tokens.length) = g.trail ∧
      ts.drop (c + 1) = g.trail ++ z := by
  have hlen := g.length_tokens
  have hlead : ts = x ++ (g.site.lead ++
      mark .opener :: (g.content ++ mark .closer :: (g.trail ++ z))) := by
    rw [h, ← g.tokens_site]
    simp [Site.tokens, Group.site]
  have hcontent : ts = (x ++ (g.site.lead ++ [mark .opener])) ++
      (g.content ++ mark .closer :: (g.trail ++ z)) := by
    rw [hlead]
    simp
  have htrail : ts = (x ++ (g.site.lead ++ mark .opener :: (g.content ++ [mark .closer]))) ++
      (g.trail ++ z) := by
    rw [hlead]
    simp
  refine ⟨extract_eq hlead rfl ho, extract_eq hcontent ?_ hc, extract_eq htrail ?_ ?_, ?_⟩
  · simp
    omega
  · simp
    omega
  · omega
  · rw [htrail]
    refine List.drop_left' ?_
    simp
    omega

/-- **Every group that is reported is as it should be.** -/
theorem reports_of_mem_placed {s : Text} {i : Nat} {g : Group}
    (h : (i, g) ∈ Piece.placed 0 (pieces (tokenize m s))) :
    ∃ o c, Reports m s i o c (i + g.tokens.length) g
      ⟨offset m (tokenize m s) i, offset m (tokenize m s) (i + g.tokens.length)⟩ := by
  have ht := tight_tokenize (m := m) s
  obtain ⟨a, d, hps, rfl⟩ := Piece.mem_placed_iff.1 h
  obtain ⟨z, hts, hstands⟩ := exists_of_pieces ht hps
  rw [Nat.zero_add]
  generalize a.flatMap Piece.tokens = x at hts hstands
  have hfit := hstands.fits
  have hcand : Candidate (tokenize m s) x.length (x.length + g.site.lead.length)
      (x.length + g.site.lead.length + 1 + g.content.length) := by
    rw [← g.tokens_site] at hts
    have hcand := hstands.candidate (hts ▸ ht)
    rwa [← hts] at hcand
  obtain ⟨hlead, hcontent, htrail, hdrop⟩ := Group.extract_parts hts rfl rfl
  have hall : (tokenize m s).extract x.length (x.length + g.tokens.length) = g.tokens :=
    extract_eq hts rfl rfl
  have hslice := slice?_extract (Nat.le_add_right _ _) hall
  have hlen : x.length + g.site.lead.length + 1 + g.content.length + 1 ≤
      x.length + g.tokens.length := by
    rw [g.length_tokens]
    omega
  refine ⟨_, _, hcand, hlead, hcontent, htrail, hfit.content, hfit.trail.run, fun y hy hpre => ?_,
    ?_, fun _ _ => hfit.trail.exists_closer, rfl, Text.lt_of_slice? hslice ?_, ?_, ?_, ?_, ?_⟩
  · rw [hdrop] at hpre
    exact Run.prefix_of_stops hy hfit.trail.run hfit.stops hpre
  · have hends := Stops.endsAt hfit.stops (x ++ g.tokens)
    rwa [List.append_assoc, ← hts, List.length_append] at hends
  · simp [g.writeAll_tokens, m.ne_nil]
  · rw [slice?_extract (Nat.le_add_right _ _) hlead]
    exact congrArg some g.writeAll_lead
  · exact slice?_extract (Nat.le_add_right _ _) hcontent
  · exact slice?_extract hlen htrail
  · rw [hslice, g.writeAll_tokens]

/-! ### What a pass reads -/

/-- The text with its groups spread in place, each piece between two spans read off the text;
nothing if a piece cannot be read. -/
def splice? (m : Markers) (s : Text) : (cursor : Nat) → List (Group × Span) → Option Text
  | cursor, [] => s.slice? ⟨cursor, s.byteLength⟩
  | cursor, (g, span) :: rest =>
    (s.slice? ⟨cursor, span.start⟩).bind fun gap =>
      (splice? m s span.stop rest).map fun later => gap ++ (g.spread m ++ later)

/-- Behind the tokens `x` and `w`, of which those of `x` are written already. -/
theorem splice?_locatedGroups : ∀ (ps : List Piece) (x w : List Token),
    splice? m (writeAll m (x ++ (w ++ ps.flatMap Piece.tokens))) (writeAll m x).byteLength
        (Piece.locatedGroups m (writeAll m (x ++ w)).byteLength ps) =
      some (writeAll m w ++ ps.flatMap (Piece.spread m))
  | [], x, w => by
    rw [Piece.locatedGroups, splice?, List.flatMap_nil, List.flatMap_nil, List.append_nil,
      List.append_nil, writeAll_append, Text.byteLength_append]
    have hslice := Text.slice?_append (writeAll m x) (writeAll m w) []
    rwa [List.append_nil] at hslice
  | .token t :: ps, x, w => by
    have ih := splice?_locatedGroups ps x (w ++ [t])
    have hstart : (writeAll m (x ++ (w ++ [t]))).byteLength =
        (writeAll m (x ++ w)).byteLength + (writeAll m [t]).byteLength := by
      rw [← List.append_assoc, writeAll_append, Text.byteLength_append]
    rw [hstart, List.append_assoc] at ih
    refine ih.trans ?_
    simp [writeAll_append, Piece.spread]
  | .group g :: ps, x, w => by
    have ih := splice?_locatedGroups ps (x ++ (w ++ g.tokens)) []
    have hstop : (writeAll m (x ++ (w ++ g.tokens))).byteLength =
        (writeAll m (x ++ w)).byteLength + (writeAll m g.tokens).byteLength := by
      rw [← List.append_assoc, writeAll_append, Text.byteLength_append]
    rw [List.append_nil, List.nil_append, hstop, List.append_assoc, List.append_assoc] at ih
    have hgap : (writeAll m (x ++ (w ++ (g.tokens ++ ps.flatMap Piece.tokens)))).slice?
        ⟨(writeAll m x).byteLength, (writeAll m (x ++ w)).byteLength⟩ = some (writeAll m w) := by
      have hslice := Text.slice?_append (writeAll m x) (writeAll m w)
        (writeAll m (g.tokens ++ ps.flatMap Piece.tokens))
      rwa [← writeAll_append, ← writeAll_append, ← Text.byteLength_append, ← writeAll_append]
        at hslice
    have hlocated : Piece.locatedGroups m (writeAll m (x ++ w)).byteLength (.group g :: ps) =
        (g, ⟨(writeAll m (x ++ w)).byteLength,
          (writeAll m (x ++ w)).byteLength + (writeAll m g.tokens).byteLength⟩) ::
        Piece.locatedGroups m
          ((writeAll m (x ++ w)).byteLength + (writeAll m g.tokens).byteLength) ps := rfl
    rw [hlocated, splice?, List.flatMap_cons, List.flatMap_cons, Piece.tokens, hgap,
      Option.bind_some, ih]
    rfl

/-- Nothing that a pass reads is out of its reach. -/
theorem splice?_scan (m : Markers) (s : Text) :
    splice? m s 0 (scan m s) = some ((pieces (tokenize m s)).flatMap (Piece.spread m)) := by
  have h := splice?_locatedGroups (m := m) (pieces (tokenize m s)) [] []
  rwa [List.nil_append, List.nil_append, flatMap_tokens_pieces (tight_tokenize s),
    writeAll_tokenize] at h

/-- **A scan reports the groups that can be spread, all of them and no others.** There is one
for each index at which a candidate starts, in the order of the indices. The spans of two that
are reported do not overlap; whatever is read at a span, at the bytes of a token or between two
spans is there to be read, and what a pass makes of the text is put together from it. -/
theorem scan_reports_candidates (m : Markers) (s : Text) :
    ∃ starts : List Nat, starts.Pairwise (· < ·) ∧
      (∀ i, i ∈ starts ↔ ∃ o c, Candidate (tokenize m s) i o c) ∧
      List.Forall₂ (fun i found => ∃ o c e, Reports m s i o c e found.1 found.2)
        starts (scan m s) ∧
      (scan m s).Pairwise (fun found later => found.2.stop ≤ later.2.start) ∧
      (∀ t span, (t, span) ∈ located m 0 (tokenize m s) → s.slice? span = some (t.write m)) ∧
      ∃ t, splice? m s 0 (scan m s) = some t ∧
        pass m s = if scan m s = [] then none else some t := by
  have ht := tight_tokenize (m := m) s
  have hpairs := Piece.pairwise_placed (pieces (tokenize m s)) 0
  have hscan : scan m s = (Piece.placed 0 (pieces (tokenize m s))).map fun q =>
      (q.2, ⟨offset m (tokenize m s) q.1, offset m (tokenize m s) (q.1 + q.2.tokens.length)⟩) := by
    have hlocated := Piece.locatedGroups_eq (m := m) (pieces (tokenize m s)) []
    rwa [List.nil_append, flatMap_tokens_pieces ht] at hlocated
  refine ⟨(Piece.placed 0 (pieces (tokenize m s))).map Prod.fst, ?_, ?_, ?_, ?_, ?_, _,
    splice?_scan m s, ?_⟩
  · rw [List.pairwise_map]
    refine hpairs.imp fun {a b} hab => ?_
    have hlen := a.2.length_tokens
    omega
  · intro i
    rw [← mem_placed_pieces_iff ht]
    simp
  · rw [hscan, List.forall₂_map_left_iff, List.forall₂_map_right_iff, List.forall₂_same]
    rintro ⟨i, g⟩ hmem
    obtain ⟨o, c, h⟩ := reports_of_mem_placed hmem
    exact ⟨o, c, _, h⟩
  · rw [hscan, List.pairwise_map]
    exact hpairs.imp fun hab => offset_mono m _ hab
  · intro t span hmem
    obtain ⟨i, hi⟩ := List.mem_iff_getElem?.1 hmem
    rw [located_getElem?, Option.map_eq_some_iff] at hi
    obtain ⟨t', hget, heq⟩ := hi
    obtain ⟨rfl, rfl⟩ := Prod.mk.inj heq
    have hi : i < (tokenize m s).length := (List.getElem?_eq_some_iff.1 hget).1
    have hone : (tokenize m s).extract i (i + 1) = [t'] := by
      refine extract_eq (x := (tokenize m s).take i) (z := (tokenize m s).drop (i + 1)) ?_ ?_ rfl
      · rw [List.singleton_append, ← drop_eq_cons hget, List.take_append_drop]
      · rw [List.length_take, Nat.min_eq_left (Nat.le_of_lt hi)]
    have hslice := slice?_extract (Nat.le_add_right i 1) hone
    simpa using hslice
  · by_cases hnil : scan m s = []
    · rw [if_pos hnil, scan_eq_nil_iff.1 hnil]
    · rw [if_neg hnil, pass, if_pos]
      by_contra hany
      exact hnil (scan_eq_nil_iff.2 (by rw [pass, if_neg hany]))

end FieldSelection
