/-
# Where sites stand

A site stands in a token list behind tokens after which a site may start, and before
tokens at which it fits. The sites of a cut stand where the cut has them
(`exists_of_cut`), and where a site stands the cut has one (`any_isSite_of_stands`).

No site starts inside another (`site?_inside`). So of two sites that stand in one list
one is behind the other, or they are the same (`Site.Stands.same_or_apart`).

Key definitions: `Part.tokens`, `Site.Stands`.
Key theorems: `exists_of_cut`, `site?_inside`, `Site.Stands.same_or_apart`.
-/
import FieldSelection.Proofs.Site

namespace FieldSelection

open Token

/-- The site stands behind the tokens `x` and before the tokens `z`. -/
structure Site.Stands (p : Site) (x z : List Token) : Prop where
  front : boundaryAfter true x = true
  fits : p.Fits z

/-! ### The sites of a cut -/

/-- The tokens of a part. -/
def Part.tokens : Part → List Token
  | token t => [t]
  | site p => p.tokens

/-- **The sites of a cut stand where the cut has them.** -/
theorem exists_of_cut {b : Bool} {ts : List Token} : ∀ {a c : List Part} {p : Site},
    cut b ts = a ++ .site p :: c → ∃ z, ts = a.flatMap Part.tokens ++ (p.tokens ++ z) ∧
      boundaryAfter b (a.flatMap Part.tokens) = true ∧ p.Fits z := by
  induction b, ts using cut_induction with
  | nil b =>
    intro a c p hcut
    rw [cut_nil] at hcut
    exact absurd hcut.symm (by simp)
  | token b t ts h ih =>
    intro a c p hcut
    rw [cut_token h] at hcut
    cases a with
    | nil => cases hcut
    | cons q a =>
      rw [List.cons_append, List.cons.injEq] at hcut
      obtain ⟨rfl, hcut⟩ := hcut
      obtain ⟨z, hts, hb, hfit⟩ := ih hcut
      exact ⟨z, by rw [List.flatMap_cons, List.append_assoc, ← hts]; rfl, hb, hfit⟩
  | site q rest h ih =>
    intro a c p hcut
    rw [cut_site h] at hcut
    cases a with
    | nil =>
      rw [List.nil_append, List.cons.injEq] at hcut
      obtain ⟨hq, -⟩ := hcut
      cases hq
      exact ⟨rest, rfl, rfl, h⟩
    | cons r a =>
      rw [List.cons_append, List.cons.injEq] at hcut
      obtain ⟨rfl, hcut⟩ := hcut
      obtain ⟨z, hrest, hb, hfit⟩ := ih hcut
      refine ⟨z, ?_, ?_, hfit⟩
      · rw [List.flatMap_cons, List.append_assoc, ← hrest, Part.tokens]
      · rw [List.flatMap_cons, Part.tokens, boundaryAfter_append, boundaryAfter_site h.trail, hb]

/-- A site behind the first token is a site of the whole list, or starts inside one. -/
theorem any_isSite_cons {b : Bool} {t : Token} {ts : List Token}
    (h : (cut t.isBoundary ts).any Part.isSite = true) :
    (cut b (t :: ts)).any Part.isSite = true := by
  by_cases hs : b = true → site? (t :: ts) = none
  · rw [cut_token hs, List.any_cons, h, Bool.or_true]
  · obtain ⟨rfl, hne⟩ : b = true ∧ site? (t :: ts) ≠ none := by simpa using hs
    obtain ⟨p, hp⟩ := Option.ne_none_iff_exists'.1 hne
    obtain ⟨rest, hrest, hfit⟩ := exists_of_site? hp
    rw [hrest, cut_site hfit, List.any_cons, Part.isSite, Bool.true_or]

theorem any_isSite_of_fits {p : Site} {z : List Token} (h : p.Fits z) :
    ∀ (x : List Token) {b : Bool}, boundaryAfter b x = true →
      (cut b (x ++ (p.tokens ++ z))).any Part.isSite = true
  | [], b, hb => by
    obtain rfl : b = true := hb
    rw [List.nil_append, cut_site h, List.any_cons, Part.isSite, Bool.true_or]
  | _ :: x, _, hb => any_isSite_cons (any_isSite_of_fits h x hb)

/-- **Where a site stands, the cut has a site.** -/
theorem any_isSite_of_stands {p : Site} {x z : List Token} (h : p.Stands x z) :
    (cut true (x ++ (p.tokens ++ z))).any Part.isSite = true :=
  any_isSite_of_fits h.fits x h.front

/-! ### No site starts inside another -/

/-- A site is a trail itself. -/
theorem Site.Fits.trail_tokens {p : Site} {rest : List Token} (h : p.Fits rest) : Trail p.tokens :=
  (trail_of_texts h.lead).append (.group h.content h.trail)

namespace Token

/-- What was before the tokens does not matter behind them. -/
theorem boundaryAfter_of_ne_nil : ∀ {x : List Token}, x ≠ [] → ∀ b b' : Bool,
    boundaryAfter b x = boundaryAfter b' x
  | [], h, _, _ => absurd rfl h
  | _ :: _, _, _, _ => rfl

end Token

/-- Behind an opener no site starts up to the closer of the group. -/
theorem site?_in_content {x y d e : List Token} (hx : ∀ t ∈ x, t.isBracket = false)
    (h : x ++ mark .closer :: y = d ++ e) (rest : List Token) :
    site? (e ++ rest) = none ∨ ∃ f, d = x ++ mark .closer :: f ∧ y = f ++ e := by
  -- the closer comes next before any place in the group
  have hnone : ∀ u : List Token, (∀ t ∈ u, t.isBracket = false) →
      site? ((u ++ mark .closer :: y) ++ rest) = none := by
    intro u hu
    refine site?_eq_none_of_nearest? ?_
    rw [List.append_assoc, nearest?_append_of_free hu, List.cons_append, nearest?]
    simp
  rcases List.append_eq_append_iff.1 h with ⟨u, rfl, hu⟩ | ⟨u, rfl, hu⟩
  · cases u with
    | nil =>
      left
      rw [List.nil_append] at hu
      exact hu ▸ hnone [] (by simp)
    | cons t u =>
      obtain ⟨rfl, rfl⟩ := List.cons.inj hu
      exact .inr ⟨u, rfl, rfl⟩
  · left
    rw [hu]
    exact hnone u fun t ht => hx t (List.mem_append_right _ ht)

/-- No site starts in a trail. -/
theorem site?_in_trail {x : List Token} (hx : Trail x) : ∀ {d e rest : List Token},
    x = d ++ e → boundaryAfter false d = true → site? (e ++ rest) = none := by
  induction hx with
  | nil =>
    intro d e rest h hb
    obtain ⟨rfl, -⟩ := List.append_eq_nil_iff.1 h.symm
    cases hb
  | text s _ ih =>
    intro d e rest h hb
    cases d with
    | nil => cases hb
    | cons t d =>
      rw [List.cons_append, List.cons.injEq] at h
      obtain ⟨rfl, h⟩ := h
      exact ih h hb
  | group hc _ ih =>
    intro d e rest h hb
    cases d with
    | nil => cases hb
    | cons t d =>
      rw [List.cons_append, List.cons.injEq] at h
      obtain ⟨rfl, h⟩ := h
      rcases site?_in_content hc h rest with hnone | ⟨f, rfl, hf⟩
      · exact hnone
      · refine ih hf ?_
        rwa [← List.cons_append, boundaryAfter_append] at hb

/-- **No site starts inside another.** -/
theorem site?_inside {p : Site} {d e rest : List Token} (hfit : p.Fits rest)
    (h : p.tokens = d ++ e) (hd : d ≠ []) {b : Bool} (hb : boundaryAfter b d = true) :
    site? (e ++ rest) = none := by
  rw [boundaryAfter_of_ne_nil hd b false] at hb
  exact site?_in_trail hfit.trail_tokens h hb

/-- Of two sites that stand in one list the second is the first, or is behind it. -/
theorem Site.Stands.same_or_behind {p q : Site} {x z d z' : List Token} (hp : p.Stands x z)
    (hq : q.Stands (x ++ d) z') (h : p.tokens ++ z = d ++ (q.tokens ++ z')) :
    (d = [] ∧ p = q ∧ z = z') ∨ ∃ y, d = p.tokens ++ y ∧ z = y ++ (q.tokens ++ z') := by
  by_cases hd : d = []
  · left
    rw [hd, List.nil_append] at h
    have heq := hp.fits.eq_front
    rw [h, hq.fits.eq_front, Option.some.injEq] at heq
    subst heq
    exact ⟨hd, rfl, List.append_cancel_left h⟩
  · rcases List.append_eq_append_iff.1 h with ⟨y, hy, hz⟩ | ⟨e, he, hz⟩
    · exact .inr ⟨y, hy, hz⟩
    · have hb := hq.front
      rw [boundaryAfter_append, hp.front] at hb
      have hnone := site?_inside hp.fits he hd hb
      rw [← hz, hq.fits.eq_front] at hnone
      cases hnone

/-- **Two sites that stand in one list** are the same, or one is behind the other. -/
theorem Site.Stands.same_or_apart {p q : Site} {x z x' z' : List Token} (hp : p.Stands x z)
    (hq : q.Stands x' z') (h : x ++ (p.tokens ++ z) = x' ++ (q.tokens ++ z')) :
    (x = x' ∧ p = q ∧ z = z') ∨
      (∃ y, x' = x ++ (p.tokens ++ y) ∧ z = y ++ (q.tokens ++ z')) ∨
      ∃ y, x = x' ++ (q.tokens ++ y) ∧ z' = y ++ (p.tokens ++ z) := by
  rcases List.append_eq_append_iff.1 h with ⟨d, rfl, hd⟩ | ⟨d, rfl, hd⟩
  · rcases hp.same_or_behind hq hd with ⟨rfl, rfl, rfl⟩ | ⟨y, rfl, hz⟩
    · exact .inl ⟨(List.append_nil x).symm, rfl, rfl⟩
    · exact .inr (.inl ⟨y, rfl, hz⟩)
  · rcases hq.same_or_behind hp hd with ⟨rfl, rfl, rfl⟩ | ⟨y, rfl, hz⟩
    · exact .inl ⟨List.append_nil x', rfl, rfl⟩
    · exact .inr (.inr ⟨y, rfl, hz⟩)

end FieldSelection
