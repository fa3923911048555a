/-
# The order of spreading

A pass spreads all groups of a source that can be spread. Spread one of them only, and
the others can still be spread, with the same text before and after them: what is behind
a group still stops its trail, and still does not nest. So two ways to go on from a list
meet again one step later (`Spreads.diamond`). Then, if one way comes to an end, every
way does, after as many steps and in the same list (`Steps.rest_of_normal`).

A pass is one such way, the last site first (`exists_steps_settle`). So what every site
spread leaves as it was, passes leave as it was (`Steps.keeps`), as long as they are read back.

Key definitions: `Steps`, `Spreads`.
Key theorems: `Steps.rest_of_normal`, `Spreads.diamond`, `exists_steps_settle`,
`Seamless.exists_steps_after`.
-/
import FieldSelection.Proofs.Load

namespace FieldSelection

open Token

/-! ### Steps that meet again -/

/-- `n` steps of a relation, one after the other. -/
inductive Steps {α : Type} (r : α → α → Prop) : Nat → α → α → Prop
  | refl (a : α) : Steps r 0 a a
  | head {n : Nat} {a b c : α} (h : r a b) (hs : Steps r n b c) : Steps r (n + 1) a c

namespace Steps

variable {α : Type} {r : α → α → Prop}

theorem trans {m n : Nat} {a b c : α} (h : Steps r m a b) (h' : Steps r n b c) :
    Steps r (m + n) a c := by
  induction h with
  | refl a => rwa [Nat.zero_add]
  | @head m a d b hd _ ih =>
    rw [Nat.add_right_comm]
    exact .head hd (ih h')

theorem snoc {n : Nat} {a b c : α} (h : Steps r n a b) (h' : r b c) : Steps r (n + 1) a c :=
  h.trans (.head h' (.refl c))

theorem of_normal {n : Nat} {a b : α} (ha : ∀ c, ¬ r a c) (h : Steps r n a b) : n = 0 ∧ a = b := by
  cases h with
  | refl a => exact ⟨rfl, rfl⟩
  | head h _ => exact absurd h (ha _)

/-- What every step keeps, all of them keep. -/
theorem keeps {p : α → α → Prop} (hrefl : ∀ a, p a a) (htrans : ∀ a b c, p a b → p b c → p a c)
    (hstep : ∀ a b, r a b → p a b) {n : Nat} {a b : α} (h : Steps r n a b) : p a b := by
  induction h with
  | refl a => exact hrefl a
  | head h _ ih => exact htrans _ _ _ (hstep _ _ h) ih

section
variable (hd : ∀ a b c, r a b → r a c → b = c ∨ ∃ d, r b d ∧ r c d)
include hd

/-- Where two steps meet again, a step is one of those that lead to an end. -/
theorem tail_of_normal : ∀ {n : Nat} {a b e : α}, (∀ c, ¬ r e c) → r a b → Steps r n a e →
    ∃ k, n = k + 1 ∧ Steps r k b e
  | _, _, _, _, he, hab, .refl _ => absurd hab (he _)
  | n + 1, a, b, e, he, hab, .head (b := c) hac hce => by
    rcases hd a b c hab hac with rfl | ⟨d, hbd, hcd⟩
    · exact ⟨n, rfl, hce⟩
    · obtain ⟨k, rfl, hde⟩ := tail_of_normal he hcd hce
      exact ⟨k + 1, rfl, .head hbd hde⟩

/-- **Where two steps meet again, all ways come to the same end.** If one comes to an
end, no other takes more steps, and what is missing of them leads there. -/
theorem rest_of_normal {k n : Nat} {a b e : α} (he : ∀ c, ¬ r e c) (hb : Steps r k a b) :
    Steps r n a e → k ≤ n ∧ Steps r (n - k) b e := by
  induction hb generalizing n with
  | refl a => exact fun ha => ⟨Nat.zero_le n, ha⟩
  | @head k a c b hac _ ih =>
    intro ha
    obtain ⟨n, rfl, hc⟩ := tail_of_normal hd he hac ha
    obtain ⟨hle, hrest⟩ := ih hc
    refine ⟨by omega, ?_⟩
    rwa [Nat.add_sub_add_right]

end

end Steps

/-! ### One site spread -/

/-- The list with one of its sites spread. -/
def Spreads (ts us : List Token) : Prop :=
  ∃ (p : Site) (x z : List Token), p.Stands x z ∧ ts = x ++ (p.tokens ++ z) ∧
    us = x ++ (p.spread ++ z)

/-- A site spread does not nest, and makes nothing before it nest. -/
theorem flat_spread {p : Site} {z : List Token} (h : p.Fits z) {y : List Token} :
    nests (y ++ (p.tokens ++ z)) = false → nests (y ++ (p.spread ++ z)) = false ∧
      (nearest? (y ++ (p.spread ++ z)) = some .opener →
        nearest? (y ++ (p.tokens ++ z)) = some .opener) := by
  induction y with
  | nil =>
    intro _
    refine ⟨?_, fun _ => p.nearest?_tokens h⟩
    rw [List.nil_append, Site.spread, nests_intercalate_append h.trail_copy, h.flat]
  | cons t y ih =>
    intro hn
    obtain ⟨ih1, ih2⟩ := ih (nests_of_cons hn)
    cases t with
    | text s => exact ⟨ih1, ih2⟩
    | mark k =>
      cases k with
      | opener =>
        refine ⟨nests_opener.2 ⟨ih1, fun hk => ?_⟩, by simp [nearest?]⟩
        exact (nests_opener.1 hn).2 (ih2 hk)
      | closer => exact ⟨ih1, by simp [nearest?]⟩
      | delimiter => exact ⟨ih1, ih2⟩

/-- What stops a trail stops it with a site behind spread. -/
theorem stops_spread {p : Site} {z : List Token} (hp : p.Fits z) : ∀ {y : List Token},
    Stops (y ++ (p.tokens ++ z)) → Stops (y ++ (p.spread ++ z))
  | [], h => by
    have hnone := site?_texts_stops (x := []) (by simp) h
    rw [List.nil_append, List.nil_append, hp.eq_front] at hnone
    cases hnone
  | text s :: y, h => absurd h (not_stops_text s _)
  | mark .delimiter :: y, _ => stops_delimiter _
  | mark .closer :: y, _ => stops_closer _
  | mark .opener :: y, h => by
    have hmem : mark .closer ∈ p.tokens := by simp [Site.tokens]
    exact absurd (List.mem_append_right _ (List.mem_append_left _ hmem)) (stops_opener.1 h)

/-- A site stands as before when one behind it is spread. -/
theorem Site.Stands.spread_behind {p q : Site} {x y z : List Token}
    (hp : p.Stands x (y ++ (q.tokens ++ z))) (hq : q.Fits z) :
    p.Stands x (y ++ (q.spread ++ z)) where
  front := hp.front
  fits :=
    { hp.fits with
      stops := stops_spread hq hp.fits.stops
      flat := (flat_spread hq hp.fits.flat).1 }

/-- A site stands as before when one before it is spread. -/
theorem Site.Stands.spread_before {p q : Site} {x y z : List Token} (hp : Trail p.trail)
    (hq : q.Stands (x ++ (p.tokens ++ y)) z) : q.Stands (x ++ (p.spread ++ y)) z where
  front := by
    have hb := hq.front
    rw [boundaryAfter_append, boundaryAfter_append, boundaryAfter_site hp] at hb
    have hy : y ≠ [] := by
      rintro rfl
      cases hb
    rw [boundaryAfter_append, boundaryAfter_append, boundaryAfter_of_ne_nil hy _ false, hb]
  fits := hq.fits

/-- Of two sites in one list, each can be spread before the other. -/
theorem exists_spreads_both {p q : Site} {x y z : List Token}
    (hp : p.Stands x (y ++ (q.tokens ++ z))) (hq : q.Stands (x ++ (p.tokens ++ y)) z) :
    ∃ ws, Spreads (x ++ (p.spread ++ (y ++ (q.tokens ++ z)))) ws ∧
      Spreads (x ++ (p.tokens ++ (y ++ (q.spread ++ z)))) ws := by
  refine ⟨x ++ (p.spread ++ (y ++ (q.spread ++ z))), ?_, ?_⟩
  · exact ⟨q, x ++ (p.spread ++ y), z, hq.spread_before hp.fits.trail, by simp, by simp⟩
  · exact ⟨p, x, y ++ (q.spread ++ z), hp.spread_behind hq.fits, rfl, rfl⟩

/-- **Two ways to go on meet again one step later.** -/
theorem Spreads.diamond (ts us vs : List Token) (hu : Spreads ts us) (hv : Spreads ts vs) :
    us = vs ∨ ∃ ws, Spreads us ws ∧ Spreads vs ws := by
  obtain ⟨p, x, z, hp, rfl, rfl⟩ := hu
  obtain ⟨q, x', z', hq, hts, rfl⟩ := hv
  rcases hp.same_or_apart hq hts with ⟨rfl, rfl, rfl⟩ | ⟨y, rfl, rfl⟩ | ⟨y, rfl, rfl⟩
  · exact .inl rfl
  · right
    obtain ⟨ws, hus, hvs⟩ := exists_spreads_both hp hq
    exact ⟨ws, hus, by simpa using hvs⟩
  · right
    obtain ⟨ws, hvs, hus⟩ := exists_spreads_both hq hp
    exact ⟨ws, by simpa using hus, hvs⟩

/-- A list without a site is where all ways end. -/
theorem not_spreads_of_advance? {ts : List Token} (h : advance? ts = none) (us : List Token) :
    ¬ Spreads ts us := by
  rintro ⟨p, x, z, hp, rfl, -⟩
  rw [advance?, if_pos (any_isSite_of_stands hp)] at h
  cases h

/-- A site spread makes nothing but delimiters of its own. -/
theorem Spreads.mem {ts us : List Token} (h : Spreads ts us) {t : Token} (ht : t ∈ us) :
    t ∈ ts ∨ t = mark .delimiter := by
  obtain ⟨p, x, z, -, rfl, rfl⟩ := h
  rcases List.mem_append.1 ht with ht | ht
  · exact .inl (List.mem_append_left _ ht)
  · rcases List.mem_append.1 ht with ht | ht
    · exact (p.mem_spread ht).imp_left fun ht =>
        List.mem_append_right _ (List.mem_append_left _ ht)
    · exact .inl (List.mem_append_right _ (List.mem_append_right _ ht))

/-! ### A pass, one site at a time -/

/-- The sites of a list are spread one by one, from the last to the first. -/
theorem exists_steps_settle_from (b : Bool) (ts : List Token) : ∀ x : List Token,
    boundaryAfter true x = b → ∃ n, Steps Spreads n (x ++ ts) (x ++ settle b ts) := by
  induction b, ts using cut_induction with
  | nil b =>
    intro x _
    rw [settle_nil]
    exact ⟨0, .refl _⟩
  | token b t ts h ih =>
    intro x hx
    obtain ⟨n, hn⟩ := ih (x ++ [t]) (by rw [boundaryAfter_append]; rfl)
    rw [settle_token h]
    exact ⟨n, by simpa using hn⟩
  | site p rest h ih =>
    intro x hx
    have hb : boundaryAfter true (x ++ p.tokens) = false := by
      rw [boundaryAfter_append, boundaryAfter_site h.trail]
    obtain ⟨n, hn⟩ := ih (x ++ p.tokens) hb
    rw [List.append_assoc, List.append_assoc] at hn
    have hfit : p.Fits (settle false rest) :=
      { h with
        stops := stops_settle h.stops false
        flat := (flat_settle h.flat).1 }
    refine ⟨n + 1, hn.snoc ⟨p, x, settle false rest, ⟨hx, hfit⟩, rfl, ?_⟩⟩
    rw [settle_site h]

/-- **A pass spreads sites one by one.** -/
theorem exists_steps_settle (ts : List Token) : ∃ n, Steps Spreads n ts (settle true ts) :=
  exists_steps_settle_from true ts [] rfl

open Expansion

variable {m : Markers}

/-- A run that reads back spreads sites one by one. -/
theorem Seamless.exists_steps_after : ∀ {n : Nat} {s t : Text}, Seamless m s →
    after m n s = some t → ∃ k, Steps Spreads k (symbols m s) (symbols m t)
  | 0, _, _, _, ht => by
    cases ht
    exact ⟨0, .refl _⟩
  | n + 1, s, t, h, ht => by
    obtain ⟨u, hu, ht⟩ := Option.bind_eq_some_iff.1 ht
    obtain ⟨k, hk⟩ := exists_steps_settle (symbols m s)
    rw [← h.symbols_pass hu] at hk
    obtain ⟨l, hl⟩ := (h.of_pass hu).exists_steps_after ht
    exact ⟨k + l, hk.trans hl⟩

end FieldSelection
