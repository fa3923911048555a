/-
# Sites, and the cut of a token list

A `Site` is a group that can be spread, with the text before it and the trail
behind it, as a stretch of a token list whose runs of text may be broken. `cut`
takes a token list apart into its sites and the tokens between them, from the
left and by the definition of a site alone, without a table and without a
count of tokens to skip; `settle` spreads all sites.

What can be said about `cut` and `settle` follows by one induction
(`cut_induction`): a list is empty, begins with a token at which no site
starts, or begins with a site, behind which the trail stops and nothing nests.

Key definitions: `Site`, `Site.Fits`, `cut`, `settle`, `advance?`.
Key theorems: `site?_ne_none_iff`, `exists_of_site?`, `cut_site`, `cut_token`,
`cut_induction`.
-/
import FieldSelection.Proofs.Nesting

namespace FieldSelection

open Token

/-- A group that can be spread: the texts before it, the tokens between its
brackets, and the trail behind it. -/
structure Site where
  lead : List Token
  content : List Token
  trail : List Token

namespace Site

/-- The tokens of a site. -/
def tokens (p : Site) : List Token :=
  p.lead ++ mark .opener :: (p.content ++ mark .closer :: p.trail)

/-- The alternatives of a site: its content between delimiters. -/
def alternatives (p : Site) : List (List Token) := p.content.splitOn (mark .delimiter)

/-- A site spread: each alternative between what is before and behind the group. -/
def spread (p : Site) : List Token :=
  [mark .delimiter].intercalate (p.alternatives.map fun a => p.lead ++ a ++ p.trail)

/-- The site is one where it stands before the tokens `rest`: it is well formed, its
trail stops at `rest`, and nothing in `rest` nests. -/
structure Fits (p : Site) (rest : List Token) : Prop where
  lead : ∀ t ∈ p.lead, t.isText = true
  content : ∀ t ∈ p.content, t.isBracket = false
  trail : Trail p.trail
  stops : Stops rest
  flat : nests rest = false

theorem tokens_eq_cons (p : Site) : ∃ t ts, p.tokens = t :: ts := by
  cases h : p.lead with
  | nil => exact ⟨_, _, by rw [tokens, h]; rfl⟩
  | cons t ts => exact ⟨t, _, by rw [tokens, h]; rfl⟩

end Site

/-! ### Tokens around trails -/

namespace Token

theorem isBracket_of_texts {x : List Token} (h : ∀ t ∈ x, t.isText = true) :
    ∀ t ∈ x, t.isBracket = false := fun t ht => isBracket_of_isText (h t ht)

theorem nests_trail_append {x : List Token} (hx : Trail x) (y : List Token) :
    nests (x ++ y) = nests y := by
  induction hx with
  | nil => rfl
  | text s _ ih => exact ih
  | @group content ts hc _ ih =>
    have h : nearest? (content ++ mark .closer :: (ts ++ y)) = some .closer := by
      rw [nearest?_append_of_free hc, nearest?]
    rw [List.cons_append, List.append_assoc, List.cons_append, nests, h,
      nests_append_of_free hc, nests, ih]
    simp

theorem Trail.append {x y : List Token} (hx : Trail x) (hy : Trail y) : Trail (x ++ y) := by
  induction hx with
  | nil => exact hy
  | text s _ ih => exact .text s ih
  | group hc _ ih => simpa using Trail.group hc ih

/-- Texts are a trail. -/
theorem trail_of_texts : ∀ {x : List Token}, (∀ t ∈ x, t.isText = true) → Trail x
  | [], _ => .nil
  | text s :: _, h => .text s (trail_of_texts fun t ht => h t (List.mem_cons_of_mem _ ht))
  | mark k :: _, h => by simpa [isText] using h (mark k) List.mem_cons_self

/-- A trail is texts only, or texts up to its first group and a trail from there on. -/
theorem Trail.cases_group {x : List Token} (hx : Trail x) : (∀ t ∈ x, t.isText = true) ∨
    ∃ lead content trail, x = lead ++ mark .opener :: (content ++ mark .closer :: trail) ∧
      (∀ t ∈ lead, t.isText = true) ∧ (∀ t ∈ content, t.isBracket = false) ∧ Trail trail := by
  induction hx with
  | nil => left; simp
  | text s _ ih =>
    rcases ih with h | ⟨lead, content, trail, rfl, hl, hc, ht⟩
    · left
      intro t ht
      rcases List.mem_cons.1 ht with rfl | ht
      · rfl
      · exact h t ht
    · right
      refine ⟨Token.text s :: lead, content, trail, rfl, fun t ht => ?_, hc, ht⟩
      rcases List.mem_cons.1 ht with rfl | ht
      · rfl
      · exact hl t ht
  | @group content ts hc h => exact .inr ⟨[], content, ts, rfl, by simp, hc, h⟩

/-- Tokens whose nearest bracket closes, and of which none nests, are the rest of a
group, a trail, and tokens that stop it. -/
theorem exists_content {ts : List Token} (hk : nearest? ts = some .closer)
    (hn : nests ts = false) : ∃ content trail rest,
      ts = content ++ mark .closer :: (trail ++ rest) ∧ (∀ t ∈ content, t.isBracket = false) ∧
        Trail trail ∧ Stops rest ∧ nests rest = false := by
  obtain ⟨content, us, rfl, hc⟩ := exists_of_nearest? hk
  rw [nests_append_of_free hc] at hn
  obtain ⟨trail, rest, rfl, ht, hr⟩ := exists_trail (nests_of_cons hn)
  exact ⟨content, trail, rest, rfl, hc, ht, hr, by rwa [nests, nests_trail_append ht] at hn⟩

end Token

/-! ### Finding a site -/

/-- The site at the front of the tokens, if one starts there. -/
def site? (ts : List Token) : Option Site :=
  match ts.dropWhile isText with
  | mark .opener :: us =>
    match us.dropWhile (!·.isBracket) with
    | mark .closer :: vs =>
      if nests vs then none
      else some
        { lead := ts.takeWhile isText
          content := us.takeWhile (!·.isBracket)
          trail := Group.trailFrom false vs }
    | _ => none
  | _ => none

theorem Site.Fits.eq_front {p : Site} {rest : List Token} (h : p.Fits rest) :
    site? (p.tokens ++ rest) = some p := by
  have hc : ∀ t ∈ p.content, (!t.isBracket) = true := fun t ht => by simp [h.content t ht]
  have hlead : (p.tokens ++ rest).dropWhile isText =
      mark .opener :: (p.content ++ mark .closer :: (p.trail ++ rest)) := by
    simp only [Site.tokens, List.append_assoc, List.cons_append]
    rw [List.dropWhile_append_of_pos h.lead, List.dropWhile_cons_of_neg (by simp [isText])]
  have htake : (p.tokens ++ rest).takeWhile isText = p.lead := by
    simp only [Site.tokens, List.append_assoc, List.cons_append]
    rw [List.takeWhile_append_of_pos h.lead, List.takeWhile_cons_of_neg (by simp [isText]),
      List.append_nil]
  have hcontent : (p.content ++ mark .closer :: (p.trail ++ rest)).dropWhile (!·.isBracket) =
      mark .closer :: (p.trail ++ rest) := by
    rw [List.dropWhile_append_of_pos hc, List.dropWhile_cons_of_neg (by simp [isBracket])]
  have hctake : (p.content ++ mark .closer :: (p.trail ++ rest)).takeWhile (!·.isBracket) =
      p.content := by
    rw [List.takeWhile_append_of_pos hc, List.takeWhile_cons_of_neg (by simp [isBracket]),
      List.append_nil]
  have hflat : ¬ nests (p.trail ++ rest) = true := by
    rw [nests_trail_append h.trail, h.flat]
    simp
  simp only [site?, hlead, hcontent, if_neg hflat, htake, hctake, trailFrom_append h.trail h.stops]

/-- **A site is found where it fits.** -/
theorem exists_of_site? {ts : List Token} {p : Site} (h : site? ts = some p) :
    ∃ rest, ts = p.tokens ++ rest ∧ p.Fits rest := by
  unfold site? at h
  split at h
  · rename_i us hus
    split at h
    · rename_i vs hvs
      split at h
      · cases h
      · rename_i hn
        simp only [Option.some.injEq] at h
        obtain ⟨trail, rest, rfl, ht, hr⟩ := exists_trail (Bool.eq_false_iff.2 hn)
        rw [trailFrom_append ht hr] at h
        subst h
        refine ⟨rest, ?_, ?_, ?_, ht, hr, ?_⟩
        · conv_lhs => rw [← List.takeWhile_append_dropWhile (p := isText) (l := ts), hus,
            ← List.takeWhile_append_dropWhile (p := (!·.isBracket)) (l := us), hvs]
          simp [Site.tokens]
        · exact List.all_eq_true.1 List.all_takeWhile
        · intro t ht
          simpa using List.all_eq_true.1 List.all_takeWhile t ht
        · rwa [nests_trail_append ht, Bool.not_eq_true] at hn
    · cases h
  · cases h

theorem Site.nearest?_tokens {p : Site} {rest : List Token} (h : p.Fits rest) :
    nearest? (p.tokens ++ rest) = some .opener := by
  simp only [Site.tokens, List.append_assoc, List.cons_append]
  rw [nearest?_append_of_free (isBracket_of_texts h.lead), nearest?]

/-- No site starts before tokens whose nearest bracket is no opener. -/
theorem site?_eq_none_of_nearest? {ts : List Token} (h : nearest? ts ≠ some .opener) :
    site? ts = none := by
  cases hp : site? ts with
  | none => rfl
  | some p =>
    obtain ⟨rest, rfl, hfit⟩ := exists_of_site? hp
    exact absurd (p.nearest?_tokens hfit) h

/-- **Where a site starts**: at texts and an opener that the next bracket closes, and
behind which nothing nests. -/
theorem site?_ne_none_iff {ts : List Token} : site? ts ≠ none ↔
    ∃ us, ts.dropWhile isText = mark .opener :: us ∧ nearest? us = some .closer ∧
      nests us = false := by
  constructor
  · intro h
    obtain ⟨p, hp⟩ := Option.ne_none_iff_exists'.1 h
    obtain ⟨rest, rfl, hfit⟩ := exists_of_site? hp
    refine ⟨p.content ++ mark .closer :: (p.trail ++ rest), ?_, ?_, ?_⟩
    · simp only [Site.tokens, List.append_assoc, List.cons_append]
      rw [List.dropWhile_append_of_pos hfit.lead, List.dropWhile_cons_of_neg (by simp [isText])]
    · rw [nearest?_append_of_free hfit.content, nearest?]
    · rw [nests_append_of_free hfit.content, nests, nests_trail_append hfit.trail, hfit.flat]
  · rintro ⟨us, hus, hk, hn⟩
    obtain ⟨content, trail, rest, rfl, hc, ht, hr, hflat⟩ := exists_content hk hn
    have hfit : (Site.mk (ts.takeWhile isText) content trail).Fits rest :=
      ⟨List.all_eq_true.1 List.all_takeWhile, hc, ht, hr, hflat⟩
    have heq : ts = (Site.mk (ts.takeWhile isText) content trail).tokens ++ rest := by
      conv_lhs => rw [← List.takeWhile_append_dropWhile (p := isText) (l := ts), hus]
      simp [Site.tokens]
    rw [heq, hfit.eq_front]
    simp

theorem site?_eq_none_of_texts {x ts : List Token} (hx : ∀ t ∈ x, t.isText = true)
    (h : ∀ us, ts = mark .opener :: us → ¬ (nearest? us = some .closer ∧ nests us = false))
    (ht : ∀ s us, ts ≠ text s :: us) : site? (x ++ ts) = none := by
  by_contra hne
  obtain ⟨us, hus, hcond⟩ := site?_ne_none_iff.1 hne
  rw [List.dropWhile_append_of_pos hx] at hus
  match ts, ht with
  | [], _ => cases hus
  | mark k :: vs, _ =>
    rw [List.dropWhile_cons_of_neg (by simp [isText])] at hus
    exact h us hus hcond
  | text s :: vs, ht => exact ht s vs rfl

/-! ### The cut -/

/-- A part of a token list: a site, or a token that belongs to none. -/
inductive Part where
  | token (t : Token)
  | site (p : Site)

namespace Part

/-- Whether the part is a site. -/
def isSite : Part → Bool
  | token _ => false
  | site _ => true

/-- The tokens of a part after a pass. -/
def spread : Part → List Token
  | token t => [t]
  | site p => p.spread

end Part

/-- The sites of a token list and the tokens between them. `boundary` says whether a
site may start at the first token. -/
def cut (boundary : Bool) : List Token → List Part
  | [] => []
  | t :: ts =>
    match if boundary then site? (t :: ts) else none with
    | some p => .site p :: cut false (ts.drop (p.tokens.length - 1))
    | none => .token t :: cut t.isBoundary ts
termination_by ts => ts.length
decreasing_by all_goals simp; try omega

@[simp] theorem cut_nil (b : Bool) : cut b [] = [] := by rw [cut]

theorem cut_token {b : Bool} {t : Token} {ts : List Token} (h : b = true → site? (t :: ts) = none) :
    cut b (t :: ts) = .token t :: cut t.isBoundary ts := by
  cases b with
  | false => rw [cut]; rfl
  | true => rw [cut]; simp [h rfl]

theorem cut_site {p : Site} {rest : List Token} (h : p.Fits rest) :
    cut true (p.tokens ++ rest) = .site p :: cut false rest := by
  obtain ⟨t, ts, hts⟩ := p.tokens_eq_cons
  have hp := h.eq_front
  rw [hts, List.cons_append] at hp ⊢
  rw [cut]
  simp [hp, hts]

/-- A token list is empty, begins with a token at which no site starts, or begins
with a site. -/
theorem cut_induction {motive : Bool → List Token → Prop} (nil : ∀ b, motive b [])
    (token : ∀ b t ts, (b = true → site? (t :: ts) = none) → motive t.isBoundary ts →
      motive b (t :: ts))
    (site : ∀ (p : Site) rest, p.Fits rest → motive false rest → motive true (p.tokens ++ rest))
    (b : Bool) (ts : List Token) : motive b ts := by
  induction hn : ts.length using Nat.strongRecOn generalizing b ts with
  | ind n ih =>
    subst hn
    cases ts with
    | nil => exact nil b
    | cons t ts =>
      cases hp : if b then site? (t :: ts) else none with
      | none =>
        refine token b t ts (fun hb => ?_) (ih _ (by simp) _ _ rfl)
        simpa [hb] using hp
      | some p =>
        obtain rfl : b = true := by
          cases b with
          | false => simp at hp
          | true => rfl
        obtain ⟨rest, hrest, hfit⟩ := exists_of_site? (by simpa using hp)
        obtain ⟨u, us, hus⟩ := p.tokens_eq_cons
        have hlen : rest.length < (p.tokens ++ rest).length := by
          rw [hus, List.length_append, List.length_cons]
          omega
        rw [hrest] at ih ⊢
        exact site p rest hfit (ih _ hlen _ _ rfl)

/-- Where no site starts, it does not matter whether one might. -/
theorem cut_of_site?_eq_none {ts : List Token} (h : site? ts = none) (b : Bool) :
    cut b ts = cut false ts := by
  cases ts with
  | nil => rw [cut_nil, cut_nil]
  | cons t ts => rw [cut_token fun _ => h, cut_token fun _ => h]

theorem site?_texts_stops {x r : List Token} (hx : ∀ t ∈ x, t.isText = true) (hr : Stops r) :
    site? (x ++ r) = none := by
  refine site?_eq_none_of_texts hx (fun us hus hk => ?_) (fun s us hus => ?_)
  · rw [hus, stops_opener] at hr
    obtain ⟨y, z, rfl, -⟩ := exists_of_nearest? hk.1
    exact hr (by simp)
  · exact not_stops_text s us (hus ▸ hr)

theorem cut_of_stops {ts : List Token} (h : Stops ts) (b : Bool) : cut b ts = cut false ts :=
  cut_of_site?_eq_none (site?_texts_stops (x := []) (by simp) h) b

/-- Behind texts only the flag of the first token matters. -/
theorem cut_texts_false : ∀ {x : List Token}, (∀ t ∈ x, t.isText = true) → ∀ y,
    cut false (x ++ y) = x.map .token ++ cut false y
  | [], _, _ => rfl
  | mark k :: _, h, _ => by simpa [isText] using h (mark k) List.mem_cons_self
  | text s :: x, h, y => by
    rw [List.cons_append, cut_token (by simp), isBoundary,
      cut_texts_false (fun t ht => h t (List.mem_cons_of_mem _ ht))]
    rfl

/-- Texts at which no site starts are cut into themselves. -/
theorem cut_texts {x y : List Token} (hx : ∀ t ∈ x, t.isText = true) {b : Bool}
    (h : b = true → site? (x ++ y) = none) : cut b (x ++ y) = x.map .token ++ cut false y := by
  rw [← cut_texts_false hx]
  cases b with
  | false => rfl
  | true => exact cut_of_site?_eq_none (h rfl) true

/-- No site starts inside a group. -/
theorem cut_content : ∀ {x : List Token}, (∀ t ∈ x, t.isBracket = false) → ∀ (b : Bool) y,
    cut b (x ++ mark .closer :: y) = x.map .token ++ .token (mark .closer) :: cut false y
  | [], _, b, y => by
    rw [List.nil_append, cut_token fun _ => site?_eq_none_of_nearest? (by simp [nearest?])]
    rfl
  | t :: x, h, b, y => by
    have hx : ∀ u ∈ x, u.isBracket = false := fun u hu => h u (List.mem_cons_of_mem _ hu)
    have hs : site? (t :: (x ++ mark .closer :: y)) = none := by
      refine site?_eq_none_of_nearest? ?_
      rw [← List.cons_append, nearest?_append_of_free h]
      simp [nearest?]
    rw [List.cons_append, cut_token fun _ => hs, cut_content hx]
    rfl

/-- No site starts in a trail. -/
theorem cut_trail {x : List Token} (hx : Trail x) (y : List Token) :
    cut false (x ++ y) = x.map .token ++ cut false y := by
  induction hx with
  | nil => rfl
  | text s _ ih => rw [List.cons_append, cut_token (by simp), isBoundary, ih]; rfl
  | group hc _ ih =>
    rw [List.cons_append, List.append_assoc, List.cons_append, cut_token (by simp), cut_content hc,
      ih]
    simp

/-! ### Where a site may start -/

namespace Token

/-- Whether a site may start behind the tokens. -/
def boundaryAfter (b : Bool) (ts : List Token) : Bool := ts.foldl (fun _ t => t.isBoundary) b

theorem boundaryAfter_append (b : Bool) (x y : List Token) :
    boundaryAfter b (x ++ y) = boundaryAfter (boundaryAfter b x) y := by
  simp [boundaryAfter]

theorem boundaryAfter_trail {x : List Token} (hx : Trail x) : boundaryAfter false x = false := by
  induction hx with
  | nil => rfl
  | text s _ ih => exact ih
  | @group content ts _ _ ih =>
    rw [← List.cons_append, boundaryAfter_append]
    exact ih

/-- A site ends with text or a closer. -/
theorem boundaryAfter_site {p : Site} (h : Trail p.trail) (b : Bool) :
    boundaryAfter b p.tokens = false := by
  rw [Site.tokens, ← List.cons_append, ← List.append_assoc, boundaryAfter_append]
  exact boundaryAfter_trail h

end Token

/-! ### All sites spread -/

@[simp] theorem flatMap_spread_tokens (ts : List Token) :
    (ts.map Part.token).flatMap Part.spread = ts := by
  induction ts with
  | nil => rfl
  | cons t ts ih => simp [Part.spread, ih]

@[simp] theorem any_isSite_tokens (ts : List Token) :
    (ts.map Part.token).any Part.isSite = false := by
  simp [Part.isSite]

/-- The tokens with every site spread. -/
def settle (boundary : Bool) (ts : List Token) : List Token :=
  (cut boundary ts).flatMap Part.spread

/-- The tokens with every site spread; nothing if there is none. -/
def advance? (ts : List Token) : Option (List Token) :=
  if (cut true ts).any Part.isSite then some (settle true ts) else none

@[simp] theorem settle_nil (b : Bool) : settle b [] = [] := by simp [settle]

theorem settle_token {b : Bool} {t : Token} {ts : List Token}
    (h : b = true → site? (t :: ts) = none) : settle b (t :: ts) = t :: settle t.isBoundary ts := by
  rw [settle, cut_token h]
  rfl

theorem settle_site {p : Site} {rest : List Token} (h : p.Fits rest) :
    settle true (p.tokens ++ rest) = p.spread ++ settle false rest := by
  rw [settle, cut_site h]
  rfl

theorem settle_of_stops {ts : List Token} (h : Stops ts) (b : Bool) :
    settle b ts = settle false ts := by
  rw [settle, cut_of_stops h, settle]

theorem mem_intercalate {α : Type} {a : α} {sep : List α} : ∀ {xs : List (List α)},
    a ∈ sep.intercalate xs → a ∈ sep ∨ ∃ x ∈ xs, a ∈ x
  | [], h => by simp at h
  | [x], h => by
    rw [List.intercalate_singleton] at h
    exact .inr ⟨x, by simp, h⟩
  | x :: y :: xs, h => by
    rw [List.intercalate_cons_cons, List.append_assoc, List.mem_append, List.mem_append] at h
    rcases h with h | h | h
    · exact .inr ⟨x, by simp, h⟩
    · exact .inl h
    · rcases mem_intercalate h with h | ⟨z, hz, h⟩
      · exact .inl h
      · exact .inr ⟨z, List.mem_cons_of_mem _ hz, h⟩

/-- What does not depend on any of the lists in front, nor on a separator there, does not
depend on the lists with separators between. -/
theorem eq_of_intercalate {α β : Type} {f : List α → β} {sep : List α}
    (hsep : ∀ y, f (sep ++ y) = f y) : ∀ {xs : List (List α)},
    (∀ x ∈ xs, ∀ y, f (x ++ y) = f y) → ∀ y, f (sep.intercalate xs ++ y) = f y
  | [], _, y => by simp
  | [x], h, y => by rw [List.intercalate_singleton, h x List.mem_cons_self]
  | x :: x' :: xs, h, y => by
    rw [List.intercalate_cons_cons, List.append_assoc, List.append_assoc, h x List.mem_cons_self,
      hsep, eq_of_intercalate hsep fun z hz => h z (List.mem_cons_of_mem _ hz)]

theorem mem_of_mem_splitOn {α : Type} [BEq α] [LawfulBEq α] {d : α} : ∀ {xs : List α} {x : List α},
    x ∈ xs.splitOn d → ∀ a ∈ x, a ∈ xs ∧ a ≠ d
  | [], x, h => by simp at h; simp [h]
  | y :: ys, x, h => by
    rw [List.splitOn_cons_eq_if_modifyHead] at h
    intro a ha
    split at h
    · rcases List.mem_cons.1 h with rfl | h
      · cases ha
      · exact (mem_of_mem_splitOn h a ha).imp_left (List.mem_cons_of_mem _)
    · rename_i hy
      obtain ⟨z, zs, hz⟩ := List.exists_cons_of_ne_nil (List.splitOn_ne_nil d ys)
      rw [hz, List.modifyHead_cons] at h
      rcases List.mem_cons.1 h with rfl | h
      · rcases List.mem_cons.1 ha with rfl | ha
        · exact ⟨List.mem_cons_self, by simpa using hy⟩
        · exact (mem_of_mem_splitOn (hz ▸ List.mem_cons_self) a ha).imp_left
            (List.mem_cons_of_mem _)
      · exact (mem_of_mem_splitOn (hz ▸ List.mem_cons_of_mem _ h) a ha).imp_left
          (List.mem_cons_of_mem _)

/-- Each alternative of a site is text. -/
theorem Site.Fits.texts {p : Site} {rest a : List Token} (h : p.Fits rest)
    (ha : a ∈ p.alternatives) : ∀ t ∈ a, t.isText = true := by
  intro t ht
  obtain ⟨hm, hd⟩ := mem_of_mem_splitOn ha t ht
  exact isText_of_free (h.content t hm) hd

/-- A site spread makes nothing but delimiters of its own. -/
theorem Site.mem_spread (p : Site) {t : Token} (ht : t ∈ p.spread) :
    t ∈ p.tokens ∨ t = mark .delimiter := by
  rcases mem_intercalate ht with h | ⟨x, hx, h⟩
  · exact .inr (List.mem_singleton.1 h)
  · obtain ⟨a, ha, rfl⟩ := List.mem_map.1 hx
    left
    simp only [List.mem_append] at h
    simp only [Site.tokens, List.mem_append, List.mem_cons]
    rcases h with (h | h) | h
    · exact .inl h
    · exact .inr (.inr (.inl (mem_of_mem_splitOn ha t h).1))
    · exact .inr (.inr (.inr (.inr h)))

/-- A pass makes nothing but delimiters of its own. -/
theorem mem_settle {t : Token} {b : Bool} {ts : List Token} :
    t ∈ settle b ts → t ∈ ts ∨ t = mark .delimiter := by
  induction b, ts using cut_induction with
  | nil b => simp
  | token b u ts h ih =>
    rw [settle_token h, List.mem_cons, List.mem_cons]
    rintro (rfl | ht)
    · exact .inl (.inl rfl)
    · rcases ih ht with h | h
      · exact .inl (.inr h)
      · exact .inr h
  | site p rest h ih =>
    rw [settle_site h, List.mem_append, List.mem_append]
    rintro (ht | ht)
    · exact (p.mem_spread ht).imp_left .inl
    · exact (ih ht).imp_left .inr

end FieldSelection
