/-
# The number of passes

A pass copies the trail of a site behind each of its alternatives, so that a text
may come to hold more openers than before, and more sites. What goes down is the
longest stretch: the copies of a trail that held a group are sites again, each with
one group less, and the openers that belonged to no site are at most freed. The
`load` of a list counts the openers outside its sites and the groups of the site
that has most of them. It is no more than the number of openers
(`load_le_openers`), and each pass takes at least one from it (`load_settle_lt`).

Key definitions: `openers`, `Site.groups`, `weight`, `load`.
Key theorems: `weight_settle`, `load_settle_lt`, `passes_le_openers`.
-/
import FieldSelection.Proofs.Pass

namespace FieldSelection

open Token

/-! ### What is counted -/

/-- The number of openers among the tokens. -/
def openers (ts : List Token) : Nat := ts.count (mark .opener)

@[simp] theorem openers_nil : openers [] = 0 := rfl

theorem openers_cons (t : Token) (ts : List Token) :
    openers (t :: ts) = openers [t] + openers ts := by
  simp only [openers, List.count_cons, List.count_nil]
  omega

@[simp] theorem openers_append (x y : List Token) : openers (x ++ y) = openers x + openers y := by
  simp [openers]

@[simp] theorem openers_opener : openers [mark .opener] = 1 := rfl

@[simp] theorem openers_closer : openers [mark .closer] = 0 := rfl

theorem openers_of_free {x : List Token} (h : ∀ t ∈ x, t.isBracket = false) : openers x = 0 := by
  rw [openers, List.count_eq_zero]
  intro hm
  simpa [isBracket] using h _ hm

/-- The number of groups of a site: its own, and those of its trail. -/
def Site.groups (p : Site) : Nat := openers p.trail + 1

/-- The openers outside the sites. -/
def idle : List Part → Nat
  | [] => 0
  | .token t :: ps => openers [t] + idle ps
  | .site _ :: ps => idle ps

/-- The groups of the site that has most of them. -/
def chain : List Part → Nat
  | [] => 0
  | .token _ :: ps => chain ps
  | .site p :: ps => max p.groups (chain ps)

/-- The openers outside the sites and the most groups of a site, a site of `base`
groups counted with them. -/
def weight (base : Nat) (ps : List Part) : Nat := idle ps + max base (chain ps)

/-- The load of a token list. -/
def load (ts : List Token) : Nat := weight 0 (cut true ts)

@[simp] theorem weight_nil (base : Nat) : weight base [] = base := by simp [weight, idle, chain]

@[simp] theorem weight_token (base : Nat) (t : Token) (ps : List Part) :
    weight base (.token t :: ps) = openers [t] + weight base ps := by
  simp only [weight, idle, chain]
  omega

@[simp] theorem weight_site (base : Nat) (p : Site) (ps : List Part) :
    weight base (.site p :: ps) = weight (max base p.groups) ps := by
  simp only [weight, idle, chain]
  omega

theorem weight_tokens (base : Nat) (x : List Token) (ps : List Part) :
    weight base (x.map .token ++ ps) = openers x + weight base ps := by
  induction x with
  | nil => simp
  | cons t x ih =>
    rw [List.map_cons, List.cons_append, weight_token, ih, openers_cons t x]
    omega

/-- A site of `n` groups counts for at most `n`. -/
theorem weight_max_le (base n : Nat) (ps : List Part) :
    weight (max base n) ps ≤ n + weight base ps := by
  unfold weight
  omega

/-- A token more frees at most itself: if it starts a site, the groups of the site
were openers of their own without it. -/
theorem weight_cut_cons (base : Nat) (b : Bool) (t : Token) (ts : List Token) :
    weight base (cut b (t :: ts)) ≤ openers [t] + weight base (cut t.isBoundary ts) := by
  by_cases h : b = true → site? (t :: ts) = none
  · rw [cut_token h, weight_token]
  · obtain ⟨rfl, hs⟩ : b = true ∧ site? (t :: ts) ≠ none := by simpa using h
    obtain ⟨p, hp⟩ := Option.ne_none_iff_exists'.1 hs
    obtain ⟨rest, hrest, hfit⟩ := exists_of_site? hp
    have hinner : cut true (p.content ++ mark .closer :: (p.trail ++ rest)) =
        p.content.map .token ++
          .token (mark .closer) :: (p.trail.map .token ++ cut false rest) := by
      rw [cut_content hfit.content, cut_trail hfit.trail]
    have hcontent := openers_of_free hfit.content
    have hle := weight_max_le base p.groups (cut false rest)
    rw [hrest, cut_site hfit, weight_site]
    cases hl : p.lead with
    | nil =>
      simp only [Site.tokens, hl, List.nil_append, List.cons_append, List.append_assoc,
        List.cons.injEq] at hrest
      obtain ⟨rfl, rfl⟩ := hrest
      rw [show isBoundary (mark .opener) = true from rfl, hinner, weight_tokens, weight_token,
        weight_tokens, hcontent, openers_opener, openers_closer]
      simp only [Site.groups] at hle ⊢
      omega
    | cons u lead =>
      have hlead : ∀ t ∈ lead, t.isText = true := fun t ht =>
        hfit.lead t (hl ▸ List.mem_cons_of_mem _ ht)
      have hu : u.isBoundary = false := by
        have := hfit.lead u (hl ▸ List.mem_cons_self)
        cases u with
        | text s => rfl
        | mark k => simp [isText] at this
      simp only [Site.tokens, hl, List.cons_append, List.append_assoc, List.cons.injEq] at hrest
      obtain ⟨rfl, rfl⟩ := hrest
      rw [hu, cut_texts_false hlead, cut_token (by simp), isBoundary, hinner, weight_tokens,
        weight_token, weight_tokens, weight_token, weight_tokens, hcontent, openers_opener,
        openers_closer]
      simp only [Site.groups] at hle ⊢
      omega

/-- **The load is at most the number of openers.** -/
theorem load_le_openers (ts : List Token) : load ts ≤ openers ts := by
  have h : ∀ (ts : List Token) (b : Bool), weight 0 (cut b ts) ≤ openers ts := by
    intro ts
    induction ts with
    | nil => simp
    | cons t ts ih =>
      intro b
      have h1 := weight_cut_cons 0 b t ts
      have h2 := ih t.isBoundary
      rw [openers_cons]
      omega
  exact h ts true

/-! ### What a pass leaves as it was -/

namespace Token

/-- Delimiters between trails, and the trails, do not nest. -/
theorem nests_intercalate_append {xs : List (List Token)} (h : ∀ x ∈ xs, Trail x) :
    ∀ y, nests ([mark .delimiter].intercalate xs ++ y) = nests y :=
  eq_of_intercalate (fun _ => rfl) fun x hx => nests_trail_append (h x hx)

end Token

/-- Each alternative, written out between what stands around the group, is a trail. -/
theorem Site.Fits.trail_copy {p : Site} {rest : List Token} (h : p.Fits rest) :
    ∀ x ∈ p.alternatives.map (fun a => p.lead ++ a ++ p.trail), Trail x := by
  intro x hx
  obtain ⟨a, ha, rfl⟩ := List.mem_map.1 hx
  exact ((trail_of_texts h.lead).append (trail_of_texts (h.texts ha))).append h.trail

/-- A pass makes nothing nest. -/
theorem flat_settle {b : Bool} {ts : List Token} : nests ts = false →
    nests (settle b ts) = false ∧
      (nearest? (settle b ts) = some .opener → nearest? ts = some .opener) := by
  induction b, ts using cut_induction with
  | nil b => simp
  | token b t ts h ih =>
    intro hn
    obtain ⟨ih1, ih2⟩ := ih (nests_of_cons hn)
    rw [settle_token h]
    match t with
    | text s => exact ⟨ih1, ih2⟩
    | mark .delimiter => exact ⟨ih1, ih2⟩
    | mark .closer => exact ⟨ih1, by simp [nearest?]⟩
    | mark .opener =>
      refine ⟨nests_opener.2 ⟨ih1, fun hk => ?_⟩, by simp [nearest?]⟩
      exact (nests_opener.1 hn).2 (ih2 hk)
  | site p rest h ih =>
    intro _
    obtain ⟨ih1, -⟩ := ih h.flat
    rw [settle_site h, Site.spread, nests_intercalate_append h.trail_copy]
    exact ⟨ih1, fun _ => p.nearest?_tokens h⟩

/-- What stops a trail stops it after a pass. -/
theorem stops_settle {ts : List Token} (h : Stops ts) (b : Bool) : Stops (settle b ts) := by
  rw [settle_of_stops h]
  match ts, h with
  | [], _ => rw [settle_nil]; exact stops_nil
  | text s :: ts, h => exact absurd h (not_stops_text s ts)
  | mark .closer :: ts, _ => rw [settle_token (by simp)]; exact stops_closer _
  | mark .delimiter :: ts, _ => rw [settle_token (by simp)]; exact stops_delimiter _
  | mark .opener :: ts, h =>
    rw [settle_token (by simp), stops_opener]
    intro hm
    rcases mem_settle hm with hm | hm
    · exact stops_opener.1 h hm
    · cases hm

/-! ### What becomes of a site -/

/-- No site starts in texts between delimiters. -/
theorem cut_intercalate_texts {r : List Token} (hr : Stops r) : ∀ {xs : List (List Token)},
    (∀ x ∈ xs, ∀ t ∈ x, t.isText = true) → cut true ([mark .delimiter].intercalate xs ++ r) =
      ([mark .delimiter].intercalate xs).map .token ++ cut false r
  | [], _ => by simp [cut_of_stops hr]
  | [x], h => by
    have hx := h x List.mem_cons_self
    rw [List.intercalate_singleton]
    exact cut_texts hx fun _ => site?_texts_stops hx hr
  | x :: x' :: xs, h => by
    have hx := h x List.mem_cons_self
    have ih := @cut_intercalate_texts r hr (x' :: xs) fun z hz => h z (List.mem_cons_of_mem _ hz)
    rw [List.intercalate_cons_cons, List.append_assoc, List.append_assoc, List.singleton_append,
      cut_texts hx fun _ => site?_texts_stops hx (stops_delimiter _), cut_token (by simp),
      isBoundary, ih]
    simp

/-- Sites that differ in the texts before them count once. -/
theorem weight_intercalate_sites {content trail r : List Token}
    (hc : ∀ t ∈ content, t.isBracket = false) (ht : Trail trail) (hr : Stops r)
    (hn : nests r = false) (base : Nat) : ∀ {ls : List (List Token)}, ls ≠ [] →
    (∀ l ∈ ls, ∀ t ∈ l, t.isText = true) →
    weight base (cut true
        ([mark .delimiter].intercalate (ls.map fun l => (Site.mk l content trail).tokens) ++ r)) =
      weight (max base (openers trail + 1)) (cut false r)
  | [], h, _ => absurd rfl h
  | [l], _, h => by
    have hfit : (Site.mk l content trail).Fits r := ⟨h l List.mem_cons_self, hc, ht, hr, hn⟩
    rw [List.map_singleton, List.intercalate_singleton, cut_site hfit, weight_site]
    rfl
  | l :: l' :: ls, _, h => by
    have hls : ∀ k ∈ l' :: ls, ∀ t ∈ k, t.isText = true := fun k hk =>
      h k (List.mem_cons_of_mem _ hk)
    have ih := weight_intercalate_sites hc ht hr hn (max base (openers trail + 1))
      (List.cons_ne_nil l' ls) hls
    have htrails : ∀ x ∈ (l' :: ls).map fun k => (Site.mk k content trail).tokens, Trail x := by
      intro x hx
      obtain ⟨k, hk, rfl⟩ := List.mem_map.1 hx
      exact (trail_of_texts (hls k hk)).append (.group hc ht)
    rw [List.map_cons] at ih htrails
    rw [List.map_cons, List.map_cons, List.intercalate_cons_cons, List.append_assoc,
      List.append_assoc, List.singleton_append]
    have hfit : (Site.mk l content trail).Fits (mark .delimiter ::
        ([mark .delimiter].intercalate ((Site.mk l' content trail).tokens ::
          ls.map fun k => (Site.mk k content trail).tokens) ++ r)) :=
      ⟨h l List.mem_cons_self, hc, ht, stops_delimiter _, by
        rw [nests, nests_intercalate_append htrails, hn]⟩
    rw [cut_site hfit, cut_token (by simp), weight_site, weight_token, isBoundary,
      openers_of_free (by simp [isBracket]), Nat.zero_add]
    rwa [Nat.max_assoc, Nat.max_self] at ih

/-- **A site spread is a site with one group less.** However many copies of it there
are then, together they count for one. -/
theorem weight_spread {p : Site} {rest r : List Token} (h : p.Fits rest) (hr : Stops r)
    (hn : nests r = false) (base : Nat) :
    weight base (cut true (p.spread ++ r)) = weight (max base (openers p.trail)) (cut false r) := by
  have hne : p.alternatives ≠ [] := List.splitOn_ne_nil _ _
  rw [Site.spread]
  rcases h.trail.cases_group with ht | ⟨lead, content, trail, ht, hlead, hc, htrail⟩
  · have htexts : ∀ x ∈ p.alternatives.map (fun a => p.lead ++ a ++ p.trail),
        ∀ t ∈ x, t.isText = true := by
      intro x hx t htx
      obtain ⟨a, ha, rfl⟩ := List.mem_map.1 hx
      rcases List.mem_append.1 htx with htx | htx
      · exact (List.mem_append.1 htx).elim (h.lead t) (h.texts ha t)
      · exact ht t htx
    have hfree : ∀ t ∈ [mark .delimiter].intercalate
        (p.alternatives.map fun a => p.lead ++ a ++ p.trail), t.isBracket = false := by
      intro t htx
      rcases mem_intercalate htx with htx | ⟨x, hx, htx⟩
      · rw [List.mem_singleton.1 htx, isBracket]
      · exact isBracket_of_isText (htexts x hx t htx)
    rw [cut_intercalate_texts hr htexts, weight_tokens, openers_of_free hfree,
      openers_of_free (isBracket_of_texts ht), Nat.zero_add, Nat.max_zero]
  · have hcopies : p.alternatives.map (fun a => p.lead ++ a ++ p.trail) =
        (p.alternatives.map fun a => p.lead ++ a ++ lead).map
          fun l => (Site.mk l content trail).tokens := by
      rw [List.map_map]
      refine List.map_congr_left fun a _ => ?_
      simp [Site.tokens, ht]
    have hgroups : openers p.trail = openers trail + 1 := by
      rw [ht, openers_append, openers_cons, openers_append, openers_cons (mark .closer),
        openers_of_free (isBracket_of_texts hlead), openers_of_free hc, openers_opener,
        openers_closer]
      omega
    rw [hcopies, hgroups]
    refine weight_intercalate_sites hc htrail hr hn base (by simpa using hne) fun l hl t htl => ?_
    obtain ⟨a, ha, rfl⟩ := List.mem_map.1 hl
    rcases List.mem_append.1 htl with htl | htl
    · exact (List.mem_append.1 htl).elim (h.lead t) (h.texts ha t)
    · exact hlead t htl

/-- **What a pass does to the weight.** The openers outside sites stay at most what
they were, and the site with most groups loses one. -/
theorem weight_settle (b : Bool) (ts : List Token) : ∀ base,
    weight base (cut b (settle b ts)) ≤ idle (cut b ts) + max base (chain (cut b ts) - 1) := by
  induction b, ts using cut_induction with
  | nil b => intro base; simp [idle, chain]
  | token b t ts h ih =>
    intro base
    have h1 := weight_cut_cons base b t (settle t.isBoundary ts)
    have h2 := ih base
    rw [settle_token h, cut_token h, idle, chain]
    omega
  | site p rest h ih =>
    intro base
    have h1 := weight_spread h (stops_settle h.stops false) (flat_settle h.flat).1 base
    have h2 := ih (max base (openers p.trail))
    rw [settle_site h, cut_site h, h1, idle, chain, Site.groups]
    omega

theorem chain_pos {ps : List Part} (h : ps.any Part.isSite = true) : 0 < chain ps := by
  induction ps with
  | nil => simp at h
  | cons p ps ih =>
    cases p with
    | token t =>
      rw [chain]
      exact ih (by simpa [Part.isSite] using h)
    | site p =>
      rw [chain, Site.groups]
      omega

/-- **A pass that spreads a group takes from the load.** -/
theorem load_settle_lt {ts : List Token} (h : (cut true ts).any Part.isSite = true) :
    load (settle true ts) < load ts := by
  have h1 := weight_settle true ts 0
  have h2 := chain_pos h
  unfold load
  conv_rhs => unfold weight
  omega

/-! ### Runs -/

open Expansion

variable {m : Markers}

/-- A run that reads back ends, after no more passes than the load of its source. -/
theorem Seamless.exists_end {s : Text} (h : Seamless m s) :
    ∃ n t, n ≤ load (symbols m s) ∧ after m n s = some t ∧ pass m t = none := by
  induction hn : load (symbols m s) using Nat.strongRecOn generalizing s with
  | ind l ih =>
    subst hn
    cases hp : pass m s with
    | none => exact ⟨0, s, Nat.zero_le _, rfl, hp⟩
    | some t =>
      have hsite : (cut true (symbols m s)).any Part.isSite = true := by
        rw [pass_eq, advance?] at hp
        split at hp
        · assumption
        · cases hp
      have hlt := load_settle_lt hsite
      rw [← h.symbols_pass hp] at hlt
      obtain ⟨n, u, hn, hu, he⟩ := ih _ hlt (h.of_pass hp) rfl
      exact ⟨n + 1, u, by omega, by rw [after_succ_of_pass m hp, hu], he⟩

theorem expand_none_of_end {n : Nat} {s t : Text} (h : after m n s = some t)
    (hp : pass m t = none) : expand m none s = .done t :=
  expand_eq_done_iff.2 ⟨n, h, hp, fun _ _ _ _ _ _ hl => by cases hl⟩

/-- **An expansion takes at most as many passes as the source has openers**, whatever
is wrong with its brackets and delimiters, if no run of its text has a character of a
marker. With markers of one character each, none has. -/
theorem passes_le_openers (m : Markers) (s : Text) :
    ((∀ k, (m.text k).length = 1) → Clean m (tokenize m s)) ∧
      (Clean m (tokenize m s) → ∃ n t, n ≤ openers (tokenize m s) ∧ after m n s = some t ∧
        pass m t = none ∧ expand m none s = .done t) := by
  refine ⟨fun hm => clean_tokenize_of_length hm s, fun h => ?_⟩
  obtain ⟨n, t, hn, ht, hp⟩ := (seamless_of_blunt (blunt_of_clean h)).exists_end
  have hopeners : openers (symbols m s) = openers (tokenize m s) := count_flatMap_fine _ _
  have hle := load_le_openers (symbols m s)
  exact ⟨n, t, by omega, ht, hp, expand_none_of_end ht hp⟩

/-- The bound holds of a source with stray closers, delimiters and openers as well. -/
theorem passes_le_openers_stray :
    ∃ n t, n ≤ 3 ∧ after .standard n [')', '(', ',', '(', 'a', ')', ',', 'b', '('] = some t ∧
      pass .standard t = none ∧
      expand .standard none [')', '(', ',', '(', 'a', ')', ',', 'b', '('] = .done t := by
  have h := passes_le_openers .standard [')', '(', ',', '(', 'a', ')', ',', 'b', '(']
  exact h.2 (h.1 (by intro k; cases k <;> rfl))

end FieldSelection
