/-
# A pass, on tokens

A pass takes a source to tokens, finds its groups with a table and a count of
tokens to skip, and writes text. `pass_eq_tokens` says that it is `advance?` on the
tokens of the source, written out, and `pass_eq` that it may as well be on the symbols,
so that the runs of text need not be known.

Where the written symbols read back, the next pass goes on with the very list
(`symbols_of_pass`). A source is `Seamless` if this holds all along its run, and it is if
its texts are inert (`seamless_of_inert`).

Key definition: `Seamless`.
Key theorems: `pass_eq_tokens`, `pass_eq`, `symbols_of_pass`, `seamless_of_inert`.
-/
import FieldSelection.Proofs.Place
import FieldSelection.Proofs.Symbols
import FieldSelection.Proofs.Run

namespace FieldSelection

open Token

variable {m : Markers}

/-! ### Runs of text cut into characters -/

namespace Token

theorem isText_of_mem_fine {s : Text} {t : Token} (h : t ∈ fine (text s)) : t.isText = true := by
  obtain ⟨c, -, rfl⟩ := List.mem_map.1 h
  rfl

theorem free_fine {x : List Token} (h : ∀ t ∈ x, t.isBracket = false) :
    ∀ t ∈ x.flatMap fine, t.isBracket = false := by
  intro t ht
  obtain ⟨u, hu, hut⟩ := List.mem_flatMap.1 ht
  cases u with
  | text s => exact isBracket_of_isText (isText_of_mem_fine hut)
  | mark k =>
    rw [fine, List.mem_singleton] at hut
    exact hut ▸ h _ hu

end Token

/-! ### A search with a count of tokens to skip -/

theorem piecesFrom_skip : ∀ (x : List Token) (b : Bool) (ts : List Token),
    piecesFrom x.length b (x ++ ts) (nestingAhead (x ++ ts)) =
      piecesFrom 0 (boundaryAfter b x) ts (nestingAhead ts)
  | [], _, _ => rfl
  | t :: x, b, ts => by
    rw [List.cons_append, List.length_cons, piecesFrom, nestingAhead_cons, List.tail_cons,
      piecesFrom_skip x]
    rfl

theorem piecesFrom_token {b : Bool} {t : Token} {ts : List Token}
    (h : b = true → Group.atFront? (t :: ts) (nestingAhead (t :: ts)) = none) :
    piecesFrom 0 b (t :: ts) (nestingAhead (t :: ts)) =
      .token t :: piecesFrom 0 t.isBoundary ts (nestingAhead ts) := by
  have htail : (nestingAhead (t :: ts)).tail = nestingAhead ts := by
    rw [nestingAhead_cons, List.tail_cons]
  cases b with
  | false => rw [piecesFrom, htail]; rfl
  | true => rw [piecesFrom, htail]; simp [h rfl]

namespace Group

/-- The site of a group. -/
def site (g : Group) : Site := ⟨(g.lead.map text).toList, g.content, g.trail⟩

theorem tokens_site (g : Group) : g.site.tokens = g.tokens := by
  simp [Site.tokens, tokens, site]

end Group

theorem piecesFrom_group {g : Group} {rest : List Token} (ht : Trail g.trail)
    (h : Group.atFront? (g.tokens ++ rest) (nestingAhead (g.tokens ++ rest)) = some g) :
    piecesFrom 0 true (g.tokens ++ rest) (nestingAhead (g.tokens ++ rest)) =
      .group g :: piecesFrom 0 false rest (nestingAhead rest) := by
  have hb : boundaryAfter true g.tokens = false := by
    rw [← g.tokens_site]
    exact boundaryAfter_site ht true
  obtain ⟨t, x, hx⟩ := g.site.tokens_eq_cons
  rw [g.tokens_site] at hx
  rw [hx, List.cons_append] at h ⊢
  rw [piecesFrom]
  simp only [if_true, h]
  rw [hx] at hb
  rw [hx, nestingAhead_cons, List.tail_cons, List.length_cons, Nat.add_sub_cancel, piecesFrom_skip]
  rw [show boundaryAfter t.isBoundary x = false from hb]

/-! ### Groups and sites -/

namespace Group

/-- An opener starts a group if the next bracket is a closer and nothing nests. -/
theorem ofOpened?_content {lead : Option Text} {content trail rest : List Token}
    (hc : ∀ t ∈ content, t.isBracket = false) (ht : Trail trail) (hr : Stops rest)
    (hn : nests rest = false) :
    ofOpened? lead (content ++ mark .closer :: (trail ++ rest))
        (nestingAhead (content ++ mark .closer :: (trail ++ rest))) =
      some ⟨lead, content, trail⟩ := by
  have hc' : ∀ t ∈ content, (!t.isBracket) = true := fun t ht => by simp [hc t ht]
  have hd : (content ++ mark .closer :: (trail ++ rest)).dropWhile (!·.isBracket) =
      mark .closer :: (trail ++ rest) := by
    rw [List.dropWhile_append_of_pos hc', List.dropWhile_cons_of_neg (by simp [isBracket])]
  have hw : (content ++ mark .closer :: (trail ++ rest)).takeWhile (!·.isBracket) = content := by
    rw [List.takeWhile_append_of_pos hc', List.takeWhile_cons_of_neg (by simp [isBracket]),
      List.append_nil]
  have hg := getD_nestingAhead (content ++ [mark .closer]) (trail ++ rest)
  rw [nests_trail_append ht, hn, List.append_assoc, List.singleton_append, List.length_append,
    List.length_singleton] at hg
  simp only [ofOpened?, hd, hw, hg, trailFrom_append ht hr]
  rfl

theorem ofOpened?_eq_none {lead : Option Text} {us : List Token}
    (h : ¬ (nearest? us = some .closer ∧ nests us = false)) :
    ofOpened? lead us (nestingAhead us) = none := by
  unfold ofOpened?
  split
  · rename_i rest hrest
    have hus : us = us.takeWhile (!·.isBracket) ++ mark .closer :: rest := by
      rw [← hrest, List.takeWhile_append_dropWhile]
    have hfree : ∀ t ∈ us.takeWhile (!·.isBracket), t.isBracket = false := fun t ht => by
      simpa using List.all_eq_true.1 List.all_takeWhile t ht
    have hk : nearest? us = some .closer := by
      rw [hus, nearest?_append_of_free hfree, nearest?]
    have hn : nests us = nests rest := by
      conv_lhs => rw [hus]
      rw [nests_append_of_free hfree, nests]
    have hg := getD_nestingAhead (us.takeWhile (!·.isBracket) ++ [mark .closer]) rest
    rw [List.append_assoc, List.singleton_append, ← hus, List.length_append,
      List.length_singleton] at hg
    simp only [hk, hn, true_and, Bool.not_eq_false] at h
    simp only [hg, h, if_true]
  · rfl

/-- **The search with a table finds sites.** It tells runs of text from one another
only by their having no text beside them. -/
theorem atFront?_eq {t : Token} {ts : List Token} (ht : Tight (t :: ts)) :
    (∃ g rest, t :: ts = g.tokens ++ rest ∧ g.site.Fits rest ∧
      atFront? (t :: ts) (nestingAhead (t :: ts)) = some g) ∨
    (site? (t :: ts) = none ∧ atFront? (t :: ts) (nestingAhead (t :: ts)) = none) := by
  -- the opener of a group, behind the text before it
  have hopened : ∀ (lead : Option Text) (us : List Token),
      (∃ g rest, (lead.map text).toList ++ mark .opener :: us = g.tokens ++ rest ∧
        g.site.Fits rest ∧ ofOpened? lead us (nestingAhead us) = some g) ∨
      (site? ((lead.map text).toList ++ mark .opener :: us) = none ∧
        ofOpened? lead us (nestingAhead us) = none) := by
    intro lead us
    have hlead : ∀ t ∈ (lead.map text).toList, t.isText = true := by
      cases lead <;> simp [isText]
    by_cases h : nearest? us = some .closer ∧ nests us = false
    · obtain ⟨content, trail, rest, rfl, hc, htr, hr, hflat⟩ := exists_content h.1 h.2
      exact .inl ⟨⟨lead, content, trail⟩, rest, by simp [tokens], ⟨hlead, hc, htr, hr, hflat⟩,
        ofOpened?_content hc htr hr hflat⟩
    · right
      refine ⟨site?_eq_none_of_texts hlead (fun vs hvs => ?_) (by simp), ofOpened?_eq_none h⟩
      cases hvs
      exact h
  have hfree : ∀ x : List Token, (∀ u ∈ x, u.isText = true) → ∀ k us, k ≠ .opener →
      site? (x ++ mark k :: us) = none := fun x hx k us hk =>
    site?_eq_none_of_texts hx (fun vs hvs => absurd (by cases hvs; rfl) hk) (by simp)
  cases t with
  | mark k =>
    cases k with
    | opener =>
      rw [atFront?, nestingAhead_cons]
      exact hopened none ts
    | closer => exact .inr ⟨hfree [] (by simp) _ _ (by simp), rfl⟩
    | delimiter => exact .inr ⟨hfree [] (by simp) _ _ (by simp), rfl⟩
  | text s =>
    have hs : ∀ u ∈ [text s], u.isText = true := by simp [isText]
    cases ts with
    | nil => exact .inr ⟨site?_eq_none_of_texts hs (by simp) (by simp), rfl⟩
    | cons u us =>
      cases u with
      | text v => exact absurd rfl (ht.2.1 v us)
      | mark k =>
        cases k with
        | opener =>
          rw [atFront?, nestingAhead_cons, nestingAhead_cons]
          exact hopened (some s) us
        | closer => exact .inr ⟨hfree [text s] hs _ _ (by simp), rfl⟩
        | delimiter => exact .inr ⟨hfree [text s] hs _ _ (by simp), rfl⟩

theorem writeAll_intercalate (xs : List (List Token)) :
    writeAll m ([mark .delimiter].intercalate xs) =
      Text.joinWith (m.text .delimiter) (xs.map (writeAll m)) := by
  rw [Text.joinWith]
  induction xs with
  | nil => rfl
  | cons x xs ih =>
    cases xs with
    | nil => simp
    | cons y ys =>
      rw [List.intercalate_cons_cons, writeAll_append, writeAll_append, ih]
      simp [write]

end Group

namespace Token

theorem splitOn_append_of_not_mem {d : Token} {y z : List Token} {zs : List (List Token)}
    (h : y.splitOn d = z :: zs) : ∀ {x : List Token}, d ∉ x →
    (x ++ y).splitOn d = (x ++ z) :: zs
  | [], _ => h
  | t :: x, hx => by
    have ht : ¬ (t == d) = true := by
      rw [beq_iff_eq]
      rintro rfl
      exact hx List.mem_cons_self
    rw [List.cons_append, List.splitOn_cons_eq_if_modifyHead, if_neg ht,
      splitOn_append_of_not_mem h fun hm => hx (List.mem_cons_of_mem _ hm)]
    rfl

/-- Runs of text may be cut into characters before or after a list is cut at its
delimiters. -/
theorem splitOn_flatMap_fine (ts : List Token) :
    (ts.flatMap fine).splitOn (mark .delimiter) =
      (ts.splitOn (mark .delimiter)).map (·.flatMap fine) := by
  induction ts with
  | nil => rfl
  | cons t ts ih =>
    obtain ⟨y, ys, hy⟩ := List.exists_cons_of_ne_nil (List.splitOn_ne_nil (mark .delimiter) ts)
    rw [hy, List.map_cons] at ih
    rw [List.splitOn_cons_eq_if_modifyHead, hy, List.flatMap_cons]
    by_cases ht : t = mark .delimiter
    · subst ht
      rw [fine, List.singleton_append, List.splitOn_cons_eq_if_modifyHead, ih]
      simp
    · have hmem : mark .delimiter ∉ t.fine := by
        cases t with
        | mark k => simpa [fine, eq_comm] using ht
        | text s => simp [fine]
      rw [if_neg (by simpa using ht), splitOn_append_of_not_mem ih hmem]
      simp

end Token

/-- The alternatives of a group are those of its site, written out. -/
theorem Group.alternatives_eq {g : Group} {us : List Token}
    (hc : ∀ t ∈ g.content, t.isBracket = false)
    (hr : Read m ((g.content ++ us).flatMap fine)) :
    g.alternatives m = g.site.alternatives.map (writeAll m) := by
  rw [List.flatMap_append] at hr
  have h := splitOn_writeAll (free_fine hc) hr
  rw [writeAll_flatMap_fine, splitOn_flatMap_fine, List.map_map] at h
  rw [Site.alternatives, alternatives, contentText, h]
  exact List.map_congr_left fun a _ => writeAll_flatMap_fine a

/-- A group and its site spread to the same text. -/
theorem Group.writeAll_spread_site {g : Group} {us : List Token}
    (hc : ∀ t ∈ g.content, t.isBracket = false)
    (hr : Read m ((g.content ++ us).flatMap fine)) : writeAll m g.site.spread = g.spread m := by
  have hlead : writeAll m g.site.lead = g.leadText := by
    cases hl : g.lead with
    | none => simp [site, leadText, hl]
    | some s => simp [site, leadText, hl, write]
  rw [Site.spread, writeAll_intercalate, spread, Group.alternatives_eq hc hr, List.map_map,
    List.map_map]
  congr 1
  refine List.map_congr_left fun a _ => ?_
  rw [Function.comp_apply, writeAll_append, writeAll_append, hlead]
  rfl

namespace Piece

/-- A piece as a part of a cut. -/
def part : Piece → Part
  | token t => .token t
  | group g => .site g.site

theorem tokens_part (p : Piece) : p.part.tokens = p.tokens := by
  cases p with
  | token t => rfl
  | group g => exact g.tokens_site

theorem isSite_part (p : Piece) : p.part.isSite = p.group?.isSome := by
  cases p <;> rfl

end Piece

/-- **The pieces of a token list are its cut.** -/
theorem map_part_piecesFrom {b : Bool} {ts : List Token} (ht : Tight ts) :
    (piecesFrom 0 b ts (nestingAhead ts)).map Piece.part = cut b ts := by
  induction hn : ts.length using Nat.strongRecOn generalizing b ts with
  | ind n ih =>
    subst hn
    cases ts with
    | nil => simp [piecesFrom]
    | cons t ts =>
      by_cases hg : b = true ∧ ∃ g rest, t :: ts = g.tokens ++ rest ∧ g.site.Fits rest ∧
          Group.atFront? (t :: ts) (nestingAhead (t :: ts)) = some g
      · obtain ⟨rfl, g, rest, hrest, hfit, hfront⟩ := hg
        rw [hrest] at ht ih hfront ⊢
        have hsite : g.tokens ++ rest = g.site.tokens ++ rest := by rw [g.tokens_site]
        have hlen : rest.length < (g.tokens ++ rest).length := by
          simp [Group.tokens]
          omega
        rw [piecesFrom_group hfit.trail hfront, List.map_cons,
          ih _ hlen (b := false) (tight_of_append ht) rfl, hsite, cut_site hfit]
        rfl
      · have hnone : b = true → site? (t :: ts) = none ∧
            Group.atFront? (t :: ts) (nestingAhead (t :: ts)) = none := by
          intro hb
          rcases Group.atFront?_eq ht with h | h
          · exact absurd ⟨hb, h⟩ hg
          · exact h
        rw [piecesFrom_token fun hb => (hnone hb).2, List.map_cons,
          ih ts.length (by simp) (b := t.isBoundary) (tight_of_append (x := [t]) ht) rfl,
          cut_token fun hb => (hnone hb).1]
        rfl

theorem map_part_pieces {ts : List Token} (ht : Tight ts) :
    (pieces ts).map Piece.part = cut true ts := map_part_piecesFrom ht

/-- The groups among the pieces stand where the pieces have them. -/
theorem exists_of_pieces {ts : List Token} (ht : Tight ts) {a c : List Piece} {g : Group}
    (h : pieces ts = a ++ .group g :: c) :
    ∃ z, ts = a.flatMap Piece.tokens ++ (g.tokens ++ z) ∧
      g.site.Stands (a.flatMap Piece.tokens) z := by
  have hcut : cut true ts = a.map Piece.part ++ .site g.site :: c.map Piece.part := by
    rw [← map_part_pieces ht, h, List.map_append, List.map_cons]
    rfl
  have htokens : (a.map Piece.part).flatMap Part.tokens = a.flatMap Piece.tokens := by
    rw [List.flatMap_map]
    exact List.flatMap_congr fun p _ => p.tokens_part
  obtain ⟨z, hts, hb, hfit⟩ := exists_of_cut hcut
  rw [htokens, g.tokens_site] at hts
  rw [htokens] at hb
  exact ⟨z, hts, hb, hfit⟩

/-- A group of a source that is read, and its site, spread to the same text. -/
theorem writeAll_spread_of_read {g : Group} {x z : List Token} (hg : g.site.Fits z)
    (hr : Read m ((x ++ (g.tokens ++ z)).flatMap fine)) :
    writeAll m g.site.spread = g.spread m := by
  have hsplit : x ++ (g.tokens ++ z) = (x ++ ((g.lead.map text).toList ++ [mark .opener])) ++
      (g.content ++ mark .closer :: (g.trail ++ z)) := by simp [Group.tokens]
  rw [hsplit, List.flatMap_append] at hr
  exact Group.writeAll_spread_site hg.content hr.of_append

/-- The pieces of a token list and its cut spread to the same text. -/
theorem spread_pieces {ts : List Token} (ht : Tight ts) (hr : Read m (ts.flatMap fine)) :
    (pieces ts).flatMap (Piece.spread m) = writeAll m (settle true ts) := by
  have hpiece : ∀ p ∈ pieces ts, p.spread m = writeAll m p.part.spread := by
    intro p hp
    cases p with
    | token t => simp [Piece.spread, Piece.part, Part.spread]
    | group g =>
      obtain ⟨a, c, h⟩ := List.append_of_mem hp
      obtain ⟨z, rfl, hg⟩ := exists_of_pieces ht h
      exact (writeAll_spread_of_read hg.fits hr).symm
  rw [settle, ← map_part_pieces ht, writeAll, List.flatMap_map, List.flatMap_assoc]
  exact List.flatMap_congr hpiece

/-- There is a group among the pieces if and only if there is a site in the cut. -/
theorem any_group_pieces {ts : List Token} (ht : Tight ts) :
    (pieces ts).any (·.group?.isSome) = (cut true ts).any Part.isSite := by
  rw [← map_part_pieces ht, List.any_map]
  exact congrArg (List.any _) (funext fun p => p.isSite_part.symm)

/-- **A pass is a step on tokens, written out.** -/
theorem pass_eq_tokens (m : Markers) (s : Text) :
    pass m s = (advance? (tokenize m s)).map (writeAll m) := by
  rw [pass, advance?, spread_pieces (tight_tokenize s) (read_symbols (m := m) s),
    any_group_pieces (tight_tokenize s)]
  split <;> simp

/-! ### From tokens to symbols -/

namespace Token

theorem nearest?_fine : ∀ ts : List Token, nearest? (ts.flatMap fine) = nearest? ts
  | [] => rfl
  | text s :: ts => by
    rw [List.flatMap_cons, nearest?_append_of_free fun t ht =>
      isBracket_of_isText (isText_of_mem_fine ht), nearest?_fine ts, nearest?]
  | mark k :: ts => by
    rw [List.flatMap_cons, fine, List.singleton_append]
    cases k with
    | opener => rfl
    | closer => rfl
    | delimiter => exact nearest?_fine ts

theorem nests_fine : ∀ ts : List Token, nests (ts.flatMap fine) = nests ts
  | [] => rfl
  | text s :: ts => by
    rw [List.flatMap_cons, nests_append_of_free fun t ht =>
      isBracket_of_isText (isText_of_mem_fine ht), nests_fine ts, nests]
  | mark k :: ts => by
    rw [List.flatMap_cons, fine, List.singleton_append]
    cases k with
    | opener => rw [nests, nests, nests_fine ts, nearest?_fine ts]
    | closer => exact nests_fine ts
    | delimiter => exact nests_fine ts

theorem trail_fine {x : List Token} (hx : Trail x) : Trail (x.flatMap fine) := by
  induction hx with
  | nil => exact .nil
  | text s _ ih => exact (trail_of_texts fun t => isText_of_mem_fine).append ih
  | group hc _ ih =>
    have := Trail.group (free_fine hc) ih
    simpa [fine] using this

theorem stops_fine : ∀ {ts : List Token}, Stops ts → Stops (ts.flatMap fine)
  | [], _ => stops_nil
  | text s :: ts, h => absurd h (not_stops_text s ts)
  | mark .opener :: ts, h => by
    rw [List.flatMap_cons, fine, List.singleton_append, stops_opener, mark_mem_flatMap_fine]
    exact stops_opener.1 h
  | mark .closer :: ts, _ => stops_closer _
  | mark .delimiter :: ts, _ => stops_delimiter _

theorem flatMap_fine_intercalate : ∀ xs : List (List Token),
    [mark .delimiter].intercalate (xs.map (·.flatMap fine)) =
      ([mark .delimiter].intercalate xs).flatMap fine
  | [] => rfl
  | [x] => by simp
  | x :: y :: ys => by
    have ih := flatMap_fine_intercalate (y :: ys)
    rw [List.map_cons] at ih
    rw [List.map_cons, List.map_cons, List.intercalate_cons_cons, ih, List.intercalate_cons_cons,
      List.flatMap_append, List.flatMap_append]
    rfl

theorem dropWhile_isText_fine : ∀ ts : List Token,
    (ts.flatMap fine).dropWhile isText = (ts.dropWhile isText).flatMap fine
  | [] => rfl
  | text s :: ts => by
    rw [List.flatMap_cons, List.dropWhile_append_of_pos fun t => isText_of_mem_fine,
      dropWhile_isText_fine ts, List.dropWhile_cons_of_pos rfl]
  | mark k :: ts => by
    rw [List.dropWhile_cons_of_neg (by simp [isText]), List.flatMap_cons, fine,
      List.singleton_append, List.dropWhile_cons_of_neg (by simp [isText])]

end Token

theorem site?_fine_eq_none {ts : List Token} (h : site? ts = none) :
    site? (ts.flatMap fine) = none := by
  by_contra hne
  obtain ⟨us, hus, hk, hn⟩ := site?_ne_none_iff.1 hne
  rw [dropWhile_isText_fine] at hus
  refine site?_ne_none_iff.2 ?_ h
  match hd : ts.dropWhile isText, hus with
  | mark k :: vs, hus =>
    rw [List.flatMap_cons, fine, List.singleton_append, List.cons.injEq] at hus
    obtain ⟨hmark, rfl⟩ := hus
    rw [nearest?_fine] at hk
    rw [nests_fine] at hn
    exact ⟨vs, by rw [hmark], hk, hn⟩
  | text s :: vs, _ =>
    have := List.head?_dropWhile_not isText ts
    rw [hd] at this
    simp [isText] at this

namespace Site

/-- A site with its runs of text cut into characters. -/
def fine (p : Site) : Site :=
  ⟨p.lead.flatMap Token.fine, p.content.flatMap Token.fine, p.trail.flatMap Token.fine⟩

theorem tokens_fine (p : Site) : p.fine.tokens = p.tokens.flatMap Token.fine := by
  simp [tokens, fine, Token.fine]

theorem Fits.fine {p : Site} {rest : List Token} (h : p.Fits rest) :
    p.fine.Fits (rest.flatMap Token.fine) where
  lead := by
    intro t ht
    obtain ⟨u, hu, hut⟩ := List.mem_flatMap.1 ht
    cases u with
    | mark k => simpa [isText] using h.lead (mark k) hu
    | text s => exact isText_of_mem_fine hut
  content := free_fine h.content
  trail := trail_fine h.trail
  stops := stops_fine h.stops
  flat := by rw [nests_fine, h.flat]

theorem spread_fine (p : Site) : p.fine.spread = p.spread.flatMap Token.fine := by
  rw [spread, spread, ← flatMap_fine_intercalate, alternatives, fine, splitOn_flatMap_fine,
    List.map_map, List.map_map]
  congr 1
  refine List.map_congr_left fun a _ => ?_
  simp

end Site

/-- Spreading sites and cutting runs of text into characters go together. -/
theorem settle_fine (b : Bool) (ts : List Token) :
    settle b (ts.flatMap fine) = (settle b ts).flatMap fine ∧
      (cut b (ts.flatMap fine)).any Part.isSite = (cut b ts).any Part.isSite := by
  induction b, ts using cut_induction with
  | nil b => simp
  | token b t ts h ih =>
    obtain ⟨ih1, ih2⟩ := ih
    have hsite : b = true → site? (t.fine ++ ts.flatMap fine) = none := fun hb => by
      rw [← List.flatMap_cons]
      exact site?_fine_eq_none (h hb)
    rw [settle_token h, cut_token h, List.flatMap_cons, List.flatMap_cons, List.any_cons, ← ih1,
      ← ih2]
    cases t with
    | mark k =>
      rw [fine, List.singleton_append] at hsite ⊢
      rw [settle_token hsite, cut_token hsite]
      exact ⟨rfl, rfl⟩
    | text s =>
      rw [settle, cut_texts (fun t => isText_of_mem_fine) hsite, List.flatMap_append,
        flatMap_spread_tokens, List.any_append, any_isSite_tokens]
      exact ⟨rfl, rfl⟩
  | site p rest h ih =>
    obtain ⟨ih1, ih2⟩ := ih
    rw [List.flatMap_append, ← p.tokens_fine, settle_site h, settle_site h.fine, cut_site h,
      cut_site h.fine, List.flatMap_append, p.spread_fine, ih1, List.any_cons, List.any_cons, ih2]
    exact ⟨rfl, rfl⟩

theorem advance?_fine (ts : List Token) :
    advance? (ts.flatMap fine) = (advance? ts).map (·.flatMap fine) := by
  obtain ⟨h1, h2⟩ := settle_fine true ts
  rw [advance?, advance?, h1, h2]
  split <;> rfl

/-- **A pass is a step on symbols, written out.** -/
theorem pass_eq (m : Markers) (s : Text) :
    pass m s = (advance? (symbols m s)).map (writeAll m) := by
  rw [pass_eq_tokens, symbols, advance?_fine, Option.map_map]
  congr 1
  funext ts
  exact (writeAll_flatMap_fine ts).symm

/-- A pass is a step on any tokens of which the symbols are read. -/
theorem pass_writeAll {ts : List Token} (h : Read m (ts.flatMap fine)) :
    pass m (writeAll m ts) = (advance? ts).map (writeAll m) := by
  have hsymbols : symbols m (writeAll m ts) = ts.flatMap fine := by
    rw [← writeAll_flatMap_fine, symbols_writeAll h]
  rw [pass_eq, hsymbols, advance?_fine, Option.map_map]
  congr 1
  funext us
  exact writeAll_flatMap_fine us

/-- A pass whose symbols read back leads to these symbols. -/
theorem symbols_of_pass {s t : Text} (h : pass m s = some t)
    (hr : Read m (settle true (symbols m s))) :
    symbols m t = settle true (symbols m s) := by
  rw [pass_eq, advance?] at h
  split at h
  · simp only [Option.map_some, Option.some.injEq] at h
    rw [← h, symbols_writeAll hr]
  · cases h

/-! ### Runs that read back -/

/-- Every pass from the source on is read back as it was written: where it puts
texts together it makes no marker, and takes none away. -/
def Seamless (m : Markers) (s : Text) : Prop :=
  ∀ n t u, Expansion.after m n s = some t → pass m t = some u →
    symbols m u = settle true (symbols m t)

theorem Seamless.of_pass {s t : Text} (h : Seamless m s) (hp : pass m s = some t) :
    Seamless m t := fun n u v hu hv =>
  h (n + 1) u v (by rw [Expansion.after_succ_of_pass m hp, hu]) hv

theorem Seamless.symbols_pass {s t : Text} (h : Seamless m s) (hp : pass m s = some t) :
    symbols m t = settle true (symbols m s) := h 0 s t rfl hp

/-- A pass keeps the symbols of inert texts together. -/
theorem exists_inert_of_pass {s t : Text} {ts : List Token} (hs : symbols m s = ts.flatMap fine)
    (hi : ∀ u, text u ∈ ts → Inert m u) (hp : pass m s = some t) :
    symbols m t = settle true (symbols m s) ∧
      ∃ us : List Token, symbols m t = us.flatMap fine ∧ ∀ u, text u ∈ us → Inert m u := by
  have hsettle : ∀ u, text u ∈ settle true ts → Inert m u := fun u hu =>
    (mem_settle hu).elim (hi u) (by simp)
  have heq : settle true (symbols m s) = (settle true ts).flatMap fine := by
    rw [hs, (settle_fine true ts).1]
  have ht := symbols_of_pass hp (by rw [heq]; exact read_of_inert hsettle)
  exact ⟨ht, _, ht.trans heq, hsettle⟩

/-- **Inert texts leave no seam.** -/
theorem seamless_of_inert {s : Text} {ts : List Token} (hs : symbols m s = ts.flatMap fine)
    (hi : ∀ u, text u ∈ ts → Inert m u) : Seamless m s := by
  intro n
  induction n generalizing s ts with
  | zero =>
    intro t u ht hu
    cases ht
    exact (exists_inert_of_pass hs hi hu).1
  | succ n ih =>
    intro t u ht hu
    obtain ⟨v, hv, ht⟩ := Option.bind_eq_some_iff.1 ht
    obtain ⟨-, us, hus, hi'⟩ := exists_inert_of_pass hs hi hv
    exact ih hus hi' t u ht hu

theorem seamless_of_blunt {s : Text} (h : Blunt m (tokenize m s)) : Seamless m s :=
  seamless_of_inert rfl fun _ => inert_of_blunt h

end FieldSelection
