/-
# What a path is made of

A walk reads tokens from the left and may pass over any of them. It enters a group at an
alternative of its choice, and at a delimiter it leaves the group that it is in. `walks`
are the lists that walks read. Each is part of the tokens, in their order and none of
them twice (`sublist_of_mem_walks`).

To spread a site is to write what is before and behind the group beside each alternative,
so the list grows. But walks read nothing new in it (`Spreads.walked`). One that is in a
copy might as well have entered the group at that alternative, and from the copy it comes
to what is behind all of them, for the delimiter between makes it leave.

The pieces of a list between its delimiters are read on walks (`walked_of_mem_splitOn`).
So the paths of a source, pieces of the list in which its run ends, are read on walks
through the source (`paths_sublist`).

Key definitions: `Token.walks`, `Token.Walked`, `Token.Below`.
Key theorems: `Token.sublist_of_mem_walks`, `Spreads.walked`, `Token.walked_of_mem_splitOn`,
`paths_sublist`.
-/
import Mathlib.Data.List.Flatten
import FieldSelection.Proofs.Order
import FieldSelection.Proofs.Meaning

namespace FieldSelection

namespace Token

/-! ### Walks -/

theorem append_subset_append {xs xs' ys ys' : List (List Token)} (h : xs ⊆ xs') (h' : ys ⊆ ys') :
    xs ++ ys ⊆ xs' ++ ys' :=
  List.append_subset.2 ⟨List.subset_append_of_subset_left _ h,
    List.subset_append_of_subset_right _ h'⟩

/-- The lists, and each of them with the token in front. -/
def optional (t : Token) (xs : List (List Token)) : List (List Token) := xs ++ xs.map (t :: ·)

theorem subset_optional (t : Token) (xs : List (List Token)) : xs ⊆ optional t xs :=
  List.subset_append_left _ _

theorem optional_subset (t : Token) {xs ys : List (List Token)} (h : xs ⊆ ys) :
    optional t xs ⊆ optional t ys :=
  append_subset_append h (List.map_subset _ h)

theorem cons_mem_optional {t : Token} {x : List Token} {xs : List (List Token)} (h : x ∈ xs) :
    t :: x ∈ optional t xs :=
  List.mem_append_right _ (List.mem_map_of_mem h)

theorem mem_optional {t : Token} {x : List Token} {xs : List (List Token)} :
    x ∈ optional t xs ↔ x ∈ xs ∨ ∃ y ∈ xs, t :: y = x := by
  rw [optional, List.mem_append, List.mem_map]

/-- The number of groups to leave behind the token, where before it there are `depth`. -/
def depthAfter (depth : Nat) : Token → Nat
  | mark .opener => depth + 1
  | mark .closer => depth - 1
  | mark .delimiter | text _ => depth

/-- What is read on walks that have `depth` groups to leave first. Then a walk is `reading`,
or it looks for a delimiter of its group, behind which to begin. -/
def walks : (reading : Bool) → (depth : Nat) → List Token → List (List Token)
  | true, _, [] => [[]]
  | false, _, [] => []
  | reading, depth + 1, t :: ts => walks reading (t.depthAfter (depth + 1)) ts
  | true, 0, text s :: ts => optional (text s) (walks true 0 ts)
  | true, 0, mark .opener :: ts => optional (mark .opener) (walks true 0 ts) ++ walks false 0 ts
  | true, 0, mark .closer :: ts => optional (mark .closer) (walks true 0 ts)
  | true, 0, mark .delimiter :: ts => walks true 1 ts
  | false, 0, text _ :: ts => walks false 0 ts
  | false, 0, mark .opener :: ts => walks false 1 ts
  | false, 0, mark .closer :: _ => []
  | false, 0, mark .delimiter :: ts => walks true 0 ts ++ walks false 0 ts

theorem walks_true_nil (d : Nat) : walks true d [] = [[]] := by
  cases d <;> rfl

theorem walks_false_nil (d : Nat) : walks false d [] = [] := by
  cases d <;> rfl

theorem walks_succ (r : Bool) (d : Nat) (t : Token) (ts : List Token) :
    walks r (d + 1) (t :: ts) = walks r (t.depthAfter (d + 1)) ts := by
  cases r <;> rfl

/-- A delimiter ends a walk in its group. -/
theorem walks_delimiter (ts : List Token) :
    walks true 0 (mark .delimiter :: ts) = walks true 1 ts := rfl

/-- No delimiter inside a group is one of the group around it. -/
theorem walks_false_opener (ts : List Token) :
    walks false 0 (mark .opener :: ts) = walks false 1 ts := rfl

/-- A walk may read on in a group. -/
theorem walks_subset_opener (ts : List Token) :
    walks true 0 ts ⊆ walks true 0 (mark .opener :: ts) :=
  List.subset_append_of_subset_left _ (subset_optional _ _)

/-- A walk may go on behind a delimiter of a group. -/
theorem walks_false_subset_opener (ts : List Token) :
    walks false 0 ts ⊆ walks true 0 (mark .opener :: ts) := List.subset_append_right _ _

/-- **What is read on a walk is part of the tokens.** -/
theorem sublist_of_mem_walks : ∀ {ts x : List Token} {r : Bool} {d : Nat}, x ∈ walks r d ts →
    x.Sublist ts
  | [], x, true, d, h => by
    rw [walks_true_nil, List.mem_singleton] at h
    exact h ▸ .slnil
  | [], _, false, d, h => by
    rw [walks_false_nil] at h
    cases h
  | t :: ts, x, r, d, h => by
    -- what is read of the rest, with the first token or without it
    have ih : ∀ {r d}, x ∈ walks r d ts → x.Sublist (t :: ts) := fun h =>
      (sublist_of_mem_walks h).cons t
    have htake : x ∈ optional t (walks true 0 ts) → x.Sublist (t :: ts) := by
      intro hx
      rcases mem_optional.1 hx with hx | ⟨y, hy, rfl⟩
      · exact ih hx
      · exact (sublist_of_mem_walks hy).cons_cons t
    match r, d, t, h with
    | true, 0, text s, h => exact htake h
    | true, 0, mark .opener, h => exact (List.mem_append.1 h).elim htake ih
    | true, 0, mark .closer, h => exact htake h
    | true, 0, mark .delimiter, h => exact ih h
    | false, 0, text s, h => exact ih h
    | false, 0, mark .opener, h => exact ih h
    | false, 0, mark .closer, h => cases h
    | false, 0, mark .delimiter, h => exact (List.mem_append.1 h).elim ih ih
    | r, d + 1, t, h => exact ih (walks_succ r d t ts ▸ h)

theorem nil_mem_walks : ∀ (ts : List Token) (d : Nat), [] ∈ walks true d ts
  | [], d => by rw [walks_true_nil, List.mem_singleton]
  | text _ :: ts, 0 => subset_optional _ _ (nil_mem_walks ts 0)
  | mark .opener :: ts, 0 => walks_subset_opener _ (nil_mem_walks ts 0)
  | mark .closer :: ts, 0 => subset_optional _ _ (nil_mem_walks ts 0)
  | mark .delimiter :: ts, 0 => nil_mem_walks ts 1
  | _ :: ts, _ + 1 => nil_mem_walks ts _

/-- A walk may leave a group more. -/
theorem walks_succ_subset : ∀ (ts : List Token) (d : Nat), walks true (d + 1) ts ⊆ walks true d ts
  | [], d => by rw [walks_true_nil, walks_true_nil]; exact List.Subset.refl _
  | text _ :: ts, 0 => List.Subset.trans (walks_succ_subset ts 0) (subset_optional _ _)
  | mark .opener :: ts, 0 =>
    List.Subset.trans (walks_succ_subset ts 1)
      (List.Subset.trans (walks_succ_subset ts 0) (walks_subset_opener ts))
  | mark .closer :: _, 0 => subset_optional _ _
  | mark .delimiter :: _, 0 => List.Subset.refl _
  | t :: ts, d + 1 => by
    have ht : t.depthAfter (d + 2) = t.depthAfter (d + 1) + 1 := by
      match t with
      | text s => rfl
      | mark .opener => rfl
      | mark .closer => rfl
      | mark .delimiter => rfl
    rw [walks_succ, walks_succ, ht]
    exact walks_succ_subset ts _

/-! ### Walks past a group -/

/-- The closer of a group leaves it. -/
theorem walks_content : ∀ {x : List Token}, (∀ t ∈ x, t.isBracket = false) →
    ∀ (y : List Token) (r : Bool) (d : Nat), walks r (d + 1) (x ++ mark .closer :: y) = walks r d y
  | [], _, y, r, d => by rw [List.nil_append, walks_succ, depthAfter, Nat.add_sub_cancel]
  | t :: x, h, y, r, d => by
    have ih := walks_content (fun u hu => h u (List.mem_cons_of_mem _ hu)) y r d
    have ht := h t List.mem_cons_self
    match t, ht with
    | text s, _ => rw [List.cons_append, walks_succ, depthAfter, ih]
    | mark .delimiter, _ => rw [List.cons_append, walks_succ, depthAfter, ih]

/-- A trail does not matter to walks that have a group to leave. -/
theorem walks_succ_trail {x : List Token} (hx : Trail x) (y : List Token) (r : Bool) (d : Nat) :
    walks r (d + 1) (x ++ y) = walks r (d + 1) y := by
  induction hx with
  | nil => rfl
  | text s _ ih => rw [List.cons_append, walks_succ, depthAfter, ih]
  | group hc _ ih =>
    rw [List.cons_append, List.append_assoc, List.cons_append, walks_succ, depthAfter,
      walks_content hc, ih]

/-- In a trail there is no delimiter but in its groups. -/
theorem walks_false_trail {x : List Token} (hx : Trail x) (y : List Token) (d : Nat) :
    walks false d (x ++ y) = walks false d y := by
  cases d with
  | succ d => exact walks_succ_trail hx y false d
  | zero =>
    induction hx with
    | nil => rfl
    | text s _ ih => exact ih
    | group hc _ ih =>
      rw [List.cons_append, List.append_assoc, List.cons_append, walks_false_opener,
        walks_content hc, ih]

/-! ### Walks that come to less -/

section
variable {y z : List Token} (h : walks true 0 y ⊆ walks true 0 z)
include h

/-- What is behind a group matters only to walks that leave it. -/
theorem walks_content_subset : ∀ {x : List Token}, (∀ t ∈ x, t.isBracket = false) → ∀ r : Bool,
    walks r 0 (x ++ mark .closer :: y) ⊆ walks r 0 (x ++ mark .closer :: z)
  | [], _, true => optional_subset _ h
  | [], _, false => List.Subset.refl _
  | t :: x, hx, r => by
    have hx' : ∀ u ∈ x, u.isBracket = false := fun u hu => hx u (List.mem_cons_of_mem _ hu)
    have ih := walks_content_subset hx'
    have ht := hx t List.mem_cons_self
    rw [List.cons_append, List.cons_append]
    match t, ht, r with
    | text s, _, true => exact optional_subset _ (ih true)
    | text s, _, false => exact ih false
    | mark .delimiter, _, true =>
      rw [walks_delimiter, walks_delimiter, walks_content hx', walks_content hx']
      exact h
    | mark .delimiter, _, false => exact append_subset_append (ih true) (ih false)

theorem walks_trail_subset {x : List Token} (hx : Trail x) :
    walks true 0 (x ++ y) ⊆ walks true 0 (x ++ z) := by
  induction hx with
  | nil => exact h
  | text s _ ih => exact optional_subset _ ih
  | group hc _ ih =>
    rw [List.cons_append, List.append_assoc, List.cons_append, List.cons_append,
      List.append_assoc, List.cons_append]
    have hin := walks_content_subset ih hc
    exact append_subset_append (optional_subset _ (hin true)) (hin false)

/-- **An alternative in place of the group.** A walk through it might have entered the group,
at its first alternative by reading on, and at another behind a delimiter. -/
theorem exists_alternatives : ∀ {x : List Token}, (∀ t ∈ x, t.isBracket = false) →
    ∃ a as, x.splitOn (mark .delimiter) = a :: as ∧
      walks true 0 (a ++ y) ⊆ walks true 0 (x ++ mark .closer :: z) ∧
      ∀ b ∈ as, walks true 0 (b ++ y) ⊆ walks false 0 (x ++ mark .closer :: z)
  | [], _ => ⟨[], [], rfl, List.Subset.trans h (subset_optional _ _), by simp⟩
  | t :: x, hx => by
    have hx' : ∀ u ∈ x, u.isBracket = false := fun u hu => hx u (List.mem_cons_of_mem _ hu)
    obtain ⟨a, as, hsplit, ha, has⟩ := exists_alternatives hx'
    have ht := hx t List.mem_cons_self
    rw [List.splitOn_cons_eq_if_modifyHead, hsplit]
    match t, ht with
    | text s, _ => exact ⟨text s :: a, as, rfl, optional_subset _ ha, has⟩
    | mark .delimiter, _ =>
      refine ⟨[], a :: as, rfl, ?_, fun b hb => ?_⟩
      · rw [List.cons_append, walks_delimiter, walks_content hx']
        exact h
      · rcases List.mem_cons.1 hb with rfl | hb
        · exact List.subset_append_of_subset_left _ ha
        · exact List.subset_append_of_subset_right _ (has b hb)

/-- A walk through a copy reads nothing that is not read through the site. -/
theorem walks_copy_subset {p : Site} {rest a : List Token} (hp : p.Fits rest)
    (ha : a ∈ p.alternatives) :
    walks true 0 (p.lead ++ a ++ p.trail ++ y) ⊆ walks true 0 (p.tokens ++ z) := by
  have hgroup : walks true 0 (a ++ (p.trail ++ y)) ⊆
      walks true 0 (mark .opener :: (p.content ++ mark .closer :: (p.trail ++ z))) := by
    obtain ⟨b, bs, hsplit, hb, hbs⟩ :=
      exists_alternatives (walks_trail_subset h hp.trail) hp.content
    rw [Site.alternatives, hsplit] at ha
    rcases List.mem_cons.1 ha with rfl | ha
    · exact List.Subset.trans hb (walks_subset_opener _)
    · exact List.Subset.trans (hbs a ha) (walks_false_subset_opener _)
  have hlead := walks_trail_subset hgroup (trail_of_texts hp.lead)
  simpa [Site.tokens] using hlead

end

/-! ### Walks through a site spread -/

/-- The copies of a site, each a trail, do not matter to walks that have a group to leave. -/
theorem walks_succ_copies {xs : List (List Token)} (h : ∀ x ∈ xs, Trail x) (z : List Token)
    (r : Bool) (d : Nat) :
    walks r (d + 1) ([mark .delimiter].intercalate xs ++ z) = walks r (d + 1) z :=
  eq_of_intercalate (fun y => walks_succ r d (mark .delimiter) y)
    (fun x hx y => walks_succ_trail (h x hx) y r d) z

/-- Let walks through any of the copies, from which they come to no more than is behind all of
them, read nothing but `ws`. Then so do walks through the copies, and such as begin at one. -/
theorem walks_copies {z : List Token} {ws : List (List Token)} : ∀ {xs : List (List Token)},
    xs ≠ [] → (∀ x ∈ xs, Trail x) →
    (∀ x ∈ xs, ∀ y, walks true 0 y ⊆ walks true 0 z → walks true 0 (x ++ y) ⊆ ws) →
    walks true 0 ([mark .delimiter].intercalate xs ++ z) ⊆ ws ∧
      walks false 0 ([mark .delimiter].intercalate xs ++ z) ⊆ ws ++ walks false 0 z
  | [], hne, _, _ => absurd rfl hne
  | [x], _, hx, h => by
    rw [List.intercalate_singleton, walks_false_trail (hx x List.mem_cons_self)]
    exact ⟨h x List.mem_cons_self z (List.Subset.refl _), List.subset_append_right _ _⟩
  | x :: x' :: xs, _, hx, h => by
    have hx' : ∀ u ∈ x' :: xs, Trail u := fun u hu => hx u (List.mem_cons_of_mem _ hu)
    obtain ⟨hread, hlook⟩ := walks_copies (List.cons_ne_nil x' xs) hx' fun u hu =>
      h u (List.mem_cons_of_mem _ hu)
    rw [List.intercalate_cons_cons, List.append_assoc, List.append_assoc, List.singleton_append,
      walks_false_trail (hx x List.mem_cons_self)]
    refine ⟨h x List.mem_cons_self _ ?_, List.append_subset.2 ⟨?_, hlook⟩⟩
    · rw [walks_delimiter, walks_succ_copies hx']
      exact walks_succ_subset z 0
    · exact List.subset_append_of_subset_left _ hread

end Token

open Token

section
variable {p : Site} {z : List Token} (hp : p.Fits z)
include hp

theorem Site.Fits.walks_succ_spread (r : Bool) (d : Nat) :
    walks r (d + 1) (p.spread ++ z) = walks r (d + 1) (p.tokens ++ z) := by
  rw [walks_succ_trail hp.trail_tokens, Site.spread, walks_succ_copies hp.trail_copy]

/-- Walks through a site spread read nothing new, if such as would begin at a copy may begin
before the site. -/
theorem Site.Fits.walks_spread_subset :
    walks true 0 (p.spread ++ z) ⊆ walks true 0 (p.tokens ++ z) ∧
      walks false 0 (p.spread ++ z) ⊆
        walks true 0 (p.tokens ++ z) ++ walks false 0 (p.tokens ++ z) := by
  rw [walks_false_trail hp.trail_tokens]
  refine walks_copies (by simp [Site.alternatives, List.splitOn_ne_nil]) hp.trail_copy ?_
  intro x hx y hy
  obtain ⟨a, ha, rfl⟩ := List.mem_map.1 hx
  exact walks_copy_subset hy hp ha

end

namespace Token

/-- Walks through the first list, however they begin, read nothing that such walks do not
read through the second. -/
def Below (us ts : List Token) : Prop := ∀ r d, walks r d us ⊆ walks r d ts

theorem Below.cons {us ts : List Token} (h : Below us ts) (t : Token) :
    Below (t :: us) (t :: ts) := by
  intro r d
  match r, d, t with
  | true, 0, text s => exact optional_subset _ (h true 0)
  | true, 0, mark .opener =>
    exact append_subset_append (optional_subset _ (h true 0)) (h false 0)
  | true, 0, mark .closer => exact optional_subset _ (h true 0)
  | true, 0, mark .delimiter => exact h true 1
  | false, 0, text s => exact h false 0
  | false, 0, mark .opener => exact h false 1
  | false, 0, mark .closer => exact List.Subset.refl _
  | false, 0, mark .delimiter => exact append_subset_append (h true 0) (h false 0)
  | r, d + 1, t =>
    rw [walks_succ, walks_succ]
    exact h r _

theorem Below.append {us ts : List Token} (h : Below us ts) : ∀ x, Below (x ++ us) (x ++ ts)
  | [] => h
  | t :: x => (h.append x).cons t

end Token

/-- Behind an opener or a delimiter a walk may begin at the first copy as well as at any. -/
theorem Site.Fits.below_spread {p : Site} {z : List Token} (hp : p.Fits z) {t : Token}
    (ht : t.isBoundary = true) : Below (t :: (p.spread ++ z)) (t :: (p.tokens ++ z)) := by
  obtain ⟨hread, hlook⟩ := hp.walks_spread_subset
  have hsucc : ∀ r d, walks r (d + 1) (p.spread ++ z) ⊆ walks r (d + 1) (p.tokens ++ z) :=
    fun r d => hp.walks_succ_spread r d ▸ List.Subset.refl _
  intro r d
  match r, d, t, ht with
  | true, 0, mark .opener, _ =>
    refine List.append_subset.2 ⟨?_, List.Subset.trans hlook ?_⟩
    · exact List.subset_append_of_subset_left _ (optional_subset _ hread)
    · exact List.append_subset.2 ⟨walks_subset_opener _, walks_false_subset_opener _⟩
  | true, 0, mark .delimiter, _ => exact hsucc true 0
  | false, 0, mark .opener, _ => exact hsucc false 0
  | false, 0, mark .delimiter, _ =>
    exact List.append_subset.2 ⟨List.subset_append_of_subset_left _ hread, hlook⟩
  | r, d + 1, mark .opener, _ =>
    rw [walks_succ, walks_succ]
    exact hsucc r (d + 1)
  | r, d + 1, mark .delimiter, _ =>
    rw [walks_succ, walks_succ]
    exact hsucc r d

namespace Token

/-- The list is read on a walk through the tokens, wherever it begins. -/
def Walked (ts x : List Token) : Prop := ∃ r d, x ∈ walks r d ts

theorem Walked.sublist {ts x : List Token} : Walked ts x → x.Sublist ts
  | ⟨_, _, h⟩ => sublist_of_mem_walks h

/-- A walk may begin behind the first token. -/
theorem Walked.cons {ts x : List Token} (t : Token) : Walked ts x → Walked (t :: ts) x
  | ⟨true, d, h⟩ => by
    have hx : x ∈ walks true 0 ts := by
      induction d with
      | zero => exact h
      | succ d ih => exact ih (walks_succ_subset ts d h)
    match t with
    | text s => exact ⟨true, 0, subset_optional _ _ hx⟩
    | mark .opener => exact ⟨true, 0, walks_subset_opener _ hx⟩
    | mark .closer => exact ⟨true, 0, subset_optional _ _ hx⟩
    | mark .delimiter => exact ⟨false, 0, List.mem_append_left _ hx⟩
  | ⟨false, d, h⟩ => by
    match t, d with
    | text s, 0 => exact ⟨false, 0, h⟩
    | text s, d + 1 => exact ⟨false, d + 1, h⟩
    | mark .opener, 0 => exact ⟨true, 0, walks_false_subset_opener _ h⟩
    | mark .opener, 1 => exact ⟨false, 0, h⟩
    | mark .opener, d + 2 => exact ⟨false, d + 1, h⟩
    | mark .closer, d => exact ⟨false, d + 1, h⟩
    | mark .delimiter, 0 => exact ⟨false, 0, List.mem_append_right _ h⟩
    | mark .delimiter, d + 1 => exact ⟨false, d + 1, h⟩

/-- **The pieces of a list between its delimiters are read on walks.** -/
theorem walked_of_mem_splitOn {ts : List Token} : ∀ x ∈ ts.splitOn (mark .delimiter),
    Walked ts x := by
  suffices h : ∃ a as, ts.splitOn (mark .delimiter) = a :: as ∧ a ∈ walks true 0 ts ∧
      ∀ b ∈ as, Walked ts b by
    obtain ⟨a, as, hsplit, ha, has⟩ := h
    intro x hx
    rw [hsplit] at hx
    rcases List.mem_cons.1 hx with rfl | hx
    · exact ⟨true, 0, ha⟩
    · exact has x hx
  induction ts with
  | nil => exact ⟨[], [], rfl, nil_mem_walks [] 0, by simp⟩
  | cons t ts ih =>
    obtain ⟨a, as, hsplit, ha, has⟩ := ih
    have hrest : ∀ b ∈ as, Walked (t :: ts) b := fun b hb => (has b hb).cons t
    rw [List.splitOn_cons_eq_if_modifyHead, hsplit]
    match t with
    | text s => exact ⟨text s :: a, as, rfl, cons_mem_optional ha, hrest⟩
    | mark .opener =>
      exact ⟨mark .opener :: a, as, rfl, List.mem_append_left _ (cons_mem_optional ha), hrest⟩
    | mark .closer => exact ⟨mark .closer :: a, as, rfl, cons_mem_optional ha, hrest⟩
    | mark .delimiter =>
      refine ⟨[], a :: as, rfl, nil_mem_walks ts 1, fun b hb => ?_⟩
      rcases List.mem_cons.1 hb with rfl | hb
      · exact Walked.cons _ ⟨true, 0, ha⟩
      · exact hrest b hb

end Token

/-- **A site spread gives walks nothing new to read.** -/
theorem Spreads.walked {ts us x : List Token} (h : Spreads ts us) : Walked us x → Walked ts x := by
  obtain ⟨p, y, z, hp, rfl, rfl⟩ := h
  rintro ⟨r, d, hx⟩
  rcases List.eq_nil_or_concat y with rfl | ⟨y, t, rfl⟩
  · match r, d, hx with
    | true, 0, hx => exact ⟨true, 0, hp.fits.walks_spread_subset.1 hx⟩
    | false, 0, hx =>
      rcases List.mem_append.1 (hp.fits.walks_spread_subset.2 hx) with hx | hx
      · exact ⟨true, 0, hx⟩
      · exact ⟨false, 0, hx⟩
    | r, d + 1, hx => exact ⟨r, d + 1, hp.fits.walks_succ_spread r d ▸ hx⟩
  · have ht : t.isBoundary = true := by
      simpa [boundaryAfter_append, boundaryAfter] using hp.front
    have hbelow := (hp.fits.below_spread ht).append y
    exact ⟨r, d, by simpa using hbelow r d (by simpa using hx)⟩

/-! ### Paths -/

open Expansion

variable {m : Markers}

/-- Along a run that reads back, walks find nothing new to read. -/
theorem Seamless.walked_after {n : Nat} {s t : Text} (h : Seamless m s)
    (ht : after m n s = some t) {x : List Token} (hx : Walked (symbols m t) x) :
    Walked (symbols m s) x := by
  obtain ⟨k, hk⟩ := h.exists_steps_after ht
  exact hk.keeps (p := fun ts us => Walked us x → Walked ts x) (fun _ h => h)
    (fun _ _ _ h h' hx => h (h' hx)) (fun _ _ h => h.walked) hx

/-- **A path is part of the source.** With markers of one character each, whatever is wrong
with the brackets and delimiters of the source, each of its paths has characters of the source
only, in their order and none of them twice. -/
theorem paths_sublist (m : Markers) (hm : ∀ k, (m.text k).length = 1) (default : List Text)
    {s : Text} (hs : s ≠ []) :
    ∃ ps, paths m default (some s) = .done ps ∧ ∀ x ∈ ps, x.Sublist s := by
  have hseamless := seamless_of_blunt (blunt_of_clean (clean_tokenize_of_length hm s))
  obtain ⟨n, t, -, ht, hp⟩ := hseamless.exists_end
  refine ⟨_, paths_of_expand hs (expand_none_of_end ht hp) default, fun x hx => ?_⟩
  have hdivided : Divided m (symbols m t) := by
    obtain ⟨e, he⟩ := List.length_eq_one_iff.1 (hm .delimiter)
    have hclean := clean_flatMap_fine_iff.2 (clean_tokenize_of_length hm t)
    exact divided_of_single he fun u hu hmem => hclean u hu e hmem .delimiter (by simp [he])
  -- the path is a piece of the last symbols, read on a walk through the first
  have hsplit := splitOn_of_divided hdivided
  rw [writeAll_symbols] at hsplit
  rw [splitPaths, hsplit] at hx
  obtain ⟨y, hy, rfl⟩ := List.mem_map.1 hx
  have hsub := (hseamless.walked_after ht (walked_of_mem_splitOn y hy)).sublist
  have hwrite : (writeAll m y).Sublist (writeAll m (symbols m s)) := hsub.flatMap _
  rwa [writeAll_symbols] at hwrite

/-- A group, a closer too many behind it, and an opener that is not closed. -/
def lopsided : Text := ['a', '(', 'b', ',', 'c', ')', 'd', ')', 'e', ',', '(', 'f']

/-- What goes with the group ends at the closer, and what is behind it is not copied. -/
theorem paths_sublist_lopsided :
    paths .standard [] (some lopsided) =
        .done [['a', 'b', 'd'], ['a', 'c', 'd', ')', 'e'], ['(', 'f']] ∧
      ∀ x ∈ [['a', 'b', 'd'], ['a', 'c', 'd', ')', 'e'], ['(', 'f']], x.Sublist lopsided := by
  obtain ⟨ps, hps, hsub⟩ :=
    paths_sublist .standard (by intro k; cases k <;> rfl) [] (s := lopsided) (by decide)
  have hend : expand .standard none lopsided =
      .done ['a', 'b', 'd', ',', 'a', 'c', 'd', ')', 'e', ',', '(', 'f'] :=
    expand_none_of_end (n := 1) (by decide) (by decide)
  have heval : paths .standard [] (some lopsided) =
      .done [['a', 'b', 'd'], ['a', 'c', 'd', ')', 'e'], ['(', 'f']] := by
    rw [paths_of_expand (by decide) hend]
    decide
  rw [hps, Outcome.done.injEq] at heval
  subst heval
  exact ⟨hps, hsub⟩

end FieldSelection
