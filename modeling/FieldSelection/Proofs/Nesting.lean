/-
# Nesting and trails

An opener nests if the nearest bracket behind it is an opener again. Nesting
looks at brackets only, so runs of text may be broken or joined at will, and
the table that a search for groups carries says exactly which of the remaining
tokens nest (`nestingAhead_cons`, `getD_nestingAhead`).

Where nothing nests, each opener that is closed at all is closed by the next
bracket. What goes with a group is then a `Trail`: text and groups that hold no
bracket, up to tokens that stop it (`exists_trail`, `trailFrom_append`).

Key definitions: `Token.nearest?`, `Token.nests`, `Token.Trail`, `Token.Stops`.
Key theorems: `getD_nestingAhead`, `Token.exists_trail`, `Token.trailFrom_append`.
-/
import Mathlib.Data.List.Basic
import FieldSelection.Group

namespace FieldSelection
namespace Token

/-- Whether the token is a run of text. -/
def isText : Token → Bool
  | text _ => true
  | mark _ => false

theorem isBracket_of_isText : ∀ {t : Token}, t.isText = true → t.isBracket = false
  | text _, _ => rfl

theorem isText_of_free {t : Token} (hb : t.isBracket = false) (hd : t ≠ mark .delimiter) :
    t.isText = true := by
  cases t with
  | text s => rfl
  | mark k => cases k <;> simp_all [isBracket]

/-- The nearest bracket. -/
def nearest? : List Token → Option Mark
  | [] => none
  | mark .opener :: _ => some .opener
  | mark .closer :: _ => some .closer
  | mark .delimiter :: ts | text _ :: ts => nearest? ts

/-- Whether the nearest bracket behind some opener is an opener. -/
def nests : List Token → Bool
  | [] => false
  | mark .opener :: ts => nests ts || nearest? ts == some .opener
  | mark .closer :: ts | mark .delimiter :: ts | text _ :: ts => nests ts

theorem nests_of_cons {t : Token} {ts : List Token} (h : nests (t :: ts) = false) :
    nests ts = false := by
  cases t with
  | text s => exact h
  | mark k =>
    cases k with
    | opener => exact (Bool.or_eq_false_iff.1 h).1
    | closer => exact h
    | delimiter => exact h

theorem nests_opener {ts : List Token} :
    nests (mark .opener :: ts) = false ↔ nests ts = false ∧ nearest? ts ≠ some .opener := by
  simp [nests]

theorem nests_cons_of_free {t : Token} (h : t.isBracket = false) (ts : List Token) :
    nests (t :: ts) = nests ts := by
  cases t with
  | text s => rfl
  | mark k => cases k <;> simp_all [isBracket, nests]

theorem nearest?_cons_of_free {t : Token} (h : t.isBracket = false) (ts : List Token) :
    nearest? (t :: ts) = nearest? ts := by
  cases t with
  | text s => rfl
  | mark k => cases k <;> simp_all [isBracket, nearest?]

/-- Tokens that are no brackets do not matter for nesting. -/
theorem nests_append_of_free : ∀ {x : List Token}, (∀ t ∈ x, t.isBracket = false) →
    ∀ y, nests (x ++ y) = nests y
  | [], _, _ => rfl
  | t :: x, h, y => by
    rw [List.cons_append, nests_cons_of_free (h t List.mem_cons_self),
      nests_append_of_free fun u hu => h u (List.mem_cons_of_mem _ hu)]

theorem nearest?_append_of_free : ∀ {x : List Token}, (∀ t ∈ x, t.isBracket = false) →
    ∀ y, nearest? (x ++ y) = nearest? y
  | [], _, _ => rfl
  | t :: x, h, y => by
    rw [List.cons_append, nearest?_cons_of_free (h t List.mem_cons_self),
      nearest?_append_of_free fun u hu => h u (List.mem_cons_of_mem _ hu)]

/-- Tokens that have a nearest bracket are others up to it, and it. -/
theorem exists_of_nearest? {k : Mark} : ∀ {ts : List Token}, nearest? ts = some k →
    ∃ x y, ts = x ++ mark k :: y ∧ ∀ t ∈ x, t.isBracket = false
  | [], h => by simp [nearest?] at h
  | t :: ts, h => by
    by_cases hb : t.isBracket = false
    · rw [nearest?_cons_of_free hb] at h
      obtain ⟨x, y, rfl, hx⟩ := exists_of_nearest? h
      refine ⟨t :: x, y, rfl, fun u hu => ?_⟩
      rcases List.mem_cons.1 hu with rfl | hu
      · exact hb
      · exact hx u hu
    · refine ⟨[], ts, ?_, by simp⟩
      cases t with
      | text s => simp [isBracket] at hb
      | mark l => cases l <;> simp_all [isBracket, nearest?]

theorem nearest?_ne_delimiter : ∀ ts : List Token, nearest? ts ≠ some .delimiter
  | [] => by simp [nearest?]
  | t :: ts => by
    have ih := nearest?_ne_delimiter ts
    cases t with
    | text s => exact ih
    | mark k => cases k <;> simp [nearest?, ih]

theorem nearest?_eq_none_iff : ∀ {ts : List Token},
    nearest? ts = none ↔ ∀ t ∈ ts, t.isBracket = false
  | [] => by simp [nearest?]
  | t :: ts => by
    have ih := @nearest?_eq_none_iff ts
    cases t with
    | text s => simpa [nearest?, isBracket] using ih
    | mark k => cases k <;> simp [nearest?, isBracket, ih]

/-! ### The table of a search -/

theorem nearest_foldr (ts : List Token) :
    (ts.foldr Nesting.Outlook.before .atEnd).nearest = nearest? ts := by
  induction ts with
  | nil => rfl
  | cons t ts ih =>
    rw [List.foldr_cons]
    cases t with
    | text s => exact ih
    | mark k =>
      cases k with
      | opener => rfl
      | closer => rfl
      | delimiter => exact ih

end Token

open Token

theorem headD_nestingAhead (ts : List Token) : (nestingAhead ts).headD false = nests ts := by
  induction ts with
  | nil => rfl
  | cons t ts ih =>
    have hn := nearest_foldr ts
    simp only [nestingAhead, List.foldr_cons] at ih ⊢
    cases t with
    | text s => exact ih
    | mark k =>
      cases k with
      | opener =>
        show (_ || _) = _
        rw [ih, hn, nests]
      | closer => exact ih
      | delimiter => exact ih

theorem nestingAhead_cons (t : Token) (ts : List Token) :
    nestingAhead (t :: ts) = nests (t :: ts) :: nestingAhead ts := by
  have h := headD_nestingAhead (t :: ts)
  have ht : (nestingAhead (t :: ts)).tail = nestingAhead ts := by
    cases t with
    | text s => rfl
    | mark k => cases k <;> rfl
  have hl := length_nestingAhead (t :: ts)
  obtain ⟨b, bs, hb⟩ := List.exists_cons_of_length_eq_add_one hl
  rw [hb] at h ht ⊢
  rw [← h, ← ht]
  rfl

theorem drop_nestingAhead : ∀ (x ts : List Token),
    (nestingAhead (x ++ ts)).drop x.length = nestingAhead ts
  | [], _ => rfl
  | t :: x, ts => by
    rw [List.cons_append, nestingAhead_cons, List.length_cons, List.drop_succ_cons,
      drop_nestingAhead x ts]

/-- **The table says what nests.** Its entry behind the tokens `x` is whether the
tokens from there on nest. -/
theorem getD_nestingAhead (x ts : List Token) :
    (nestingAhead (x ++ ts)).getD x.length false = nests ts := by
  have h := congrArg (List.headD · false) (drop_nestingAhead x ts)
  rw [headD_nestingAhead] at h
  simpa [List.headD_eq_head?_getD, List.head?_drop, List.getD_eq_getElem?_getD] using h

/-! ### Trails -/

namespace Token

/-- Text, and groups without a bracket inside. -/
inductive Trail : List Token → Prop
  | nil : Trail []
  | text (s : Text) {ts : List Token} (h : Trail ts) : Trail (text s :: ts)
  | group {content ts : List Token} (hc : ∀ t ∈ content, t.isBracket = false) (h : Trail ts) :
      Trail (mark .opener :: (content ++ mark .closer :: ts))

/-- Nothing of the tokens goes with a group before them: they are at an end, a
delimiter, a closer, or an opener that is never closed. -/
def Stops (ts : List Token) : Prop := Group.trailFrom false ts = []

theorem stops_nil : Stops [] := rfl

theorem stops_delimiter (ts : List Token) : Stops (mark .delimiter :: ts) := rfl

theorem stops_closer (ts : List Token) : Stops (mark .closer :: ts) := rfl

theorem stops_opener {ts : List Token} : Stops (mark .opener :: ts) ↔ mark .closer ∉ ts := by
  rw [Stops, Group.trailFrom]
  split <;> simp_all

theorem not_stops_text (s : Text) (ts : List Token) : ¬ Stops (text s :: ts) := by
  simp [Stops, Group.trailFrom]

/-- An open stretch runs to the first closer. -/
theorem trailFrom_true_append : ∀ {x : List Token}, (∀ t ∈ x, t.isBracket = false) → ∀ y,
    Group.trailFrom true (x ++ mark .closer :: y) =
      x ++ mark .closer :: Group.trailFrom false y
  | [], _, _ => by simp [Group.trailFrom]
  | t :: x, h, y => by
    have ih := trailFrom_true_append (fun u hu => h u (List.mem_cons_of_mem _ hu)) y
    cases t with
    | text s => rw [List.cons_append, Group.trailFrom, ih]; rfl; simp
    | mark k =>
      have := h _ List.mem_cons_self
      cases k with
      | opener => simp [isBracket] at this
      | closer => simp [isBracket] at this
      | delimiter => rw [List.cons_append, Group.trailFrom, ih]; rfl; simp

theorem trailFrom_group {x : List Token} (h : ∀ t ∈ x, t.isBracket = false) (y : List Token) :
    Group.trailFrom false (mark .opener :: (x ++ mark .closer :: y)) =
      mark .opener :: (x ++ mark .closer :: Group.trailFrom false y) := by
  rw [Group.trailFrom, if_pos (by simp), trailFrom_true_append h]

/-- A trail goes with a group up to the tokens that stop it. -/
theorem trailFrom_append {x y : List Token} (hx : Trail x) (hy : Stops y) :
    Group.trailFrom false (x ++ y) = x := by
  induction hx with
  | nil => exact hy
  | text s _ ih => rw [List.cons_append, Group.trailFrom, ih]
  | group hc _ ih =>
    rw [List.cons_append, List.append_assoc, List.cons_append, trailFrom_group hc, ih]

/-- **Where nothing nests, a trail goes with a group.** -/
theorem exists_trail {ts : List Token} (h : nests ts = false) :
    ∃ x y, ts = x ++ y ∧ Trail x ∧ Stops y := by
  induction hn : ts.length using Nat.strongRecOn generalizing ts with
  | ind n ih =>
    subst hn
    match ts, h with
    | [], _ => exact ⟨[], [], rfl, .nil, stops_nil⟩
    | text s :: ts, h =>
      obtain ⟨x, y, rfl, hx, hy⟩ := ih _ (by simp) (nests_of_cons h) rfl
      exact ⟨text s :: x, y, rfl, .text s hx, hy⟩
    | mark .delimiter :: ts, _ => exact ⟨[], _, rfl, .nil, stops_delimiter ts⟩
    | mark .closer :: ts, _ => exact ⟨[], _, rfl, .nil, stops_closer ts⟩
    | mark .opener :: ts, h =>
      obtain ⟨hts, hne⟩ := nests_opener.1 h
      cases hk : nearest? ts with
      | none =>
        refine ⟨[], _, rfl, .nil, stops_opener.2 fun hm => ?_⟩
        have := nearest?_eq_none_iff.1 hk _ hm
        simp [isBracket] at this
      | some k =>
        obtain ⟨content, rest, rfl, hc⟩ := exists_of_nearest? hk
        cases k with
        | opener => exact absurd hk hne
        | delimiter => exact absurd hk (nearest?_ne_delimiter _)
        | closer =>
          rw [nests_append_of_free hc] at hts
          obtain ⟨x, y, rfl, hx, hy⟩ := ih rest.length (by simp; omega) (nests_of_cons hts) rfl
          exact ⟨_, y, by simp, .group hc hx, hy⟩

end Token
end FieldSelection
