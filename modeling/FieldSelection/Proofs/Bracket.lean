/-
# Brackets by their index

Whether something nests, and which bracket comes next, is told by recursion on the tokens.
Here the same is said of indices: the token at index `k` is the next bracket behind index `j`
(`NextBracket`), and something nests if two openers follow one another as brackets
(`nests_iff`). Behind index `j` there is no other bracket than the ones of the tokens left
there, so that the two ways to speak agree at every place of a list (`nearest?_drop_iff`,
`nests_drop_iff`).

The table that a search carries has an entry for each place, and the entry is whether something
nests from there on (`getElem?_nestingAhead`). So in terms of indices the table is false behind
the last opener that another one follows, and true up to it (`nestingAhead_reports_nesting`).

Key definition: `Token.NextBracket`.
Key theorems: `Token.nearest?_drop_iff`, `Token.nests_drop_iff`, `nestingAhead_reports_nesting`.
-/
import FieldSelection.Proofs.Nesting

namespace FieldSelection
namespace Token

variable {ts : List Token}

/-- The token at index `k` is the first bracket behind index `j`. -/
structure NextBracket (ts : List Token) (j k : Nat) : Prop where
  lt : j < k
  bracket : ∃ t, ts[k]? = some t ∧ t.isBracket = true
  between : ∀ l t, j < l → l < k → ts[l]? = some t → t.isBracket = false

/-- A token stands at an index if it is the first of the tokens left there. -/
theorem drop_eq_cons {i : Nat} {t : Token} (h : ts[i]? = some t) :
    ts.drop i = t :: ts.drop (i + 1) := by
  obtain ⟨hi, rfl⟩ := List.getElem?_eq_some_iff.1 h
  exact List.drop_eq_getElem_cons hi

theorem getElem?_of_drop {i : Nat} {x y : List Token} {t : Token} (h : ts.drop i = x ++ t :: y) :
    ts[i + x.length]? = some t := by
  rw [← List.getElem?_drop, h, List.getElem?_append_right (Nat.le_refl _), Nat.sub_self]
  rfl

theorem drop_of_drop {i : Nat} {x y : List Token} {t : Token} (h : ts.drop i = x ++ t :: y) :
    ts.drop (i + x.length + 1) = y := by
  rw [Nat.add_assoc, ← List.drop_drop, h, List.drop_length_add_append]
  rfl

/-- Behind tokens that are no brackets the next token that is one is the next bracket. -/
theorem nextBracket_of_drop {j : Nat} {x y : List Token} {t : Token}
    (h : ts.drop (j + 1) = x ++ t :: y) (hx : ∀ u ∈ x, u.isBracket = false)
    (ht : t.isBracket = true) : NextBracket ts j (j + 1 + x.length) where
  lt := by omega
  bracket := ⟨t, getElem?_of_drop h, ht⟩
  between := by
    intro l u hjl hlx hu
    obtain ⟨d, rfl⟩ : ∃ d, l = j + 1 + d := ⟨l - (j + 1), by omega⟩
    rw [← List.getElem?_drop, h, List.getElem?_append_left (by omega)] at hu
    exact hx u (List.mem_of_getElem? hu)

theorem NextBracket.exists_drop {j k : Nat} (h : NextBracket ts j k) :
    ∃ x t y, ts.drop (j + 1) = x ++ t :: y ∧ (∀ u ∈ x, u.isBracket = false) ∧
      t.isBracket = true ∧ k = j + 1 + x.length := by
  obtain ⟨t, ht, hb⟩ := h.bracket
  have hlt := h.lt
  obtain ⟨d, rfl⟩ : ∃ d, k = j + 1 + d := ⟨k - (j + 1), by omega⟩
  have hd : d < (ts.drop (j + 1)).length := by
    obtain ⟨hk, -⟩ := List.getElem?_eq_some_iff.1 ht
    rw [List.length_drop]
    omega
  have hcons : (ts.drop (j + 1)).drop d = t :: ts.drop (j + 1 + d + 1) := by
    rw [List.drop_drop]
    exact drop_eq_cons ht
  refine ⟨(ts.drop (j + 1)).take d, t, ts.drop (j + 1 + d + 1), ?_, ?_, hb, ?_⟩
  · rw [← hcons, List.take_append_drop]
  · intro u hu
    obtain ⟨l, hl, rfl⟩ := List.mem_iff_getElem.1 hu
    rw [List.length_take] at hl
    refine h.between (j + 1 + l) _ (by omega) (by omega) ?_
    rw [List.getElem_take, ← List.getElem?_drop]
    exact List.getElem?_eq_getElem _
  · rw [List.length_take, Nat.min_eq_left (Nat.le_of_lt hd)]

/-- **The nearest bracket of the tokens behind an index** is the one at the next bracket's
index. -/
theorem nearest?_drop_iff {j : Nat} {b : Mark} : nearest? (ts.drop (j + 1)) = some b ↔
    ∃ k, NextBracket ts j k ∧ ts[k]? = some (mark b) := by
  constructor
  · intro h
    obtain ⟨x, y, hxy, hx⟩ := exists_of_nearest? h
    have hb : (mark b).isBracket = true := by
      cases b with
      | opener => rfl
      | closer => rfl
      | delimiter => exact absurd h (nearest?_ne_delimiter _)
    exact ⟨_, nextBracket_of_drop hxy hx hb, getElem?_of_drop hxy⟩
  · rintro ⟨k, hk, hget⟩
    obtain ⟨x, t, y, hxy, hx, ht, rfl⟩ := hk.exists_drop
    obtain rfl : t = mark b := Option.some.inj ((getElem?_of_drop hxy).symm.trans hget)
    rw [hxy, nearest?_append_of_free hx]
    cases b with
    | opener => rfl
    | closer => rfl
    | delimiter => cases ht

theorem nextBracket_drop {i j k : Nat} :
    NextBracket (ts.drop i) j k ↔ NextBracket ts (i + j) (i + k) := by
  constructor
  · intro h
    refine ⟨by have := h.lt; omega, ?_, fun l t hjl hlk ht => ?_⟩
    · simpa only [List.getElem?_drop] using h.bracket
    · obtain ⟨d, rfl⟩ : ∃ d, l = i + d := ⟨l - i, by omega⟩
      exact h.between d t (by omega) (by omega) (by rwa [List.getElem?_drop])
  · intro h
    refine ⟨by have := h.lt; omega, ?_, fun l t hjl hlk ht => ?_⟩
    · simpa only [List.getElem?_drop] using h.bracket
    · rw [List.getElem?_drop] at ht
      exact h.between (i + l) t (by omega) (by omega) ht

/-- **Something nests** if and only if two openers follow one another as brackets. -/
theorem nests_iff : ∀ {ts : List Token}, nests ts = true ↔
    ∃ j k, ts[j]? = some (mark .opener) ∧ NextBracket ts j k ∧ ts[k]? = some (mark .opener)
  | [] => by simp [nests]
  | t :: ts => by
    have ih := @nests_iff ts
    -- two openers in the tail are two openers of the list, one token further on
    have hshift : ∀ j k, NextBracket (t :: ts) (j + 1) (k + 1) ↔ NextBracket ts j k := by
      intro j k
      rw [Nat.add_comm j, Nat.add_comm k, ← nextBracket_drop, List.drop_one, List.tail_cons]
    have htail : (∃ j k, (t :: ts)[j + 1]? = some (mark .opener) ∧
        NextBracket (t :: ts) (j + 1) k ∧ (t :: ts)[k]? = some (mark .opener)) ↔
        nests ts = true := by
      rw [ih]
      constructor
      · rintro ⟨j, k, hj, hk, hget⟩
        obtain ⟨k, rfl⟩ : ∃ d, k = d + 1 := ⟨k - 1, by have := hk.lt; omega⟩
        exact ⟨j, k, hj, (hshift j k).1 hk, hget⟩
      · rintro ⟨j, k, hj, hk, hget⟩
        exact ⟨j, k + 1, hj, (hshift j k).2 hk, hget⟩
    have hhead : nests (t :: ts) = true ↔
        nests ts = true ∨ t = mark .opener ∧ nearest? ts = some .opener := by
      cases t with
      | text s => simp [nests]
      | mark b => cases b <;> simp [nests]
    have hfirst := @nearest?_drop_iff (mark .opener :: ts) 0 .opener
    rw [hhead]
    constructor
    · rintro (h | ⟨rfl, h⟩)
      · obtain ⟨j, k, hj, hk, hget⟩ := htail.2 h
        exact ⟨j + 1, k, hj, hk, hget⟩
      · obtain ⟨k, hk, hget⟩ := hfirst.1 h
        exact ⟨0, k, rfl, hk, hget⟩
    · rintro ⟨j, k, hj, hk, hget⟩
      cases j with
      | zero =>
        obtain rfl : t = mark .opener := by simpa using hj
        exact .inr ⟨rfl, hfirst.2 ⟨k, hk, hget⟩⟩
      | succ j => exact .inl (htail.1 ⟨j, k, hj, hk, hget⟩)

/-- **Something nests from an index on** if and only if two openers follow one another as
brackets from there on. -/
theorem nests_drop_iff {i : Nat} : nests (ts.drop i) = true ↔
    ∃ j k, i ≤ j ∧ ts[j]? = some (mark .opener) ∧ NextBracket ts j k ∧
      ts[k]? = some (mark .opener) := by
  rw [nests_iff]
  constructor
  · rintro ⟨j, k, hj, hk, hget⟩
    rw [List.getElem?_drop] at hj hget
    exact ⟨i + j, i + k, by omega, hj, nextBracket_drop.1 hk, hget⟩
  · rintro ⟨j, k, hij, hj, hk, hget⟩
    have hlt := hk.lt
    obtain ⟨d, rfl⟩ : ∃ d, j = i + d := ⟨j - i, by omega⟩
    obtain ⟨e, rfl⟩ : ∃ e, k = i + e := ⟨k - i, by omega⟩
    exact ⟨d, e, by rwa [List.getElem?_drop], nextBracket_drop.2 hk, by rwa [List.getElem?_drop]⟩

/-- What does not nest at an index does not nest further on. -/
theorem nests_drop_mono {i j : Nat} (hij : i ≤ j) (h : nests (ts.drop i) = false) :
    nests (ts.drop j) = false := by
  by_contra hj
  rw [Bool.not_eq_false, nests_drop_iff] at hj
  obtain ⟨k, l, hjk, hk⟩ := hj
  have hi : nests (ts.drop i) = true := nests_drop_iff.2 ⟨k, l, Nat.le_trans hij hjk, hk⟩
  rw [h] at hi
  cases hi

end Token

open Token

/-! ### The table by its index -/

theorem getElem?_nestingAhead {ts : List Token} {i : Nat} (hi : i ≤ ts.length) :
    (nestingAhead ts)[i]? = some (nests (ts.drop i)) := by
  have hlt : i < (nestingAhead ts).length := by
    rw [length_nestingAhead]
    omega
  have hentry : (nestingAhead ts).getD i false = nests (ts.drop i) := by
    have h := getD_nestingAhead (ts.take i) (ts.drop i)
    rwa [List.take_append_drop, List.length_take, Nat.min_eq_left hi] at h
  rw [← hentry, List.getD_eq_getElem?_getD, List.getElem?_eq_getElem hlt]
  rfl

/-- **The table of a search says where something nests.** It has an entry for each index of the
tokens and one for their end. An entry is true if and only if two openers follow one another as
brackets from its index on, closed or not; so where one entry is false the later ones are, and the
last one is. -/
theorem nestingAhead_reports_nesting (ts : List Token) :
    (nestingAhead ts).length = ts.length + 1 ∧
      (∀ i ≤ ts.length, ∃ b, (nestingAhead ts)[i]? = some b ∧ (b = true ↔
        ∃ j k, i ≤ j ∧ ts[j]? = some (.mark .opener) ∧ NextBracket ts j k ∧
          ts[k]? = some (.mark .opener))) ∧
      (∀ i j, i ≤ j → j ≤ ts.length → (nestingAhead ts)[i]? = some false →
        (nestingAhead ts)[j]? = some false) ∧
      (nestingAhead ts)[ts.length]? = some false := by
  refine ⟨length_nestingAhead ts, fun i hi => ?_, fun i j hij hj hfalse => ?_, ?_⟩
  · exact ⟨nests (ts.drop i), getElem?_nestingAhead hi, nests_drop_iff⟩
  · rw [getElem?_nestingAhead (Nat.le_trans hij hj)] at hfalse
    rw [getElem?_nestingAhead hj, nests_drop_mono hij (Option.some.inj hfalse)]
  · rw [getElem?_nestingAhead (Nat.le_refl _), List.drop_length]
    rfl

/-- Openers that nothing closes nest as well, over text and delimiters. -/
example : nestingAhead [.mark .closer, .mark .opener, .text ['a'], .mark .delimiter,
    .mark .opener, .text ['b']] = [true, true, false, false, false, false, false] := by decide

end FieldSelection
