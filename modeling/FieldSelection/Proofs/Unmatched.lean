/-
# Brackets without a partner

Read from the left, an opener goes on a stack, and a closer takes it off again. A closer
that finds no opener stays, and so does an opener that no closer takes. They are text to
the expansion: what remains are closers and then openers (`unmatched_eq_replicate`), and
a pass neither drops one nor copies one.

What is spread and what is copied holds none of them. A site is a trail, and so is each
of its copies, and a trail leaves every stack as it was (`foldl_cancel_trail`).

Key definitions: `Token.cancel`, `Token.unmatched`.
Key theorems: `Token.unmatched_eq_replicate`, `Spreads.unmatched_eq`, `unmatched_expand`.
-/
import FieldSelection.Proofs.Order

namespace FieldSelection

namespace Token

/-- A stack of brackets behind one token more. A closer takes an opener from the top. -/
def cancel (stack : List Mark) : Token → List Mark
  | mark .opener => .opener :: stack
  | mark .closer =>
    match stack with
    | .opener :: rest => rest
    | _ => .closer :: stack
  | mark .delimiter | text _ => stack

/-- The brackets that remain, from left to right, when openers and closers are cancelled. -/
def unmatched (ts : List Token) : List Mark := (ts.foldl cancel []).reverse

theorem cancel_of_free {t : Token} (h : t.isBracket = false) (stack : List Mark) :
    cancel stack t = stack := by
  cases t with
  | text s => rfl
  | mark k => cases k <;> simp_all [isBracket, cancel]

/-- A closer goes on a stack of closers and openers in this order, or takes an opener. -/
theorem exists_cancel (t : Token) (c o : Nat) : ∃ c' o',
    cancel (List.replicate o .opener ++ List.replicate c .closer) t =
      List.replicate o' .opener ++ List.replicate c' .closer := by
  by_cases hb : t.isBracket = false
  · exact ⟨c, o, cancel_of_free hb _⟩
  · match t, hb with
    | mark .opener, _ => exact ⟨c, o + 1, by simp [cancel, List.replicate_succ]⟩
    | mark .closer, _ =>
      cases o with
      | zero =>
        refine ⟨c + 1, 0, ?_⟩
        cases c <;> simp [cancel, List.replicate_succ]
      | succ o => exact ⟨c, o, by simp [cancel, List.replicate_succ]⟩
    | mark .delimiter, hb => simp [isBracket] at hb
    | text s, hb => simp [isBracket] at hb

/-- **Closers remain, and openers behind them.** -/
theorem unmatched_eq_replicate (ts : List Token) : ∃ c o,
    unmatched ts = List.replicate c .closer ++ List.replicate o .opener := by
  have hstack : ∀ (ts : List Token) (c o : Nat), ∃ c' o',
      ts.foldl cancel (List.replicate o .opener ++ List.replicate c .closer) =
        List.replicate o' .opener ++ List.replicate c' .closer := by
    intro ts
    induction ts with
    | nil => exact fun c o => ⟨c, o, rfl⟩
    | cons t ts ih =>
      intro c o
      obtain ⟨c', o', h⟩ := exists_cancel t c o
      rw [List.foldl_cons, h]
      exact ih c' o'
  obtain ⟨c, o, h⟩ := hstack ts 0 0
  refine ⟨c, o, ?_⟩
  have hfold : ts.foldl cancel [] = List.replicate o .opener ++ List.replicate c .closer := h
  rw [unmatched, hfold, List.reverse_append, List.reverse_replicate, List.reverse_replicate]

/-! ### What leaves a stack as it was -/

theorem foldl_cancel_free : ∀ {x : List Token}, (∀ t ∈ x, t.isBracket = false) →
    ∀ stack : List Mark, x.foldl cancel stack = stack
  | [], _, _ => rfl
  | t :: x, h, stack => by
    rw [List.foldl_cons, cancel_of_free (h t List.mem_cons_self),
      foldl_cancel_free fun u hu => h u (List.mem_cons_of_mem _ hu)]

/-- A trail leaves every stack as it was. -/
theorem foldl_cancel_trail {x : List Token} (hx : Trail x) (stack : List Mark) :
    x.foldl cancel stack = stack := by
  induction hx with
  | nil => rfl
  | text s _ ih => rw [List.foldl_cons, cancel_of_free rfl, ih]
  | group hc _ ih =>
    rw [List.foldl_cons, List.foldl_append, foldl_cancel_free hc, List.foldl_cons]
    exact ih

theorem foldl_cancel_intercalate {xs : List (List Token)} (h : ∀ x ∈ xs, Trail x)
    (stack : List Mark) : ([mark .delimiter].intercalate xs).foldl cancel stack = stack := by
  have hcopies : ∀ y, ([mark .delimiter].intercalate xs ++ y).foldl cancel stack =
      y.foldl cancel stack := by
    refine eq_of_intercalate (f := fun y => y.foldl cancel stack) (fun _ => rfl) fun x hx y => ?_
    show (x ++ y).foldl cancel stack = y.foldl cancel stack
    rw [List.foldl_append, foldl_cancel_trail (h x hx)]
  simpa using hcopies []

/-- Runs of text may be cut into characters. -/
theorem unmatched_fine (ts : List Token) : unmatched (ts.flatMap fine) = unmatched ts := by
  have hfold : ∀ (ts : List Token) (stack : List Mark),
      (ts.flatMap fine).foldl cancel stack = ts.foldl cancel stack := by
    intro ts
    induction ts with
    | nil => exact fun _ => rfl
    | cons t ts ih =>
      intro stack
      rw [List.flatMap_cons, List.foldl_append, List.foldl_cons, ih]
      congr 1
      cases t with
      | mark k => rfl
      | text s =>
        rw [foldl_cancel_free fun t ht => isBracket_of_isText (isText_of_mem_fine ht),
          cancel_of_free rfl]
  rw [unmatched, unmatched, hfold]

end Token

open Token Expansion

/-- **A site spread leaves the same brackets without a partner.** -/
theorem Spreads.unmatched_eq {ts us : List Token} (h : Spreads ts us) :
    unmatched us = unmatched ts := by
  obtain ⟨p, x, z, hp, rfl, rfl⟩ := h
  have hsite : ∀ stack : List Mark, p.tokens.foldl cancel stack = stack :=
    foldl_cancel_trail hp.fits.trail_tokens
  have hcopies : ∀ stack : List Mark, p.spread.foldl cancel stack = stack :=
    foldl_cancel_intercalate hp.fits.trail_copy
  rw [unmatched, unmatched, List.foldl_append, List.foldl_append, List.foldl_append,
    List.foldl_append, hsite, hcopies]

variable {m : Markers}

/-- Along a run that reads back the same brackets have no partner. -/
theorem Seamless.unmatched_after {n : Nat} {s t : Text} (h : Seamless m s)
    (ht : after m n s = some t) : unmatched (tokenize m t) = unmatched (tokenize m s) := by
  obtain ⟨k, hk⟩ := h.exists_steps_after ht
  rw [← unmatched_fine, ← unmatched_fine (tokenize m s)]
  exact hk.keeps (p := fun ts us => unmatched us = unmatched ts) (fun _ => rfl)
    (fun _ _ _ h h' => h'.trans h) fun _ _ h => h.unmatched_eq

/-- **Brackets without a partner are neither dropped nor copied.** Let no text of the
source have a character of a marker. What remains of it when its brackets are cancelled
are some closers and some openers, and as many of each remain after every pass, and of the
expansion. -/
theorem unmatched_expand (m : Markers) {s : Text} (h : Clean m (tokenize m s)) :
    ∃ c o, unmatched (tokenize m s) = List.replicate c .closer ++ List.replicate o .opener ∧
      (∀ n t, after m n s = some t →
        unmatched (tokenize m t) = List.replicate c .closer ++ List.replicate o .opener) ∧
      ∃ t, expand m none s = .done t ∧
        unmatched (tokenize m t) = List.replicate c .closer ++ List.replicate o .opener := by
  have hseamless := seamless_of_blunt (blunt_of_clean h)
  obtain ⟨c, o, hs⟩ := unmatched_eq_replicate (tokenize m s)
  have hafter : ∀ n t, after m n s = some t →
      unmatched (tokenize m t) = List.replicate c .closer ++ List.replicate o .opener :=
    fun n t ht => (hseamless.unmatched_after ht).trans hs
  obtain ⟨n, t, -, ht, hp⟩ := hseamless.exists_end
  exact ⟨c, o, hs, hafter, t, expand_none_of_end ht hp, hafter n t ht⟩

/-- A closer too many before two groups, and an opener too many behind them. -/
def unbalanced : Text :=
  [')', ',', '(', 'a', ',', 'b', ')', '(', 'c', ',', 'd', ')', 'e', '(', 'f']

/-- The closer and the opener are still there when the groups are spread. -/
theorem unmatched_expand_unbalanced : ∃ t, expand .standard none unbalanced = .done t ∧
    unmatched (tokenize .standard t) = [.closer, .opener] := by
  obtain ⟨c, o, hs, -, t, ht, hleft⟩ := unmatched_expand .standard (s := unbalanced) (by decide)
  refine ⟨t, ht, ?_⟩
  rw [hleft, ← hs]
  decide

end FieldSelection
