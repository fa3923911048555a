/-
# Reading what is spelled

The reader finds the value of each of its spellings. It needs to see where a value ends: a string
ends at its quote and an array at its bracket, but a number only where something follows that cannot
belong to it (`Follows`), which is what stands behind the items of an array, the members of an
object and the value of a whole text. A reader has one answer, so that a text spells one value at
most.

Key definitions: `Json.Follows`.
Key theorems: `Json.readString?_of_spells`, `Json.readNumber?_append`, `Json.readValue?_of_spells`,
`Json.read?_of_isText`, `Json.IsText.unique`.
-/
import Mathlib.Data.List.DropRight
import FieldSelection.Proofs.Spelling

namespace FieldSelection
namespace Json

/-! ### Blanks -/

theorem isBlank_iff {c : Char} : isBlank c = true ↔ c = ' ' ∨ c = '\n' ∨ c = '\r' ∨ c = '\t' := by
  simp [isBlank, or_assoc]

theorem Blank.isBlank_of_mem {b : Text} (h : Blank b) : ∀ c ∈ b, isBlank c = true := fun c hc =>
  isBlank_iff.2 (h c hc)

theorem Blank.skipBlank_append {b : Text} (h : Blank b) (s : Text) :
    skipBlank (b ++ s) = skipBlank s := by
  unfold skipBlank
  exact List.dropWhile_append_of_pos h.isBlank_of_mem

theorem skipBlank_cons {c : Char} (h : isBlank c = false) (s : Text) :
    skipBlank (c :: s) = c :: s :=
  List.dropWhile_cons_of_neg (by rw [h]; decide)

theorem Blank.skipBlank_append_cons {b : Text} (h : Blank b) {c : Char} (hc : isBlank c = false)
    (s : Text) : skipBlank (b ++ c :: s) = c :: s := by
  rw [h.skipBlank_append, skipBlank_cons hc]

/-- The text ends, or goes on with what may stand behind a value. -/
def Follows (r : Text) : Prop := ∀ c, r.head? = some c → isBlank c = true ∨ c ∈ [',', ']', '}']

theorem follows_nil : Follows [] := fun _ hc => by cases hc

theorem Blank.follows {b : Text} (h : Blank b) {r : Text} (hr : Follows r) : Follows (b ++ r) := by
  cases b with
  | nil => exact hr
  | cons c b =>
    intro d hd
    obtain rfl : c = d := Option.some.inj hd
    exact .inl (h.isBlank_of_mem c List.mem_cons_self)

theorem follows_cons {c : Char} (h : c ∈ [',', ']', '}']) (r : Text) : Follows (c :: r) := by
  intro d hd
  obtain rfl : c = d := Option.some.inj hd
  exact .inr h

/-! ### Strings -/

theorem readEscape?_letter {l c : Char} (h : (l, c) ∈ escapes) (r : Text) :
    readEscape? (l :: r) = some (c, r) := by
  simp only [escapes, List.mem_cons, Prod.mk.injEq, List.not_mem_nil, or_false] at h
  rcases h with h | h | h | h | h | h | h | h <;> obtain ⟨rfl, rfl⟩ := h <;> rfl

theorem readUnit?_append {n : Nat} {t : Text} (h : CodeUnit n t) (r : Text) :
    readUnit? (t ++ r) = some (n, r) := by
  obtain ⟨hlen, hn⟩ := h
  match t, hlen with
  | [a, b, c, d], _ => exact congrArg (Option.map (·, r)) hn

theorem readCodePoint?_unit {n : Nat} {t : Text} (h : CodeUnit n t) (hn : n < 0xD800 ∨ 0xE000 ≤ n)
    (r : Text) : readCodePoint? (t ++ r) = some (Char.ofNat n, r) := by
  unfold readCodePoint?
  rw [readUnit?_append h]
  exact if_pos (by simpa using hn)

theorem readCodePoint?_units {m n : Nat} {t u : Text} (hm : CodeUnit m t) (hn : CodeUnit n u)
    (hhigh : 0xD800 ≤ m ∧ m < 0xDC00) (hlow : 0xDC00 ≤ n ∧ n < 0xE000) (r : Text) :
    readCodePoint? (t ++ '\\' :: 'u' :: (u ++ r)) =
      some (Char.ofNat (0x10000 + (m - 0xD800) * 0x400 + (n - 0xDC00)), r) := by
  have hsurrogate : ¬ (decide (m < 0xD800) || decide (0xE000 ≤ m)) = true := by
    rw [Bool.or_eq_true, decide_eq_true_eq, decide_eq_true_eq]
    omega
  unfold readCodePoint?
  rw [readUnit?_append hm]
  simp only [Option.bind_eq_bind, Option.bind_some]
  rw [if_neg hsurrogate, if_neg (Nat.not_le_of_lt hhigh.2), readUnit?_append hn]
  exact if_pos (by simpa using hlow)

/-- A character is read off whatever it is spelled as. -/
theorem readString?_char {c : Char} {t : Text} (h : SpellsChar c t) {fuel : Nat} {r s u : Text}
    (hr : readString? fuel r = some (s, u)) :
    readString? (fuel + 1) (t ++ r) = some (c :: s, u) := by
  have hescape : ∀ w, readEscape? w = some (c, r) →
      readString? (fuel + 1) ('\\' :: w) = some (c :: s, u) := by
    intro w hw
    rw [readString?, if_neg (by decide), if_pos rfl, hw]
    show (readString? fuel r).bind _ = _
    rw [hr]
    rfl
  cases h with
  | plain hc hquote hback =>
    rw [List.singleton_append, readString?, if_neg hquote, if_neg hback,
      if_neg (Char.not_lt.2 hc), hr]
    rfl
  | letter hl => exact hescape _ (readEscape?_letter hl r)
  | unit hunit hn => exact hescape _ (readCodePoint?_unit hunit hn r)
  | units hm hn hhigh hlow =>
    have hread := readCodePoint?_units hm hn hhigh hlow r
    rw [List.cons_append, List.cons_append, List.append_assoc]
    exact hescape _ hread

theorem SpellsChar.length_pos {c : Char} {t : Text} (h : SpellsChar c t) : 0 < t.length := by
  cases h <;> exact Nat.succ_pos _

/-- **A string is read** up to the quote behind it. -/
theorem readString?_of_spells {s t : Text} (h : SpellsText s t) (r : Text) :
    ∀ {fuel : Nat}, t.length < fuel → readString? fuel (t ++ '"' :: r) = some (s, r) := by
  induction h with
  | nil =>
    intro fuel hfuel
    obtain ⟨fuel, rfl⟩ := Nat.exists_eq_add_one.2 hfuel
    rfl
  | @cons c s t u hc _ ih =>
    intro fuel hfuel
    have hpos := hc.length_pos
    rw [List.length_append] at hfuel
    obtain ⟨fuel, rfl⟩ : ∃ f, fuel = f + 1 := ⟨fuel - 1, by omega⟩
    rw [List.append_assoc]
    exact readString?_char hc (ih (by omega))

/-! ### Numbers -/

/-- What follows a value cannot go on a number. -/
theorem Follows.ends_number {r : Text} (h : Follows r) {c : Char} (hc : r.head? = some c) :
    c.isDigit = false ∧ c ≠ '.' ∧ c ≠ 'e' ∧ c ≠ 'E' := by
  rcases h c hc with hblank | hsign
  · rcases isBlank_iff.1 hblank with rfl | rfl | rfl | rfl <;> decide
  · simp only [List.mem_cons, List.not_mem_nil, or_false] at hsign
    rcases hsign with rfl | rfl | rfl <;> decide

/-- Digits are read up to the first character that is none. -/
theorem readDigits?_append {ds r : Text} (h : Digits ds)
    (hr : ∀ c, r.head? = some c → c.isDigit = false) : readDigits? (ds ++ r) = some (ds, r) := by
  have hcut : r.takeWhile Char.isDigit = [] ∧ r.dropWhile Char.isDigit = r := by
    cases r with
    | nil => exact ⟨rfl, rfl⟩
    | cons c r =>
      have hc : ¬ c.isDigit = true := by
        rw [hr c rfl]
        decide
      exact ⟨List.takeWhile_cons_of_neg hc, List.dropWhile_cons_of_neg hc⟩
  unfold readDigits?
  rw [List.takeWhile_append_of_pos h.2, List.dropWhile_append_of_pos h.2, hcut.1, hcut.2,
    List.append_nil]
  exact if_neg (by simpa using h.1)

theorem readWhole?_append {w r : Text} (h : Whole w)
    (hr : ∀ c, r.head? = some c → c.isDigit = false) : readWhole? (w ++ r) = some (w, r) := by
  rcases h with rfl | ⟨hdigits, hzero⟩
  · rfl
  · obtain ⟨c, w, rfl⟩ := List.exists_cons_of_ne_nil hdigits.1
    have hread := readDigits?_append hdigits hr
    rw [List.cons_append] at hread ⊢
    unfold readWhole?
    split
    · rename_i heq
      obtain rfl : c = '0' := (List.cons.inj heq).1
      exact absurd rfl hzero
    · exact hread

theorem readFraction?_append {f r : Text} (h : Fraction f)
    (hr : ∀ c, r.head? = some c → c.isDigit = false ∧ c ≠ '.') :
    readFraction? (f ++ r) = some (f, r) := by
  rcases h with rfl | ⟨ds, hds, rfl⟩
  · rw [List.nil_append]
    unfold readFraction?
    split
    · exact absurd rfl (hr '.' rfl).2
    · rfl
  · rw [List.cons_append, readFraction?, readDigits?_append hds fun c hc => (hr c hc).1]
    rfl

theorem readSign_append {sign ds : Text} (hsign : sign = [] ∨ sign = ['+'] ∨ sign = ['-'])
    (hds : Digits ds) (r : Text) : readSign (sign ++ (ds ++ r)) = (sign, ds ++ r) := by
  rcases hsign with rfl | rfl | rfl
  · obtain ⟨d, ds, rfl⟩ := List.exists_cons_of_ne_nil hds.1
    have hd : d.isDigit = true := hds.2 d List.mem_cons_self
    rw [List.nil_append, List.cons_append]
    unfold readSign
    split
    · rename_i heq
      rw [(List.cons.inj heq).1] at hd
      cases hd
    · rename_i heq
      rw [(List.cons.inj heq).1] at hd
      cases hd
    · rfl
  · rfl
  · rfl

theorem readExponent?_append {e r : Text} (h : Exponent e)
    (hr : ∀ c, r.head? = some c → c.isDigit = false ∧ c ≠ 'e' ∧ c ≠ 'E') :
    readExponent? (e ++ r) = some (e, r) := by
  rcases h with rfl | ⟨x, sign, ds, hx, hsign, hds, rfl⟩
  · rw [List.nil_append]
    cases r with
    | nil => rfl
    | cons c r =>
      obtain ⟨-, he, hE⟩ := hr c rfl
      rw [readExponent?, if_neg (by simp [he, hE])]
  · rw [List.cons_append, List.cons_append, List.append_assoc, readExponent?,
      if_pos (by simpa using hx), readSign_append hsign hds]
    simp only
    rw [readDigits?_append hds fun c hc => (hr c hc).1]
    rfl

theorem Exponent.head {e r : Text} (h : Exponent e) (hr : Follows r) {c : Char}
    (hc : (e ++ r).head? = some c) : c.isDigit = false ∧ c ≠ '.' := by
  rcases h with rfl | ⟨x, sign, ds, hx, -, -, rfl⟩
  · obtain ⟨hdigit, hpoint, -⟩ := hr.ends_number hc
    exact ⟨hdigit, hpoint⟩
  · obtain rfl : x = c := Option.some.inj hc
    rcases hx with rfl | rfl <;> decide

theorem Fraction.head {f r : Text} (h : Fraction f)
    (hr : ∀ c, r.head? = some c → c.isDigit = false) {c : Char} (hc : (f ++ r).head? = some c) :
    c.isDigit = false := by
  rcases h with rfl | ⟨ds, -, rfl⟩
  · exact hr c hc
  · obtain rfl : '.' = c := Option.some.inj hc
    rfl

theorem readUnsigned?_append {w f e r : Text} (hw : Whole w) (hf : Fraction f) (he : Exponent e)
    (hr : Follows r) :
    readUnsigned? (w ++ (f ++ (e ++ r))) = some (w ++ (f ++ e), r) := by
  have hafter : ∀ c, (e ++ r).head? = some c → c.isDigit = false ∧ c ≠ '.' := fun c hc =>
    he.head hr hc
  have hexponent := readExponent?_append he fun c hc => by
    obtain ⟨hdigit, -, hne⟩ := hr.ends_number hc
    exact ⟨hdigit, hne⟩
  unfold readUnsigned?
  rw [readWhole?_append hw fun c hc => hf.head (fun d hd => (hafter d hd).1) hc]
  simp only [Option.bind_eq_bind, Option.bind_some]
  rw [readFraction?_append hf hafter]
  simp only [Option.bind_some]
  rw [hexponent]
  simp only [Option.bind_some, List.append_assoc]
  rfl

/-- The whole part begins with a digit. -/
theorem Whole.exists_cons {w : Text} (h : Whole w) : ∃ c v, w = c :: v ∧ c.isDigit = true := by
  rcases h with rfl | ⟨⟨hne, hdigits⟩, -⟩
  · exact ⟨'0', [], rfl, rfl⟩
  · obtain ⟨c, v, rfl⟩ := List.exists_cons_of_ne_nil hne
    exact ⟨c, v, rfl, hdigits c List.mem_cons_self⟩

/-- **A number is read** as it is spelled. -/
theorem readNumber?_append {l r : Text} (h : Literal l) (hr : Follows r) :
    readNumber? (l ++ r) = some (l, r) := by
  obtain @⟨minus, w, f, e, hminus, hw, hf, he⟩ := h
  have hread := readUnsigned?_append hw hf he hr
  rw [List.append_assoc, List.append_assoc, List.append_assoc]
  rcases hminus with rfl | rfl
  · obtain ⟨c, v, rfl, hc⟩ := hw.exists_cons
    rw [List.nil_append, List.cons_append]
    unfold readNumber?
    split
    · rename_i heq
      rw [(List.cons.inj heq).1] at hc
      cases hc
    · exact hread
  · rw [List.singleton_append, readNumber?, hread]
    rfl

/-- A number begins with its sign or a digit. -/
theorem Literal.exists_cons {l : Text} (h : Literal l) :
    ∃ c v, l = c :: v ∧ (c = '-' ∨ c.isDigit = true) := by
  obtain ⟨hminus, hw, hf, he⟩ := h
  rcases hminus with rfl | rfl
  · obtain ⟨c, v, rfl, hc⟩ := hw.exists_cons
    exact ⟨c, _, rfl, .inr hc⟩
  · exact ⟨'-', _, rfl, .inl rfl⟩

theorem isBlank_eq_false {c : Char} (h : c = '-' ∨ c.isDigit = true) : isBlank c = false := by
  rw [Bool.eq_false_iff]
  intro hc
  rcases isBlank_iff.1 hc with rfl | rfl | rfl | rfl <;> exact absurd h (by decide)

/-! ### Blanks before a value -/

/-- A value begins with a character that is neither a blank nor the end of an array. -/
theorem Spells.exists_cons {j : Json} {t : Text} (h : Spells j t) :
    ∃ c v, t = c :: v ∧ isBlank c = false ∧ c ≠ ']' := by
  cases h with
  | number h =>
    obtain ⟨c, v, rfl, hc⟩ := h.exists_cons
    refine ⟨c, v, rfl, isBlank_eq_false hc, ?_⟩
    rintro rfl
    exact absurd hc (by decide)
  | bool b => cases b <;> exact ⟨_, _, rfl, rfl, by decide⟩
  | _ => exact ⟨_, _, rfl, rfl, by decide⟩

theorem skipBlank_skipBlank (s : Text) : skipBlank (skipBlank s) = skipBlank s :=
  List.dropWhile_idempotent isBlank s

theorem readValue?_skipBlank (fuel : Nat) (s : Text) :
    readValue? fuel (skipBlank s) = readValue? fuel s := by
  cases fuel with
  | zero => rfl
  | succ fuel => rw [readValue?, readValue?, skipBlank_skipBlank]

theorem Blank.readValue?_append {b : Text} (h : Blank b) (fuel : Nat) (s : Text) :
    readValue? fuel (b ++ s) = readValue? fuel s := by
  rw [← readValue?_skipBlank, h.skipBlank_append, readValue?_skipBlank]

theorem readItems?_skipBlank (fuel : Nat) (s : Text) :
    readItems? fuel (skipBlank s) = readItems? fuel s := by
  cases fuel with
  | zero => rfl
  | succ fuel =>
    show (readValue? fuel (skipBlank s)).bind _ = (readValue? fuel s).bind _
    rw [readValue?_skipBlank]

theorem readMembers?_skipBlank (fuel : Nat) (s : Text) :
    readMembers? fuel (skipBlank s) = readMembers? fuel s := by
  cases fuel with
  | zero => rfl
  | succ fuel => rw [readMembers?, readMembers?, skipBlank_skipBlank]

/-! ### One step of a reader

By what the text begins with; where its first character is known, the step is a matter of
computation. -/

section
variable {fuel : Nat} {s r : Text}

theorem readValue?_null : readValue? (fuel + 1) ('n' :: 'u' :: 'l' :: 'l' :: r) = some (null, r) :=
  rfl

theorem readValue?_bool (b : Bool) : readValue? (fuel + 1)
    ((if b then ['t', 'r', 'u', 'e'] else ['f', 'a', 'l', 's', 'e']) ++ r) = some (bool b, r) := by
  cases b <;> rfl

theorem readValue?_quote (s : Text) : readValue? (fuel + 1) ('"' :: s) =
    (readString? (s.length + 1) s).map fun (s, r) => (string s, r) := rfl

theorem readValue?_bracket (s : Text) : readValue? (fuel + 1) ('[' :: s) =
    match skipBlank s with
    | ']' :: r => some (array [], r)
    | r => (readItems? fuel r).map fun (js, r) => (array js, r) := rfl

theorem readValue?_brace (s : Text) : readValue? (fuel + 1) ('{' :: s) =
    match skipBlank s with
    | '}' :: r => some (object [], r)
    | r => (readMembers? fuel r).map fun (ms, r) => (object ms, r) := rfl

theorem readValue?_number {l : Text} (h : Literal l) : readValue? (fuel + 1) (l ++ r) =
    (readNumber? (l ++ r)).map fun (l, r) => (number l, r) := by
  obtain ⟨c, v, rfl, hc⟩ := h.exists_cons
  have hnot : ∀ {d : Char} {u w : Text}, ¬ (d = '-' ∨ d.isDigit = true) → c :: u ≠ d :: w := by
    intro d u w hd heq
    rw [(List.cons.inj heq).1] at hc
    exact hd hc
  rw [List.cons_append, readValue?, skipBlank_cons (isBlank_eq_false hc)]
  split
  case h_7 => rfl
  all_goals
    rename_i heq
    exact absurd heq (hnot (by decide))

theorem readValue?_emptyArray {b : Text} (h : Blank b) :
    readValue? (fuel + 1) ('[' :: (b ++ ']' :: r)) = some (array [], r) := by
  rw [readValue?_bracket, h.skipBlank_append_cons rfl]
  rfl

theorem readValue?_array {js : List Json} {c : Char} {v : Text} (hs : skipBlank s = c :: v)
    (hc : c ≠ ']') (hjs : readItems? fuel s = some (js, r)) :
    readValue? (fuel + 1) ('[' :: s) = some (array js, r) := by
  rw [← readItems?_skipBlank, hs] at hjs
  rw [readValue?_bracket, hs]
  split
  · rename_i heq
    exact absurd (List.cons.inj heq).1 hc
  · rw [hjs]
    rfl

theorem readValue?_emptyObject {b : Text} (h : Blank b) :
    readValue? (fuel + 1) ('{' :: (b ++ '}' :: r)) = some (object [], r) := by
  rw [readValue?_brace, h.skipBlank_append_cons rfl]
  rfl

theorem readValue?_object {ms : List (Text × Json)} {v : Text} (hs : skipBlank s = '"' :: v)
    (hms : readMembers? fuel s = some (ms, r)) :
    readValue? (fuel + 1) ('{' :: s) = some (object ms, r) := by
  rw [← readMembers?_skipBlank, hs] at hms
  rw [readValue?_brace, hs]
  show (readMembers? fuel ('"' :: v)).map _ = _
  rw [hms]
  rfl

/-- Behind an item stands a comma and the rest of them, or the bracket. -/
theorem readItems?_item {j : Json} {u : Text} (hj : readValue? fuel s = some (j, u)) :
    readItems? (fuel + 1) s =
      match skipBlank u with
      | ',' :: r => (readItems? fuel r).bind fun (js, r) => some (j :: js, r)
      | ']' :: r => some ([j], r)
      | _ => none := by
  show (readValue? fuel s).bind _ = _
  rw [hj]
  rfl

theorem readItems?_last {j : Json} {u : Text} (hj : readValue? fuel s = some (j, u))
    (hu : skipBlank u = ']' :: r) : readItems? (fuel + 1) s = some ([j], r) := by
  rw [readItems?_item hj, hu]
  rfl

theorem readItems?_cons {j : Json} {js : List Json} {u v : Text}
    (hj : readValue? fuel s = some (j, u)) (hu : skipBlank u = ',' :: v)
    (hjs : readItems? fuel v = some (js, r)) : readItems? (fuel + 1) s = some (j :: js, r) := by
  rw [readItems?_item hj, hu]
  simp only [hjs, Option.bind_some]

section
variable {k : Text} {j : Json} {t u v w : Text}

/-- Behind a member stands a comma and the rest of them, or the brace. -/
theorem readMembers?_member (hs : skipBlank s = '"' :: t)
    (hk : readString? (t.length + 1) t = some (k, u)) (hu : skipBlank u = ':' :: v)
    (hj : readValue? fuel v = some (j, w)) :
    readMembers? (fuel + 1) s =
      match skipBlank w with
      | ',' :: r => (readMembers? fuel r).bind fun (ms, r) => some ((k, j) :: ms, r)
      | '}' :: r => some ([(k, j)], r)
      | _ => none := by
  rw [readMembers?, hs]
  simp only [Option.bind_eq_bind, hk, Option.bind_some, hu, hj]
  rfl

theorem readMembers?_last (hs : skipBlank s = '"' :: t)
    (hk : readString? (t.length + 1) t = some (k, u)) (hu : skipBlank u = ':' :: v)
    (hj : readValue? fuel v = some (j, w)) (hw : skipBlank w = '}' :: r) :
    readMembers? (fuel + 1) s = some ([(k, j)], r) := by
  rw [readMembers?_member hs hk hu hj, hw]
  rfl

theorem readMembers?_cons {ms : List (Text × Json)} {x : Text} (hs : skipBlank s = '"' :: t)
    (hk : readString? (t.length + 1) t = some (k, u)) (hu : skipBlank u = ':' :: v)
    (hj : readValue? fuel v = some (j, w)) (hw : skipBlank w = ',' :: x)
    (hms : readMembers? fuel x = some (ms, r)) :
    readMembers? (fuel + 1) s = some ((k, j) :: ms, r) := by
  rw [readMembers?_member hs hk hu hj, hw]
  simp only [hms, Option.bind_some]

end

end

/-! ### Values -/

/-- The string behind a quote is read whatever follows its end. -/
theorem readString?_quoted {s t : Text} (h : SpellsText s t) (r : Text) :
    readString? ((t ++ '"' :: r).length + 1) (t ++ '"' :: r) = some (s, r) := by
  apply readString?_of_spells h
  rw [List.length_append]
  omega

/-- The items of an array begin, behind blanks, with a character of the first one. -/
theorem SpellsItems.exists_cons {js : List Json} {t : Text} (h : SpellsItems js t) (r : Text) :
    ∃ c v, skipBlank (t ++ r) = c :: v ∧ c ≠ ']' := by
  have hfirst : ∀ {j : Json} {a u w : Text}, Blank a → Spells j u →
      ∃ c v, skipBlank (a ++ (u ++ w)) = c :: v ∧ c ≠ ']' := by
    intro j a u w ha hu
    obtain ⟨c, v, rfl, hblank, hc⟩ := hu.exists_cons
    exact ⟨c, v ++ w, by rw [ha.skipBlank_append, List.cons_append, skipBlank_cons hblank], hc⟩
  cases h with
  | last h ha _ =>
    rw [List.append_assoc, List.append_assoc]
    exact hfirst ha h
  | cons h _ ha _ =>
    rw [List.append_assoc, List.append_assoc]
    exact hfirst ha h

/-- The members of an object begin, behind blanks, with a quote. -/
theorem SpellsMembers.exists_cons {ms : List (Text × Json)} {t : Text} (h : SpellsMembers ms t)
    (r : Text) : ∃ v, skipBlank (t ++ r) = '"' :: v := by
  cases h with
  | last _ _ ha _ _ _ =>
    rw [List.append_assoc]
    exact ⟨_, ha.skipBlank_append_cons rfl _⟩
  | cons _ _ _ ha _ _ _ =>
    rw [List.append_assoc]
    exact ⟨_, ha.skipBlank_append_cons rfl _⟩

mutual

/-- **A value is read** off each of its spellings. A step of the reader takes a character or hands
its text on to the next one, so that two for each character are enough. -/
theorem readValue?_of_spells : ∀ {j : Json} {t : Text}, Spells j t → ∀ {fuel : Nat} {r : Text},
    Follows r → 2 * t.length ≤ fuel → readValue? fuel (t ++ r) = some (j, r)
  | _, _, .null, fuel + 1, r, _, _ => readValue?_null
  | _, _, .bool b, fuel + 1, r, _, _ => readValue?_bool b
  | _, _, .number h, fuel + 1, r, hr, _ => by
    rw [readValue?_number h, readNumber?_append h hr]
    rfl
  | _, _, .string h, fuel + 1, r, _, _ => by
    rw [List.cons_append, List.append_assoc, List.singleton_append, readValue?_quote,
      readString?_quoted h]
    rfl
  | _, _, .emptyArray hb, fuel + 1, r, _, _ => by
    rw [List.cons_append, List.append_assoc]
    exact readValue?_emptyArray hb
  | _, _, .array h, fuel + 1, r, _, hfuel => by
    obtain ⟨c, v, hs, hc⟩ := h.exists_cons (']' :: r)
    rw [List.length_cons, List.length_append, List.length_singleton] at hfuel
    rw [List.cons_append, List.append_assoc, List.singleton_append]
    exact readValue?_array hs hc (readItems?_of_spells h (by omega))
  | _, _, .emptyObject hb, fuel + 1, r, _, _ => by
    rw [List.cons_append, List.append_assoc]
    exact readValue?_emptyObject hb
  | _, _, .object h, fuel + 1, r, _, hfuel => by
    obtain ⟨v, hs⟩ := h.exists_cons ('}' :: r)
    rw [List.length_cons, List.length_append, List.length_singleton] at hfuel
    rw [List.cons_append, List.append_assoc, List.singleton_append]
    exact readValue?_object hs (readMembers?_of_spells h (by omega))
  | _, _, h, 0, _, _, hfuel => by
    obtain ⟨c, v, rfl, -⟩ := h.exists_cons
    cases hfuel

theorem readItems?_of_spells : ∀ {js : List Json} {t : Text}, SpellsItems js t → ∀ {fuel : Nat}
    {r : Text}, 2 * t.length + 1 ≤ fuel → readItems? fuel (t ++ ']' :: r) = some (js, r)
  | _, _, @SpellsItems.last j t a b h ha hb, fuel + 1, r, hfuel => by
    simp only [List.length_append] at hfuel
    have hvalue : readValue? fuel (a ++ (t ++ (b ++ ']' :: r))) = some (j, b ++ ']' :: r) := by
      rw [ha.readValue?_append]
      exact readValue?_of_spells h (hb.follows (follows_cons (by decide) r)) (by omega)
    rw [List.append_assoc, List.append_assoc]
    exact readItems?_last hvalue (hb.skipBlank_append_cons rfl r)
  | _, _, @SpellsItems.cons j js t u a b h hs ha hb, fuel + 1, r, hfuel => by
    simp only [List.length_append, List.length_cons] at hfuel
    have hvalue : readValue? fuel (a ++ (t ++ (b ++ ',' :: (u ++ ']' :: r)))) =
        some (j, b ++ ',' :: (u ++ ']' :: r)) := by
      rw [ha.readValue?_append]
      exact readValue?_of_spells h (hb.follows (follows_cons (by decide) _)) (by omega)
    have hrest : readItems? fuel (u ++ ']' :: r) = some (js, r) :=
      readItems?_of_spells hs (by omega)
    rw [List.append_assoc, List.append_assoc, List.append_assoc, List.cons_append]
    exact readItems?_cons hvalue (hb.skipBlank_append_cons rfl _) hrest
  | _, _, _, 0, _, hfuel => by cases hfuel

theorem readMembers?_of_spells : ∀ {ms : List (Text × Json)} {t : Text}, SpellsMembers ms t →
    ∀ {fuel : Nat} {r : Text}, 2 * t.length + 1 ≤ fuel →
    readMembers? fuel (t ++ '}' :: r) = some (ms, r)
  | _, _, @SpellsMembers.last k j kt t a b c d hk h ha hb hc hd, fuel + 1, r, hfuel => by
    simp only [List.length_append, List.length_cons] at hfuel
    have hvalue : readValue? fuel (c ++ (t ++ (d ++ '}' :: r))) = some (j, d ++ '}' :: r) := by
      rw [hc.readValue?_append]
      exact readValue?_of_spells h (hd.follows (follows_cons (by decide) r)) (by omega)
    simp only [List.append_assoc, List.cons_append]
    exact readMembers?_last (ha.skipBlank_append_cons rfl _) (readString?_quoted hk _)
      (hb.skipBlank_append_cons rfl _) hvalue (hd.skipBlank_append_cons rfl r)
  | _, _, @SpellsMembers.cons k j ms kt t u a b c d hk h hs ha hb hc hd, fuel + 1, r, hfuel => by
    simp only [List.length_append, List.length_cons] at hfuel
    have hvalue : readValue? fuel (c ++ (t ++ (d ++ ',' :: (u ++ '}' :: r)))) =
        some (j, d ++ ',' :: (u ++ '}' :: r)) := by
      rw [hc.readValue?_append]
      exact readValue?_of_spells h (hd.follows (follows_cons (by decide) _)) (by omega)
    have hrest : readMembers? fuel (u ++ '}' :: r) = some (ms, r) :=
      readMembers?_of_spells hs (by omega)
    simp only [List.append_assoc, List.cons_append]
    exact readMembers?_cons (ha.skipBlank_append_cons rfl _) (readString?_quoted hk _)
      (hb.skipBlank_append_cons rfl _) hvalue (hd.skipBlank_append_cons rfl _) hrest
  | _, _, _, 0, _, hfuel => by cases hfuel

end

/-- A text is read as the value that it spells, whichever of its spellings it is. -/
theorem read?_of_isText {j : Json} {s : Text} (h : IsText j s) : read? s = some j := by
  obtain ⟨a, t, b, ha, ht, hb, rfl⟩ := h
  have hvalue : readValue? (2 * (a ++ (t ++ b)).length + 2) (a ++ (t ++ b)) = some (j, b) := by
    rw [ha.readValue?_append]
    apply readValue?_of_spells ht
    · have hfollows := hb.follows follows_nil
      rwa [List.append_nil] at hfollows
    · simp only [List.length_append]
      omega
  have hend : skipBlank b = [] := List.dropWhile_eq_nil_iff.2 hb.isBlank_of_mem
  unfold read?
  rw [hvalue]
  simp only [hend, List.isEmpty_nil, if_true]

/-- A text spells one value at most. -/
theorem IsText.unique {i j : Json} {s : Text} (hi : IsText i s) (hj : IsText j s) : i = j := by
  have hread := read?_of_isText hi
  rw [read?_of_isText hj] at hread
  exact (Option.some.inj hread).symm

end Json
end FieldSelection
