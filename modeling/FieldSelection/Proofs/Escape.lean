/-
# What decoding brings in

A value that is decoded may hold characters that it was not written with. For a control it is easy
to say when: a control of one byte stands in the decoded value if and only if it stands in the value
as it is written, or an escape of it does (`mem_decode_iff`). No other way leads to it. A byte below
128 is always read as the character of its own, whatever is broken around it
(`Utf8.mem_decodeLenient_iff`), so that the question is whether the byte is there; a plus gives a
blank, and the digits behind a percent sign hold neither a percent sign nor a control, so that an
escape is read as one wherever it begins.

Key definition: `Percent.Escapes`.
Key theorems: `Utf8.mem_decodeLenient_iff`, `Percent.mem_decode_iff`.
-/
import FieldSelection.Proofs.Decoding

namespace FieldSelection

/-! ### Characters of one byte -/

namespace Utf8

variable {c : Char}

theorem toUInt8_mem_encodeChar_iff (hc : c.toNat < 128) {d : Char} :
    c.toUInt8 ∈ String.utf8EncodeChar d ↔ c = d := by
  constructor
  · intro h
    by_cases hd : d.toNat < 128
    · rw [Percent.encodeChar_of_lt hd, List.mem_singleton] at h
      by_contra hne
      exact Percent.toUInt8_ne hc hd hne h
    · have hle := Percent.le_of_mem_encodeChar (Nat.le_of_not_lt hd) h
      rw [Percent.toNat_toUInt8 hc] at hle
      exact absurd hc (Nat.not_lt_of_le hle)
  · rintro rfl
    rw [Percent.encodeChar_of_lt hc]
    exact List.mem_cons_self

/-- A broken front has no byte below 128. -/
theorem Broken.le {b : UInt8} {p bs : List UInt8} (h : Broken b p bs) :
    ∀ a ∈ b :: p, 128 ≤ a.toNat := by
  have hb : 128 ≤ b.toNat := by
    by_contra hlt
    obtain ⟨d, hd⟩ := exists_char_one (Nat.lt_of_not_le hlt)
    apply h.incomplete d
    rw [hd]
    exact List.prefix_append [b] (p ++ bs)
  intro a ha
  by_cases hp : p = []
  · rw [hp, List.mem_singleton] at ha
    exact ha ▸ hb
  · obtain ⟨d, hd⟩ := h.begins hp
    have hlong : 128 ≤ d.toNat := by
      by_contra hlt
      have hfront := hd.subset List.mem_cons_self
      rw [Percent.encodeChar_of_lt (Nat.lt_of_not_le hlt), List.mem_singleton] at hfront
      rw [hfront, Percent.toNat_toUInt8 (Nat.lt_of_not_le hlt)] at hb
      exact hlt hb
    exact Percent.le_of_mem_encodeChar hlong (hd.subset ha)

theorem Lossy.mem_iff (hc : c.toNat < 128) {bs : List UInt8} {s : Text} (h : Lossy bs s) :
    c ∈ s ↔ c.toUInt8 ∈ bs := by
  induction h with
  | nil => simp
  | char d _ ih =>
    rw [List.mem_cons, List.mem_append, toUInt8_mem_encodeChar_iff hc, ih]
  | @broken b p bs s hb _ ih =>
    have hne : c ≠ '\uFFFD' := by
      rintro rfl
      exact absurd hc (by decide)
    have hfront : c.toUInt8 ∉ b :: p := by
      intro hmem
      have hle := hb.le _ hmem
      rw [Percent.toNat_toUInt8 hc] at hle
      exact Nat.not_lt_of_le hle hc
    rw [List.mem_cons, or_iff_right hne, ← List.cons_append, List.mem_append,
      or_iff_right hfront, ih]

/-- **A byte below 128 is read as its character**, and as no part of another one. -/
theorem mem_decodeLenient_iff (hc : c.toNat < 128) {bs : List UInt8} :
    c ∈ decodeLenient bs ↔ c.toUInt8 ∈ bs :=
  (lossy_decodeLenient bs).mem_iff hc

end Utf8

/-! ### Escapes -/

namespace Percent

variable {c : Char}

/-- Somewhere in the text stands an escape of a character of one byte: a percent sign and the two
digits of the byte, in capitals or not. -/
def Escapes (c : Char) (s : Text) : Prop :=
  ∃ a b, hexValue? a = some (c.toNat / 16) ∧ hexValue? b = some (c.toNat % 16) ∧ ['%', a, b] <:+: s

theorem not_escapes_nil : ¬ Escapes c [] := by
  rintro ⟨a, b, -, -, h⟩
  exact absurd (List.infix_nil.1 h) (List.cons_ne_nil _ _)

theorem escapes_cons_of_ne {d : Char} (hd : d ≠ '%') (s : Text) :
    Escapes c (d :: s) ↔ Escapes c s := by
  simp only [Escapes, List.infix_cons_iff, List.cons_prefix_cons, Ne.symm hd, false_and, false_or]

/-- A percent sign begins an escape of the character, or the escape stands behind it. -/
theorem escapes_percent (s : Text) : Escapes c ('%' :: s) ↔
    (∃ a b t, s = a :: b :: t ∧ hexValue? a = some (c.toNat / 16) ∧
      hexValue? b = some (c.toNat % 16)) ∨ Escapes c s := by
  constructor
  · rintro ⟨a, b, ha, hb, h⟩
    rcases List.infix_cons_iff.1 h with h | h
    · obtain ⟨t, ht⟩ := h
      exact .inl ⟨a, b, t, (List.cons.inj ht).2.symm, ha, hb⟩
    · exact .inr ⟨a, b, ha, hb, h⟩
  · rintro (⟨a, b, t, rfl, ha, hb⟩ | ⟨a, b, ha, hb, h⟩)
    · exact ⟨a, b, ha, hb, List.infix_cons_iff.2 (.inl (List.prefix_append ['%', a, b] t))⟩
    · exact ⟨a, b, ha, hb, List.infix_cons_iff.2 (.inr h)⟩

theorem escapes_percent_cons (a b : Char) (s : Text) : Escapes c ('%' :: a :: b :: s) ↔
    (hexValue? a = some (c.toNat / 16) ∧ hexValue? b = some (c.toNat % 16)) ∨
      Escapes c (a :: b :: s) := by
  rw [escapes_percent]
  refine or_congr_left ⟨?_, ?_⟩
  · rintro ⟨a', b', t, hs, ha, hb⟩
    obtain ⟨rfl, rfl, -⟩ : a = a' ∧ b = b' ∧ s = t := by simpa using hs
    exact ⟨ha, hb⟩
  · rintro ⟨ha, hb⟩
    exact ⟨a, b, s, rfl, ha, hb⟩

/-- A percent sign with two digits behind it is an escape of the character that has their byte. -/
theorem escapes_digits {a b : Char} {high low : Nat} (ha : hexValue? a = some high)
    (hb : hexValue? b = some low) (s : Text) : Escapes c ('%' :: a :: b :: s) ↔
      (high = c.toNat / 16 ∧ low = c.toNat % 16) ∨ Escapes c s := by
  have hdigit : ∀ {d : Char} {n : Nat}, hexValue? d = some n → d ≠ '%' := fun h =>
    ne_of_isPlain (isPlain_of_digit ((hexValue?_eq_digit? _).symm.trans h)) (by decide)
  rw [escapes_percent_cons, escapes_cons_of_ne (hdigit ha), escapes_cons_of_ne (hdigit hb), ha, hb,
    Option.some.injEq, Option.some.injEq]

theorem lt_of_hexValue? {a : Char} {n : Nat} (h : hexValue? a = some n) : n < 16 :=
  (eq_digitChar_of_digit? ((hexValue?_eq_digit? a).symm.trans h)).1

/-- The byte of two digits is a character's if they are its digits. -/
theorem ofNat_eq_toUInt8_iff (hc : c.toNat < 128) {high low : Nat} (hhigh : high < 16)
    (hlow : low < 16) :
    c.toUInt8 = .ofNat (16 * high + low) ↔ high = c.toNat / 16 ∧ low = c.toNat % 16 := by
  have hbyte : (UInt8.ofNat (16 * high + low)).toNat = 16 * high + low :=
    Utf8.toNat_ofNat (by omega)
  rw [← UInt8.toNat_inj, hbyte, toNat_toUInt8 hc]
  omega

theorem ne_of_control (hc : c.toNat < 32) {d : Char} (hd : 32 ≤ d.toNat) : c ≠ d := by
  rintro rfl
  exact absurd hc (Nat.not_lt_of_le hd)

theorem ne_of_hexValue? (hc : c.toNat < 32) {a : Char} {n : Nat} (ha : hexValue? a = some n) :
    c ≠ a := by
  rintro rfl
  rw [hexValue?_eq_digit?] at ha
  have hplain := isPlain_of_digit ha
  have hcontrol : ∀ n < 32, isPlain (Char.ofNat n) = false := by decide
  have hnot := hcontrol c.toNat hc
  rw [Char.ofNat_toNat, hplain] at hnot
  cases hnot

/-- **A control's byte** is there if the control is, or an escape of it. -/
theorem toUInt8_mem_bytesOf_iff (hc : c.toNat < 32) (v : Text) :
    c.toUInt8 ∈ bytesOf v ↔ c ∈ v ∨ Escapes c v := by
  have hlt : c.toNat < 128 := Nat.lt_trans hc (by decide)
  have hpercent : c ≠ '%' := ne_of_control hc (by decide)
  fun_induction bytesOf v with
  | case1 => simp [not_escapes_nil]
  | case2 s ih =>
    have hplus : c ≠ '+' := ne_of_control hc (by decide)
    have hblank : c.toUInt8 ≠ ' '.toUInt8 :=
      toUInt8_ne hlt (by decide) (ne_of_control hc (by decide))
    calc c.toUInt8 ∈ ' '.toUInt8 :: bytesOf s
        ↔ c.toUInt8 ∈ bytesOf s := by rw [List.mem_cons, or_iff_right hblank]
      _ ↔ c ∈ s ∨ Escapes c s := ih
      _ ↔ c ∈ '+' :: s ∨ Escapes c ('+' :: s) := by
        rw [List.mem_cons, or_iff_right hplus, escapes_cons_of_ne (by decide)]
  | case3 a b s high low hb ha ih =>
    have hdigits : c ∉ ['%', a, b] := by
      simp [hpercent, ne_of_hexValue? hc ha, ne_of_hexValue? hc hb]
    calc c.toUInt8 ∈ UInt8.ofNat (16 * high + low) :: bytesOf s
        ↔ (high = c.toNat / 16 ∧ low = c.toNat % 16) ∨ c.toUInt8 ∈ bytesOf s := by
          rw [List.mem_cons, ofNat_eq_toUInt8_iff hlt (lt_of_hexValue? ha) (lt_of_hexValue? hb)]
      _ ↔ c ∈ s ∨ (high = c.toNat / 16 ∧ low = c.toNat % 16) ∨ Escapes c s := by
        rw [or_left_comm]
        exact or_congr_right ih
      _ ↔ c ∈ ['%', a, b] ++ s ∨ Escapes c ('%' :: a :: b :: s) := by
        rw [List.mem_append, or_iff_right hdigits, escapes_digits ha hb]
  | case4 a b s hdigits ih =>
    have hplain : Escapes c ('%' :: a :: b :: s) ↔ Escapes c (a :: b :: s) := by
      rw [escapes_percent_cons]
      exact or_iff_right fun h => hdigits _ _ h.1 h.2
    calc c.toUInt8 ∈ '%'.toUInt8 :: bytesOf (a :: b :: s)
        ↔ c.toUInt8 ∈ bytesOf (a :: b :: s) := by
          rw [List.mem_cons, or_iff_right (toUInt8_ne hlt (by decide) hpercent)]
      _ ↔ c ∈ a :: b :: s ∨ Escapes c (a :: b :: s) := ih
      _ ↔ c ∈ '%' :: a :: b :: s ∨ Escapes c ('%' :: a :: b :: s) := by
        rw [List.mem_cons (b := '%'), or_iff_right hpercent, hplain]
  | case5 d s hplus hshort ih =>
    have hescapes : Escapes c (d :: s) ↔ Escapes c s := by
      by_cases hd : d = '%'
      · -- fewer than two characters are behind it
        rw [hd, escapes_percent]
        refine or_iff_right ?_
        rintro ⟨a, b, t, hs, -, -⟩
        exact hshort a b t hd hs
      · exact escapes_cons_of_ne hd s
    calc c.toUInt8 ∈ String.utf8EncodeChar d ++ bytesOf s
        ↔ c = d ∨ c.toUInt8 ∈ bytesOf s := by
          rw [List.mem_append, Utf8.toUInt8_mem_encodeChar_iff hlt]
      _ ↔ c = d ∨ c ∈ s ∨ Escapes c s := or_congr_right ih
      _ ↔ c ∈ d :: s ∨ Escapes c (d :: s) := by rw [List.mem_cons, or_assoc, hescapes]

/-- **A control in a decoded value** was written as it is, or as an escape. -/
theorem mem_decode_iff (hc : c.toNat < 32) (v : Text) : c ∈ decode v ↔ c ∈ v ∨ Escapes c v := by
  rw [decode_eq_decodeLenient, Utf8.mem_decodeLenient_iff (Nat.lt_trans hc (by decide)),
    toUInt8_mem_bytesOf_iff hc]

/-- An escape is read wherever it begins, here behind a percent sign that begins none. -/
example : decode ['a', '%', '%', '0', 'a', '0'] = ['a', '%', '\n', '0'] := by decide

end Percent
end FieldSelection
