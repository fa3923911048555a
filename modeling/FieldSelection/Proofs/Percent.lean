/-
# Values written in percent encoding

A value may be written in more than one way: each of its bytes as a percent sign with two
hexadecimal digits, in capitals or not, a blank also as a plus, and a letter, a digit or one
of four signs also as itself. `Written bytes text` says that the text is such a writing.
Whichever it is, it holds no character that means something around a value
(`Written.isSafe`), and it is read back as the value (`decode_of_written`): a plus is put
back before the escapes are read, so that an escaped plus stays one, and characters of more
than one byte are put together after that.

Key definitions: `Percent.isPlain`, `Percent.Written`.
Key theorem: `Percent.decode_of_written`.
-/
import FieldSelection.Proofs.Utf8
import FieldSelection.Text.Percent

namespace FieldSelection
namespace Percent

/-- Whether a character may stand for itself in a written value. -/
def isPlain (c : Char) : Bool := c.isAlphanum || c = '-' || c = '_' || c = '.' || c = '~'

/-- The text writes the bytes: one escape, sign or character for each. -/
inductive Written : List UInt8 → Text → Prop
  | nil : Written [] []
  | escape {b : UInt8} {high low : Char} {bs : List UInt8} {s : Text}
      (hhigh : Numeral.digit? 16 high = some (b.toNat / 16))
      (hlow : Numeral.digit? 16 low = some (b.toNat % 16)) (h : Written bs s) :
      Written (b :: bs) ('%' :: high :: low :: s)
  | blank {bs : List UInt8} {s : Text} (h : Written bs s) : Written (' '.toUInt8 :: bs) ('+' :: s)
  | plain {c : Char} {bs : List UInt8} {s : Text} (hc : isPlain c = true) (h : Written bs s) :
      Written (c.toUInt8 :: bs) (c :: s)

/-! ### The characters of a written value -/

theorem isAlphanum_iff {c : Char} : c.isAlphanum = true ↔
    (65 ≤ c.toNat ∧ c.toNat ≤ 90) ∨ (97 ≤ c.toNat ∧ c.toNat ≤ 122) ∨
      (48 ≤ c.toNat ∧ c.toNat ≤ 57) := by
  delta Char.isAlphanum Char.isAlpha Char.isUpper Char.isLower Char.isDigit
  simp [UInt32.le_iff_toNat_le, or_assoc]

/-- A hexadecimal digit is a digit or a letter. -/
theorem isPlain_of_digit {c : Char} {n : Nat} (h : Numeral.digit? 16 c = some n) :
    isPlain c = true := by
  obtain ⟨hc, -⟩ := Option.filter_eq_some_iff.1 h
  simp only [Numeral.value?, Char.le_def, UInt32.le_iff_toNat_le, Bool.and_eq_true,
    decide_eq_true_eq] at hc
  have : c.isAlphanum = true := by
    rw [isAlphanum_iff]
    split_ifs at hc with h1 h2 h3
    · exact .inr (.inr h1)
    · exact .inr (.inl ⟨h2.1, Nat.le_trans h2.2 (by decide)⟩)
    · exact .inl ⟨h3.1, Nat.le_trans h3.2 (by decide)⟩
  simp [isPlain, this]

/-- A character of a written value: a plain one, or one of two signs. -/
def isSafe (c : Char) : Bool := isPlain c || c = '%' || c = '+'

theorem isSafe_of_isPlain {c : Char} (h : isPlain c = true) : isSafe c = true := by
  simp [isSafe, h]

theorem Written.isSafe {bs : List UInt8} {s : Text} (h : Written bs s) :
    ∀ c ∈ s, Percent.isSafe c = true := by
  induction h with
  | nil => simp
  | escape hhigh hlow _ ih =>
    simp only [List.forall_mem_cons]
    exact ⟨by decide, isSafe_of_isPlain (isPlain_of_digit hhigh),
      isSafe_of_isPlain (isPlain_of_digit hlow), ih⟩
  | blank _ ih => exact List.forall_mem_cons.2 ⟨by decide, ih⟩
  | plain hc _ ih => exact List.forall_mem_cons.2 ⟨isSafe_of_isPlain hc, ih⟩

/-! ### Reading a written value -/

theorem toNat_lt_of_isPlain {c : Char} (h : isPlain c = true) : c.toNat < 128 := by
  simp only [isPlain, Bool.or_eq_true, decide_eq_true_eq] at h
  rcases h with (((h | rfl) | rfl) | rfl) | rfl
  · rw [isAlphanum_iff] at h
    omega
  all_goals decide

theorem ne_of_isPlain {c d : Char} (h : isPlain c = true) (hd : isPlain d = false) : c ≠ d := by
  rintro rfl
  rw [h] at hd
  cases hd

theorem toNat_toUInt8 {c : Char} (h : c.toNat < 128) : c.toUInt8.toNat = c.toNat := by
  rw [Char.toUInt8, UInt32.toNat_toUInt8]
  exact Nat.mod_eq_of_lt (by simpa using Nat.lt_trans h (by decide : 128 < 256))

/-- A character of one byte is its own byte. -/
theorem encodeChar_of_lt {c : Char} (h : c.toNat < 128) :
    String.utf8EncodeChar c = [c.toUInt8] :=
  String.utf8EncodeChar_eq_singleton (Char.utf8Size_eq_one_iff.2 (Nat.le_of_lt_succ h))

theorem encode_cons_of_lt {c : Char} (h : c.toNat < 128) (s : Text) :
    Utf8.encode (c :: s) = c.toUInt8 :: Utf8.encode s := by
  rw [Utf8.encode_cons, encodeChar_of_lt h]
  rfl

theorem digit?_toUInt8 {c : Char} (h : c.toNat < 128) :
    digit? c.toUInt8 = Numeral.digit? 16 c := by
  rw [digit?, toNat_toUInt8 h, Char.ofNat_toNat]

theorem toUInt8_ne {c d : Char} (hc : c.toNat < 128) (hd : d.toNat < 128) (h : c ≠ d) :
    c.toUInt8 ≠ d.toUInt8 := by
  intro heq
  have := congrArg UInt8.toNat heq
  rw [toNat_toUInt8 hc, toNat_toUInt8 hd] at this
  exact h (by rw [← Char.ofNat_toNat c, ← Char.ofNat_toNat d, this])

theorem plusToSpace_cons_of_ne {c : Char} (h : c ≠ '+') (s : Text) :
    plusToSpace (c :: s) = c :: plusToSpace s := by
  rw [plusToSpace, List.map_cons, if_neg h, plusToSpace]

theorem decodeBytes_cons_of_ne {b : UInt8} (h : b ≠ '%'.toUInt8) (bs : List UInt8) :
    decodeBytes (b :: bs) = b :: decodeBytes bs := by
  rw [decodeBytes, decodeFrom, if_neg h, decodeBytes]

theorem decodeBytes_escape {a b : UInt8} {m n : Nat} (ha : digit? a = some m)
    (hb : digit? b = some n) (bs : List UInt8) :
    decodeBytes ('%'.toUInt8 :: a :: b :: bs) = .ofNat (16 * m + n) :: decodeBytes bs := by
  rw [decodeBytes, decodeFrom, if_pos rfl, escaped?, ha, hb]
  rfl

section
variable {a b : Char} {m n : Nat}

/-- The byte of a digit is that digit. -/
theorem digit?_of_digit (ha : Numeral.digit? 16 a = some m) : digit? a.toUInt8 = some m := by
  rw [digit?_toUInt8 (toNat_lt_of_isPlain (isPlain_of_digit ha)), ha]

/-- An escape has one byte for each of its characters. -/
theorem encode_escape (ha : Numeral.digit? 16 a = some m) (hb : Numeral.digit? 16 b = some n)
    (s : Text) : Utf8.encode (plusToSpace ('%' :: a :: b :: s)) =
      '%'.toUInt8 :: a.toUInt8 :: b.toUInt8 :: Utf8.encode (plusToSpace s) := by
  have hpa := isPlain_of_digit ha
  have hpb := isPlain_of_digit hb
  rw [plusToSpace_cons_of_ne (by decide), plusToSpace_cons_of_ne (ne_of_isPlain hpa rfl),
    plusToSpace_cons_of_ne (ne_of_isPlain hpb rfl), encode_cons_of_lt (by decide),
    encode_cons_of_lt (toNat_lt_of_isPlain hpa), encode_cons_of_lt (toNat_lt_of_isPlain hpb)]

end

/-- The bytes of a written value are those it writes. -/
theorem decodeBytes_of_written {bs : List UInt8} {s : Text} (h : Written bs s) :
    decodeBytes (Utf8.encode (plusToSpace s)) = bs := by
  induction h with
  | nil => rfl
  | @escape b high low bs s hhigh hlow _ ih =>
    have hb : UInt8.ofNat (16 * (b.toNat / 16) + b.toNat % 16) = b := by
      rw [Nat.div_add_mod, UInt8.ofNat_toNat]
    rw [encode_escape hhigh hlow, decodeBytes_escape (digit?_of_digit hhigh)
      (digit?_of_digit hlow), hb, ih]
  | @blank bs s _ ih =>
    have hs : plusToSpace ('+' :: s) = ' ' :: plusToSpace s := rfl
    rw [hs, encode_cons_of_lt (by decide), decodeBytes_cons_of_ne (by decide), ih]
  | @plain c bs s hc _ ih =>
    have hlt := toNat_lt_of_isPlain hc
    rw [plusToSpace_cons_of_ne (ne_of_isPlain hc rfl), encode_cons_of_lt hlt,
      decodeBytes_cons_of_ne (toUInt8_ne hlt (by decide) (ne_of_isPlain hc rfl)), ih]

/-- **A written value is read back**, whichever way it is written. -/
theorem decode_of_written {value s : Text} (h : Written (Utf8.encode value) s) :
    decode s = value := by
  rw [decode, decodeBytes_of_written h]
  simp only [Utf8.decode?_encode]

end Percent
end FieldSelection
