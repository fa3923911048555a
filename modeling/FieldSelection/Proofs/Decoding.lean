/-
# What a value in percent encoding stands for

`bytesOf` says which bytes a value stands for, character by character: a plus is a blank, a
percent sign with two hexadecimal digits behind it is the byte that they are, and any other
character, such as a percent sign without them, is its own bytes. A value is read in another
order, plus signs first and over the whole of it, then its bytes, and the escapes among those. The
bytes are the same (`ReadsEscapes.eq_bytesOf`): what is a percent sign or a digit among the bytes is
one in the text, for the bytes of a longer character are past them all
(`le_of_mem_encodeChar`), and neither a plus nor a blank is a digit.

Strict reading is tried before lenient reading, and nothing hangs on it: where it gives a text, the
other gives the same one. So a value always stands for the lenient reading of its bytes
(`decode_reads_bytesOf`). All of this asks of what reads the escapes only that it leaves other
bytes as they are (`ReadsEscapes`), and of strict reading only that it fails just where the bytes
are no text's.

Key definitions: `Percent.hexValue?`, `Percent.bytesOf`, `Percent.ReadsEscapes`.
Key theorems: `Percent.ReadsEscapes.eq_bytesOf`, `Percent.decode_reads_bytesOf`.
-/
import FieldSelection.Proofs.Lossy
import FieldSelection.Proofs.Percent
import FieldSelection.Proofs.PlainReader

namespace FieldSelection
namespace Percent

/-- The number that a hexadecimal digit stands for, in capitals or not. -/
def hexValue? (c : Char) : Option Nat :=
  (List.range 16).find? fun n => c = n.digitChar || c = n.digitChar.toUpper

/-- The bytes that a value stands for, from left to right. A percent sign needs both of its
digits. -/
def bytesOf : Text → List UInt8
  | [] => []
  | '+' :: s => ' '.toUInt8 :: bytesOf s
  | '%' :: a :: b :: s =>
    match hexValue? a, hexValue? b with
    | some high, some low => .ofNat (16 * high + low) :: bytesOf s
    | _, _ => '%'.toUInt8 :: bytesOf (a :: b :: s)
  | c :: s => String.utf8EncodeChar c ++ bytesOf s

/-- What reads the escapes among bytes: a percent sign with two digits behind it is the byte that
they are, and any other byte is itself. -/
structure ReadsEscapes (read : List UInt8 → List UInt8) : Prop where
  nil : read [] = []
  plain : ∀ b bs, b ≠ '%'.toUInt8 → read (b :: bs) = b :: read bs
  escape : ∀ a b m n bs, digit? a = some m → digit? b = some n →
    read ('%'.toUInt8 :: a :: b :: bs) = .ofNat (16 * m + n) :: read bs
  percent : ∀ bs, escaped? bs = none → read ('%'.toUInt8 :: bs) = '%'.toUInt8 :: read bs

/-- A value decoded with `read` for the escapes and `strict?` for the text. -/
def decodeBy (read : List UInt8 → List UInt8) (strict? : List UInt8 → Option Text) (v : Text) :
    Text :=
  let bytes := read (Utf8.encode (plusToSpace v))
  match strict? bytes with
  | some s => s
  | none => Utf8.decodeLenient bytes

/-! ### Hexadecimal digits -/

theorem digit?_digitChar : ∀ n < 16, Numeral.digit? 16 n.digitChar = some n ∧
    Numeral.digit? 16 n.digitChar.toUpper = some n := by decide

theorem hexValue?_digitChar : ∀ n < 16, hexValue? n.digitChar = some n ∧
    hexValue? n.digitChar.toUpper = some n := by decide

/-- The digits of a number, by their code points. -/
theorem ofNat_eq_digitChar : ∀ n < 16, (n < 10 → Char.ofNat (48 + n) = n.digitChar) ∧
    (10 ≤ n → Char.ofNat (87 + n) = n.digitChar ∧
      Char.ofNat (55 + n) = n.digitChar.toUpper) := by decide

/-- A hexadecimal digit is the small or the capital one of its number. -/
theorem eq_digitChar_of_digit? {c : Char} {n : Nat} (h : Numeral.digit? 16 c = some n) :
    n < 16 ∧ (c = n.digitChar ∨ c = n.digitChar.toUpper) := by
  obtain ⟨hc, hn⟩ := Option.filter_eq_some_iff.1 h
  have hlt : n < 16 := by simpa using hn
  obtain ⟨hdigit, hletter⟩ := ofNat_eq_digitChar n hlt
  have hself : ∀ k, c.toNat = k → c = Char.ofNat k := by
    rintro k rfl
    exact (Char.ofNat_toNat c).symm
  refine ⟨hlt, ?_⟩
  simp only [Numeral.value?, Char.le_def, UInt32.le_iff_toNat_le, Bool.and_eq_true,
    decide_eq_true_eq, Char.reduceToNat, Char.reduceVal, UInt32.reduceToNat] at hc
  change (if 48 ≤ c.toNat ∧ c.toNat ≤ 57 then _ else if 97 ≤ c.toNat ∧ c.toNat ≤ 102 then _ else
    if 65 ≤ c.toNat ∧ c.toNat ≤ 70 then _ else _) = some n at hc
  split_ifs at hc with h1 h2 h3 <;> obtain rfl := Option.some.inj hc
  · exact .inl ((hself _ (by omega)).trans (hdigit (by omega)))
  · exact .inl ((hself _ (by omega)).trans (hletter (by omega)).1)
  · exact .inr ((hself _ (by omega)).trans (hletter (by omega)).2)

/-- The digits that are read are the hexadecimal ones. -/
theorem hexValue?_eq_digit? (c : Char) : hexValue? c = Numeral.digit? 16 c := by
  cases h : Numeral.digit? 16 c with
  | some n =>
    obtain ⟨hn, hc⟩ := eq_digitChar_of_digit? h
    rcases hc with rfl | rfl
    · exact (hexValue?_digitChar n hn).1
    · exact (hexValue?_digitChar n hn).2
  | none =>
    rw [hexValue?, List.find?_eq_none]
    intro n hn hc
    have hn' : n < 16 := List.mem_range.1 hn
    rw [Bool.or_eq_true, decide_eq_true_eq, decide_eq_true_eq] at hc
    rcases hc with rfl | rfl
    · rw [(digit?_digitChar n hn').1] at h
      cases h
    · rw [(digit?_digitChar n hn').2] at h
      cases h

/-! ### Characters and their bytes -/

/-- The bytes of a longer character are past those of the others. -/
theorem le_of_mem_encodeChar {c : Char} (hc : 128 ≤ c.toNat) {b : UInt8}
    (hb : b ∈ String.utf8EncodeChar c) : 128 ≤ b.toNat := by
  have hv : ¬ c.val.toNat ≤ 127 := Nat.not_le_of_lt hc
  rw [String.utf8EncodeChar] at hb
  simp only [if_neg hv] at hb
  split_ifs at hb <;>
    simp only [List.mem_cons, List.not_mem_nil, or_false] at hb
  · rcases hb with rfl | rfl <;> rw [Utf8.toNat_ofNat (by omega)] <;> omega
  · rcases hb with rfl | rfl | rfl <;> rw [Utf8.toNat_ofNat (by omega)] <;> omega
  · rcases hb with rfl | rfl | rfl | rfl <;> rw [Utf8.toNat_ofNat (by omega)] <;> omega

theorem digit?_eq_none {b : UInt8} (h : 128 ≤ b.toNat) : digit? b = none := by
  by_contra hne
  obtain ⟨n, hn⟩ := Option.ne_none_iff_exists'.1 hne
  have hlt := toNat_lt_of_isPlain (isPlain_of_digit hn)
  have hvalid : b.toNat.isValidChar := .inl (Nat.lt_trans b.toNat_lt (by decide))
  rw [Char.ofNat, dif_pos hvalid] at hlt
  exact absurd h (Nat.not_le_of_lt hlt)

/-- The only character with a percent sign among its bytes is that one. -/
theorem percent_notMem_encodeChar {c : Char} (hc : c ≠ '%') :
    '%'.toUInt8 ∉ String.utf8EncodeChar c := by
  intro hmem
  by_cases hlt : c.toNat < 128
  · rw [encodeChar_of_lt hlt, List.mem_singleton] at hmem
    exact toUInt8_ne (by decide) hlt hc.symm hmem
  · have hle := le_of_mem_encodeChar (Nat.le_of_not_lt hlt) hmem
    exact absurd hle (by decide)

theorem plusToSpace_cons (c : Char) (s : Text) :
    plusToSpace (c :: s) = (if c = '+' then ' ' else c) :: plusToSpace s := rfl

/-- Neither a plus nor a blank is a digit. -/
theorem digit?_plusToSpace (c : Char) :
    Numeral.digit? 16 (if c = '+' then ' ' else c) = Numeral.digit? 16 c := by
  split
  · rename_i hc
    rw [hc]
    decide
  · rfl

/-- A digit in front of the bytes is a digit in front of the text. -/
theorem exists_of_digit? {s : Text} {x : UInt8} {xs : List UInt8} {n : Nat}
    (h : Utf8.encode (plusToSpace s) = x :: xs) (hx : digit? x = some n) :
    ∃ a rest, s = a :: rest ∧ hexValue? a = some n ∧ xs = Utf8.encode (plusToSpace rest) := by
  cases s with
  | nil => cases h
  | cons a rest =>
    rw [plusToSpace_cons] at h
    by_cases hlt : (if a = '+' then ' ' else a).toNat < 128
    · rw [encode_cons_of_lt hlt] at h
      obtain ⟨rfl, rfl⟩ := List.cons.inj h
      rw [digit?_toUInt8 hlt, digit?_plusToSpace, ← hexValue?_eq_digit?] at hx
      exact ⟨a, rest, rfl, hx, rfl⟩
    · have hmem : x ∈ String.utf8EncodeChar (if a = '+' then ' ' else a) := by
        obtain ⟨b, tail, hb, -⟩ := Utf8.exists_unit (if a = '+' then ' ' else a)
        rw [Utf8.encode_cons, hb] at h
        rw [hb, ← (List.cons.inj h).1]
        exact List.mem_cons_self
      rw [digit?_eq_none (le_of_mem_encodeChar (Nat.le_of_not_lt hlt) hmem)] at hx
      cases hx

/-- Where two digits are not in front of the text, they are not in front of its bytes. -/
theorem escaped?_eq_none {s : Text} (h : ∀ a b rest m n, s = a :: b :: rest →
    hexValue? a = some m → hexValue? b = some n → False) :
    escaped? (Utf8.encode (plusToSpace s)) = none := by
  by_contra hne
  obtain ⟨e, he⟩ := Option.ne_none_iff_exists'.1 hne
  cases hs : Utf8.encode (plusToSpace s) with
  | nil =>
    rw [hs] at he
    cases he
  | cons x xs =>
    cases xs with
    | nil =>
      rw [hs] at he
      cases he
    | cons y ys =>
      obtain ⟨m, hm, n, hn, -⟩ : ∃ m, digit? x = some m ∧ ∃ n, digit? y = some n ∧
          UInt8.ofNat (16 * m + n) = e := by
        simpa [hs, escaped?, Option.bind_eq_some_iff] using he
      obtain ⟨a, rest, rfl, ha, hrest⟩ := exists_of_digit? hs hm
      obtain ⟨b, rest, rfl, hb, -⟩ := exists_of_digit? hrest.symm hn
      exact h a b rest m n rfl ha hb

/-! ### The bytes of a value -/

namespace ReadsEscapes

variable {read : List UInt8 → List UInt8}

theorem append (h : ReadsEscapes read) {x : List UInt8} (hx : '%'.toUInt8 ∉ x)
    (bs : List UInt8) : read (x ++ bs) = x ++ read bs := by
  induction x with
  | nil => rfl
  | cons b x ih =>
    rw [List.mem_cons, not_or] at hx
    rw [List.cons_append, h.plain b _ (Ne.symm hx.1), ih hx.2, List.cons_append]

/-- **The bytes of a value** are the same in whichever order it is read. -/
theorem eq_bytesOf (h : ReadsEscapes read) (v : Text) :
    read (Utf8.encode (plusToSpace v)) = bytesOf v := by
  fun_induction bytesOf v with
  | case1 => exact h.nil
  | case2 s ih =>
    rw [plusToSpace_cons, if_pos rfl, encode_cons_of_lt (by decide), h.plain _ _ (by decide), ih]
  | case3 a b s high low hb ha ih =>
    rw [hexValue?_eq_digit?] at ha hb
    rw [encode_escape ha hb, h.escape _ _ _ _ _ (digit?_of_digit ha) (digit?_of_digit hb), ih]
  | case4 a b s hdigits ih =>
    have hstay : escaped? (Utf8.encode (plusToSpace (a :: b :: s))) = none := by
      apply escaped?_eq_none
      rintro _ _ _ m n ⟨⟩ ha hb
      exact hdigits m n ha hb
    rw [plusToSpace_cons_of_ne (by decide), encode_cons_of_lt (by decide), h.percent _ hstay, ih]
  | case5 c s hplus hshort ih =>
    rw [plusToSpace_cons_of_ne hplus]
    by_cases hc : c = '%'
    · -- fewer than two characters are behind it
      have hstay : escaped? (Utf8.encode (plusToSpace s)) = none :=
        escaped?_eq_none fun a b rest _ _ hs _ _ => hshort a b rest hc hs
      rw [hc, encode_cons_of_lt (by decide), h.percent _ hstay, ih]
      rfl
    · rw [Utf8.encode_cons, h.append (percent_notMem_encodeChar hc), ih]

/-- Whatever fails just where the bytes are no text's, strict and lenient reading are one. -/
theorem decodeBy_eq (h : ReadsEscapes read) {strict? : List UInt8 → Option Text}
    (hstrict : ∀ bs t, strict? bs = some t ↔ Utf8.encode t = bs) (v : Text) :
    decodeBy read strict? v = Utf8.decodeLenient (bytesOf v) := by
  simp only [decodeBy, h.eq_bytesOf]
  cases ht : strict? (bytesOf v) with
  | none => rfl
  | some t =>
    show t = Utf8.decodeLenient (bytesOf v)
    rw [← (hstrict _ _).1 ht, Utf8.decodeLenient_encode]

end ReadsEscapes

/-- The bytes are read with each escape. -/
theorem readsEscapes_decodeBytes : ReadsEscapes decodeBytes where
  nil := rfl
  plain _ bs hb := decodeBytes_cons_of_ne hb bs
  escape _ _ _ _ bs ha hb := decodeBytes_escape ha hb bs
  percent bs h := by rw [decodeBytes, decodeFrom, if_pos rfl, h, decodeBytes]

theorem decode_eq_decodeLenient (v : Text) : decode v = Utf8.decodeLenient (bytesOf v) :=
  readsEscapes_decodeBytes.decodeBy_eq (fun _ _ => Utf8.decode?_eq_some_iff) v

theorem bytesOf_cons {c : Char} (hplus : c ≠ '+') (hpercent : c ≠ '%') (s : Text) :
    bytesOf (c :: s) = String.utf8EncodeChar c ++ bytesOf s := by
  rw [bytesOf.eq_def]
  split <;> simp_all

/-- Without a plus and a percent sign a value stands for itself. -/
theorem bytesOf_eq_encode {v : Text} (hplus : '+' ∉ v) (hpercent : '%' ∉ v) :
    bytesOf v = Utf8.encode v := by
  induction v with
  | nil => rfl
  | cons c s ih =>
    rw [List.mem_cons, not_or] at hplus hpercent
    rw [bytesOf_cons (Ne.symm hplus.1) (Ne.symm hpercent.1), ih hplus.2 hpercent.2,
      Utf8.encode_cons]

/-- **A value is read as its bytes are**, with one replacement character for each broken front of
them. Strict reading gives a text just where the bytes are those of one, and what the value is read
as has these bytes then; a value without a plus and a percent sign is read as it is; the values of
a field are read in this way; and so is a value with any other reader of escapes and any other
strict reading. -/
theorem decode_reads_bytesOf (v : Text) :
    (∀ t, Utf8.Lossy (bytesOf v) t ↔ t = decode v) ∧
      (∀ t, Utf8.decode? (bytesOf v) = some t ↔ Utf8.encode t = bytesOf v) ∧
      ((∃ t, Utf8.encode t = bytesOf v) → Utf8.encode (decode v) = bytesOf v) ∧
      ('+' ∉ v → '%' ∉ v → decode v = v) ∧
      (∀ field, Parameter.read true field =
        (Parameter.read false field).map fun p => { p with value := decode p.value }) ∧
      ∀ read strict?, ReadsEscapes read →
        (∀ bs t, strict? bs = some t ↔ Utf8.encode t = bs) → decodeBy read strict? v = decode v := by
  refine ⟨fun t => ?_, fun t => Utf8.decode?_eq_some_iff, ?_, fun hplus hpercent => ?_,
    Parameter.read_true_eq, fun read strict? hread hstrict => ?_⟩
  · rw [Utf8.lossy_iff, decode_eq_decodeLenient]
  · rintro ⟨t, ht⟩
    rw [decode_eq_decodeLenient, ← ht, Utf8.decodeLenient_encode]
  · rw [decode_eq_decodeLenient, bytesOf_eq_encode hplus hpercent, Utf8.decodeLenient_encode]
  · rw [hread.decodeBy_eq hstrict, decode_eq_decodeLenient]

/-- Escapes may be stacked or cut short, and a byte that one of them gives may begin a character
that nothing ends. -/
example : bytesOf ['%', '4', '%', '4', '1', '%', '%', '4', '1', '%', 'C', '3', '%'] =
    [0x25, 0x34, 0x41, 0x25, 0x41, 0xC3, 0x25] := by decide

end Percent
end FieldSelection
