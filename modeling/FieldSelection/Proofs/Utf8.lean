/-
# Reading UTF-8 back

The bytes that a text is written in are read back as the text. A character is one to
four bytes; its first byte allows just as many bytes behind it as the character has, in
ranges that keep out forms that are too long and code points that are no characters
(`exists_unit`). So no unit of a written text is broken, and strict reading gives
the text (`decode?_encode`).

Key theorems: `Utf8.exists_unit`, `Utf8.decode?_encode`.
-/
import Mathlib.Data.List.Forall2
import FieldSelection.Text.Utf8

namespace FieldSelection
namespace Utf8

@[simp] theorem encode_cons (c : Char) (s : Text) :
    encode (c :: s) = String.utf8EncodeChar c ++ encode s := rfl

/-! ### Units -/

/-- A byte of a range. -/
def InRange (r : UInt8 × UInt8) (b : UInt8) : Prop := r.1 ≤ b ∧ b ≤ r.2

/-- Bytes that lie in the ranges, and no others of those behind them, are taken. -/
theorem fitting_append {rs : List (UInt8 × UInt8)} {tail : List UInt8}
    (h : List.Forall₂ InRange rs tail) (bs : List UInt8) : fitting rs (tail ++ bs) = tail := by
  induction h with
  | nil => cases bs <;> rfl
  | cons hb _ ih => rw [List.cons_append, fitting, if_pos (by simpa [InRange] using hb), ih]

/-- A first byte and bytes in the ranges behind it are a character. -/
theorem unit_append {b : UInt8} {rs : List (UInt8 × UInt8)} {tail : List UInt8}
    (hb : tails? b = some rs) (ht : List.Forall₂ InRange rs tail) (bs : List UInt8) :
    unit b (tail ++ bs) = (some (assemble b tail), tail.length) := by
  rw [unit, hb]
  simp only [fitting_append ht, ht.length_eq, if_true]

theorem toNat_ofNat {n : Nat} (h : n < 256) : (UInt8.ofNat n).toNat = n := by
  rw [UInt8.toNat_ofNat', Nat.mod_eq_of_lt h]

theorem inRange_ofNat {r : UInt8 × UInt8} {n : Nat} (h : n < 256) :
    InRange r (.ofNat n) ↔ r.1.toNat ≤ n ∧ n ≤ r.2.toNat := by
  rw [InRange, UInt8.le_iff_toNat_le, UInt8.le_iff_toNat_le, toNat_ofNat h]

/-- Code points end below `0x110000` and leave out the surrogates. -/
theorem toNat_val_lt (c : Char) :
    c.val.toNat < 0xD800 ∨ 0xDFFF < c.val.toNat ∧ c.val.toNat < 0x110000 := c.valid

/-! ### First bytes -/

/-- The ranges behind a first byte, by its value. -/
theorem tails?_ofNat {n : Nat} (h : n < 256) : tails? (.ofNat n) =
    if n < 0x80 then some []
    else if n < 0xC2 then none
    else if n < 0xE0 then some [anyTail]
    else if n = 0xE0 then some [(0xA0, 0xBF), anyTail]
    else if n = 0xED then some [(0x80, 0x9F), anyTail]
    else if n < 0xF0 then some [anyTail, anyTail]
    else if n = 0xF0 then some [(0x90, 0xBF), anyTail, anyTail]
    else if n < 0xF4 then some [anyTail, anyTail, anyTail]
    else if n = 0xF4 then some [(0x80, 0x8F), anyTail, anyTail]
    else none := by
  simp only [tails?, UInt8.lt_iff_toNat_lt, ← UInt8.toNat_inj, toNat_ofNat h]
  rfl

/-- A byte that continues a character lies in the range of those. -/
theorem inRange_anyTail {n : Nat} (h : n < 64) : InRange anyTail (.ofNat (n + 128)) := by
  rw [inRange_ofNat (by omega)]
  exact ⟨by simp [anyTail], by simp [anyTail]; omega⟩

/-- The bits that a byte adds that continues a character. -/
theorem toNat_tail_mod {n : Nat} (h : n < 64) : (UInt8.ofNat (n + 128)).toNat % 64 = n := by
  rw [toNat_ofNat (by omega)]
  omega

/-! ### Characters of one to four bytes -/

variable {v : Nat}

theorem unit_one (h : v < 0x80) (bs : List UInt8) :
    unit (.ofNat v) bs = (some (Char.ofNat v), 0) := by
  have hb : tails? (.ofNat v) = some [] := by rw [tails?_ofNat (by omega), if_pos h]
  have hu := unit_append hb .nil bs
  rwa [assemble, List.length_nil, leadBits, toNat_ofNat (by omega)] at hu

theorem unit_two (h : 0x80 ≤ v) (h' : v < 0x800) (bs : List UInt8) :
    unit (.ofNat (v / 64 % 32 + 192)) (.ofNat (v % 64 + 128) :: bs) =
      (some (Char.ofNat v), 1) := by
  have hb : tails? (.ofNat (v / 64 % 32 + 192)) = some [anyTail] := by
    rw [tails?_ofNat (by omega), if_neg (by omega), if_neg (by omega), if_pos (by omega)]
  have hlead : leadBits (.ofNat (v / 64 % 32 + 192)) 1 = v / 64 % 32 := by
    rw [leadBits, toNat_ofNat (by omega)]
    omega
  have hv : v / 64 % 32 * 64 + v % 64 = v := by omega
  have hu := unit_append hb (.cons (inRange_anyTail (n := v % 64) (by omega)) .nil) bs
  simp only [assemble, List.length_cons, List.length_nil, Nat.zero_add, hlead,
    List.foldl_cons, List.foldl_nil, toNat_tail_mod (show v % 64 < 64 by omega), hv] at hu
  exact hu

theorem unit_three (h : 0x800 ≤ v) (h' : v < 0x10000) (hvalid : v < 0xD800 ∨ 0xDFFF < v)
    (bs : List UInt8) :
    unit (.ofNat (v / 4096 % 16 + 224))
        (.ofNat (v / 64 % 64 + 128) :: .ofNat (v % 64 + 128) :: bs) =
      (some (Char.ofNat v), 2) := by
  have hb : ∃ r, tails? (.ofNat (v / 4096 % 16 + 224)) = some [r, anyTail] ∧
      InRange r (.ofNat (v / 64 % 64 + 128)) := by
    rw [tails?_ofNat (by omega), if_neg (by omega), if_neg (by omega), if_neg (by omega)]
    simp only [inRange_ofNat (show v / 64 % 64 + 128 < 256 by omega)]
    split_ifs with h1 h2 h3
    · exact ⟨_, rfl, by simp; omega⟩
    · exact ⟨_, rfl, by simp; omega⟩
    · exact ⟨_, rfl, by simp [anyTail]; omega⟩
    all_goals omega
  obtain ⟨r, hb, hr⟩ := hb
  have hlead : leadBits (.ofNat (v / 4096 % 16 + 224)) 2 = v / 4096 % 16 := by
    rw [leadBits, toNat_ofNat (by omega)]
    omega
  have hv : (v / 4096 % 16 * 64 + v / 64 % 64) * 64 + v % 64 = v := by omega
  have hu := unit_append hb (.cons hr (.cons (inRange_anyTail (n := v % 64) (by omega)) .nil)) bs
  simp only [assemble, List.length_cons, List.length_nil, Nat.zero_add, Nat.reduceAdd, hlead,
    List.foldl_cons, List.foldl_nil, toNat_tail_mod (show v / 64 % 64 < 64 by omega),
    toNat_tail_mod (show v % 64 < 64 by omega), hv] at hu
  exact hu

theorem unit_four (h : 0x10000 ≤ v) (h' : v < 0x110000) (bs : List UInt8) :
    unit (.ofNat (v / 262144 % 8 + 240))
        (.ofNat (v / 4096 % 64 + 128) :: .ofNat (v / 64 % 64 + 128) :: .ofNat (v % 64 + 128) :: bs) =
      (some (Char.ofNat v), 3) := by
  have hb : ∃ r, tails? (.ofNat (v / 262144 % 8 + 240)) = some [r, anyTail, anyTail] ∧
      InRange r (.ofNat (v / 4096 % 64 + 128)) := by
    rw [tails?_ofNat (by omega), if_neg (by omega), if_neg (by omega), if_neg (by omega),
      if_neg (by omega), if_neg (by omega), if_neg (by omega)]
    simp only [inRange_ofNat (show v / 4096 % 64 + 128 < 256 by omega)]
    split_ifs with h1 h2 h3
    · exact ⟨_, rfl, by simp; omega⟩
    · exact ⟨_, rfl, by simp [anyTail]; omega⟩
    · exact ⟨_, rfl, by simp; omega⟩
    all_goals omega
  obtain ⟨r, hb, hr⟩ := hb
  have hlead : leadBits (.ofNat (v / 262144 % 8 + 240)) 3 = v / 262144 % 8 := by
    change (UInt8.ofNat (v / 262144 % 8 + 240)).toNat % 8 = v / 262144 % 8
    rw [toNat_ofNat (by omega)]
    omega
  have hv : ((v / 262144 % 8 * 64 + v / 4096 % 64) * 64 + v / 64 % 64) * 64 + v % 64 = v := by
    omega
  have hu := unit_append hb (.cons hr (.cons (inRange_anyTail (n := v / 64 % 64) (by omega))
    (.cons (inRange_anyTail (n := v % 64) (by omega)) .nil))) bs
  simp only [assemble, List.length_cons, List.length_nil, Nat.zero_add, Nat.reduceAdd, hlead,
    List.foldl_cons, List.foldl_nil, toNat_tail_mod (show v / 4096 % 64 < 64 by omega),
    toNat_tail_mod (show v / 64 % 64 < 64 by omega),
    toNat_tail_mod (show v % 64 < 64 by omega), hv] at hu
  exact hu

/-- **A character is read as it was written.** Its first byte allows just the bytes that are
written behind it. -/
theorem exists_unit (c : Char) : ∃ b tail, String.utf8EncodeChar c = b :: tail ∧
    ∀ bs, unit b (tail ++ bs) = (some c, tail.length) := by
  have hvalid := toNat_val_lt c
  generalize hv : c.val.toNat = v at hvalid
  have hc : Char.ofNat v = c := by rw [← hv]; exact Char.ofNat_toNat c
  simp only [String.utf8EncodeChar, hv]
  rw [← hc]
  split_ifs with h1 h2 h3
  · exact ⟨_, [], rfl, fun bs => unit_one (by omega) bs⟩
  · exact ⟨_, [_], rfl, fun bs => unit_two (by omega) (by omega) bs⟩
  · exact ⟨_, [_, _], rfl, fun bs => unit_three (by omega) (by omega) (by omega) bs⟩
  · exact ⟨_, [_, _, _], rfl, fun bs => unit_four (by omega) (by omega) bs⟩

/-! ### Texts -/

theorem unitsFrom_eq_drop : ∀ (skip : Nat) (bs : List UInt8),
    unitsFrom skip bs = units (bs.drop skip)
  | 0, _ => rfl
  | skip + 1, [] => by simp [units, unitsFrom]
  | skip + 1, _ :: bs => by rw [unitsFrom, unitsFrom_eq_drop skip bs, List.drop_succ_cons]

theorem units_cons (b : UInt8) (bs : List UInt8) :
    units (b :: bs) = (unit b bs).1 :: units (bs.drop (unit b bs).2) := by
  rw [units, unitsFrom, unitsFrom_eq_drop]

theorem units_encode_append (s : Text) (bs : List UInt8) :
    units (encode s ++ bs) = s.map some ++ units bs := by
  induction s with
  | nil => rfl
  | cons c s ih =>
    obtain ⟨b, tail, hc, hunit⟩ := exists_unit c
    rw [encode_cons, hc, List.append_assoc, List.cons_append, units_cons, hunit, List.drop_left,
      ih, List.map_cons, List.cons_append]

/-- **A written text is read back.** -/
theorem decode?_encode (s : Text) : decode? (encode s) = some s := by
  have hunits : units (encode s) = s.map some := by
    simpa [units, unitsFrom] using units_encode_append s []
  rw [decode?, hunits, List.mapM_map]
  simpa using List.mapM_pure (m := Option) (l := s) (f := id)

end Utf8
end FieldSelection
