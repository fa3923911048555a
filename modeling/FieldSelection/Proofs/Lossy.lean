/-
# Bytes that may be broken

Not all bytes are those of a text. `Lossy bs s` says what a text `s` they are read as leniently,
without a table of first bytes: a character that stands in front is itself, and if none does, the
longest front that begins a character, or else the first byte alone, is broken and becomes one
replacement character. `Utf8.decodeLenient` is that reading (`lossy_iff`).

What begins a character is told by the first byte and the ranges that it allows behind it
(`begins_cons_iff`), since any bytes in those ranges are a character (`exists_char`). So a unit is
a character just where the bytes of one are in front (`unit_of_isPrefix`, `encode_of_unit`), and it
is broken just where a front is (`unit_of_broken`, `broken_of_unit`). Strict reading gives a text if
and only if the bytes are those of the text (`decode?_eq_some_iff`).

Key definitions: `Utf8.Begins`, `Utf8.Broken`, `Utf8.Lossy`.
Key theorems: `Utf8.exists_char`, `Utf8.begins_cons_iff`, `Utf8.decode?_eq_some_iff`,
`Utf8.lossy_iff`.
-/
import FieldSelection.Proofs.Utf8

namespace FieldSelection
namespace Utf8

/-- The bytes are the first ones of a character, or all of them. -/
def Begins (bs : List UInt8) : Prop := ∃ c, bs <+: String.utf8EncodeChar c

/-- No character stands in front of the bytes, and their longest front that begins one is `b`
with `p` behind it; `p` is empty also if no character begins with `b`. -/
structure Broken (b : UInt8) (p bs : List UInt8) : Prop where
  incomplete : ∀ c, ¬ String.utf8EncodeChar c <+: b :: (p ++ bs)
  begins : p ≠ [] → Begins (b :: p)
  longest : ∀ q, q ≠ [] → q <+: bs → ¬ Begins (b :: (p ++ q))

/-- The text that bytes are read as, with one replacement character for each broken front. -/
inductive Lossy : List UInt8 → Text → Prop
  | nil : Lossy [] []
  | char (c : Char) {bs : List UInt8} {s : Text} (h : Lossy bs s) :
      Lossy (String.utf8EncodeChar c ++ bs) (c :: s)
  | broken {b : UInt8} {p bs : List UInt8} {s : Text} (hb : Broken b p bs) (h : Lossy bs s) :
      Lossy (b :: (p ++ bs)) ('\uFFFD' :: s)

/-! ### Bytes that are a character -/

section
variable {v : Nat}

theorem exists_toNat_eq (h : v < 0xD800 ∨ 0xDFFF < v ∧ v < 0x110000) :
    ∃ c : Char, c.val.toNat = v := ⟨Char.ofNatAux v h, rfl⟩

theorem eq_ofNat {b : UInt8} {n : Nat} (h : n = b.toNat) : UInt8.ofNat n = b := by
  rw [h, UInt8.ofNat_toNat]

end

section
variable {b t u w : UInt8}

theorem exists_char_one (hb : b.toNat < 0x80) : ∃ c, String.utf8EncodeChar c = [b] := by
  obtain ⟨c, hc⟩ := exists_toNat_eq (v := b.toNat) (by omega)
  refine ⟨c, ?_⟩
  simp only [String.utf8EncodeChar, hc]
  rw [if_pos (by omega), eq_ofNat rfl]

theorem exists_char_two (hb : 0xC2 ≤ b.toNat) (hb' : b.toNat < 0xE0) (ht : InRange anyTail t) :
    ∃ c, String.utf8EncodeChar c = [b, t] := by
  have ht' : 0x80 ≤ t.toNat ∧ t.toNat ≤ 0xBF := ht
  obtain ⟨c, hc⟩ := exists_toNat_eq (v := (b.toNat - 0xC0) * 64 + (t.toNat - 0x80)) (by omega)
  refine ⟨c, ?_⟩
  simp only [String.utf8EncodeChar, hc]
  rw [if_neg (by omega), if_pos (by omega), eq_ofNat (b := b) (by omega),
    eq_ofNat (b := t) (by omega)]

/-- The first of two bytes behind the first one is bounded where the form would be too long, or
the code point a surrogate. -/
theorem exists_char_three (hb : 0xE0 ≤ b.toNat) (hb' : b.toNat < 0xF0) (ht : InRange anyTail t)
    (hlong : b.toNat = 0xE0 → 0xA0 ≤ t.toNat) (hsurrogate : b.toNat = 0xED → t.toNat ≤ 0x9F)
    (hu : InRange anyTail u) : ∃ c, String.utf8EncodeChar c = [b, t, u] := by
  have ht' : 0x80 ≤ t.toNat ∧ t.toNat ≤ 0xBF := ht
  have hu' : 0x80 ≤ u.toNat ∧ u.toNat ≤ 0xBF := hu
  obtain ⟨c, hc⟩ := exists_toNat_eq
    (v := ((b.toNat - 0xE0) * 64 + (t.toNat - 0x80)) * 64 + (u.toNat - 0x80)) (by omega)
  refine ⟨c, ?_⟩
  simp only [String.utf8EncodeChar, hc]
  rw [if_neg (by omega), if_neg (by omega), if_pos (by omega), eq_ofNat (b := b) (by omega),
    eq_ofNat (b := t) (by omega), eq_ofNat (b := u) (by omega)]

/-- The first of three bytes behind the first one is bounded where the form would be too long, or
the code point past the last one. -/
theorem exists_char_four (hb : 0xF0 ≤ b.toNat) (hb' : b.toNat ≤ 0xF4) (ht : InRange anyTail t)
    (hlong : b.toNat = 0xF0 → 0x90 ≤ t.toNat) (hlast : b.toNat = 0xF4 → t.toNat ≤ 0x8F)
    (hu : InRange anyTail u) (hw : InRange anyTail w) :
    ∃ c, String.utf8EncodeChar c = [b, t, u, w] := by
  have ht' : 0x80 ≤ t.toNat ∧ t.toNat ≤ 0xBF := ht
  have hu' : 0x80 ≤ u.toNat ∧ u.toNat ≤ 0xBF := hu
  have hw' : 0x80 ≤ w.toNat ∧ w.toNat ≤ 0xBF := hw
  obtain ⟨c, hc⟩ := exists_toNat_eq (v := (((b.toNat - 0xF0) * 64 + (t.toNat - 0x80)) * 64 +
    (u.toNat - 0x80)) * 64 + (w.toNat - 0x80)) (by omega)
  refine ⟨c, ?_⟩
  simp only [String.utf8EncodeChar, hc]
  rw [if_neg (by omega), if_neg (by omega), if_neg (by omega), eq_ofNat (b := b) (by omega),
    eq_ofNat (b := t) (by omega), eq_ofNat (b := u) (by omega), eq_ofNat (b := w) (by omega)]

end

/-- A range of bytes that may continue a character, all of them or some. -/
def Narrows (r : UInt8 × UInt8) : Prop := 0x80 ≤ r.1 ∧ r.1 ≤ r.2 ∧ r.2 ≤ 0xBF

instance (r : UInt8 × UInt8) : Decidable (Narrows r) :=
  inferInstanceAs (Decidable (0x80 ≤ r.1 ∧ r.1 ≤ r.2 ∧ r.2 ≤ 0xBF))

theorem InRange.anyTail {r : UInt8 × UInt8} {t : UInt8} (hr : Narrows r) (ht : InRange r t) :
    InRange anyTail t := ⟨UInt8.le_trans hr.1 ht.1, UInt8.le_trans ht.2 hr.2.2⟩

/-- What a first byte allows behind it, by its value. -/
theorem tails?_cases {b : UInt8} {rs : List (UInt8 × UInt8)} (h : tails? b = some rs) :
    (b.toNat < 0x80 ∧ rs = []) ∨
    (0xC2 ≤ b.toNat ∧ b.toNat < 0xE0 ∧ rs = [anyTail]) ∨
    (0xE0 ≤ b.toNat ∧ b.toNat < 0xF0 ∧ ∃ r, rs = [r, anyTail] ∧ Narrows r ∧
      (b.toNat = 0xE0 → 0xA0 ≤ r.1) ∧ (b.toNat = 0xED → r.2 ≤ 0x9F)) ∨
    (0xF0 ≤ b.toNat ∧ b.toNat ≤ 0xF4 ∧ ∃ r, rs = [r, anyTail, anyTail] ∧ Narrows r ∧
      (b.toNat = 0xF0 → 0x90 ≤ r.1) ∧ (b.toNat = 0xF4 → r.2 ≤ 0x8F)) := by
  have hlt : b.toNat < 256 := b.toNat_lt
  rw [← UInt8.ofNat_toNat (x := b), tails?_ofNat hlt] at h
  by_cases h1 : b.toNat < 0x80
  · rw [if_pos h1] at h
    exact .inl ⟨h1, (Option.some.inj h).symm⟩
  rw [if_neg h1] at h
  by_cases h2 : b.toNat < 0xC2
  · rw [if_pos h2] at h
    cases h
  rw [if_neg h2] at h
  by_cases h3 : b.toNat < 0xE0
  · rw [if_pos h3] at h
    exact .inr (.inl ⟨by omega, h3, (Option.some.inj h).symm⟩)
  rw [if_neg h3] at h
  by_cases h4 : b.toNat < 0xF0
  · refine .inr (.inr (.inl ⟨by omega, h4, ?_⟩))
    by_cases h5 : b.toNat = 0xE0
    · rw [if_pos h5] at h
      exact ⟨_, (Option.some.inj h).symm, by decide, fun _ => by decide, by omega⟩
    rw [if_neg h5] at h
    by_cases h6 : b.toNat = 0xED
    · rw [if_pos h6] at h
      exact ⟨_, (Option.some.inj h).symm, by decide, by omega, fun _ => by decide⟩
    rw [if_neg h6, if_pos h4] at h
    exact ⟨_, (Option.some.inj h).symm, by decide, by omega, by omega⟩
  rw [if_neg (by omega), if_neg (by omega), if_neg h4] at h
  by_cases h7 : b.toNat = 0xF0
  · rw [if_pos h7] at h
    exact .inr (.inr (.inr ⟨by omega, by omega, _, (Option.some.inj h).symm, by decide,
      fun _ => by decide, by omega⟩))
  rw [if_neg h7] at h
  by_cases h8 : b.toNat < 0xF4
  · rw [if_pos h8] at h
    exact .inr (.inr (.inr ⟨by omega, by omega, _, (Option.some.inj h).symm, by decide,
      by omega, by omega⟩))
  rw [if_neg h8] at h
  by_cases h9 : b.toNat = 0xF4
  · rw [if_pos h9] at h
    exact .inr (.inr (.inr ⟨by omega, by omega, _, (Option.some.inj h).symm, by decide,
      by omega, fun _ => by decide⟩))
  rw [if_neg h9] at h
  cases h

/-- **Bytes in the ranges that a first byte allows are a character** with it. -/
theorem exists_char {b : UInt8} {rs : List (UInt8 × UInt8)} {tail : List UInt8}
    (hb : tails? b = some rs) (ht : List.Forall₂ InRange rs tail) :
    ∃ c, String.utf8EncodeChar c = b :: tail := by
  rcases tails?_cases hb with ⟨hlt, rfl⟩ | ⟨hge, hlt, rfl⟩ |
    ⟨hge, hlt, r, rfl, hr, hlong, hsurrogate⟩ | ⟨hge, hle, r, rfl, hr, hlong, hlast⟩
  · obtain rfl := List.forall₂_nil_left_iff.1 ht
    exact exists_char_one hlt
  · obtain ⟨t, ts, h1, h2, rfl⟩ := List.forall₂_cons_left_iff.1 ht
    obtain rfl := List.forall₂_nil_left_iff.1 h2
    exact exists_char_two hge hlt h1
  · obtain ⟨t, ts, h1, h2, rfl⟩ := List.forall₂_cons_left_iff.1 ht
    obtain ⟨u, us, h3, h4, rfl⟩ := List.forall₂_cons_left_iff.1 h2
    obtain rfl := List.forall₂_nil_left_iff.1 h4
    exact exists_char_three hge hlt (h1.anyTail hr) (fun h => UInt8.le_trans (hlong h) h1.1)
      (fun h => UInt8.le_trans h1.2 (hsurrogate h)) h3
  · obtain ⟨t, ts, h1, h2, rfl⟩ := List.forall₂_cons_left_iff.1 ht
    obtain ⟨u, us, h3, h4, rfl⟩ := List.forall₂_cons_left_iff.1 h2
    obtain ⟨w, ws, h5, h6, rfl⟩ := List.forall₂_cons_left_iff.1 h4
    obtain rfl := List.forall₂_nil_left_iff.1 h6
    exact exists_char_four hge hle (h1.anyTail hr) (fun h => UInt8.le_trans (hlong h) h1.1)
      (fun h => UInt8.le_trans h1.2 (hlast h)) h3 h5

/-- None of the ranges that a first byte allows is empty. -/
theorem le_of_tails? {b : UInt8} {rs : List (UInt8 × UInt8)} (h : tails? b = some rs) :
    ∀ r ∈ rs, r.1 ≤ r.2 := by
  rcases tails?_cases h with ⟨-, rfl⟩ | ⟨-, -, rfl⟩ | ⟨-, -, r, rfl, hr, -⟩ | ⟨-, -, r, rfl, hr, -⟩
  · simp
  · simp [anyTail]
  · simp [anyTail, hr.2.1]
  · simp [anyTail, hr.2.1]

/-! ### Bytes that fit -/

theorem fitting_isPrefix : ∀ (rs : List (UInt8 × UInt8)) (bs : List UInt8), fitting rs bs <+: bs
  | [], _ => List.nil_prefix
  | _ :: _, [] => List.nil_prefix
  | r :: rs, b :: bs => by
    unfold fitting
    split
    · exact List.cons_prefix_cons.2 ⟨rfl, fitting_isPrefix rs bs⟩
    · exact List.nil_prefix

/-- What fits, up to the last range, lies in the ranges one after the other. -/
theorem forall₂_fitting : ∀ {rs : List (UInt8 × UInt8)} {bs : List UInt8},
    (fitting rs bs).length = rs.length → List.Forall₂ InRange rs (fitting rs bs)
  | [], _, _ => .nil
  | _ :: _, [], h => by cases h
  | r :: rs, b :: bs, h => by
    unfold fitting at h ⊢
    split at h
    · rename_i hb
      rw [if_pos hb]
      have hb' : r.1 ≤ b ∧ b ≤ r.2 := by simpa using hb
      exact .cons hb' (forall₂_fitting (Nat.succ.inj h))
    · cases h

/-- The bytes in front of a list that are the front of some bytes in the ranges are just those
that fit. -/
theorem isPrefix_fitting_iff : ∀ {rs : List (UInt8 × UInt8)}, (∀ r ∈ rs, r.1 ≤ r.2) →
    ∀ {q bs : List UInt8}, q <+: bs →
      ((∃ tail, List.Forall₂ InRange rs tail ∧ q <+: tail) ↔ q <+: fitting rs bs)
  | rs, hrs, [], bs, _ => by
    refine ⟨fun _ => List.nil_prefix, fun _ => ⟨rs.map Prod.fst, ?_, List.nil_prefix⟩⟩
    rw [List.forall₂_map_right_iff, List.forall₂_same]
    exact fun r hr => ⟨UInt8.le_refl _, hrs r hr⟩
  | [], _, a :: q, bs, _ => by
    constructor
    · rintro ⟨tail, ht, hq⟩
      obtain rfl := List.forall₂_nil_left_iff.1 ht
      exact hq
    · intro h
      cases bs <;> simp [fitting] at h
  | r :: rs, hrs, a :: q, [], hq => by simp at hq
  | r :: rs, hrs, a :: q, b :: bs, hq => by
    obtain ⟨rfl, hrest⟩ := List.cons_prefix_cons.1 hq
    have ih := isPrefix_fitting_iff (fun r hr => hrs r (List.mem_cons_of_mem _ hr)) hrest
    have hrange : (r.1 ≤ a && a ≤ r.2) = true ↔ InRange r a := by simp [InRange]
    unfold fitting
    by_cases ha : InRange r a
    · rw [if_pos (hrange.2 ha), List.cons_prefix_cons, ← ih]
      constructor
      · rintro ⟨tail, ht, hp⟩
        obtain ⟨t, ts, -, hts, rfl⟩ := List.forall₂_cons_left_iff.1 ht
        exact ⟨rfl, ts, hts, (List.cons_prefix_cons.1 hp).2⟩
      · rintro ⟨-, ts, hts, hp⟩
        exact ⟨a :: ts, .cons ha hts, List.cons_prefix_cons.2 ⟨rfl, hp⟩⟩
    · rw [if_neg fun h => ha (hrange.1 h)]
      constructor
      · rintro ⟨tail, ht, hp⟩
        obtain ⟨t, ts, hat, -, rfl⟩ := List.forall₂_cons_left_iff.1 ht
        exact absurd ((List.cons_prefix_cons.1 hp).1 ▸ hat) ha
      · intro h
        simp at h

/-! ### Characters in front -/

/-- A character in front is the unit that is read. -/
theorem unit_of_isPrefix {c : Char} {b : UInt8} {bs : List UInt8}
    (h : String.utf8EncodeChar c <+: b :: bs) :
    ∃ n, unit b bs = (some c, n) ∧ String.utf8EncodeChar c = b :: bs.take n := by
  obtain ⟨d, tail, hc, hunit⟩ := exists_unit c
  obtain ⟨r, hr⟩ := h
  rw [hc, List.cons_append] at hr
  obtain ⟨rfl, rfl⟩ := List.cons.inj hr
  exact ⟨tail.length, hunit r, by rw [hc, List.take_left]⟩

/-- What the bytes of a character are, by the table. -/
theorem exists_tails (c : Char) : ∃ b rs tail, String.utf8EncodeChar c = b :: tail ∧
    tails? b = some rs ∧ List.Forall₂ InRange rs tail := by
  obtain ⟨b, tail, hc, hunit⟩ := exists_unit c
  have h := hunit []
  rw [List.append_nil, unit] at h
  cases hb : tails? b with
  | none => simp [hb] at h
  | some rs =>
    simp only [hb, Prod.mk.injEq] at h
    have hfit : fitting rs tail = tail :=
      (fitting_isPrefix rs tail).eq_of_length_le (Nat.le_of_eq h.2.symm)
    have hlen : (fitting rs tail).length = rs.length := by
      by_contra hne
      simp [hne] at h
    exact ⟨b, rs, tail, hc, hb, hfit ▸ forall₂_fitting hlen⟩

/-- **What begins a character**: a first byte, and behind it bytes that fit. -/
theorem begins_cons_iff {b : UInt8} {q bs : List UInt8} (hq : q <+: bs) :
    Begins (b :: q) ↔ ∃ rs, tails? b = some rs ∧ q <+: fitting rs bs := by
  constructor
  · rintro ⟨c, hc⟩
    obtain ⟨d, rs, tail, hct, hd, ht⟩ := exists_tails c
    rw [hct] at hc
    obtain ⟨rfl, hp⟩ := List.cons_prefix_cons.1 hc
    exact ⟨rs, hd, (isPrefix_fitting_iff (le_of_tails? hd) hq).1 ⟨tail, ht, hp⟩⟩
  · rintro ⟨rs, hb, hp⟩
    obtain ⟨tail, ht, hp⟩ := (isPrefix_fitting_iff (le_of_tails? hb) hq).2 hp
    obtain ⟨c, hc⟩ := exists_char hb ht
    exact ⟨c, hc ▸ List.cons_prefix_cons.2 ⟨rfl, hp⟩⟩

theorem unit_of_tails? {b : UInt8} {rs : List (UInt8 × UInt8)} (h : tails? b = some rs)
    (bs : List UInt8) : unit b bs = (if (fitting rs bs).length = rs.length
      then some (assemble b (fitting rs bs)) else none, (fitting rs bs).length) := by
  rw [unit, h]

/-- The bytes of a unit that is a character are those of the character. -/
theorem encode_of_unit {c : Char} {b : UInt8} {bs : List UInt8} {n : Nat}
    (h : unit b bs = (some c, n)) :
    n ≤ bs.length ∧ String.utf8EncodeChar c = b :: bs.take n := by
  cases hb : tails? b with
  | none => simp [unit, hb] at h
  | some rs =>
    have hfront := fitting_isPrefix rs bs
    rw [unit_of_tails? hb, Prod.mk.injEq] at h
    obtain ⟨hchar, rfl⟩ := h
    have hlen : (fitting rs bs).length = rs.length := by
      by_contra hne
      simp [hne] at hchar
    obtain ⟨d, hd⟩ := exists_char hb (forall₂_fitting hlen)
    -- the character whose bytes these are stands in front, so it is the one that is read
    obtain ⟨n, hunit, -⟩ := unit_of_isPrefix (hd ▸ List.cons_prefix_cons.2 ⟨rfl, hfront⟩)
    rw [unit_of_tails? hb, hchar, Prod.mk.injEq] at hunit
    obtain rfl := Option.some.inj hunit.1
    exact ⟨hfront.length_le, hd.trans (congrArg (b :: ·) (List.prefix_iff_eq_take.1 hfront))⟩

/-- A broken front is a broken unit of its length. -/
theorem unit_of_broken {b : UInt8} {p bs : List UInt8} (h : Broken b p bs) :
    unit b (p ++ bs) = (none, p.length) := by
  have hp : p <+: p ++ bs := List.prefix_append p bs
  cases hb : tails? b with
  | none =>
    have hnil : p = [] := by
      by_contra hne
      obtain ⟨rs, hrs, -⟩ := (begins_cons_iff hp).1 (h.begins hne)
      rw [hb] at hrs
      cases hrs
    simp [unit, hb, hnil]
  | some rs =>
    have hfront := fitting_isPrefix rs (p ++ bs)
    have hin : p <+: fitting rs (p ++ bs) := by
      by_cases hne : p = []
      · rw [hne]
        exact List.nil_prefix
      · obtain ⟨rs', hrs, hin⟩ := (begins_cons_iff hp).1 (h.begins hne)
        rw [hb, Option.some.injEq] at hrs
        exact hrs ▸ hin
    have hfit : fitting rs (p ++ bs) = p := by
      obtain ⟨q, hq⟩ := hin
      rw [← hq, List.prefix_append_right_inj] at hfront
      have hnil : q = [] := by
        by_contra hne
        apply h.longest q hne hfront
        rw [hq]
        exact (begins_cons_iff (fitting_isPrefix rs _)).2 ⟨rs, hb, List.prefix_refl _⟩
      rw [← hq, hnil, List.append_nil]
    have hlen : ¬ p.length = rs.length := by
      intro hlen
      obtain ⟨c, hc⟩ := exists_char hb (forall₂_fitting (hfit ▸ hlen))
      apply h.incomplete c
      rw [hc, hfit]
      exact List.cons_prefix_cons.2 ⟨rfl, hp⟩
    rw [unit_of_tails? hb, hfit, if_neg hlen]

/-- A broken unit is a broken front. -/
theorem broken_of_unit {b : UInt8} {bs : List UInt8} {n : Nat} (h : unit b bs = (none, n)) :
    n ≤ bs.length ∧ Broken b (bs.take n) (bs.drop n) := by
  have hwhole : bs.take n ++ bs.drop n = bs := List.take_append_drop n bs
  have hincomplete : ∀ c, ¬ String.utf8EncodeChar c <+: b :: (bs.take n ++ bs.drop n) := by
    intro c hc
    rw [hwhole] at hc
    obtain ⟨k, hunit, -⟩ := unit_of_isPrefix hc
    rw [h] at hunit
    cases hunit
  cases hb : tails? b with
  | none =>
    simp only [unit, hb, Prod.mk.injEq, true_and] at h
    subst h
    refine ⟨Nat.zero_le _, hincomplete, fun hne => absurd rfl hne, fun q _ hq hbegins => ?_⟩
    obtain ⟨rs, hrs, -⟩ := (begins_cons_iff hq).1 hbegins
    rw [hb] at hrs
    cases hrs
  | some rs =>
    have hfront := fitting_isPrefix rs bs
    rw [unit_of_tails? hb, Prod.mk.injEq] at h
    obtain rfl := h.2
    have htake : bs.take (fitting rs bs).length = fitting rs bs :=
      (List.prefix_iff_eq_take.1 hfront).symm
    refine ⟨hfront.length_le, hincomplete, fun _ => ?_, fun q hne hq hbegins => ?_⟩
    · rw [htake]
      exact (begins_cons_iff hfront).2 ⟨rs, hb, List.prefix_refl _⟩
    · have hlonger : bs.take (fitting rs bs).length ++ q <+: bs := by
        conv_rhs => rw [← hwhole]
        exact (List.prefix_append_right_inj _).2 hq
      obtain ⟨rs', hrs, hin⟩ := (begins_cons_iff hlonger).1 hbegins
      rw [hb, Option.some.injEq] at hrs
      subst hrs
      have hlen := hin.length_le
      rw [htake, List.length_append] at hlen
      exact hne (List.eq_nil_of_length_eq_zero (by omega))

/-! ### Reading bytes -/

theorem decodeLenient_cons (b : UInt8) (bs : List UInt8) : decodeLenient (b :: bs) =
    (unit b bs).1.getD '\uFFFD' :: decodeLenient (bs.drop (unit b bs).2) := by
  rw [decodeLenient, units_cons, List.map_cons, decodeLenient]

theorem decodeLenient_encode_append (s : Text) (bs : List UInt8) :
    decodeLenient (encode s ++ bs) = s ++ decodeLenient bs := by
  rw [decodeLenient, units_encode_append, List.map_append, List.map_map, decodeLenient]
  congr 1
  exact List.map_id s

theorem decodeLenient_encode (s : Text) : decodeLenient (encode s) = s := by
  have h := decodeLenient_encode_append s []
  rwa [List.append_nil, show decodeLenient [] = [] from rfl, List.append_nil] at h

/-- What is read leniently is such a reading. -/
theorem lossy_decodeLenient (bs : List UInt8) : Lossy bs (decodeLenient bs) := by
  induction hn : bs.length using Nat.strongRecOn generalizing bs with
  | ind n ih =>
    subst hn
    cases bs with
    | nil => exact .nil
    | cons b bs =>
      rw [decodeLenient_cons]
      rcases hunit : unit b bs with ⟨c?, k⟩
      have hrest : Lossy (bs.drop k) (decodeLenient (bs.drop k)) :=
        ih _ (by rw [List.length_drop, List.length_cons]; omega) _ rfl
      cases c? with
      | none =>
        have hbroken := (broken_of_unit hunit).2
        have hlossy := Lossy.broken hbroken hrest
        rwa [List.take_append_drop] at hlossy
      | some c =>
        have hlossy := Lossy.char c hrest
        rwa [(encode_of_unit hunit).2, List.cons_append, List.take_append_drop] at hlossy

/-- **Lenient reading** puts one replacement character for each broken front, and there is no
other reading that does. -/
theorem lossy_iff {bs : List UInt8} {s : Text} : Lossy bs s ↔ s = decodeLenient bs := by
  constructor
  · intro h
    induction h with
    | nil => rfl
    | @char c bs s _ ih =>
      have hchar := decodeLenient_encode_append [c] bs
      rw [encode_cons, List.append_assoc] at hchar
      rw [ih]
      exact hchar.symm
    | broken hb _ ih =>
      rw [decodeLenient_cons, unit_of_broken hb, List.drop_left, ← ih]
      rfl
  · rintro rfl
    exact lossy_decodeLenient bs

/-- Bytes in which no unit is broken are those of the text that they are read as. -/
theorem encode_of_units : ∀ {s : Text} {bs : List UInt8}, units bs = s.map some → encode s = bs
  | [], [], _ => rfl
  | _ :: _, [], h => by cases h
  | [], b :: bs, h => by
    rw [units_cons] at h
    cases h
  | c :: s, b :: bs, h => by
    rw [units_cons, List.map_cons, List.cons.injEq] at h
    have hunit : unit b bs = (some c, (unit b bs).2) := Prod.ext h.1 rfl
    rw [encode_cons, (encode_of_unit hunit).2, encode_of_units h.2, List.cons_append,
      List.take_append_drop]

/-- Units that make up a text are its characters, none of them broken. -/
theorem eq_map_some_of_mapM : ∀ {us : List (Option Char)} {s : Text},
    us.mapM id = some s → us = s.map some
  | [], s, h => by
    obtain rfl : [] = s := by simpa using h
    rfl
  | none :: us, s, h => by simp [List.mapM_cons] at h
  | some c :: us, s, h => by
    obtain ⟨t, ht, rfl⟩ : ∃ t, us.mapM id = some t ∧ c :: t = s := by
      simpa [List.mapM_cons, Option.bind_eq_some_iff] using h
    rw [eq_map_some_of_mapM ht, List.map_cons]

/-- **Strict reading** gives a text if and only if the bytes are the text's. -/
theorem decode?_eq_some_iff {bs : List UInt8} {s : Text} : decode? bs = some s ↔ encode s = bs := by
  constructor
  · intro h
    exact encode_of_units (eq_map_some_of_mapM h)
  · rintro rfl
    exact decode?_encode s

end Utf8
end FieldSelection
