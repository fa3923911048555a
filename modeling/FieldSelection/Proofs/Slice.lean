/-
# Slices of a text

A span counts bytes, and a text has characters of one to four of them. `Text.slice?` reads the
piece of a text that stands at a span, and has nothing to read where the span runs backwards,
past the end, or from or to the middle of a character. So to say that a span can be read is to
say that it lies in the text with both ends between characters, and `slice?_eq_some_iff` says
what is read: the text is cut into three, and the span is the bytes of the one in the middle.

Tokens take the bytes from one `Token.offset` to the next (`located_getElem?`). From one token
to another that comes later they can always be read, and what is read is what they write
(`slice?_offset`).

Key definitions: `Text.cutAt?`, `Text.slice?`, `Token.offset`.
Key theorems: `Text.slice?_eq_some_iff`, `Token.located_getElem?`, `Token.slice?_offset`.
-/
import FieldSelection.Token

namespace FieldSelection
namespace Text

/-- The text cut at a byte; nothing if that is past the end or inside a character. -/
def cutAt? : (n : Nat) → Text → Option (Text × Text)
  | 0, s => some ([], s)
  | _ + 1, [] => none
  | n + 1, c :: s =>
    if c.utf8Size ≤ n + 1 then (cutAt? (n + 1 - c.utf8Size) s).map fun p => (c :: p.1, p.2)
    else none

/-- The piece of the text at a span; nothing if the span runs backwards, past the end, or from
or to the middle of a character. -/
def slice? (s : Text) (r : Span) : Option Text :=
  if r.start ≤ r.stop then
    (cutAt? r.start s).bind fun p => (cutAt? (r.stop - r.start) p.2).map Prod.fst
  else none

theorem cutAt?_append (x y : Text) : cutAt? x.byteLength (x ++ y) = some (x, y) := by
  induction x with
  | nil => rw [byteLength_nil, cutAt?, List.nil_append]
  | cons c x ih =>
    have hc := c.utf8Size_pos
    obtain ⟨n, hn⟩ : ∃ n, c.utf8Size + byteLength x = n + 1 :=
      ⟨c.utf8Size + byteLength x - 1, by omega⟩
    have hrest : n + 1 - c.utf8Size = byteLength x := by omega
    rw [List.cons_append, byteLength_cons, hn, cutAt?, if_pos (by omega), hrest, ih]
    rfl

theorem eq_of_cutAt? : ∀ {n : Nat} {s x y : Text}, cutAt? n s = some (x, y) →
    s = x ++ y ∧ n = x.byteLength
  | 0, s, x, y, h => by
    rw [cutAt?, Option.some.injEq, Prod.mk.injEq] at h
    obtain ⟨rfl, rfl⟩ := h
    exact ⟨rfl, rfl⟩
  | n + 1, [], x, y, h => by cases h
  | n + 1, c :: s, x, y, h => by
    rw [cutAt?] at h
    by_cases hc : c.utf8Size ≤ n + 1
    · rw [if_pos hc] at h
      obtain ⟨⟨u, v⟩, huv, h⟩ := Option.map_eq_some_iff.1 h
      obtain ⟨rfl, rfl⟩ := Prod.mk.inj h
      obtain ⟨rfl, hlen⟩ := eq_of_cutAt? huv
      refine ⟨rfl, ?_⟩
      rw [byteLength_cons, ← hlen]
      omega
    · rw [if_neg hc] at h
      cases h

/-- A text is cut at a byte in one way only. -/
theorem append_inj_of_byteLength {x y x' y' : Text} (h : x ++ y = x' ++ y')
    (hlen : x.byteLength = x'.byteLength) : x = x' ∧ y = y' := by
  have hcut := cutAt?_append x y
  rw [h, hlen, cutAt?_append, Option.some.injEq, Prod.mk.injEq] at hcut
  exact ⟨hcut.1.symm, hcut.2.symm⟩

/-- **What is read at a span**: the text is cut into three, and the one in the middle takes the
bytes of the span. -/
theorem slice?_eq_some_iff {s p : Text} {r : Span} : s.slice? r = some p ↔
    ∃ x y, s = x ++ (p ++ y) ∧ r = ⟨x.byteLength, x.byteLength + p.byteLength⟩ := by
  constructor
  · intro h
    unfold slice? at h
    by_cases hle : r.start ≤ r.stop
    · rw [if_pos hle] at h
      obtain ⟨⟨x, z⟩, hx, h⟩ := Option.bind_eq_some_iff.1 h
      obtain ⟨⟨q, y⟩, hq, rfl⟩ := Option.map_eq_some_iff.1 h
      obtain ⟨rfl, hstart⟩ := eq_of_cutAt? hx
      obtain ⟨rfl, hstop⟩ := eq_of_cutAt? hq
      have hstop' : r.start + q.byteLength = r.stop := by omega
      exact ⟨x, y, rfl, by rw [← hstart, hstop']⟩
    · rw [if_neg hle] at h
      cases h
  · rintro ⟨x, y, rfl, rfl⟩
    have hcut := cutAt?_append x (p ++ y)
    have hcut' := cutAt?_append p y
    simp only [slice?, Nat.le_add_right, if_true, hcut, Option.bind_some, Nat.add_sub_cancel_left,
      hcut', Option.map_some]

theorem slice?_append (x p y : Text) :
    (x ++ (p ++ y)).slice? ⟨x.byteLength, x.byteLength + p.byteLength⟩ = some p :=
  slice?_eq_some_iff.2 ⟨x, y, rfl, rfl⟩

theorem byteLength_pos {s : Text} (h : s ≠ []) : 0 < s.byteLength := by
  obtain ⟨c, s, rfl⟩ := List.exists_cons_of_ne_nil h
  have := c.utf8Size_pos
  rw [byteLength_cons]
  omega

/-- A span takes bytes if anything is read there. -/
theorem lt_of_slice? {s p : Text} {r : Span} (h : s.slice? r = some p) (hp : p ≠ []) :
    r.start < r.stop := by
  obtain ⟨x, y, -, rfl⟩ := slice?_eq_some_iff.1 h
  have hpos := byteLength_pos hp
  show x.byteLength < x.byteLength + p.byteLength
  omega

end Text

namespace Token

variable (m : Markers)

/-- The byte at which the token with index `i` starts, or the end of the last token. -/
def offset (ts : List Token) (i : Nat) : Nat := (writeAll m (ts.take i)).byteLength

theorem offset_append (x y : List Token) :
    offset m (x ++ y) x.length = (writeAll m x).byteLength := by
  rw [offset, List.take_left]

theorem take_eq_append (ts : List Token) {i j : Nat} (h : i ≤ j) :
    ts.take j = ts.take i ++ (ts.drop i).take (j - i) := by
  rw [← List.take_add, Nat.add_sub_cancel' h]

theorem offset_mono (ts : List Token) {i j : Nat} (h : i ≤ j) :
    offset m ts i ≤ offset m ts j := by
  unfold offset
  rw [take_eq_append ts h, writeAll_append, Text.byteLength_append]
  omega

/-- Each token stands between its offset and the next. -/
theorem located_getElem? (ts : List Token) (i : Nat) :
    (located m 0 ts)[i]? = ts[i]?.map fun t => (t, ⟨offset m ts i, offset m ts (i + 1)⟩) := by
  suffices h : ∀ (ts : List Token) (start i : Nat), (located m start ts)[i]? = ts[i]?.map
      fun t => (t, ⟨start + offset m ts i, start + offset m ts (i + 1)⟩) by
    simpa using h ts 0 i
  intro ts
  induction ts with
  | nil => intro start i; rfl
  | cons t ts ih =>
    intro start i
    cases i with
    | zero => simp [located, offset]
    | succ i =>
      rw [located, List.getElem?_cons_succ, List.getElem?_cons_succ, ih]
      simp [offset, Nat.add_assoc]

variable {m}

/-- **Tokens that stand side by side can be read**, and what is read is what they write. -/
theorem slice?_offset (ts : List Token) {i j : Nat} (h : i ≤ j) :
    (writeAll m ts).slice? ⟨offset m ts i, offset m ts j⟩ =
      some (writeAll m ((ts.drop i).take (j - i))) := by
  refine Text.slice?_eq_some_iff.2 ⟨writeAll m (ts.take i), writeAll m (ts.drop j), ?_, ?_⟩
  · rw [← writeAll_append, ← writeAll_append, ← List.append_assoc, ← take_eq_append ts h,
      List.take_append_drop]
  · unfold offset
    rw [take_eq_append ts h, writeAll_append, Text.byteLength_append]

end Token
end FieldSelection
