/-
# What a JSON text spells

`Spells j t` says that the text is one of the spellings of a JSON value, by the rules of the
grammar: blanks may stand around every sign, a character of a string may be itself or an escape, by
a letter, by its code unit or by two of them, and a number is its literal. A whole text may have
blanks around its value (`IsText`). The text that is printed of a value is one of its spellings,
which is shown for strings and for the arrays and objects of what is printed well (`Printed`).

Key definitions: `Json.Spells`, `Json.IsText`, `Json.Printed`.
Key theorems: `Json.printed_string`, `Json.printed_array`, `Json.printed_object`.
-/
import Mathlib.Tactic.SplitIfs
import FieldSelection.Json.Reader

namespace FieldSelection
namespace Json

/-! ### Strings -/

/-- Blanks, as many as one likes. -/
def Blank (b : Text) : Prop := ∀ c ∈ b, c = ' ' ∨ c = '\n' ∨ c = '\r' ∨ c = '\t'

/-- The letters of escapes with the characters that they stand for. -/
def escapes : List (Char × Char) :=
  [('"', '"'), ('\\', '\\'), ('/', '/'), ('b', '\x08'), ('f', '\x0c'), ('n', '\n'), ('r', '\r'),
    ('t', '\t')]

/-- Four hexadecimal digits of a number. -/
def CodeUnit (n : Nat) (t : Text) : Prop := t.length = 4 ∧ Numeral.inBase? 16 t = some n

/-- The text stands for the character in a string. -/
inductive SpellsChar : Char → Text → Prop
  | plain {c : Char} (hc : ' ' ≤ c) (hquote : c ≠ '"') (hback : c ≠ '\\') : SpellsChar c [c]
  | letter {l c : Char} (h : (l, c) ∈ escapes) : SpellsChar c ['\\', l]
  | unit {n : Nat} {t : Text} (h : CodeUnit n t) (hn : n < 0xD800 ∨ 0xE000 ≤ n) :
      SpellsChar (Char.ofNat n) ('\\' :: 'u' :: t)
  | units {m n : Nat} {t u : Text} (hm : CodeUnit m t) (hn : CodeUnit n u)
      (hhigh : 0xD800 ≤ m ∧ m < 0xDC00) (hlow : 0xDC00 ≤ n ∧ n < 0xE000) :
      SpellsChar (Char.ofNat (0x10000 + (m - 0xD800) * 0x400 + (n - 0xDC00)))
        ('\\' :: 'u' :: (t ++ '\\' :: 'u' :: u))

/-- The text stands for the other one between the quotes of a string. -/
inductive SpellsText : Text → Text → Prop
  | nil : SpellsText [] []
  | cons {c : Char} {s t u : Text} (hc : SpellsChar c t) (hs : SpellsText s u) :
      SpellsText (c :: s) (t ++ u)

/-! ### Numbers -/

/-- One or more digits. -/
def Digits (s : Text) : Prop := s ≠ [] ∧ ∀ c ∈ s, c.isDigit = true

/-- The whole part of a number: a zero, or digits that start with none. -/
def Whole (s : Text) : Prop := s = ['0'] ∨ Digits s ∧ s.head? ≠ some '0'

/-- A point with digits behind it, or nothing. -/
def Fraction (s : Text) : Prop := s = [] ∨ ∃ ds, Digits ds ∧ s = '.' :: ds

/-- An exponent with a sign or without, or nothing. -/
def Exponent (s : Text) : Prop := s = [] ∨ ∃ e sign ds, (e = 'e' ∨ e = 'E') ∧
  (sign = [] ∨ sign = ['+'] ∨ sign = ['-']) ∧ Digits ds ∧ s = e :: sign ++ ds

/-- The literal of a number. -/
inductive Literal : Text → Prop
  | mk {minus w f e : Text} (hminus : minus = [] ∨ minus = ['-']) (hw : Whole w) (hf : Fraction f)
      (he : Exponent e) : Literal (minus ++ (w ++ (f ++ e)))

/-! ### Values -/

mutual

/-- The text spells the value. -/
inductive Spells : Json → Text → Prop
  | null : Spells null ['n', 'u', 'l', 'l']
  | bool (b : Bool) :
      Spells (bool b) (if b then ['t', 'r', 'u', 'e'] else ['f', 'a', 'l', 's', 'e'])
  | number {l : Text} (h : Literal l) : Spells (number l) l
  | string {s t : Text} (h : SpellsText s t) : Spells (string s) ('"' :: (t ++ ['"']))
  | emptyArray {b : Text} (hb : Blank b) : Spells (array []) ('[' :: (b ++ [']']))
  | array {js : List Json} {t : Text} (h : SpellsItems js t) :
      Spells (array js) ('[' :: (t ++ [']']))
  | emptyObject {b : Text} (hb : Blank b) : Spells (object []) ('{' :: (b ++ ['}']))
  | object {ms : List (Text × Json)} {t : Text} (h : SpellsMembers ms t) :
      Spells (object ms) ('{' :: (t ++ ['}']))

/-- The text spells the items of an array, with commas between them. -/
inductive SpellsItems : List Json → Text → Prop
  | last {j : Json} {t a b : Text} (h : Spells j t) (ha : Blank a) (hb : Blank b) :
      SpellsItems [j] (a ++ (t ++ b))
  | cons {j : Json} {js : List Json} {t u a b : Text} (h : Spells j t) (hs : SpellsItems js u)
      (ha : Blank a) (hb : Blank b) : SpellsItems (j :: js) (a ++ (t ++ (b ++ ',' :: u)))

/-- The text spells the members of an object, with commas between them. -/
inductive SpellsMembers : List (Text × Json) → Text → Prop
  | last {k : Text} {j : Json} {kt t a b c d : Text} (hk : SpellsText k kt) (h : Spells j t)
      (ha : Blank a) (hb : Blank b) (hc : Blank c) (hd : Blank d) :
      SpellsMembers [(k, j)] (a ++ '"' :: (kt ++ '"' :: (b ++ ':' :: (c ++ (t ++ d)))))
  | cons {k : Text} {j : Json} {ms : List (Text × Json)} {kt t u a b c d : Text}
      (hk : SpellsText k kt) (h : Spells j t) (hs : SpellsMembers ms u)
      (ha : Blank a) (hb : Blank b) (hc : Blank c) (hd : Blank d) :
      SpellsMembers ((k, j) :: ms)
        (a ++ '"' :: (kt ++ '"' :: (b ++ ':' :: (c ++ (t ++ (d ++ ',' :: u))))))

end

/-- The text spells the value, with blanks around it. -/
def IsText (j : Json) (s : Text) : Prop :=
  ∃ a t b, Blank a ∧ Spells j t ∧ Blank b ∧ s = a ++ (t ++ b)

/-! ### The text of a value -/

theorem blank_nil : Blank [] := fun _ hc => absurd hc List.not_mem_nil

theorem blank_space : Blank [' '] := fun _ hc => .inl (List.mem_singleton.1 hc)

theorem blank_newline (depth : Nat) : Blank (newline depth) := by
  intro c hc
  rcases List.mem_cons.1 hc with rfl | hc
  · exact .inr (.inl rfl)
  · exact .inl (List.eq_of_mem_replicate hc)

theorem inBase?_hexDigits : ∀ n < 32,
    Numeral.inBase? 16 ['0', '0', hexDigit (n / 16), hexDigit n] = some n := by decide

theorem spellsChar_quotedChar (c : Char) : SpellsChar c (quotedChar c) := by
  unfold quotedChar
  by_cases h : c = '"' ∨ c = '\\'
  · rw [if_pos h]
    rcases h with rfl | rfl <;> exact .letter (by decide)
  rw [if_neg h]
  have hletter : ∀ l d, (l, d) ∈ escapes → c = d → SpellsChar c ['\\', l] := by
    rintro l d hl rfl
    exact .letter hl
  split_ifs with hb hf hn hr ht hcontrol
  · exact hletter 'b' _ (by decide) hb
  · exact hletter 'f' _ (by decide) hf
  · exact hletter 'n' _ (by decide) hn
  · exact hletter 'r' _ (by decide) hr
  · exact hletter 't' _ (by decide) ht
  · have hlt : c.toNat < 32 := hcontrol
    have hunit := SpellsChar.unit ⟨rfl, inBase?_hexDigits c.toNat hlt⟩ (.inl (by omega))
    rwa [Char.ofNat_toNat] at hunit
  · rw [not_or] at h
    exact .plain (Char.not_lt.1 hcontrol) h.1 h.2

theorem spellsText_flatMap : ∀ s : Text, SpellsText s (s.flatMap quotedChar)
  | [] => .nil
  | c :: s => .cons (spellsChar_quotedChar c) (spellsText_flatMap s)

/-- The text of the value spells it, at whatever depth it stands. -/
def Printed (j : Json) : Prop := ∀ depth, Spells j (prettyAt depth j)

theorem printed_string (s : Text) : Printed (.string s) := fun _ =>
  .string (spellsText_flatMap s)

theorem spellsItems_prettyItems (depth : Nat) {b : Text} (hb : Blank b) : ∀ {j : Json}
    {js : List Json}, (∀ i ∈ j :: js, Printed i) →
    SpellsItems (j :: js) (newline depth ++ (prettyAt depth j ++ (prettyItems depth js ++ b)))
  | j, [], h => by
    have hlast := SpellsItems.last (h j List.mem_cons_self depth) (blank_newline depth) hb
    rwa [prettyItems, List.nil_append]
  | j, i :: is, h => by
    have hrest := spellsItems_prettyItems depth hb fun k hk => h k (List.mem_cons_of_mem _ hk)
    have hcons := SpellsItems.cons (h j List.mem_cons_self depth) hrest (blank_newline depth)
      blank_nil
    simpa [prettyItems] using hcons

theorem spellsMembers_prettyMembers (depth : Nat) {b : Text} (hb : Blank b) : ∀ {k : Text}
    {j : Json} {ms : List (Text × Json)}, (∀ m ∈ (k, j) :: ms, Printed m.2) →
    SpellsMembers ((k, j) :: ms) (newline depth ++
      (quoted k ++ ':' :: ' ' :: (prettyAt depth j ++ (prettyMembers depth ms ++ b))))
  | k, j, [], h => by
    have hlast := SpellsMembers.last (spellsText_flatMap k) (h _ List.mem_cons_self depth)
      (blank_newline depth) blank_nil blank_space hb
    simpa [prettyMembers, quoted] using hlast
  | k, j, (l, i) :: ms, h => by
    have hrest := spellsMembers_prettyMembers depth hb fun m hm => h m (List.mem_cons_of_mem _ hm)
    have hcons := SpellsMembers.cons (spellsText_flatMap k) (h _ List.mem_cons_self depth) hrest
      (blank_newline depth) blank_nil blank_space blank_nil
    simpa [prettyMembers, quoted] using hcons

theorem printed_array {js : List Json} (h : ∀ j ∈ js, Printed j) : Printed (.array js) := by
  intro depth
  cases js with
  | nil => exact .emptyArray blank_nil
  | cons j js =>
    have hitems := Spells.array (spellsItems_prettyItems (depth + 1) (blank_newline depth) h)
    simpa [prettyAt] using hitems

theorem printed_object {ms : List (Text × Json)} (h : ∀ m ∈ ms, Printed m.2) :
    Printed (.object ms) := by
  intro depth
  cases ms with
  | nil => exact .emptyObject blank_nil
  | cons m ms =>
    obtain ⟨k, j⟩ := m
    have hmembers := Spells.object (spellsMembers_prettyMembers (depth + 1) (blank_newline depth) h)
    simpa [prettyAt] using hmembers

end Json
end FieldSelection
