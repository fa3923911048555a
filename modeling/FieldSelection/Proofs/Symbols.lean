/-
# A source as symbols

The tokens of a source hold its text in runs, which break and join when
groups are spread. `symbols m s` are the tokens with each run cut into single
characters, so that texts put side by side are symbols put side by side.

A list of symbols is `Read` if no marker starts at a character of it, whatever
is looked at of the text behind. Such a list is the list of symbols of what it
writes (`symbols_writeAll`), and the symbols of a source are such a list
(`read_symbols`). Of tokens the same is said by `Legible`, one run of text after the
other (`tokenize_writeAll`).

Texts are inert if at no character of them a marker starts, whatever is written behind.
Symbols with such texts are read, however they are put together (`read_of_inert`).
Texts are inert if they have no character of a marker, and already if none of them ends
as a marker begins (`inert_of_blunt`).

A delimiter may start in a bracket, and `Divided` tokens are those where none does: they
may be cut at their delimiters before or after they are written (`splitOn_of_divided`).
Symbols between two brackets are divided (`divided_of_read`), and all symbols are where a
delimiter is one character (`divided_of_single`).

Key definitions: `symbols`, `Token.Read`, `Token.Legible`, `Token.Inert`, `Token.Clean`,
`Token.Blunt`, `Token.Divided`.
Key theorems: `symbols_writeAll`, `read_symbols`, `Token.tokenize_writeAll`,
`Token.inert_of_blunt`, `Token.splitOn_of_divided`.
-/
import Mathlib.Data.List.Infix
import FieldSelection.Group

namespace FieldSelection

variable {m : Markers}

/-! ### Where a marker starts -/

namespace Markers

theorem markAt?_eq_some {s : Text} {k : Mark} (h : m.markAt? s = some k) : m.text k <+: s := by
  simpa using List.find?_some h

theorem markAt?_eq_none_iff {s : Text} : m.markAt? s = none ↔ ∀ k, ¬ m.text k <+: s := by
  simp [markAt?, List.find?_eq_none]

/-- Of two markers that start the same text each is the other. -/
theorem eq_of_isPrefix {s : Text} {k l : Mark} (hk : m.text k <+: s) (hl : m.text l <+: s) :
    k = l := by
  by_contra hne
  rcases List.prefix_or_prefix_of_prefix hk hl with h | h
  · exact m.apart k l hne h.isInfix
  · exact m.apart l k (Ne.symm hne) h.isInfix

theorem markAt?_eq_some_iff {s : Text} {k : Mark} : m.markAt? s = some k ↔ m.text k <+: s := by
  refine ⟨markAt?_eq_some, fun h => ?_⟩
  cases hl : m.markAt? s with
  | none => exact absurd h (markAt?_eq_none_iff.1 hl k)
  | some l => rw [eq_of_isPrefix (markAt?_eq_some hl) h]

theorem markAt?_marker (k : Mark) (s : Text) : m.markAt? (m.text k ++ s) = some k :=
  markAt?_eq_some_iff.2 (List.prefix_append _ _)

/-- A marker that starts a text starts a longer one. -/
theorem markAt?_eq_none_of_append {s t : Text} (h : m.markAt? (s ++ t) = none) :
    m.markAt? s = none :=
  markAt?_eq_none_iff.2 fun k hk =>
    markAt?_eq_none_iff.1 h k (hk.trans (List.prefix_append s t))

theorem ne_nil_of_sound {text : Mark → Text} (h : MarkerError.fault? text = none) :
    ∀ k, text k ≠ [] := (MarkerError.fault?_eq_none_iff.1 h).1

theorem apart_of_sound {text : Mark → Text} (h : MarkerError.fault? text = none) :
    ∀ k l, k ≠ l → ¬ text k <:+: text l := (MarkerError.fault?_eq_none_iff.1 h).2

/-- Markers in whose texts no fault is found. -/
def ofSound {text : Mark → Text} (h : MarkerError.fault? text = none) : Markers :=
  ⟨text, ne_nil_of_sound h, apart_of_sound h⟩

theorem exists_cons_text (m : Markers) (k : Mark) : ∃ c s, m.text k = c :: s :=
  List.exists_cons_of_ne_nil (m.ne_nil k)

end Markers

/-! ### The tokens of a source, one at a time -/

open Markers

theorem tokenize_marker (k : Mark) (s : Text) :
    tokenize m (m.text k ++ s) = .mark k :: tokenize m s := by
  have h := markAt?_marker (m := m) k s
  obtain ⟨c, t, hct⟩ := exists_cons_text m k
  rw [hct, List.cons_append] at h ⊢
  rw [tokenize, Token.tokenizeFrom, h]
  simp only [hct, List.length_cons, Nat.add_sub_cancel]
  rw [Token.tokenizeFrom_eq_drop, List.drop_left]
  rfl

theorem tokenize_char {c : Char} {s : Text} (h : m.markAt? (c :: s) = none) :
    tokenize m (c :: s) = Token.consChar c (tokenize m s) := by
  rw [tokenize, Token.tokenizeFrom, h]
  rfl

/-- A source is empty, starts with a marker, or starts with a character at which
no marker starts. -/
theorem source_induction {motive : Text → Prop} (nil : motive [])
    (marker : ∀ k s, motive s → motive (m.text k ++ s))
    (char : ∀ c s, m.markAt? (c :: s) = none → motive s → motive (c :: s)) (s : Text) :
    motive s := by
  induction hn : s.length using Nat.strongRecOn generalizing s with
  | ind n ih =>
    subst hn
    cases s with
    | nil => exact nil
    | cons c s =>
      cases h : m.markAt? (c :: s) with
      | none => exact char c s h (ih _ (by simp) s rfl)
      | some k =>
        obtain ⟨rest, hrest⟩ := markAt?_eq_some h
        obtain ⟨d, t, hdt⟩ := exists_cons_text m k
        have hlen : rest.length < (m.text k ++ rest).length := by
          rw [hdt, List.length_append, List.length_cons]
          omega
        rw [← hrest] at ih ⊢
        exact marker k rest (ih _ hlen rest rfl)

/-! ### Symbols -/

namespace Token

/-- A token with its run of text cut into single characters. -/
def fine : Token → List Token
  | mark k => [mark k]
  | text s => s.map fun c => text [c]

/-- Symbols at whose characters no marker starts. -/
inductive Read (m : Markers) : List Token → Prop
  | nil : Read m []
  | mark (k : Mark) {ts : List Token} (h : Read m ts) : Read m (mark k :: ts)
  | char {c : Char} {ts : List Token} (hc : m.markAt? (c :: writeAll m ts) = none)
      (h : Read m ts) : Read m (text [c] :: ts)

theorem Read.of_append : ∀ {ts us : List Token}, Read m (ts ++ us) → Read m us
  | [], _, h => h
  | _ :: ts, _, h => by
    cases h with
    | mark k h => exact @Read.of_append ts _ h
    | char _ h => exact @Read.of_append ts _ h

theorem flatMap_fine_consChar (c : Char) (ts : List Token) :
    (consChar c ts).flatMap fine = text [c] :: ts.flatMap fine := by
  cases ts with
  | nil => rfl
  | cons t ts => cases t <;> rfl

@[simp] theorem writeAll_fine (t : Token) : writeAll m t.fine = t.write m := by
  cases t with
  | mark k => simp [fine, write]
  | text s =>
    induction s with
    | nil => rfl
    | cons c s ih => simpa [fine, write] using ih

@[simp] theorem writeAll_flatMap_fine (ts : List Token) :
    writeAll m (ts.flatMap fine) = writeAll m ts := by
  induction ts with
  | nil => rfl
  | cons t ts ih => simp [ih]

theorem mark_mem_flatMap_fine {k : Mark} {ts : List Token} :
    mark k ∈ ts.flatMap fine ↔ mark k ∈ ts := by
  simp only [List.mem_flatMap]
  constructor
  · rintro ⟨t, ht, hk⟩
    cases t with
    | mark l => rw [fine, List.mem_singleton] at hk; rwa [hk]
    | text s => simp [fine] at hk
  · exact fun h => ⟨_, h, by simp [fine]⟩

theorem count_flatMap_fine (k : Mark) (ts : List Token) :
    (ts.flatMap fine).count (mark k) = ts.count (mark k) := by
  induction ts with
  | nil => rfl
  | cons t ts ih =>
    rw [List.flatMap_cons, List.count_append, ih, List.count_cons]
    cases t with
    | mark l => simp [fine, List.count_cons, Nat.add_comm]
    | text s =>
      have : List.count (mark k) ((text s).fine) = 0 := by
        simp [fine, List.count_eq_zero]
      simp [this]

end Token

open Token

/-- The symbols of a source: its markers, and its other characters one by one. -/
def symbols (m : Markers) (s : Text) : List Token := (tokenize m s).flatMap fine

theorem symbols_marker (k : Mark) (s : Text) :
    symbols m (m.text k ++ s) = .mark k :: symbols m s := by
  simp [symbols, tokenize_marker, fine]

theorem symbols_char {c : Char} {s : Text} (h : m.markAt? (c :: s) = none) :
    symbols m (c :: s) = .text [c] :: symbols m s := by
  rw [symbols, tokenize_char h, flatMap_fine_consChar, symbols]

@[simp] theorem writeAll_symbols (s : Text) : writeAll m (symbols m s) = s := by
  rw [symbols, writeAll_flatMap_fine, writeAll_tokenize]

theorem symbols_writeAll {ts : List Token} (h : Read m ts) : symbols m (writeAll m ts) = ts := by
  induction h with
  | nil => rfl
  | mark k _ ih => rw [writeAll_cons, write, symbols_marker, ih]
  | char hc _ ih =>
    rw [writeAll_cons, write, List.singleton_append, symbols_char hc, ih]

theorem read_symbols (s : Text) : Read m (symbols m s) := by
  induction s using source_induction (m := m) with
  | nil => exact .nil
  | marker k s ih => rw [symbols_marker]; exact .mark k ih
  | char c s hc ih =>
    rw [symbols_char hc]
    exact .char (by rwa [writeAll_symbols]) ih

/-- **What reads back.** Symbols are those of the text they write if and only if
no marker starts at a character of them. -/
theorem symbols_writeAll_iff {ts : List Token} : symbols m (writeAll m ts) = ts ↔ Read m ts :=
  ⟨fun h => h ▸ read_symbols _, symbols_writeAll⟩

namespace Token

/-- The tokens of a source hold no empty run of text and no two runs side by
side. -/
def Tight : List Token → Prop
  | [] => True
  | mark _ :: ts => Tight ts
  | text s :: ts => s ≠ [] ∧ (∀ u us, ts ≠ text u :: us) ∧ Tight ts

theorem tight_of_append : ∀ {x ts : List Token}, Tight (x ++ ts) → Tight ts
  | [], _, h => h
  | mark _ :: x, _, h => tight_of_append (x := x) h
  | text _ :: x, _, h => tight_of_append (x := x) h.2.2

theorem tight_consChar (c : Char) : ∀ {ts : List Token}, Tight ts → Tight (consChar c ts)
  | [], _ => ⟨by simp, by simp, trivial⟩
  | mark _ :: _, h => ⟨by simp, by simp, h⟩
  | text _ :: _, h => ⟨by simp, h.2⟩

theorem tight_tokenize (s : Text) : Tight (tokenize m s) := by
  induction s using source_induction (m := m) with
  | nil => trivial
  | marker k s ih => rw [tokenize_marker]; exact ih
  | char c s hc ih => rw [tokenize_char hc]; exact tight_consChar c ih

/-! ### Texts at which no marker starts -/

/-- At no character of the text a marker starts where `v` is written behind it. -/
def Quiet (m : Markers) (s v : Text) : Prop :=
  ∀ c u, c :: u <:+ s → m.markAt? (c :: (u ++ v)) = none

theorem Quiet.tail {c : Char} {s v : Text} (h : Quiet m (c :: s) v) : Quiet m s v :=
  fun d u hu => h d u (hu.trans (List.suffix_cons c s))

theorem Quiet.append {s t v : Text} (hs : Quiet m s (t ++ v)) (ht : Quiet m t v) :
    Quiet m (s ++ t) v := by
  induction s with
  | nil => exact ht
  | cons c s ih =>
    intro d u hu
    rw [List.cons_append, List.suffix_cons_iff] at hu
    rcases hu with h | h
    · obtain ⟨rfl, rfl⟩ := List.cons.inj h
      rw [List.append_assoc]
      exact hs d s (List.suffix_refl _)
    · exact ih hs.tail d u h

/-- No marker starts in a run of text, each with the tokens behind it. -/
def Legible (m : Markers) : List Token → Prop
  | [] => True
  | mark _ :: ts => Legible m ts
  | text s :: ts => Quiet m s (writeAll m ts) ∧ Legible m ts

theorem legible_mark (k : Mark) {ts : List Token} (h : Legible m ts) : Legible m (mark k :: ts) := h

theorem read_of_legible : ∀ {ts : List Token}, Legible m ts → Read m (ts.flatMap fine)
  | [], _ => .nil
  | mark k :: ts, h => .mark k (read_of_legible h)
  | text s :: ts, ⟨hs, h⟩ => by
    have ih := read_of_legible h
    rw [List.flatMap_cons]
    induction s with
    | nil => exact ih
    | cons c s ihs =>
      refine .char ?_ (ihs hs.tail)
      have hwrite : writeAll m ((text s).fine ++ ts.flatMap fine) = s ++ writeAll m ts := by
        rw [writeAll_append, writeAll_fine, writeAll_flatMap_fine, write]
      exact hwrite ▸ hs c s (List.suffix_refl _)

theorem consChar_of_ne {c : Char} {ts : List Token} (h : ∀ u us, ts ≠ text u :: us) :
    consChar c ts = text [c] :: ts := by
  cases ts with
  | nil => rfl
  | cons t ts =>
    cases t with
    | mark k => rfl
    | text u => exact absurd rfl (h u ts)

/-- **Tokens are read back** if no marker starts in their texts, no text is empty and
no two stand side by side. -/
theorem tokenize_writeAll : ∀ {ts : List Token}, Tight ts → Legible m ts →
    tokenize m (writeAll m ts) = ts
  | [], _, _ => rfl
  | mark k :: ts, ht, h => by
    rw [writeAll_cons, write, tokenize_marker, @tokenize_writeAll ts ht h]
  | text s :: ts, ⟨hne, hnext, ht⟩, ⟨hs, h⟩ => by
    have ih := tokenize_writeAll ht h
    rw [writeAll_cons, write]
    induction s with
    | nil => exact absurd rfl hne
    | cons c s ihs =>
      rw [List.cons_append, tokenize_char (hs c s (List.suffix_refl _))]
      cases s with
      | nil =>
        rw [List.nil_append, ih, consChar_of_ne hnext]
      | cons d s => rw [ihs (List.cons_ne_nil d s) hs.tail]; rfl

/-- At no character of the text a marker starts, whatever is written behind it. -/
def Inert (m : Markers) (s : Text) : Prop := ∀ v, Quiet m s v

theorem legible_of_inert : ∀ {ts : List Token}, (∀ s, text s ∈ ts → Inert m s) → Legible m ts
  | [], _ => trivial
  | mark _ :: ts, h => @legible_of_inert ts fun s hs => h s (List.mem_cons_of_mem _ hs)
  | text s :: _, h => ⟨h s List.mem_cons_self _,
      legible_of_inert fun u hu => h u (List.mem_cons_of_mem _ hu)⟩

/-- Inert texts read back, whatever tokens they stand among. -/
theorem read_of_inert {ts : List Token} (h : ∀ s, text s ∈ ts → Inert m s) :
    Read m (ts.flatMap fine) := read_of_legible (legible_of_inert h)

/-- No run of text has a character that occurs in a marker. -/
def Clean (m : Markers) (ts : List Token) : Prop :=
  ∀ s, text s ∈ ts → ∀ c ∈ s, ∀ k, c ∉ m.text k

/-- No run of text ends as a marker begins. -/
def Blunt (m : Markers) (ts : List Token) : Prop :=
  ∀ s, text s ∈ ts → ∀ p ≠ [], p <:+ s → ∀ k, ¬ p <+: m.text k

instance (ts : List Token) : Decidable (Clean m ts) :=
  decidable_of_iff (ts.all fun
    | text s => s.all fun c => Mark.all.all fun k => !(m.text k).contains c
    | mark _ => true) (by
    simp only [Clean, List.all_eq_true]
    constructor
    · intro h s hs
      simpa using h _ hs
    · intro h t ht
      cases t with
      | mark k => rfl
      | text s => simpa using h s ht)

instance (ts : List Token) : Decidable (Blunt m ts) :=
  decidable_of_iff (ts.all fun
    | text s => s.tails.all fun p => p.isEmpty || Mark.all.all fun k => decide (¬ p <+: m.text k)
    | mark _ => true) (by
    simp only [Blunt, List.all_eq_true]
    constructor
    · intro h s hs p hp hps
      have := h _ hs
      simp only [List.all_eq_true, List.mem_tails] at this
      simpa [hp] using this p hps
    · intro h t ht
      cases t with
      | mark k => rfl
      | text s =>
        simp only [List.all_eq_true, List.mem_tails]
        intro p hps
        by_cases hp : p = []
        · simp [hp]
        · simpa [hp] using h s ht p hp hps)

theorem clean_flatMap_fine_iff {ts : List Token} : Clean m (ts.flatMap fine) ↔ Clean m ts := by
  constructor
  · intro h u hu c hc k
    refine h [c] (List.mem_flatMap.2 ⟨_, hu, ?_⟩) c (by simp) k
    exact List.mem_map.2 ⟨c, hc, rfl⟩
  · intro h s hs c hc k
    obtain ⟨t, ht, hst⟩ := List.mem_flatMap.1 hs
    cases t with
    | mark l => simp [fine] at hst
    | text u =>
      obtain ⟨d, hd, rfl⟩ : ∃ d ∈ u, [d] = s := by simpa [fine] using hst
      exact h u ht c (by simpa [List.mem_singleton.1 hc] using hd) k

theorem inert_of_clean {ts : List Token} (h : Clean m ts) {s : Text} (hs : text s ∈ ts) :
    Inert m s := by
  intro v c u hu
  refine markAt?_eq_none_iff.2 fun k hk => ?_
  obtain ⟨d, t, hdt⟩ := exists_cons_text m k
  rw [hdt, List.cons_prefix_cons] at hk
  exact h s hs c (hu.subset List.mem_cons_self) k (by simp [hdt, hk.1])

theorem blunt_of_clean {ts : List Token} (h : Clean m ts) : Blunt m ts := by
  intro s hs p hp hps k hpk
  obtain ⟨c, u, rfl⟩ := List.exists_cons_of_ne_nil hp
  exact h s hs c (hps.subset List.mem_cons_self) k (hpk.subset List.mem_cons_self)

/-- No marker lies inside a text of tokens that are read. -/
theorem markAt?_of_mem {ts : List Token} (h : Read m (ts.flatMap fine)) {s : Text}
    (hs : text s ∈ ts) {c : Char} {u : Text} (hu : c :: u <:+ s) : m.markAt? (c :: u) = none := by
  obtain ⟨x, y, rfl⟩ := List.append_of_mem hs
  obtain ⟨w, rfl⟩ := hu
  have hread : Read m (text [c] :: ((fine (text u)) ++ y.flatMap fine)) := by
    have : Read m ((x.flatMap fine ++ fine (text w)) ++
        text [c] :: ((fine (text u)) ++ y.flatMap fine)) := by simpa [fine] using h
    exact this.of_append
  cases hread with
  | char hc _ =>
    rw [writeAll_append, writeAll_fine, write, ← List.cons_append] at hc
    exact markAt?_eq_none_of_append hc

/-- **Texts of a source that do not end as a marker begins are inert**: a marker that
starts in one would lie in it. -/
theorem inert_of_blunt {src : Text} (h : Blunt m (tokenize m src)) {s : Text}
    (hs : text s ∈ tokenize m src) : Inert m s := by
  intro v c u hu
  refine markAt?_eq_none_iff.2 fun k hk => ?_
  rw [← List.cons_append] at hk
  rcases List.prefix_or_prefix_of_prefix hk (List.prefix_append (c :: u) v) with hin | hout
  · exact markAt?_eq_none_iff.1 (markAt?_of_mem (read_symbols src) hs hu) k hin
  · exact h s hs _ (List.cons_ne_nil c u) hu k hout

/-- With markers of one character each, no run of text of a source has a
character of a marker. -/
theorem clean_tokenize_of_length (hm : ∀ k, (m.text k).length = 1) (s : Text) :
    Clean m (tokenize m s) := by
  suffices h : Clean m (symbols m s) from clean_flatMap_fine_iff.1 h
  intro u hu c hc k hk
  -- a character that is a marker's only one is read as that marker
  have hread := read_symbols (m := m) s
  generalize symbols m s = ts at hu hread
  induction hread with
  | nil => cases hu
  | mark l _ ih => exact ih (by simpa using hu)
  | @char d ts hd _ ih =>
    rcases List.mem_cons.1 hu with h | h
    · cases h
      obtain rfl := List.mem_singleton.1 hc
      obtain ⟨e, he⟩ := List.length_eq_one_iff.1 (hm k)
      obtain rfl : c = e := by simpa [he] using hk
      exact markAt?_eq_none_iff.1 hd k (by simp [he])
    · exact ih h

/-! ### Cutting at delimiters -/

end Token

namespace Text

/-- A separator in front ends an empty piece. -/
theorem splitOn_sep {sep : Text} (h : sep ≠ []) (s : Text) :
    splitOn sep (sep ++ s) = [] :: splitOn sep s := by
  obtain ⟨c, d, rfl⟩ := List.exists_cons_of_ne_nil h
  have hp : (c :: d).isPrefixOf (c :: (d ++ s)) = true := by
    rw [← List.cons_append, List.isPrefixOf_iff_prefix]
    exact List.prefix_append _ _
  have hskip : ∀ u : Text, splitFrom (c :: d) u.length (u ++ s) = splitFrom (c :: d) 0 s := by
    intro u
    induction u with
    | nil => rfl
    | cons x u ih => rw [List.length_cons, List.cons_append, splitFrom, ih]
  rw [splitOn, List.cons_append, splitFrom, if_pos hp, List.length_cons, Nat.add_sub_cancel, hskip,
    splitOn]

/-- A character in front at which no separator starts joins the first piece. -/
theorem splitOn_char {sep : Text} {c : Char} {s : Text} (h : ¬ sep <+: c :: s) :
    splitOn sep (c :: s) = (splitOn sep s).modifyHead (c :: ·) := by
  rw [splitOn, splitFrom, if_neg (by rwa [List.isPrefixOf_iff_prefix]), splitOn]

/-- A text in front in which no separator starts joins the first piece. -/
theorem splitOn_append {sep w s : Text} (h : ∀ c u, c :: u <:+ w → ¬ sep <+: c :: (u ++ s)) :
    splitOn sep (w ++ s) = (splitOn sep s).modifyHead (w ++ ·) := by
  induction w with
  | nil =>
    rw [List.nil_append]
    cases splitOn sep s <;> rfl
  | cons c w ih =>
    have hw := ih fun d u hu => h d u (hu.trans (List.suffix_cons c w))
    rw [List.cons_append, splitOn_char (h c w (List.suffix_refl _)), hw, List.modifyHead_modifyHead]
    rfl

section
variable {d : Char} {x : Text}

/-- A text without the separator in front joins the first piece. -/
theorem splitOn_append_left (h : d ∉ x) (s : Text) :
    splitOn [d] (x ++ s) = (splitOn [d] s).modifyHead (x ++ ·) := by
  refine splitOn_append fun c u hu hp => ?_
  obtain rfl : d = c := (List.cons_prefix_cons.1 hp).1
  exact h (hu.subset List.mem_cons_self)

theorem splitOn_append_cons (h : d ∉ x) (s : Text) :
    splitOn [d] (x ++ d :: s) = x :: splitOn [d] s := by
  have hsep : splitOn [d] (d :: s) = [] :: splitOn [d] s := splitOn_sep (by simp) s
  rw [splitOn_append_left h, hsep, List.modifyHead_cons, List.append_nil]

theorem splitOn_of_not_mem (h : d ∉ x) : splitOn [d] x = [x] := by
  have hsplit := splitOn_append_left h []
  rw [List.append_nil] at hsplit
  rw [hsplit]
  exact congrArg (· :: []) (List.append_nil x)

end

end Text

namespace Token

/-- In no token but a delimiter does a delimiter start, each with the tokens behind it. -/
def Divided (m : Markers) : List Token → Prop
  | [] => True
  | t :: ts => (t = mark .delimiter ∨
      ∀ c u, c :: u <:+ t.write m → ¬ m.text .delimiter <+: c :: (u ++ writeAll m ts)) ∧
    Divided m ts

theorem divided_delimiter {ts : List Token} (h : Divided m ts) :
    Divided m (mark .delimiter :: ts) := ⟨.inl rfl, h⟩

theorem divided_text {s : Text} {ts : List Token} (hs : Quiet m s (writeAll m ts))
    (h : Divided m ts) : Divided m (text s :: ts) :=
  ⟨.inr fun c u hu => markAt?_eq_none_iff.1 (hs c u hu) .delimiter, h⟩

/-- **Divided tokens are cut where their text is**, each delimiter being found where it
stands. -/
theorem splitOn_of_divided : ∀ {ts : List Token}, Divided m ts →
    Text.splitOn (m.text .delimiter) (writeAll m ts) =
      (ts.splitOn (mark .delimiter)).map (writeAll m)
  | [], _ => by simp [Text.splitOn, Text.splitFrom]
  | t :: ts, ⟨ht, h⟩ => by
    have ih := splitOn_of_divided h
    obtain ⟨x, xs, hx⟩ := List.exists_cons_of_ne_nil (List.splitOn_ne_nil (mark .delimiter) ts)
    rw [writeAll_cons, List.splitOn_cons_eq_if_modifyHead]
    by_cases hd : t = mark .delimiter
    · rw [hd, write, Text.splitOn_sep (m.ne_nil _), ih]
      simp
    · rw [Text.splitOn_append (ht.resolve_left hd), ih, if_neg (by simpa using hd), hx]
      rfl

theorem length_splitOn_delimiter (ts : List Token) :
    (ts.splitOn (mark .delimiter)).length = ts.count (mark .delimiter) + 1 := by
  induction ts with
  | nil => rfl
  | cons t ts ih =>
    rw [List.splitOn_cons_eq_if_modifyHead, List.count_cons]
    split
    · rw [List.length_cons, ih]
    · rw [List.length_modifyHead, ih, Nat.add_zero]

/-- The delimiters of divided tokens are those of the text that they write. -/
theorem length_splitOn_writeAll {ts : List Token} (h : Divided m ts) :
    (Text.splitOn (m.text .delimiter) (writeAll m ts)).length = ts.count (mark .delimiter) + 1 := by
  rw [splitOn_of_divided h, List.length_map, length_splitOn_delimiter]

/-- Symbols between brackets are divided. -/
theorem divided_of_read : ∀ {ts us : List Token}, (∀ t ∈ ts, t.isBracket = false) →
    Read m (ts ++ us) → Divided m ts
  | [], _, _, _ => trivial
  | t :: ts, us, hb, h => by
    have hb' : ∀ t ∈ ts, t.isBracket = false := fun t ht => hb t (List.mem_cons_of_mem _ ht)
    rw [List.cons_append] at h
    cases h with
    | mark k h =>
      obtain rfl : k = .delimiter := by
        have := hb (mark k) List.mem_cons_self
        cases k <;> simp_all [isBracket]
      exact divided_delimiter (divided_of_read hb' h)
    | @char c _ hc h =>
      refine divided_text (fun d u hu => ?_) (divided_of_read hb' h)
      obtain ⟨rfl, rfl⟩ : d = c ∧ u = [] := by simpa [List.suffix_cons_iff] using hu
      rw [writeAll_append, ← List.cons_append] at hc
      exact markAt?_eq_none_of_append hc

/-- Between brackets, cutting a source at its delimiters is cutting its symbols
there. -/
theorem splitOn_writeAll {ts us : List Token} (hb : ∀ t ∈ ts, t.isBracket = false)
    (h : Read m (ts ++ us)) : Text.splitOn (m.text .delimiter) (writeAll m ts) =
      (ts.splitOn (mark .delimiter)).map (writeAll m) :=
  splitOn_of_divided (divided_of_read hb h)

/-! ### A delimiter of one character -/

/-- No other marker has the character of such a delimiter. -/
theorem not_mem_of_single {e : Char} (hd : m.text .delimiter = [e]) {k : Mark}
    (hk : k ≠ .delimiter) : e ∉ m.text k := fun he =>
  m.apart .delimiter k (Ne.symm hk) (hd ▸ (List.singleton_infix_iff e _).2 he)

/-- Tokens are divided where no text has the character of such a delimiter. -/
theorem divided_of_single {e : Char} (hd : m.text .delimiter = [e]) : ∀ {ts : List Token},
    (∀ s, Token.text s ∈ ts → e ∉ s) → Divided m ts
  | [], _ => trivial
  | t :: ts, h => by
    refine ⟨?_, divided_of_single hd fun s hs => h s (List.mem_cons_of_mem _ hs)⟩
    by_cases ht : t = mark .delimiter
    · exact .inl ht
    have he : e ∉ t.write m := by
      cases t with
      | text s => exact h s List.mem_cons_self
      | mark k => exact not_mem_of_single hd fun hk => ht (hk ▸ rfl)
    refine .inr fun c u hu hp => he ?_
    rw [hd, List.cons_prefix_cons] at hp
    exact hp.1 ▸ hu.subset List.mem_cons_self

end Token
end FieldSelection
