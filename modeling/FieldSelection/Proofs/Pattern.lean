/-
# The pattern of a parameter

The parameters of a block are the matches of a pattern, `([A-Za-z0-9_]*?)=([^;}]*)`: word
characters, as few of them as will do, an equals sign, and then as many characters of a value
as there are. `Pattern.ways` says in which ways a pattern matches at the front of a text, the
preferred one first, as a search would try them that goes back when it is stuck.
`Pattern.matchesFrom` goes through a text from the left, takes the preferred match at the first
place that has one, and goes on behind it.

`Parameter.pairs` never goes back: it remembers the run of word characters just read, and an
equals sign makes it a key. It finds the matches of the pattern all the same
(`matches_pair`). From inside a run the pattern matches if and only if it does from the front
of the run, and only one of the ways to take word characters ends at an equals sign.

Key definitions: `Pattern.Item`, `Pattern.ways`, `Pattern.matchesFrom`, `Pattern.pair`.
Key theorems: `Pattern.head?_ways_pair`, `Parameter.pairs_skip`, `Pattern.matches_pair`.
-/
import Mathlib.Data.List.TakeWhile
import FieldSelection.Proofs.Block

namespace FieldSelection

/-- An equals sign is in no key. -/
theorem Parameter.ne_of_isWord {c : Char} (h : isWord c = true) : c ≠ '=' := by
  rintro rfl
  exact absurd h (by decide)

/-! ### Matching a pattern -/

namespace Pattern

/-- A class of characters: those of some ranges, or all the others. -/
structure Class where
  negated : Bool
  ranges : List (Char × Char)
  deriving DecidableEq, Repr

/-- Whether a character is of the class. -/
def Class.has (k : Class) (c : Char) : Bool :=
  k.negated != k.ranges.any fun r => r.1 ≤ c && c ≤ r.2

/-- How many characters an item of a pattern takes: one, or any number of them with fewer
preferred, or with more. -/
inductive Count where
  | one
  | fewest
  | most
  deriving DecidableEq, Repr

/-- An item of a pattern: characters of a class. -/
structure Item where
  kind : Class
  count : Count
  deriving DecidableEq, Repr

/-- The ways to take characters of a class from the front of a text, the one that takes the
fewest first: what is taken and what is left. -/
def takings (k : Class) : Text → List (Text × Text)
  | [] => [([], [])]
  | c :: s => ([], c :: s) ::
    if k.has c then (takings k s).map fun w => (c :: w.1, w.2) else []

/-- The ways in which an item matches at the front of a text, the preferred one first. -/
def Item.ways (i : Item) : Text → List (Text × Text) :=
  match i.count with
  | .one => fun s => match s with
    | [] => []
    | c :: s => if i.kind.has c then [([c], s)] else []
  | .fewest => takings i.kind
  | .most => fun s => (takings i.kind s).reverse

/-- The ways in which items match one after the other at the front of a text: what each of
them takes, and what is left. What an item prefers counts before what the items behind it
do. -/
def ways : List Item → Text → List (List Text × Text)
  | [], s => [([], s)]
  | i :: is, s => (i.ways s).flatMap fun w => (ways is w.2).map fun v => (w.1 :: v.1, v.2)

/-- What the items take in each of their matches, from left to right, once `skip` characters of
the last match are passed over. It is meant for items that cannot take nothing at all. -/
def matchesFrom (is : List Item) : (skip : Nat) → Text → List (List Text)
  | _, [] => []
  | skip + 1, _ :: s => matchesFrom is skip s
  | 0, c :: s =>
    match (ways is (c :: s)).head? with
    | some (taken, _) => taken :: matchesFrom is (taken.flatten.length - 1) s
    | none => matchesFrom is 0 s

/-- A word character, `[A-Za-z0-9_]`. -/
def word : Class := ⟨false, [('A', 'Z'), ('a', 'z'), ('0', '9'), ('_', '_')]⟩

/-- The sign between a key and its value. -/
def equal : Class := ⟨false, [('=', '=')]⟩

/-- A character of a value, `[^;}]`. -/
def notEnd : Class := ⟨true, [(';', ';'), ('}', '}')]⟩

/-- The pattern of a parameter, `([A-Za-z0-9_]*?)=([^;}]*)`. -/
def pair : List Item := [⟨word, .fewest⟩, ⟨equal, .one⟩, ⟨notEnd, .most⟩]

/-- What the items of the pattern take of a parameter. -/
def takenOf (p : Parameter) : List Text := [p.key, ['='], p.value]

theorem char_le_and_ge_iff {c d : Char} : (d ≤ c ∧ c ≤ d) ↔ c = d := by
  rw [and_comm]
  exact Std.le_antisymm_iff

theorem word_has (c : Char) : word.has c = Parameter.isWord c := by
  have hle : ∀ d e : Char, d ≤ e ↔ d.toNat ≤ e.toNat := fun d e => UInt32.le_iff_toNat_le
  rw [Bool.eq_iff_iff]
  simp only [Class.has, word, Parameter.isWord, List.any_cons, List.any_nil, Bool.false_bne,
    Bool.or_false, Bool.or_eq_true, Bool.and_eq_true, decide_eq_true_eq, Percent.isAlphanum_iff,
    char_le_and_ge_iff]
  simp only [hle, or_assoc]
  rfl

theorem equal_has (c : Char) : equal.has c = decide (c = '=') := by
  rw [Bool.eq_iff_iff]
  simp [Class.has, equal, char_le_and_ge_iff]

theorem notEnd_has (c : Char) : notEnd.has c = Parameter.inValue c := by
  rw [Bool.eq_iff_iff]
  simp [Class.has, notEnd, Parameter.inValue, ← char_le_and_ge_iff]

/-! ### Ways to match -/

theorem getLast?_takings (k : Class) (s : Text) :
    (takings k s).getLast? = some (s.takeWhile k.has, s.dropWhile k.has) := by
  induction s with
  | nil => rfl
  | cons c s ih =>
    rw [takings]
    by_cases hc : k.has c = true
    · rw [if_pos hc, List.takeWhile_cons_of_pos hc, List.dropWhile_cons_of_pos hc,
        List.getLast?_cons, List.getLast?_map, ih]
      rfl
    · rw [if_neg hc, List.takeWhile_cons_of_neg hc, List.dropWhile_cons_of_neg hc]
      rfl

theorem eq_of_mem_takings {k : Class} : ∀ {s : Text} {w : Text × Text}, w ∈ takings k s →
    s = w.1 ++ w.2
  | [], w, h => by
    rw [takings, List.mem_singleton] at h
    subst h
    rfl
  | c :: s, w, h => by
    rw [takings, List.mem_cons] at h
    rcases h with rfl | h
    · rfl
    · by_cases hc : k.has c = true
      · rw [if_pos hc, List.mem_map] at h
        obtain ⟨v, hv, rfl⟩ := h
        rw [eq_of_mem_takings hv]
        rfl
      · rw [if_neg hc] at h
        cases h

theorem Item.eq_of_mem_ways {i : Item} {s : Text} {w : Text × Text} (h : w ∈ i.ways s) :
    s = w.1 ++ w.2 := by
  unfold Item.ways at h
  cases hi : i.count with
  | one =>
    simp only [hi] at h
    cases s with
    | nil => cases h
    | cons c s =>
      by_cases hc : i.kind.has c = true
      · simp only [if_pos hc, List.mem_singleton] at h
        subst h
        rfl
      · simp only [if_neg hc] at h
        cases h
  | fewest =>
    simp only [hi] at h
    exact eq_of_mem_takings h
  | most =>
    simp only [hi, List.mem_reverse] at h
    exact eq_of_mem_takings h

/-- What the items take and what they leave is the text. -/
theorem eq_of_mem_ways : ∀ {is : List Item} {s : Text} {w : List Text × Text}, w ∈ ways is s →
    s = w.1.flatten ++ w.2
  | [], s, w, h => by
    rw [ways, List.mem_singleton] at h
    subst h
    rfl
  | i :: is, s, w, h => by
    rw [ways, List.mem_flatMap] at h
    obtain ⟨u, hu, h⟩ := h
    obtain ⟨v, hv, rfl⟩ := List.mem_map.1 h
    rw [i.eq_of_mem_ways hu, eq_of_mem_ways hv, List.flatten_cons, List.append_assoc]

/-! ### Going through a text -/

theorem matchesFrom_eq_drop (is : List Item) : ∀ (skip : Nat) (s : Text),
    matchesFrom is skip s = matchesFrom is 0 (s.drop skip)
  | 0, _ => rfl
  | skip + 1, [] => by rw [List.drop_nil, matchesFrom, matchesFrom]
  | skip + 1, _ :: s => by
    rw [matchesFrom, matchesFrom_eq_drop is skip s, List.drop_succ_cons]

variable {is : List Item}

/-- A character at which the pattern does not match is passed over. -/
theorem matchesFrom_cons_of_nil {c : Char} {s : Text} (h : ways is (c :: s) = []) :
    matchesFrom is 0 (c :: s) = matchesFrom is 0 s := by
  rw [matchesFrom, h]
  rfl

/-- Behind a match the matches go on with what it leaves. -/
theorem matchesFrom_of_head {s rest : Text} {taken : List Text}
    (h : (ways is s).head? = some (taken, rest)) (hne : taken.flatten ≠ []) :
    matchesFrom is 0 s = taken :: matchesFrom is 0 rest := by
  have hs : s = taken.flatten ++ rest := eq_of_mem_ways (List.mem_of_head? h)
  obtain ⟨c, u, hu⟩ := List.exists_cons_of_ne_nil hne
  have hdrop : (u ++ rest).drop ((c :: u).length - 1) = rest := by
    rw [List.length_cons, Nat.add_sub_cancel, List.drop_left]
  rw [hu, List.cons_append] at hs
  rw [hs] at h ⊢
  rw [matchesFrom, h]
  simp only
  rw [hu, matchesFrom_eq_drop, hdrop]

/-! ### The pattern of a parameter -/

theorem ways_pair (s : Text) : ways pair s =
    (takings word s).flatMap fun w => (ways pair.tail w.2).map fun v => (w.1 :: v.1, v.2) := rfl

/-- Behind the key there is an equals sign, or no match. -/
theorem ways_tail_of_ne {c : Char} (hne : c ≠ '=') (s : Text) : ways pair.tail (c :: s) = [] := by
  have hc : equal.has c = false := by rw [equal_has, decide_eq_false hne]
  simp [pair, ways, Item.ways, hc]

theorem head?_ways_tail (s : Text) : (ways pair.tail ('=' :: s)).head? =
    some ([['='], s.takeWhile Parameter.inValue], s.dropWhile Parameter.inValue) := by
  have hvalue : notEnd.has = Parameter.inValue := funext notEnd_has
  have hc : equal.has '=' = true := by rw [equal_has]; rfl
  have hlast := getLast?_takings notEnd s
  have hways : ways pair.tail ('=' :: s) =
      (takings notEnd s).reverse.map fun w => ([['='], w.1], w.2) := by
    simp [pair, ways, Item.ways, hc, ← List.map_eq_flatMap]
  rw [hvalue] at hlast
  rw [hways, List.head?_map, List.head?_reverse, hlast]
  rfl

/-- From the front of a run of word characters the pattern matches as from inside the run. -/
theorem ways_pair_word {c : Char} (hc : Parameter.isWord c = true) (s : Text) :
    ways pair (c :: s) = (ways pair s).map fun w => (w.1.modifyHead (c :: ·), w.2) := by
  rw [ways_pair, takings, if_pos ((word_has c).trans hc), List.flatMap_cons,
    ways_tail_of_ne (Parameter.ne_of_isWord hc), List.map_nil, List.nil_append,
    List.flatMap_map, ways_pair, List.map_flatMap]
  simp only [List.map_map]
  rfl

theorem ways_pair_other {c : Char} (hc : Parameter.isWord c = false) (s : Text) :
    ways pair (c :: s) = (ways pair.tail (c :: s)).map fun w => ([] :: w.1, w.2) := by
  rw [ways_pair, takings, if_neg (by rw [word_has, hc]; decide), List.flatMap_singleton]

/-- The match at the front of a key takes the key, and a value up to its end. -/
theorem head?_ways_pair {key : Text} (h : ∀ c ∈ key, Parameter.isWord c = true) (s : Text) :
    (ways pair (key ++ '=' :: s)).head? =
      some ([key, ['='], s.takeWhile Parameter.inValue], s.dropWhile Parameter.inValue) := by
  induction key with
  | nil =>
    rw [List.nil_append, ways_pair_other (by decide), List.head?_map, head?_ways_tail]
    rfl
  | cons c key ih =>
    obtain ⟨hc, hkey⟩ := List.forall_mem_cons.1 h
    rw [List.cons_append, ways_pair_word hc, List.head?_map, ih hkey]
    rfl

/-- There is no match in front of a run of word characters with no equals sign behind it. -/
theorem ways_pair_eq_nil {w : Text} (h : ∀ c ∈ w, Parameter.isWord c = true) {s : Text}
    (hs : ways pair s = []) : ways pair (w ++ s) = [] := by
  induction w with
  | nil => exact hs
  | cons c w ih =>
    obtain ⟨hc, hw⟩ := List.forall_mem_cons.1 h
    rw [List.cons_append, ways_pair_word hc, ih hw, List.map_nil]

theorem matchesFrom_words {w : Text} (h : ∀ c ∈ w, Parameter.isWord c = true) {s : Text}
    (hs : ways pair s = []) : matchesFrom pair 0 (w ++ s) = matchesFrom pair 0 s := by
  induction w with
  | nil => rfl
  | cons c w ih =>
    rw [List.cons_append, matchesFrom_cons_of_nil, ih (List.forall_mem_cons.1 h).2]
    exact ways_pair_eq_nil h hs

end Pattern

namespace Parameter

/-! ### Reading without going back -/

/-- Up to a character that is in no key, nothing is read if there is no equals sign. -/
theorem pairs_skip {x : Text} {c : Char} (h : '=' ∉ x ++ [c]) (hc : isWord c = false) (s : Text) :
    pairs (x ++ c :: s) = pairs s := by
  suffices hrun : ∀ run, pairsFrom 0 run (x ++ c :: s) = pairs s from hrun []
  induction x with
  | nil =>
    intro run
    have hne : c ≠ '=' := fun heq => h (by simp [heq])
    rw [List.nil_append, pairsFrom, if_neg hne, if_neg (by rw [hc]; decide), pairs]
  | cons d x ih =>
    intro run
    have hne : d ≠ '=' := fun heq => h (by simp [heq])
    rw [List.cons_append, pairsFrom, if_neg hne]
    exact ih (List.not_mem_of_not_mem_cons h) _

/-- There is nothing to read in word characters alone. -/
theorem pairs_words {w : Text} (h : ∀ c ∈ w, isWord c = true) : pairs w = [] := by
  have hkey := pairsFrom_key h [] []
  rw [List.append_nil, pairsFrom] at hkey
  exact hkey

end Parameter

namespace Pattern

/-- **The matches of the pattern are the parameters of a text.** -/
theorem matches_pair (s : Text) :
    matchesFrom pair 0 s = (Parameter.pairs s).map takenOf := by
  have hsplit : s.takeWhile Parameter.isWord ++ s.dropWhile Parameter.isWord = s :=
    List.takeWhile_append_dropWhile
  have hword : ∀ c ∈ s.takeWhile Parameter.isWord, Parameter.isWord c = true :=
    fun c hc => List.mem_takeWhile_imp hc
  cases hrest : s.dropWhile Parameter.isWord with
  | nil =>
    rw [hrest, List.append_nil] at hsplit
    rw [hsplit] at hword
    have hskip := matchesFrom_words hword (s := []) rfl
    rw [List.append_nil] at hskip
    rw [hskip, Parameter.pairs_words hword, matchesFrom, List.map_nil]
  | cons d u =>
    rw [hrest] at hsplit
    by_cases hd : d = '='
    · subst hd
      have hlen : (u.dropWhile Parameter.inValue).length < s.length := by
        have hle := List.length_dropWhile_le Parameter.inValue u
        rw [← hsplit, List.length_append, List.length_cons]
        omega
      have ih := matches_pair (u.dropWhile Parameter.inValue)
      rw [← hsplit, matchesFrom_of_head (head?_ways_pair hword u) (by simp), ih,
        Parameter.pairs_of_key hword]
      rfl
    · have hlen : u.length < s.length := by
        rw [← hsplit, List.length_append, List.length_cons]
        omega
      have hother : Parameter.isWord d = false := by
        have hnot := List.head?_dropWhile_not Parameter.isWord s
        rwa [hrest] at hnot
      have hnone : ways pair (d :: u) = [] := by
        rw [ways_pair_other hother, ways_tail_of_ne hd, List.map_nil]
      have hequal : '=' ∉ s.takeWhile Parameter.isWord ++ [d] := by
        intro hmem
        rcases List.mem_append.1 hmem with hmem | hmem
        · exact Parameter.ne_of_isWord (hword _ hmem) rfl
        · exact hd (List.mem_singleton.1 hmem).symm
      have ih := matches_pair u
      rw [← hsplit, matchesFrom_words hword hnone, matchesFrom_cons_of_nil hnone, ih,
        Parameter.pairs_skip hequal hother]
termination_by s.length

/-- A key may be empty, and a value may hold further equals signs. -/
example : matchesFrom pair 0 ['{', 'a', ' ', 'k', '=', 'v', '=', ';', '=', '}'] =
    [[['k'], ['='], ['v', '=']], [[], ['='], []]] := by decide

end Pattern
end FieldSelection
