/-
# Reading parameters the plain way

A reader of parameters need not look for keys. It may take what is inside the first block of
a field, cut that at every semicolon, and look at each piece by itself: a piece with an equals
sign is a parameter, whose value is all that stands behind the first one, and whose key is the
longest run of word characters right before it. When all is read, each key is kept once, where
it comes first, with the value that it has last.

`Parameter.read` gives the same (`read_eq_readPlainly`), though it never cuts at a semicolon,
reads the block together with its braces, and puts each parameter into the list as it comes.
A value ends where its piece does, so that from one piece nothing is left for the next
(`pairs_piece`). The list at hand is settled after each parameter, not only after the last one
(`put_settled`).

Key definitions: `Parameter.ofPiece?`, `Parameter.settled`, `Parameter.readPlainly`.
Key theorems: `Parameter.exists_of_ofPiece?`, `Parameter.pairs_block`, `Parameter.put_settled`,
`Parameter.read_eq_readPlainly`.
-/
import Mathlib.Data.List.DropRight
import Mathlib.Logic.Function.Basic
import FieldSelection.Proofs.Pattern

namespace FieldSelection
namespace Parameter

/-- The text inside the first block of a field: what stands between its first opening brace and
the first closing brace behind that one. -/
def inside? (field : Text) : Option Text :=
  let opened := (field.dropWhile (· ≠ '{')).tail
  if '}' ∈ opened then some (opened.takeWhile (· ≠ '}')) else none

/-- The parameter that a piece between semicolons holds, if it has an equals sign. -/
def ofPiece? (piece : Text) : Option Parameter :=
  if '=' ∈ piece then
    some ⟨(piece.takeWhile (· ≠ '=')).rtakeWhile isWord, (piece.dropWhile (· ≠ '=')).tail⟩
  else none

/-- The last parameter with a key. -/
def last? (ps : List Parameter) (k : Text) : Option Parameter := ps.reverse.find? (·.key = k)

/-- Each key once, where it comes first, with the last of its values. -/
def settled (ps : List Parameter) : List Parameter :=
  (ps.map key).eraseDups.filterMap (last? ps)

/-- The parameters of a field, with their values as they are written. -/
def readPlainly (field : Text) : List Parameter :=
  match inside? field with
  | none => []
  | some inside => settled ((List.splitOn ';' inside).filterMap ofPiece?)

/-! ### The block -/

/-- Where a character comes first. -/
theorem eq_append_of_mem {d : Char} {s : Text} (h : d ∈ s) :
    s = s.takeWhile (· ≠ d) ++ d :: (s.dropWhile (· ≠ d)).tail := by
  induction s with
  | nil => cases h
  | cons c s ih =>
    by_cases hc : c = d
    · subst hc
      simp
    · rw [List.takeWhile_cons_of_pos (by simp [hc]), List.dropWhile_cons_of_pos (by simp [hc]),
        List.cons_append, ← ih (List.mem_of_ne_of_mem (Ne.symm hc) h)]

theorem not_mem_takeWhile (d : Char) (s : Text) : d ∉ s.takeWhile (· ≠ d) := by
  intro hmem
  have hne := List.mem_takeWhile_imp hmem
  simp at hne

theorem dropWhile_of_not_mem {d : Char} {s : Text} (h : d ∉ s) : s.dropWhile (· ≠ d) = [] :=
  List.dropWhile_eq_nil_iff.2 fun _ hc => decide_eq_true fun heq => h (heq ▸ hc)

/-- What stands behind one of a character stands behind the first one. -/
theorem mem_tail_dropWhile {d e : Char} {y : Text} (h : e ∈ y) :
    ∀ x : Text, e ∈ ((x ++ d :: y).dropWhile (· ≠ d)).tail
  | [] => by simpa using h
  | c :: x => by
    by_cases hc : c = d
    · simp [hc, h]
    · rw [List.cons_append, List.dropWhile_cons_of_pos (by simp [hc])]
      exact mem_tail_dropWhile h x

/-- **What is inside the first block**: the field has it between an opening brace that has none
before it and the first closing brace behind. -/
theorem inside?_eq_some_iff {field inside : Text} : inside? field = some inside ↔
    ∃ x z, field = x ++ '{' :: (inside ++ '}' :: z) ∧ '{' ∉ x ∧ '}' ∉ inside := by
  constructor
  · intro h
    unfold inside? at h
    by_cases hclose : '}' ∈ (field.dropWhile (· ≠ '{')).tail
    · simp only [if_pos hclose, Option.some.injEq] at h
      subst h
      have hopen : '{' ∈ field := by
        by_contra hopen
        rw [dropWhile_of_not_mem hopen] at hclose
        cases hclose
      have hcut := eq_append_of_mem hopen
      rw [eq_append_of_mem hclose] at hcut
      exact ⟨_, _, hcut, not_mem_takeWhile '{' field, not_mem_takeWhile _ _⟩
    · simp only [if_neg hclose] at h
      cases h
  · rintro ⟨x, z, rfl, hx, hinside⟩
    rw [inside?, dropWhile_append_cons hx, List.tail_cons, takeWhile_append_cons hinside]
    exact if_pos (by simp)

/-- There is nothing inside a block where no closing brace comes behind an opening one. -/
theorem inside?_eq_none_iff {field : Text} :
    inside? field = none ↔ ∀ x y z, field ≠ x ++ '{' :: (y ++ '}' :: z) := by
  constructor
  · rintro h x y z rfl
    have hclose : '}' ∈ ((x ++ '{' :: (y ++ '}' :: z)).dropWhile (· ≠ '{')).tail :=
      mem_tail_dropWhile (by simp) x
    unfold inside? at h
    simp only [if_pos hclose, reduceCtorEq] at h
  · intro h
    by_contra hsome
    obtain ⟨inside, hinside⟩ := Option.ne_none_iff_exists'.1 hsome
    obtain ⟨x, z, hfield, -⟩ := inside?_eq_some_iff.1 hinside
    exact h x inside z hfield

/-- A field is cut around the text inside its first block. -/
theorem map_inside_cutBlock? (field : Text) :
    (cutBlock? field).map Cut.inside = inside? field := by
  unfold cutBlock? inside?
  cases hopened : field.dropWhile (· ≠ '{') with
  | nil => rfl
  | cons b opened =>
    simp only
    by_cases hclose : '}' ∈ opened
    · cases hclosed : opened.dropWhile (· ≠ '}') with
      | nil =>
        have hne := List.dropWhile_eq_nil_iff.1 hclosed _ hclose
        simp at hne
      | cons e after => exact (if_pos hclose).symm
    · rw [dropWhile_of_not_mem hclose]
      exact (if_neg hclose).symm

/-! ### The pieces -/

/-- What a piece holds: the key is all of the word characters right before the first equals
sign, and the value is all that stands behind it. -/
theorem exists_of_ofPiece? {piece : Text} {p : Parameter} (h : ofPiece? piece = some p) :
    ∃ x, piece = x ++ (p.key ++ '=' :: p.value) ∧ '=' ∉ x ++ p.key ∧
      (∀ c ∈ p.key, isWord c = true) ∧ ∀ y c, x = y ++ [c] → isWord c = false := by
  unfold ofPiece? at h
  by_cases hmem : '=' ∈ piece
  · rw [if_pos hmem, Option.some.injEq] at h
    subst h
    have hfront : (piece.takeWhile (· ≠ '=')).rdropWhile isWord ++
        (piece.takeWhile (· ≠ '=')).rtakeWhile isWord = piece.takeWhile (· ≠ '=') :=
      List.rdropWhile_append_rtakeWhile
    refine ⟨(piece.takeWhile (· ≠ '=')).rdropWhile isWord, ?_, ?_, ?_, ?_⟩
    · rw [← List.append_assoc, hfront]
      exact eq_append_of_mem hmem
    · rw [hfront]
      exact not_mem_takeWhile '=' piece
    · exact fun c hc => List.mem_rtakeWhile_imp hc
    · intro y c hx
      have hne : (piece.takeWhile (· ≠ '=')).rdropWhile isWord ≠ [] := by
        rw [hx]
        exact List.append_ne_nil_of_right_ne_nil y (List.cons_ne_nil c [])
      have hlast := List.rdropWhile_last_not isWord _ hne
      have hget : ((piece.takeWhile (· ≠ '=')).rdropWhile isWord).getLast hne = c := by
        simp only [hx, List.getLast_concat]
      rw [hget] at hlast
      exact Bool.eq_false_iff.2 hlast
  · rw [if_neg hmem] at h
    cases h

/-- A piece is read by itself. -/
theorem pairs_piece {piece : Text} (h : ∀ c ∈ piece, inValue c = true) {d : Char}
    (hd : inValue d = false) (s : Text) :
    pairs (piece ++ d :: s) = (ofPiece? piece).toList ++ pairs s := by
  have hend : d = ';' ∨ d = '}' := by
    by_contra hne
    rw [not_or] at hne
    simp [inValue, hne.1, hne.2] at hd
  have hne : d ≠ '=' := by rcases hend with rfl | rfl <;> decide
  have hword : isWord d = false := by rcases hend with rfl | rfl <;> decide
  cases hpiece : ofPiece? piece with
  | none =>
    have hequal : '=' ∉ piece ++ [d] := by
      intro hmem
      rcases List.mem_append.1 hmem with hmem | hmem
      · rw [ofPiece?, if_pos hmem] at hpiece
        cases hpiece
      · exact hne (List.mem_singleton.1 hmem).symm
    exact pairs_skip hequal hword s
  | some p =>
    obtain ⟨x, rfl, hequal, hkey, hlast⟩ := exists_of_ofPiece? hpiece
    have hvalue : ∀ c ∈ p.value, inValue c = true := fun c hc => h c (by simp [hc])
    have hread : pairs (p.key ++ '=' :: (p.value ++ d :: s)) = p :: pairs s := by
      rw [pairs_of_key hkey, List.takeWhile_append_of_pos hvalue,
        List.dropWhile_append_of_pos hvalue, List.takeWhile_cons_of_neg (by simp [hd]),
        List.dropWhile_cons_of_neg (by simp [hd]), List.append_nil, pairs_cons hne hword]
    have hcut : x ++ (p.key ++ '=' :: p.value) ++ d :: s =
        x ++ (p.key ++ '=' :: (p.value ++ d :: s)) := by simp
    rw [hcut]
    -- what stands before the key ends with a character that is in no key
    rcases List.eq_nil_or_concat' x with rfl | ⟨y, c, rfl⟩
    · exact hread
    · have hskip : '=' ∉ y ++ [c] := fun hmem => hequal (List.mem_append_left _ hmem)
      rw [List.append_assoc, List.singleton_append, pairs_skip hskip (hlast y c rfl), hread]
      rfl

/-- The pieces of a block are read one after the other. -/
theorem pairs_intercalate : ∀ {pieces : List Text}, pieces ≠ [] →
    (∀ x ∈ pieces, ∀ c ∈ x, inValue c = true) →
    pairs ([';'].intercalate pieces ++ ['}']) = pieces.filterMap ofPiece?
  | [], hne, _ => absurd rfl hne
  | [x], _, h => by
    have hx := pairs_piece (h x List.mem_cons_self) (d := '}') rfl []
    rw [List.intercalate_singleton, hx]
    cases hp : ofPiece? x <;> simp [hp, pairs, pairsFrom]
  | x :: y :: pieces, _, h => by
    have hx := pairs_piece (h x List.mem_cons_self) (d := ';') rfl
    have ih := pairs_intercalate (List.cons_ne_nil y pieces)
      fun z hz => h z (List.mem_cons_of_mem _ hz)
    rw [List.intercalate_cons_cons, List.append_assoc, List.append_assoc, List.singleton_append,
      hx, ih]
    cases hp : ofPiece? x <;> simp [hp]

/-- **A block is read piece by piece.** -/
theorem pairs_block {inside : Text} (h : '}' ∉ inside) :
    pairs ('{' :: inside ++ ['}']) = (List.splitOn ';' inside).filterMap ofPiece? := by
  have hpieces : ∀ x ∈ List.splitOn ';' inside, ∀ c ∈ x, inValue c = true := by
    intro x hx c hc
    obtain ⟨hmem, hne⟩ := mem_of_mem_splitOn hx c hc
    have hend : c ≠ '}' := fun heq => h (heq ▸ hmem)
    simp [inValue, hne, hend]
  rw [List.cons_append, pairs_cons (by decide) (by decide),
    ← pairs_intercalate (List.splitOn_ne_nil ';' inside) hpieces, List.intercalate_splitOn]

/-! ### Each key once -/

theorem eraseDups_concat (xs : List Text) (k : Text) :
    (xs ++ [k]).eraseDups = if k ∈ xs then xs.eraseDups else xs.eraseDups ++ [k] := by
  rw [List.eraseDups_append]
  by_cases hk : k ∈ xs
  · simp [hk, List.removeAll]
  · simp [hk, List.removeAll, List.eraseDups_cons]

theorem nodup_eraseDups (xs : List Text) : xs.eraseDups.Nodup := by
  induction xs using List.reverseRecOn with
  | nil => exact List.nodup_nil
  | append_singleton xs k ih =>
    rw [eraseDups_concat]
    by_cases hk : k ∈ xs
    · rwa [if_pos hk]
    · rw [if_neg hk]
      refine List.nodup_append.2 ⟨ih, by simp, ?_⟩
      rintro x hx y hy rfl
      exact hk (List.mem_singleton.1 hy ▸ List.mem_eraseDups.1 hx)

theorem last?_concat (ps : List Parameter) (p : Parameter) :
    last? (ps ++ [p]) = Function.update (last? ps) p.key (some p) := by
  funext k
  by_cases hk : k = p.key
  · subst hk
    rw [Function.update_self]
    simp [last?]
  · rw [Function.update_of_ne hk]
    simp [last?, Ne.symm hk]

theorem exists_last? {ps : List Parameter} {k : Text} (h : k ∈ ps.map key) :
    ∃ q, last? ps k = some q ∧ q.key = k := by
  obtain ⟨p, hp, hk⟩ := List.mem_map.1 h
  cases hlast : last? ps k with
  | none =>
    have hnone := List.find?_eq_none.1 hlast p (List.mem_reverse.2 hp)
    simp [hk] at hnone
  | some q =>
    have hq := List.find?_some hlast
    exact ⟨q, rfl, by simpa using hq⟩

section

variable {f : Text → Option Parameter}

theorem map_key_filterMap : ∀ {ks : List Text}, (∀ k ∈ ks, ∃ q, f k = some q ∧ q.key = k) →
    (ks.filterMap f).map key = ks
  | [], _ => rfl
  | k :: ks, h => by
    obtain ⟨q, hq, hk⟩ := h k List.mem_cons_self
    rw [List.filterMap_cons_some hq, List.map_cons, hk,
      map_key_filterMap fun k' hk' => h k' (List.mem_cons_of_mem _ hk')]

theorem filterMap_of_not_mem {p : Parameter} {ks : List Text} (h : p.key ∉ ks) :
    ks.filterMap (Function.update f p.key (some p)) = ks.filterMap f := by
  refine List.filterMap_congr fun k hk => Function.update_of_ne ?_ _ _
  rintro rfl
  exact h hk

/-- A parameter is put in the place of its key. -/
theorem put_filterMap {p : Parameter} : ∀ {ks : List Text},
    (∀ k ∈ ks, ∃ q, f k = some q ∧ q.key = k) → ks.Nodup → p.key ∈ ks →
    put p (ks.filterMap f) = ks.filterMap (Function.update f p.key (some p))
  | [], _, _, hmem => by cases hmem
  | k :: ks, h, hnodup, hmem => by
    obtain ⟨q, hq, hk⟩ := h k List.mem_cons_self
    obtain ⟨hnot, hnodup⟩ := List.nodup_cons.1 hnodup
    rw [List.filterMap_cons_some hq, put, hk]
    by_cases heq : k = p.key
    · subst heq
      rw [if_pos rfl, List.filterMap_cons_some (Function.update_self _ _ _),
        filterMap_of_not_mem hnot]
    · have hrest : p.key ∈ ks := List.mem_of_ne_of_mem (Ne.symm heq) hmem
      have ih := put_filterMap (fun k' hk' => h k' (List.mem_cons_of_mem _ hk')) hnodup hrest
      rw [if_neg heq, List.filterMap_cons_some ((Function.update_of_ne heq _ _).trans hq), ih]

end

theorem map_key_settled (ps : List Parameter) :
    (settled ps).map key = (ps.map key).eraseDups :=
  map_key_filterMap fun _ hk => exists_last? (List.mem_eraseDups.1 hk)

/-- **What is put into a settled list settles it again.** -/
theorem put_settled (ps : List Parameter) (p : Parameter) :
    put p (settled ps) = settled (ps ++ [p]) := by
  have hkeys := map_key_settled ps
  unfold settled at hkeys ⊢
  rw [List.map_append, List.map_singleton, eraseDups_concat, last?_concat]
  by_cases hmem : p.key ∈ ps.map key
  · rw [if_pos hmem]
    exact put_filterMap (fun k hk => exists_last? (List.mem_eraseDups.1 hk))
      (nodup_eraseDups _) (List.mem_eraseDups.2 hmem)
  · have hnot : p.key ∉ (ps.map key).eraseDups := fun hk => hmem (List.mem_eraseDups.1 hk)
    rw [if_neg hmem, List.filterMap_append, filterMap_of_not_mem hnot,
      put_of_not_mem (by rwa [hkeys])]
    simp

theorem foldl_put_eq_settled (ps : List Parameter) :
    ps.foldl (fun qs p => put p qs) [] = settled ps := by
  induction ps using List.reverseRecOn with
  | nil => rfl
  | append_singleton ps p ih => rw [List.foldl_append, ih, List.foldl_cons, put_settled]; rfl

/-! ### Decoding -/

theorem put_decoded (p : Parameter) : ∀ qs : List Parameter,
    put p.decoded (qs.map decoded) = (put p qs).map decoded
  | [] => rfl
  | q :: qs => by
    rw [List.map_cons, put, put]
    show (if q.key = p.key then _ else _) = _
    by_cases hk : q.key = p.key
    · rw [if_pos hk, if_pos hk, List.map_cons]
    · rw [if_neg hk, if_neg hk, List.map_cons, put_decoded p qs]

theorem foldl_put_decoded : ∀ ps qs : List Parameter,
    ps.foldl (fun qs p => put p.decoded qs) (qs.map decoded) =
      (ps.foldl (fun qs p => put p qs) qs).map decoded
  | [], _ => rfl
  | p :: ps, qs => by
    rw [List.foldl_cons, List.foldl_cons, put_decoded, foldl_put_decoded ps]

/-! ### Reading a field -/

theorem read_false_eq (field : Text) : read false field = readPlainly field := by
  have hcut := map_inside_cutBlock? field
  unfold read readPlainly
  cases hc : cutBlock? field with
  | none =>
    rw [hc] at hcut
    rw [← hcut]
    rfl
  | some c =>
    rw [hc, Option.map_some] at hcut
    obtain ⟨x, z, -, -, hclose⟩ := inside?_eq_some_iff.1 hcut.symm
    rw [← hcut]
    show (pairs ('{' :: c.inside ++ ['}'])).foldl (fun qs p => put p qs) [] = _
    rw [pairs_block hclose, foldl_put_eq_settled]

theorem read_true_eq (field : Text) : read true field = (read false field).map decoded := by
  unfold read
  cases cutBlock? field with
  | none => rfl
  | some c => exact foldl_put_decoded (pairs c.block) []

/-- **A field is read as a plain reader reads it.** Its values are as they are written, or each
of them is decoded; no key comes twice; where no closing brace comes behind an opening one there
is nothing to read; and the parameters of a text are the matches of the pattern. -/
theorem read_eq_readPlainly (field : Text) :
    read false field = readPlainly field ∧
      read true field = (readPlainly field).map decoded ∧
      ((readPlainly field).map key).Nodup ∧
      (inside? field = none ↔ ∀ x y z, field ≠ x ++ '{' :: (y ++ '}' :: z)) ∧
      ∀ s, Pattern.matchesFrom Pattern.pair 0 s = (pairs s).map Pattern.takenOf := by
  refine ⟨read_false_eq field, ?_, ?_, inside?_eq_none_iff, Pattern.matches_pair⟩
  · rw [read_true_eq, read_false_eq]
  · unfold readPlainly
    cases inside? field with
    | none => exact List.nodup_nil
    | some inside =>
      show ((settled _).map key).Nodup
      rw [map_key_settled]
      exact nodup_eraseDups _

/-- Only the last of the words before an equals sign is in the key, and the first equals sign
ends it. -/
example : readPlainly ['{', 'a', ' ', 'k', '=', 'v', '=', ';', 'x', ';', 'k', '=', 'w', '}'] =
    [⟨['k'], ['w']⟩] := by decide

end Parameter
end FieldSelection
