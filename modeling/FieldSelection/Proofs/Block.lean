/-
# Parameters ride along

A block of parameters is written with keys of word characters and with values in percent
encoding. Then no character in it is a marker of the standard ones, so that expansion takes
the block for text and copies it as it stands, and no character of a value can end the value
or the block. So a field that carries a block first, and whatever comes of the groups behind
it, has the block in each of its paths, and each path gives the parameters back
(`paths_writeBlock`).

Reading a written block is done piece by piece: `cutBlock?_append` finds it, `pairs_write`
takes one parameter off its front, and parameters with different keys stay apart
(`foldl_put`).

Key definitions: `Parameter.writeBlock`, `Parameter.Writes`.
Key theorem: `Parameter.paths_writeBlock`.
-/
import FieldSelection.Parameter
import FieldSelection.Proofs.Percent
import FieldSelection.Proofs.WellFormed

namespace FieldSelection
namespace Parameter

/-- Parameters as they are written, in a block. -/
def writeBlock (ws : List Parameter) : Text := '{' :: Text.joinWith [';'] (ws.map write) ++ ['}']

/-- A parameter as it is written: the key as it is, and the value in percent encoding. -/
def Writes (w p : Parameter) : Prop :=
  w.key = p.key ∧ Percent.Written (Utf8.encode p.value) w.value

theorem Writes.decoded_eq {w p : Parameter} (h : Writes w p) : w.decoded = p := by
  obtain ⟨key, value⟩ := p
  obtain ⟨hkey, hvalue⟩ := h
  rw [decoded, Percent.decode_of_written hvalue, hkey]

/-- A parameter that can be told from what stands around it. -/
def Sound (w : Parameter) : Prop :=
  (∀ c ∈ w.key, isWord c = true) ∧ ∀ c ∈ w.value, Percent.isSafe c = true

theorem Writes.sound {w p : Parameter} (h : Writes w p) (hp : ∀ c ∈ p.key, isWord c = true) :
    w.Sound := ⟨by rwa [h.1], h.2.isSafe⟩

/-! ### Finding the block -/

theorem dropWhile_append_cons {d : Char} {x : Text} (h : d ∉ x) (y : Text) :
    (x ++ d :: y).dropWhile (· ≠ d) = d :: y := by
  have hx : ∀ c ∈ x, (decide (c ≠ d)) = true := fun c hc =>
    decide_eq_true fun heq => h (heq ▸ hc)
  rw [List.dropWhile_append_of_pos hx, List.dropWhile_cons_of_neg (by simp)]

theorem takeWhile_append_cons {d : Char} {x : Text} (h : d ∉ x) (y : Text) :
    (x ++ d :: y).takeWhile (· ≠ d) = x := by
  have hx : ∀ c ∈ x, (decide (c ≠ d)) = true := fun c hc =>
    decide_eq_true fun heq => h (heq ▸ hc)
  rw [List.takeWhile_append_of_pos hx, List.takeWhile_cons_of_neg (by simp), List.append_nil]

theorem cutBlock?_append {before inside : Text} (hb : '{' ∉ before) (hi : '}' ∉ inside)
    (after : Text) :
    cutBlock? (before ++ '{' :: (inside ++ '}' :: after)) = some ⟨before, inside, after⟩ := by
  rw [cutBlock?, dropWhile_append_cons hb, takeWhile_append_cons hb]
  simp only
  rw [dropWhile_append_cons hi, takeWhile_append_cons hi]

/-! ### Reading it -/

theorem pairsFrom_eq_drop : ∀ (skip : Nat) (s : Text), pairsFrom skip [] s = pairs (s.drop skip)
  | 0, _ => rfl
  | skip + 1, [] => by simp [pairs, pairsFrom]
  | skip + 1, _ :: s => by rw [pairsFrom, pairsFrom_eq_drop skip s, List.drop_succ_cons]

theorem pairsFrom_key : ∀ {key : Text}, (∀ c ∈ key, isWord c = true) → ∀ (run s : Text),
    pairsFrom 0 run (key ++ s) = pairsFrom 0 (key.reverse ++ run) s
  | [], _, _, _ => rfl
  | c :: key, h, run, s => by
    obtain ⟨hc, hkey⟩ := List.forall_mem_cons.1 h
    have hne : c ≠ '=' := by
      rintro rfl
      exact absurd hc (by decide)
    rw [List.cons_append, pairsFrom, if_neg hne, if_pos hc, pairsFrom_key hkey]
    simp

/-- A key with its equals sign, and a value up to its end, are read at once. -/
theorem pairs_of_key {key : Text} (h : ∀ c ∈ key, isWord c = true) (s : Text) :
    pairs (key ++ '=' :: s) = ⟨key, s.takeWhile inValue⟩ :: pairs (s.dropWhile inValue) := by
  have hdrop : s.drop (s.takeWhile inValue).length = s.dropWhile inValue := by
    have hsplit : s.takeWhile inValue ++ s.dropWhile inValue = s :=
      List.takeWhile_append_dropWhile
    nth_rewrite 2 [← hsplit]
    exact List.drop_left
  rw [pairs, pairsFrom_key h, pairsFrom, if_pos rfl]
  simp only [List.append_nil, List.reverse_reverse]
  rw [pairsFrom_eq_drop, hdrop]

/-- A character that is in no key and ends none is passed over. -/
theorem pairs_cons {c : Char} (hne : c ≠ '=') (hc : isWord c = false) (s : Text) :
    pairs (c :: s) = pairs s := by
  rw [pairs, pairsFrom, if_neg hne, if_neg (by rw [hc]; decide), pairs]

/-- A character of a block is no character that stands only around it. -/
theorem ne_of_isSafe {c d : Char} (h : Percent.isSafe c = true) (hd : Percent.isSafe d = false) :
    c ≠ d := by
  rintro rfl
  rw [h] at hd
  cases hd

theorem inValue_of_isSafe {c : Char} (h : Percent.isSafe c = true) : inValue c = true := by
  simp [inValue, ne_of_isSafe h (d := ';') rfl, ne_of_isSafe h (d := '}') rfl]

/-- A written parameter is read up to a character that is in no value. -/
theorem pairs_write {w : Parameter} (h : w.Sound) {d : Char} (hd : inValue d = false) (s : Text) :
    pairs (w.write ++ d :: s) = w :: pairs (d :: s) := by
  obtain ⟨key, value⟩ := w
  have hvalue : ∀ c ∈ value, inValue c = true := fun c hc => inValue_of_isSafe (h.2 c hc)
  rw [write, List.append_assoc, List.cons_append, pairs_of_key h.1,
    List.takeWhile_append_of_pos hvalue, List.takeWhile_cons_of_neg (by simp [hd]),
    List.append_nil, List.dropWhile_append_of_pos hvalue, List.dropWhile_cons_of_neg (by simp [hd])]

theorem pairs_joinWith : ∀ {ws : List Parameter}, (∀ w ∈ ws, w.Sound) →
    pairs (Text.joinWith [';'] (ws.map write) ++ ['}']) = ws
  | [], _ => rfl
  | [w], h => by
    have hw := pairs_write (h w (by simp)) (d := '}') rfl []
    simpa [Text.joinWith, pairs_cons, pairs, pairsFrom] using hw
  | w :: w' :: ws, h => by
    obtain ⟨hw, hws⟩ := List.forall_mem_cons.1 h
    have hjoin : Text.joinWith [';'] ((w :: w' :: ws).map write) ++ ['}'] =
        w.write ++ ';' :: (Text.joinWith [';'] ((w' :: ws).map write) ++ ['}']) := by
      simp [Text.joinWith]
    rw [hjoin, pairs_write hw rfl, pairs_cons (by decide) (by decide), pairs_joinWith hws]

theorem pairs_writeBlock {ws : List Parameter} (h : ∀ w ∈ ws, w.Sound) :
    pairs (writeBlock ws) = ws := by
  rw [writeBlock, List.cons_append, pairs_cons (by decide) (by decide), pairs_joinWith h]

/-! ### Keys -/

theorem put_of_not_mem {p : Parameter} : ∀ {ps : List Parameter}, p.key ∉ ps.map key →
    put p ps = ps ++ [p]
  | [], _ => rfl
  | q :: ps, h => by
    rw [List.map_cons, List.mem_cons, not_or] at h
    rw [put, if_neg (Ne.symm h.1), put_of_not_mem h.2, List.cons_append]

theorem foldl_put {f : Parameter → Parameter} : ∀ {ws ps : List Parameter},
    (ps.map key ++ ws.map fun w => (f w).key).Nodup →
    ws.foldl (fun ps w => put (f w) ps) ps = ps ++ ws.map f
  | [], ps, _ => by simp
  | w :: ws, ps, h => by
    have hw : (f w).key ∉ ps.map key := fun hmem =>
      (List.nodup_append.1 h).2.2 _ hmem _ (by simp) rfl
    rw [List.foldl_cons, put_of_not_mem hw, foldl_put (by simpa using h)]
    simp

/-! ### The characters of a block -/

/-- A character of a written block, its braces apart. -/
def isInside (c : Char) : Bool := c = ';' || c = '=' || isWord c || Percent.isSafe c

theorem isInside_of_mem {ws : List Parameter} (h : ∀ w ∈ ws, w.Sound) :
    ∀ c ∈ Text.joinWith [';'] (ws.map write), isInside c = true := by
  intro c hc
  rcases mem_intercalate hc with hc | ⟨x, hx, hc⟩
  · rw [List.mem_singleton.1 hc]
    rfl
  · obtain ⟨w, hw, rfl⟩ := List.mem_map.1 hx
    rcases List.mem_append.1 hc with hc | hc
    · simp [isInside, (h w hw).1 c hc]
    · rcases List.mem_cons.1 hc with rfl | hc
      · rfl
      · simp [isInside, (h w hw).2 c hc]

theorem not_mem_of_isInside {ws : List Parameter} (h : ∀ w ∈ ws, w.Sound) {d : Char}
    (hd : isInside d = false) : d ∉ Text.joinWith [';'] (ws.map write) := by
  intro hmem
  rw [isInside_of_mem h d hmem] at hd
  cases hd

/-- A standard marker has no character of a block. -/
theorem not_mem_standard {ws : List Parameter} (h : ∀ w ∈ ws, w.Sound) (k : Mark) :
    ∀ c ∈ writeBlock ws, c ∉ Markers.standard.text k := by
  intro c hc hk
  have hmark : isInside c = false ∧ c ≠ '{' ∧ c ≠ '}' := by
    cases k <;> rw [List.mem_singleton.1 hk] <;> decide
  have hmem : c ∈ Text.joinWith [';'] (ws.map write) := by
    simpa [writeBlock, hmark.2.1, hmark.2.2] using hc
  exact not_mem_of_isInside h hmark.1 hmem

/-! ### A field that carries a block -/

theorem cutBlock?_writeBlock {ws : List Parameter} (h : ∀ w ∈ ws, w.Sound) {head : Text}
    (hhead : '{' ∉ head) (r : Text) : cutBlock? (head ++ writeBlock ws ++ r) =
      some ⟨head, Text.joinWith [';'] (ws.map write), r⟩ := by
  have hcut := cutBlock?_append hhead (not_mem_of_isInside h (d := '}') rfl) r
  simpa [writeBlock] using hcut

theorem strip_writeBlock {ws : List Parameter} (h : ∀ w ∈ ws, w.Sound) {head : Text}
    (hhead : '{' ∉ head) (r : Text) : strip (head ++ writeBlock ws ++ r) = head ++ r := by
  rw [strip, cutBlock?_writeBlock h hhead]

/-- The first block of a field is read, whatever comes behind it. -/
theorem read_writeBlock {ws : List Parameter} (h : ∀ w ∈ ws, w.Sound)
    (hkeys : (ws.map key).Nodup) {head : Text} (hhead : '{' ∉ head) (r : Text) :
    read true (head ++ writeBlock ws ++ r) = ws.map decoded := by
  have hpairs : pairs (Cut.block ⟨head, Text.joinWith [';'] (ws.map write), r⟩) = ws :=
    pairs_writeBlock h
  rw [read, cutBlock?_writeBlock h hhead]
  simp only [hpairs, if_true]
  exact @foldl_put decoded ws [] hkeys

/-! ### Written parameters -/

section Written

variable {ws ps : List Parameter} (hw : List.Forall₂ Writes ws ps)
include hw

theorem map_key_of_writes : ws.map key = ps.map key := by
  induction hw with
  | nil => rfl
  | cons h _ ih => rw [List.map_cons, List.map_cons, h.1, ih]

theorem map_decoded_of_writes : ws.map decoded = ps := by
  induction hw with
  | nil => rfl
  | cons h _ ih => rw [List.map_cons, h.decoded_eq, ih]

theorem sound_of_writes (hword : ∀ p ∈ ps, ∀ c ∈ p.key, isWord c = true) : ∀ w ∈ ws, w.Sound := by
  induction hw with
  | nil => simp
  | cons h _ ih =>
    obtain ⟨hp, hps⟩ := List.forall_mem_cons.1 hword
    exact List.forall_mem_cons.2 ⟨h.sound hp, ih hps⟩

end Written

/-! ### A block in a selection -/

/-- A selection whose text has no character of a marker has the paths that it means. -/
theorem paths_write {m : Markers} {sel : Selection} (h : sel.Clean m) (hne : sel.write m ≠ [])
    (default : List Text) : paths m default (some (sel.write m)) = .done sel.meaning := by
  have hsymbols := symbols_write h
  have hseamless := seamless_of_inert hsymbols fun _ => Token.inert_of_clean h
  have hmeaning : meaning (tokenize m (sel.write m)) = some sel.meaning := by
    rw [← meaning_symbols, hsymbols, meaning, meaningFrom_fine, ← meaning, sel.meaning_tokens]
  obtain ⟨n, t, -, -, -, -, hpaths⟩ := hseamless.ends_in_meaning hmeaning
  exact hpaths hne default

/-- **Parameters ride along.** Behind a text without markers and without a brace, parameters
with different keys are written as a block, and a rest of a segment follows. The paths are
those of the rest, each behind the text and the block; of whatever stands there, blocks
included, each gives the parameters back as they were, and the text without the block. -/
theorem paths_writeBlock {head : Text} {ws ps : List Parameter} {rest : Segment}
    (hbrace : '{' ∉ head) (hhead : ∀ c ∈ head, ∀ k, c ∉ Markers.standard.text k)
    (hkeys : (ps.map key).Nodup) (hword : ∀ p ∈ ps, ∀ c ∈ p.key, isWord c = true)
    (hw : List.Forall₂ Writes ws ps) (hrest : (Selection.one rest).Clean .standard) :
    (paths .standard [] (some (head ++ writeBlock ws ++ (Selection.one rest).write .standard)) =
        .done (rest.meaning.map fun r => head ++ writeBlock ws ++ r) ∧
      ((Selection.one rest).write .standard ≠ [] →
        paths .standard [] (some ((Selection.one rest).write .standard)) = .done rest.meaning)) ∧
      ∀ r, read true (head ++ writeBlock ws ++ r) = ps ∧
        strip (head ++ writeBlock ws ++ r) = head ++ r := by
  have hsound := sound_of_writes hw hword
  refine ⟨⟨?_, fun hne => paths_write hrest hne []⟩, fun r => ⟨?_, strip_writeBlock hsound hbrace r⟩⟩
  · have hclean : (Selection.one (.text (head ++ writeBlock ws) rest)).Clean .standard := by
      intro s hs c hc k
      rcases List.mem_cons.1 hs with hs | hs
      · obtain rfl := Token.text.inj hs
        rcases List.mem_append.1 hc with hc | hc
        · exact hhead c hc k
        · exact not_mem_standard hsound k c hc
      · exact hrest s hs c hc k
    have hpaths := paths_write hclean (by simp [Selection.write, Selection.tokens, Segment.tokens,
      Token.write, writeBlock]) []
    simpa [Selection.meaning, Segment.meaning, Selection.write, Selection.tokens, Segment.tokens,
      Token.write, Function.comp_def] using hpaths
  · have hnodup : (ws.map key).Nodup := by rwa [map_key_of_writes hw]
    rw [read_writeBlock hsound hnodup hbrace, map_decoded_of_writes hw]

/-- Two parameters, one of them with neither a key nor a value. -/
def mixed : List Parameter := [⟨['s'], ['+', ' ', 'é']⟩, ⟨[], []⟩]

/-- The two as they may be written: with an escaped plus, a plus for the blank, and small
letters for digits. -/
def mixedWritten : List Parameter :=
  [⟨['s'], ['%', '2', 'B', '+', '%', 'c', '3', '%', 'a', '9']⟩, ⟨[], []⟩]

theorem writes_mixed : List.Forall₂ Writes mixedWritten mixed :=
  .cons ⟨rfl, .escape rfl rfl (.blank (.escape rfl rfl (.escape rfl rfl .nil)))⟩
    (.cons ⟨rfl, .nil⟩ .nil)

/-- A group behind the block, with a block of its own in one alternative. -/
theorem paths_writeBlock_mixed :
    paths .standard [] (some ('i' :: writeBlock mixedWritten ++
        ['.', '(', 'a', ',', 'b', '{', 'y', '=', '}', ')'])) =
      .done [['i'] ++ writeBlock mixedWritten ++ ['.', 'a'],
        ['i'] ++ writeBlock mixedWritten ++ ['.', 'b', '{', 'y', '=', '}']] ∧
      read true (['i'] ++ writeBlock mixedWritten ++ ['.', 'b', '{', 'y', '=', '}']) = mixed ∧
      strip (['i'] ++ writeBlock mixedWritten ++ ['.', 'b', '{', 'y', '=', '}']) =
        ['i', '.', 'b', '{', 'y', '=', '}'] := by
  have hhead : ∀ c ∈ ['i'], ∀ k, c ∉ Markers.standard.text k := by
    intro c hc k
    rw [List.mem_singleton.1 hc]
    cases k <;> decide
  have hword : ∀ p ∈ mixed, p.key.all isWord = true := by decide
  obtain ⟨⟨hpaths, -⟩, hread⟩ := @paths_writeBlock ['i'] mixedWritten mixed
    (.text ['.'] (.group (.more (.text ['a'] .nil)
      (.one (.text ['b', '{', 'y', '=', '}'] .nil))) .nil))
    (by decide) hhead (by decide) (fun p hp => List.all_eq_true.1 (hword p hp)) writes_mixed
    (by decide)
  exact ⟨hpaths, hread _⟩

end Parameter
end FieldSelection
