/-
# Lines and their cells

A report in lines is read back by two cuts: at the newlines, which gives the items, and each line at
the tabs, which gives its head and its parameters (`CutsBack`). This works if and only if no newline
and no tab stands in a head or in a parameter (`cutsBack_iff`); one that does can only add lines or
cells, for nothing takes it back.

A record has its head and its keys from a field, letter by letter (`Parameter.strip_sublist`,
`Parameter.mem_of_mem_read`). Its values are from there as well unless they are decoded. So the
records of fields that hold neither a newline nor a tab are read back with their values as written,
and with decoded values just where no value is written with an escape of the two
(`cutsBack_records_iff`).

Key definitions: `Report.Item.cells`, `Report.FitsCell`, `Report.CutsBack`.
Key theorems: `Report.cutsBack_iff`, `Report.cutsBack_records_iff`.
-/
import FieldSelection.Proofs.Escape
import FieldSelection.Proofs.Symbols
import FieldSelection.Report

namespace FieldSelection

/-! ### Cutting at one character -/

namespace Text

variable {d : Char}

/-- What is cut at a separator holds none of it. -/
theorem not_mem_of_mem_splitOn : ∀ {s x : Text}, x ∈ splitOn [d] s → d ∉ x
  | [], x, hx => by
    obtain rfl : x = [] := List.mem_singleton.1 hx
    exact List.not_mem_nil
  | c :: s, x, hx => by
    by_cases hc : d = c
    · subst hc
      have hcut : splitOn [d] (d :: s) = [] :: splitOn [d] s :=
        splitOn_append_cons List.not_mem_nil s
      rw [hcut] at hx
      rcases List.mem_cons.1 hx with rfl | hx
      · exact List.not_mem_nil
      · exact not_mem_of_mem_splitOn hx
    · have hjoin := splitOn_append_left (x := [c]) (by simpa using hc) s
      rw [List.singleton_append] at hjoin
      rw [hjoin] at hx
      have ih : ∀ y ∈ splitOn [d] s, d ∉ y := fun y hy => not_mem_of_mem_splitOn hy
      cases hs : splitOn [d] s with
      | nil =>
        rw [hs] at hx
        cases hx
      | cons y ys =>
        rw [hs] at hx ih
        rcases List.mem_cons.1 hx with rfl | hx
        · simpa [hc] using ih y List.mem_cons_self
        · exact ih x (List.mem_cons_of_mem _ hx)

/-- **Joining is undone by cutting** where no piece holds the separator. -/
theorem splitOn_joinWith : ∀ {xs : List Text}, xs ≠ [] → (∀ x ∈ xs, d ∉ x) →
    splitOn [d] (joinWith [d] xs) = xs
  | [], hne, _ => absurd rfl hne
  | [x], _, h => by
    rw [joinWith, List.intercalate_singleton]
    exact splitOn_of_not_mem (h x List.mem_cons_self)
  | x :: y :: xs, _, h => by
    have ih : splitOn [d] (joinWith [d] (y :: xs)) = y :: xs :=
      splitOn_joinWith (List.cons_ne_nil y xs) fun z hz => h z (List.mem_cons_of_mem _ hz)
    unfold joinWith at ih ⊢
    rw [List.intercalate_cons_cons, List.append_assoc, List.singleton_append,
      splitOn_append_cons (h x List.mem_cons_self), ih]

theorem joinWith_cons (x : Text) : ∀ xs : List Text,
    joinWith [d] (x :: xs) = x ++ xs.flatMap (d :: ·)
  | [] => by simp [joinWith]
  | y :: ys => by
    have ih := joinWith_cons y ys
    unfold joinWith at ih ⊢
    rw [List.intercalate_cons_cons, ih]
    simp

theorem mem_joinWith_iff {c : Char} (hc : c ≠ d) {xs : List Text} :
    c ∈ joinWith [d] xs ↔ ∃ x ∈ xs, c ∈ x := by
  cases xs with
  | nil => simp [joinWith]
  | cons y ys => simp [joinWith_cons, hc]

end Text

namespace Report

/-! ### Cutting a report -/

/-- The cells of an item's line: its head, and each of its parameters. -/
def Item.cells : Item → List Text
  | .plain s => [s]
  | .path s _ ps => s :: ps.map Parameter.write
  | .field s ps => s :: ps.map Parameter.write

/-- A text that can stand in a cell of a line. -/
def FitsCell (s : Text) : Prop := '\n' ∉ s ∧ '\t' ∉ s

instance (s : Text) : Decidable (FitsCell s) := inferInstanceAs (Decidable (_ ∧ _))

/-- A report in lines has one newline for each item, and its line at the index of an item, cut at
the tabs, gives the cells of the item. -/
structure CutsBack (items : List Item) : Prop where
  newlines : (lines items).count '\n' = items.length
  cells : ∀ (i : Nat) (item : Item), items[i]? = some item → ∃ l,
    (Text.splitOn ['\n'] (lines items))[i]? = some l ∧ Text.splitOn ['\t'] l = item.cells

theorem line_eq_joinWith (i : Item) : line i = Text.joinWith ['\t'] i.cells := by
  cases i with
  | plain s => simp [line, Item.cells, Text.joinWith]
  | path s f ps => simp only [line, withParams, Item.cells, Text.joinWith_cons, List.flatMap_map]
  | field s ps => simp only [line, withParams, Item.cells, Text.joinWith_cons, List.flatMap_map]

theorem cells_ne_nil (i : Item) : i.cells ≠ [] := by
  cases i <;> exact List.cons_ne_nil _ _

theorem count_newline_cons (i : Item) (items : List Item) : (lines (i :: items)).count '\n' =
    (line i).count '\n' + (lines items).count '\n' + 1 := by
  unfold lines
  rw [List.flatMap_cons, List.count_append, List.count_append, List.count_singleton_self]
  omega

theorem length_le_count_newline : ∀ items : List Item, items.length ≤ (lines items).count '\n'
  | [] => Nat.le_refl 0
  | i :: items => by
    have ih := length_le_count_newline items
    rw [count_newline_cons, List.length_cons]
    omega

/-- A newline in a line is one too many. -/
theorem count_newline_iff : ∀ {items : List Item},
    (lines items).count '\n' = items.length ↔ ∀ i ∈ items, '\n' ∉ line i
  | [] => by simp [lines]
  | i :: items => by
    have hle := length_le_count_newline items
    rw [List.forall_mem_cons, ← count_newline_iff, ← List.count_eq_zero, count_newline_cons,
      List.length_cons]
    omega

/-- Lines without a newline in them are what the report is cut into, and nothing is behind them. -/
theorem splitOn_lines : ∀ {items : List Item}, (∀ i ∈ items, '\n' ∉ line i) →
    Text.splitOn ['\n'] (lines items) = items.map line ++ [[]]
  | [], _ => rfl
  | i :: items, h => by
    have ih := splitOn_lines fun j hj => h j (List.mem_cons_of_mem _ hj)
    unfold lines at ih ⊢
    rw [List.flatMap_cons, List.append_assoc, List.singleton_append,
      Text.splitOn_append_cons (h i List.mem_cons_self), ih, List.map_cons, List.cons_append]

theorem getElem?_splitOn_lines {items : List Item} (h : ∀ i ∈ items, '\n' ∉ line i) {i : Nat}
    {item : Item} (hi : items[i]? = some item) :
    (Text.splitOn ['\n'] (lines items))[i]? = some (line item) := by
  have hlt : i < (items.map line).length := by
    rw [List.length_map]
    exact (List.getElem?_eq_some_iff.1 hi).1
  rw [splitOn_lines h, List.getElem?_append_left hlt, List.getElem?_map, hi]
  rfl

/-- **A report is cut back** if and only if each of its cells can stand in a line. -/
theorem cutsBack_iff {items : List Item} :
    CutsBack items ↔ ∀ i ∈ items, ∀ x ∈ i.cells, FitsCell x := by
  constructor
  · intro h item hitem x hx
    have hline := count_newline_iff.1 h.newlines
    obtain ⟨i, hi⟩ := List.mem_iff_getElem?.1 hitem
    obtain ⟨l, hl, hcells⟩ := h.cells i item hi
    rw [getElem?_splitOn_lines hline hi, Option.some.injEq] at hl
    subst hl
    refine ⟨fun hc => hline item hitem ?_, ?_⟩
    · rw [line_eq_joinWith, Text.mem_joinWith_iff (by decide)]
      exact ⟨x, hx, hc⟩
    · rw [← hcells] at hx
      exact Text.not_mem_of_mem_splitOn hx
  · intro h
    have hline : ∀ i ∈ items, '\n' ∉ line i := by
      intro i hi hmem
      rw [line_eq_joinWith, Text.mem_joinWith_iff (by decide)] at hmem
      obtain ⟨x, hx, hc⟩ := hmem
      exact (h i hi x hx).1 hc
    refine ⟨count_newline_iff.2 hline, fun i item hi =>
      ⟨line item, getElem?_splitOn_lines hline hi, ?_⟩⟩
    rw [line_eq_joinWith]
    exact Text.splitOn_joinWith (cells_ne_nil item) fun x hx =>
      (h item (List.mem_of_getElem? hi) x hx).2

end Report

/-! ### What a field gives -/

namespace Parameter

/-- A field is what stands before its block, the block, and what stands behind it. -/
theorem eq_of_cutBlock? {field : Text} {c : Cut} (h : cutBlock? field = some c) :
    field = c.before ++ (c.block ++ c.after) := by
  unfold cutBlock? at h
  split at h
  · cases h
  · rename_i b opened hopened
    split at h
    · cases h
    · rename_i e after hclosed
      obtain rfl := Option.some.inj h
      have hopen : '{' ∈ field := by
        by_contra hnot
        rw [dropWhile_of_not_mem hnot] at hopened
        cases hopened
      have hclose : '}' ∈ opened := by
        by_contra hnot
        rw [dropWhile_of_not_mem hnot] at hclosed
        cases hclosed
      have hfield := eq_append_of_mem hopen
      have hinside := eq_append_of_mem hclose
      rw [hopened, List.tail_cons] at hfield
      rw [hclosed, List.tail_cons] at hinside
      calc field = field.takeWhile (· ≠ '{') ++ '{' :: opened := hfield
        _ = field.takeWhile (· ≠ '{') ++ '{' :: (opened.takeWhile (· ≠ '}') ++ '}' :: after) := by
          rw [← hinside]
        _ = _ := by simp [Cut.block]

/-- Without its block a field has some of its characters, in order. -/
theorem strip_sublist (field : Text) : (strip field).Sublist field := by
  unfold strip
  cases hc : cutBlock? field with
  | none => exact List.Sublist.refl field
  | some c =>
    have hcut : (c.before ++ c.after).Sublist (c.before ++ (c.block ++ c.after)) :=
      (List.sublist_append_right c.block c.after).append_left c.before
    rwa [← eq_of_cutBlock? hc] at hcut

theorem mem_of_mem_settled {ps : List Parameter} {p : Parameter} (h : p ∈ settled ps) : p ∈ ps := by
  obtain ⟨k, -, hk⟩ := List.mem_filterMap.1 h
  exact List.mem_reverse.1 (List.mem_of_find?_eq_some hk)

/-- **What is read off a field** as it is written: keys of word characters, and values of
characters of the field. -/
theorem mem_of_mem_read {field : Text} {p : Parameter} (h : p ∈ read false field) :
    (∀ c ∈ p.key, isWord c = true) ∧ ∀ c ∈ p.value, c ∈ field := by
  rw [read_false_eq, readPlainly] at h
  cases hinside : inside? field with
  | none =>
    rw [hinside] at h
    cases h
  | some inside =>
    rw [hinside] at h
    obtain ⟨piece, hpiece, hp⟩ := List.mem_filterMap.1 (mem_of_mem_settled h)
    obtain ⟨x, hx, -, hword, -⟩ := exists_of_ofPiece? hp
    obtain ⟨before, after, hfield, -⟩ := inside?_eq_some_iff.1 hinside
    refine ⟨hword, fun c hc => ?_⟩
    have hcpiece : c ∈ piece := by
      rw [hx]
      simp [hc]
    have hcinside : c ∈ inside := (mem_of_mem_splitOn hpiece c hcpiece).1
    rw [hfield]
    simp [hcinside]

end Parameter

namespace Report

theorem FitsCell.sublist {s t : Text} (h : FitsCell t) (hs : s.Sublist t) : FitsCell s :=
  ⟨fun hc => h.1 (hs.subset hc), fun hc => h.2 (hs.subset hc)⟩

theorem fitsCell_write {p : Parameter} : FitsCell p.write ↔ FitsCell p.key ∧ FitsCell p.value := by
  simp only [FitsCell, Parameter.write, List.mem_append, List.mem_cons, not_or, Char.reduceEq,
    not_false_eq_true, true_and]
  exact and_and_and_comm

theorem fitsCell_of_isWord {k : Text} (h : ∀ c ∈ k, Parameter.isWord c = true) : FitsCell k :=
  ⟨fun hc => absurd (h _ hc) (by decide), fun hc => absurd (h _ hc) (by decide)⟩

theorem fitsCell_decode {v : Text} (h : FitsCell v) : FitsCell (Percent.decode v) ↔
    ¬ Percent.Escapes '\n' v ∧ ¬ Percent.Escapes '\t' v := by
  unfold FitsCell
  rw [Percent.mem_decode_iff (by decide), Percent.mem_decode_iff (by decide), or_iff_right h.1,
    or_iff_right h.2]

/-- The parameters of a field that can stand in a cell can do so as well, unless decoding brings a
newline or a tab in. -/
theorem fitsCell_params {s : Text} (hs : FitsCell s) (decode : Bool) :
    (∀ p ∈ Parameter.read decode s, FitsCell p.write) ↔ decode = false ∨
      ∀ p ∈ Parameter.read false s,
        ¬ Percent.Escapes '\n' p.value ∧ ¬ Percent.Escapes '\t' p.value := by
  have hraw : ∀ p ∈ Parameter.read false s, FitsCell p.key ∧ FitsCell p.value := by
    intro p hp
    obtain ⟨hkey, hvalue⟩ := Parameter.mem_of_mem_read hp
    exact ⟨fitsCell_of_isWord hkey, fun hc => hs.1 (hvalue _ hc), fun hc => hs.2 (hvalue _ hc)⟩
  cases decode with
  | false => exact iff_of_true (fun p hp => fitsCell_write.2 (hraw p hp)) (.inl rfl)
  | true =>
    rw [Parameter.read_true_eq, List.forall_mem_map, or_iff_right (by decide)]
    refine forall₂_congr fun p hp => ?_
    calc FitsCell p.decoded.write
        ↔ FitsCell p.key ∧ FitsCell (Percent.decode p.value) := fitsCell_write
      _ ↔ FitsCell (Percent.decode p.value) := and_iff_right (hraw p hp).1
      _ ↔ _ := fitsCell_decode (hraw p hp).2

/-- **The records of fields are cut back** out of their lines if and only if their values are as
written, or none of those that are decoded is written with an escape of a newline or a tab. The
fields themselves hold neither; the value of a key that comes again is the last one. -/
theorem cutsBack_records_iff {fields : List Text} (h : ∀ s ∈ fields, FitsCell s) (decode : Bool)
    {record : Bool → Text → Item} (hrecord : record = Item.ofPath ∨ record = Item.ofField) :
    CutsBack (fields.map (record decode)) ↔ decode = false ∨
      ∀ s ∈ fields, ∀ p ∈ Parameter.read false s,
        ¬ Percent.Escapes '\n' p.value ∧ ¬ Percent.Escapes '\t' p.value := by
  have hcells : ∀ s ∈ fields, ((∀ x ∈ (record decode s).cells, FitsCell x) ↔
      decode = false ∨ ∀ p ∈ Parameter.read false s,
        ¬ Percent.Escapes '\n' p.value ∧ ¬ Percent.Escapes '\t' p.value) := by
    intro s hs
    have hstrip : FitsCell (Parameter.strip s) := (h s hs).sublist (Parameter.strip_sublist s)
    rcases hrecord with rfl | rfl
    · show (∀ x ∈ s :: (Parameter.read decode s).map Parameter.write, FitsCell x) ↔ _
      rw [List.forall_mem_cons, and_iff_right (h s hs), List.forall_mem_map,
        fitsCell_params (h s hs)]
    · show (∀ x ∈ Parameter.strip s :: (Parameter.read decode s).map Parameter.write,
        FitsCell x) ↔ _
      rw [List.forall_mem_cons, and_iff_right hstrip, List.forall_mem_map, fitsCell_params (h s hs)]
  rw [cutsBack_iff, List.forall_mem_map, forall₂_congr hcells]
  cases decode with
  | false => simp
  | true => simp

/-- A key twice, with an escape of a newline in the value that does not count, and a path behind
the block: `a{k=%0a;k=%2Fb+%}.c`. -/
def retaken : Text :=
  ['a', '{', 'k', '=', '%', '0', 'a', ';', 'k', '=', '%', '2', 'F', 'b', '+', '%', '}', '.', 'c']

theorem cutsBack_records_retaken : (∀ s ∈ [retaken], FitsCell s) ∧
    CutsBack ([retaken].map (Item.ofField true)) ∧
    lines ([retaken].map (Item.ofField true)) =
      ['a', '.', 'c', '\t', 'k', '=', '/', 'b', ' ', '%', '\n'] := by
  have hfits : ∀ s ∈ [retaken], FitsCell s := by decide
  have hread : Parameter.read false retaken = [⟨['k'], ['%', '2', 'F', 'b', '+', '%']⟩] := by decide
  refine ⟨hfits, (cutsBack_records_iff hfits true (.inr rfl)).2 (.inr ?_), by decide⟩
  intro s hs p hp
  obtain rfl := List.mem_singleton.1 hs
  rw [hread] at hp
  obtain rfl := List.mem_singleton.1 hp
  exact (fitsCell_decode (by decide)).1 (by decide)

/-- A field with an escape of a newline in its value: `a{x=1%0A2}`. -/
def broken : Text := ['a', '{', 'x', '=', '1', '%', '0', 'A', '2', '}']

/-- Its record takes two lines, and no line is the record's. -/
theorem not_cutsBack_broken : FitsCell broken ∧
    lines [Item.ofField true broken] = ['a', '\t', 'x', '=', '1', '\n', '2', '\n'] ∧
    ¬ CutsBack [Item.ofField true broken] := by
  refine ⟨by decide, by decide, fun h => ?_⟩
  have hcount : (lines [Item.ofField true broken]).count '\n' = 2 := by decide
  rw [h.newlines] at hcount
  cases hcount

end Report
end FieldSelection
