/-
# Selections on the lines of the input

A call for an expansion takes its selections from its arguments, behind two hyphens, or
from the lines of its input. The two ways are the same: arguments in front of the hyphens
are read as they are without them (`Arguments.readFrom_append`), and the lines of a text
that was written one selection a line, with blank lines wherever one likes, are the
selections that are not empty (`inputLines_of_lined`). An empty selection among the
arguments has no paths, so that it does not matter that the input cannot name one
(`pathsOfAll_filter`).

Key definitions: `Arguments.Inputless`, `Lined`.
Key theorem: `Command.respond_lines`.
-/
import FieldSelection.Proofs.Batch
import FieldSelection.Proofs.Symbols
import FieldSelection.Proofs.Utf8

namespace FieldSelection

/-! ### Arguments behind two hyphens -/

/-- Two hyphens alone, behind which all arguments are inputs. -/
def hyphens : Text := ['-', '-']

namespace Arguments

/-- **Behind the command, two hyphens add the arguments that follow to the inputs**, and change
nothing else, whether the arguments in front can be read or not. -/
theorem readFrom_append {p : Place} (hp : p ≠ .start) (xs : List Text) :
    ∀ (waiting : Option Switch) (o : Options) (as : List Text), hyphens ∉ as →
      readFrom p waiting o (as ++ hyphens :: xs) =
        (readFrom p waiting o as).map fun r => ({ r.1 with inputs := r.1.inputs ++ xs }, r.2)
  | none, o, [], _ => by
    rw [List.nil_append, readFrom, readFrom, if_pos (show hyphens = ['-', '-'] from rfl), if_neg hp]
    rfl
  | some s, o, [], _ => by
    rw [List.nil_append]
    rfl
  | some s, o, a :: as, h => by
    have has : hyphens ∉ as := fun hm => h (List.mem_cons_of_mem a hm)
    rw [List.cons_append, readFrom, readFrom]
    split
    · rfl
    · cases o.set a s with
      | error e => rfl
      | ok o' => exact readFrom_append hp xs none o' as has
  | none, o, a :: as, h => by
    have has : hyphens ∉ as := fun hm => h (List.mem_cons_of_mem a hm)
    have hne : a ≠ ['-', '-'] := fun he => h (he ▸ List.mem_cons_self)
    have hstart : ¬ (p = .start ∧ ¬ isOption a) := fun hs => hp hs.1
    rw [List.cons_append, readFrom, readFrom, if_neg hne, if_neg hne, if_neg hstart, if_neg hstart]
    split
    · exact readFrom_append hp xs _ _ as has
    · rfl

/-- What the arguments in front of two hyphens say before the command does not depend on what
stands behind. -/
theorem readFrom_start_append (xs : List Text) :
    ∀ (waiting : Option Switch) (o : Options) (as : List Text), hyphens ∉ as →
      (∃ h, readFrom .start waiting o as = .error h ∧
        readFrom .start waiting o (as ++ hyphens :: xs) = .error h) ∨
      (∃ outer, readFrom .start waiting o as = .ok (outer, []) ∧
        readFrom .start waiting o (as ++ hyphens :: xs) = .error .usage) ∨
      ∃ outer name rest, hyphens ∉ rest ∧
        readFrom .start waiting o as = .ok (outer, name :: rest) ∧
        readFrom .start waiting o (as ++ hyphens :: xs) =
          .ok (outer, name :: (rest ++ hyphens :: xs))
  | none, o, [], _ => .inr (.inl ⟨o, rfl, rfl⟩)
  | some s, o, [], _ => .inl ⟨.usage, rfl, rfl⟩
  | some s, o, a :: as, h => by
    have has : hyphens ∉ as := fun hm => h (List.mem_cons_of_mem a hm)
    rw [List.cons_append, readFrom, readFrom]
    split
    · exact .inl ⟨.usage, rfl, rfl⟩
    · cases o.set a s with
      | error e => exact .inl ⟨e, rfl, rfl⟩
      | ok o' => exact readFrom_start_append xs none o' as has
  | none, o, a :: as, h => by
    have has : hyphens ∉ as := fun hm => h (List.mem_cons_of_mem a hm)
    have hne : a ≠ ['-', '-'] := fun he => h (he ▸ List.mem_cons_self)
    rw [List.cons_append, readFrom, readFrom, if_neg hne, if_neg hne]
    by_cases hname : isOption a
    · have hstart : ¬ (Place.start = .start ∧ ¬ isOption a) := fun hs => hs.2 hname
      rw [if_neg hstart, if_neg hstart]
      split
      · exact readFrom_start_append xs _ _ as has
      · next e _ => exact .inl ⟨e, rfl, rfl⟩
    · have hstart : Place.start = .start ∧ ¬ isOption a := ⟨rfl, hname⟩
      rw [if_pos hstart, if_pos hstart]
      exact .inr (.inr ⟨o, a, as, has, rfl, rfl⟩)

/-- The arguments hold no two hyphens, and if what stands before the command can be read, the
command is the one to expand, and no input is named behind it. -/
def Inputless (args : List Text) : Prop :=
  hyphens ∉ args ∧ ∀ outer name rest, readFrom .start none {} args = .ok (outer, name :: rest) →
    name = "expand".toList ∧
      ∀ o left, readFrom .expand none {} rest = .ok (o, left) → o.inputs = []

end Arguments

namespace Command

open Arguments

/-- **Inputs behind two hyphens are all that they add to a call**: the call is for the same
expansion with these inputs, or it is as wrong as it was. -/
theorem ofArguments_append {args : List Text} (h : Inputless args) (xs : List Text) :
    (∃ o : Options, o.inputs = [] ∧ ofArguments args = .ok (.expand o) ∧
      ofArguments (args ++ hyphens :: xs) = .ok (.expand { o with inputs := xs })) ∨
    ∃ e, ofArguments args = .error e ∧ ofArguments (args ++ hyphens :: xs) = .error e := by
  obtain ⟨hhyphens, hname⟩ := h
  unfold ofArguments
  rcases readFrom_start_append xs none {} args hhyphens with
    ⟨e, hread, hread'⟩ | ⟨outer, hread, hread'⟩ | ⟨outer, name, rest, hrest, hread, hread'⟩
  · rw [hread, hread']
    exact .inr ⟨e, rfl, rfl⟩
  · rw [hread, hread']
    exact .inr ⟨.usage, rfl, rfl⟩
  · obtain ⟨rfl, hinputs⟩ := hname outer name rest hread
    have hbehind := readFrom_append (show Place.expand ≠ .start by decide) xs none {} rest hrest
    rw [hread, hread']
    simp only [bind, Except.bind, if_pos, hbehind]
    cases hown : readFrom .expand none {} rest with
    | error e => exact .inr ⟨e, rfl, rfl⟩
    | ok r =>
      obtain ⟨o, left⟩ := r
      have hnil : o.inputs = [] := hinputs o left hown
      refine .inl ⟨withConfig outer o, hnil, rfl, ?_⟩
      simp only [Except.map, hnil, List.nil_append]
      rfl

end Command

/-! ### Lines -/

namespace Text

variable {x : Text}

theorem trimEnd_concat {p : Char → Bool} {c : Char} (hc : p c) (x : Text) :
    trimEnd p (x ++ [c]) = trimEnd p x := by
  simp [trimEnd, hc]

theorem trimEnd_of_last {p : Char → Bool} (h : ∀ c, x.getLast? = some c → p c = false) :
    trimEnd p x = x := by
  rcases List.eq_nil_or_concat x with rfl | ⟨y, c, rfl⟩
  · rfl
  · have hc : p c = false := h c (by simp)
    simp [trimEnd, hc]

end Text

/-- The end of a line, with a carriage return or without. -/
def lineEnd (returned : Bool) : Text := if returned then ['\r', '\n'] else ['\n']

/-- The texts written one a line, in order, with blank lines anywhere. The last line may go
without an end. -/
inductive Lined : List Text → Text → Prop
  | nil : Lined [] []
  | last (x : Text) : Lined [x] x
  | line (x : Text) (returned : Bool) {xs : List Text} {s : Text} :
      Lined xs s → Lined (x :: xs) (x ++ lineEnd returned ++ s)
  | blank (returned : Bool) {xs : List Text} {s : Text} :
      Lined xs s → Lined xs (lineEnd returned ++ s)

/-- A text that can stand on a line of its own. -/
def OnLine (x : Text) : Prop := '\n' ∉ x ∧ x.getLast? ≠ some '\r'

instance (x : Text) : Decidable (OnLine x) := inferInstanceAs (Decidable (_ ∧ _))

theorem onLine_nil : OnLine [] := ⟨List.not_mem_nil, by simp⟩

theorem OnLine.trimEnd_eq {x : Text} (h : OnLine x) : x.trimEnd (· = '\r') = x := by
  refine Text.trimEnd_of_last fun c hc => ?_
  have hne : c ≠ '\r' := fun he => h.2 (he ▸ hc)
  simpa using hne

namespace Command

/-- A line in front of a text is one selection, or none if it is blank. -/
theorem inputLines_line {x : Text} (h : OnLine x) (returned : Bool) (s : Text) :
    inputLines (x ++ lineEnd returned ++ s) =
      [x].filter (!·.isEmpty) ++ inputLines s := by
  rw [inputLines, inputLines, ← List.filter_append]
  cases returned with
  | false =>
    have hsplit := Text.splitOn_append_cons h.1 s
    rw [lineEnd, if_neg Bool.false_ne_true, List.append_assoc, List.singleton_append, hsplit,
      List.map_cons, h.trimEnd_eq, List.singleton_append]
  | true =>
    have hx : '\n' ∉ x ++ ['\r'] := by
      simpa using h.1
    have hsplit := Text.splitOn_append_cons hx s
    have htrim' : Text.trimEnd (· = '\r') (x ++ ['\r']) = x := by
      rw [Text.trimEnd_concat (by decide), h.trimEnd_eq]
    have hline : x ++ ['\r', '\n'] ++ s = x ++ ['\r'] ++ '\n' :: s := by simp
    rw [lineEnd, if_pos rfl, hline, hsplit, List.map_cons, htrim', List.singleton_append]

theorem inputLines_last {x : Text} (h : OnLine x) :
    inputLines x = [x].filter (!·.isEmpty) := by
  rw [inputLines, Text.splitOn_of_not_mem h.1, List.map_singleton, h.trimEnd_eq]

/-- **The selections on the lines of a text are those written on them**, without empty ones. -/
theorem inputLines_of_lined {xs : List Text} {s : Text} (h : Lined xs s)
    (hx : ∀ x ∈ xs, OnLine x) : inputLines s = xs.filter (!·.isEmpty) := by
  induction h with
  | nil => exact inputLines_last onLine_nil
  | last x => exact inputLines_last (hx x List.mem_cons_self)
  | @line x returned xs s _ ih =>
    rw [inputLines_line (hx x List.mem_cons_self), ih fun y hy => hx y (List.mem_cons_of_mem x hy),
      ← List.filter_append, List.singleton_append]
  | @blank returned xs s _ ih =>
    have hblank := inputLines_line onLine_nil returned s
    rw [List.nil_append] at hblank
    rw [hblank, ih hx]
    rfl

/-! ### Two ways to name selections -/

variable {r : Selector}

/-- An empty selection adds no paths. -/
theorem pathsOfAll_filter (hr : r.default = []) (xs : List Text) :
    pathsOfAll r (xs.filter (!·.isEmpty)) = pathsOfAll r xs := by
  induction xs with
  | nil => rfl
  | cons x xs ih =>
    cases x with
    | nil =>
      have hnil : pathsOf r [] = .ok [] := pathsOf_of_done (by rw [Selector.paths, hr])
      rw [List.filter_cons_of_neg (by simp), ih, pathsOfAll, hnil]
      cases pathsOfAll r xs <;> rfl
    | cons c x =>
      rw [List.filter_cons_of_pos (by simp), pathsOfAll, pathsOfAll, ih]

/-- The report on selections is the same for two lists that differ in empty ones. -/
theorem expansionReport_congr {w w' : Surroundings} {o o' : Options} (hload : load w' o' = load w o)
    (hitem : o'.withParams = o.withParams) {xs ys : List Text} (hxs : selections w o = .ok xs)
    (hys : selections w' o' = .ok ys) (h : ys = xs.filter (!·.isEmpty)) :
    expansionReport w' o' = expansionReport w o := by
  cases hsettings : load w o with
  | error e => simp only [expansionReport, hload, hsettings, bind, Except.bind]
  | ok settings =>
    cases hr : settings.selector with
    | error e =>
      simp only [expansionReport, hload, hsettings, hr, bind, Except.bind, Except.mapError]
    | ok r =>
      have hall : pathsOfAll r ys = pathsOfAll r xs := by
        rw [h, pathsOfAll_filter (selector_default hr)]
      rw [expansionReport_eq hsettings hr hxs, expansionReport_eq (hload.trans hsettings) hr hys,
        hall]
      simp only [itemOf, hitem]

/-- **Arguments and lines are interchangeable**: a call that names selections behind two hyphens
has the same answer as the call without them whose input holds the selections on its lines,
whatever the options, and whether they can be read, loaded and expanded or not. -/
theorem respond_lines (w : Surroundings) {args xs : List Text} {s : Text}
    (hargs : Arguments.Inputless args) (hne : xs ≠ []) (hx : ∀ x ∈ xs, OnLine x) (hs : Lined xs s) :
    respond w (args ++ hyphens :: xs) = respond { w with input := Utf8.encode s } args := by
  rcases ofArguments_append hargs xs with ⟨o, hnil, hread, hread'⟩ | ⟨e, hread, hread'⟩
  · have hlines : selections { w with input := Utf8.encode s } o =
        .ok (xs.filter (!·.isEmpty)) := by
      simp only [selections, hnil, List.isEmpty_nil, if_true, Utf8.decode?_encode,
        inputLines_of_lined hs hx]
    have hgiven : selections w { o with inputs := xs } = .ok xs := by
      rw [selections, if_neg (by simpa using hne)]
    have hload : load { w with input := Utf8.encode s } o = load w { o with inputs := xs } := by
      rw [load_inputs, load, load, layers, layers]
    rw [respond, respond, hread, hread']
    simp only [run]
    rw [expansionReport_congr hload rfl hgiven hlines rfl]
  · rw [respond, respond, hread, hread']

/-- Three selections, the second of them empty. -/
def three : List Text := [['a', '(', 'b', ';', 'c', ')'], [], ['d']]

/-- Lines with the three selections: the first line ends in a carriage return, a blank line
follows it, and the last line has no end. -/
def threeLines : Text :=
  ['a', '(', 'b', ';', 'c', ')'] ++ lineEnd true ++
    (lineEnd false ++ ([] ++ lineEnd false ++ ['d']))

theorem respond_lines_three : Lined three threeLines ∧
    respond bare (["expand", "-d", ";"].map String.toList ++ hyphens :: three) =
      respond { bare with input := Utf8.encode threeLines }
        (["expand", "-d", ";"].map String.toList) := by
  have hlined : Lined three threeLines :=
    .line _ true (.blank false (.line [] false (.last ['d'])))
  have hinputless : Arguments.Inputless (["expand", "-d", ";"].map String.toList) := by
    refine ⟨by decide, ?_⟩
    rintro outer name rest ⟨⟩
    refine ⟨rfl, ?_⟩
    rintro o left ⟨⟩
    rfl
  exact ⟨hlined, respond_lines bare hinputless (by decide) (by decide) hlined⟩

end Command
end FieldSelection
