/-
# Many selections in one call

A call that expands selections takes the paths of all of them before it writes
anything. If all have paths, it reports on the paths in the order of the
selections. If not, it stops at the first selection without paths, and what it
says of that one depends neither on the paths found before nor on what stands
behind.

A selection has no paths when a pass takes it past the limit, or when its
expansion has no end. The call then has no answer at all, and the failure
`unfinished` stands for that: `respond_knot` is such a call, under a limit that a
later selection would exceed.

Key definitions: `Command.Parse`, `Command.Expands`, `Command.report`,
`Command.complaint`.
Key theorem: `Command.respond_expansion`.
-/
import Mathlib.Data.List.Forall2
import FieldSelection.Command
import FieldSelection.Proofs.Limit
import FieldSelection.Proofs.Recurrence

namespace FieldSelection
/-! ### Selections that one pass settles -/

section OnePass

variable (r : Selector) {s t : Text} (hs : s ≠ []) (hp : pass r.markers s = some t)
include hs hp

/-- A selection that one pass expands within the limit. -/
theorem Selector.paths_of_pass (hend : pass r.markers t = none)
    (hc : Expansion.Covers r.limit t) : r.paths (some s) = .done (splitPaths r.markers t) := by
  have ht : Expansion.after r.markers 1 s = some t := Expansion.after_succ_of_pass _ hp 0
  refine r.paths_of_within hs ht hend ?_
  exact (Expansion.within_succ_of_pass _ _ hp 0).2 ⟨hc, Expansion.within_zero _ _ t⟩

/-- A selection that the first pass takes past the limit. -/
theorem Selector.paths_of_long_pass {l : Nat} (hl : r.limit = some l) (hlt : l < t.byteLength) :
    r.paths (some s) = .exceeded ⟨l, t.byteLength, 1⟩ := by
  have ht : Expansion.after r.markers 1 s = some t := Expansion.after_succ_of_pass _ hp 0
  rw [r.paths_of_ne_nil hs, expand_eq_exceeded_iff.2
    ⟨0, t, l, ht, Expansion.within_zero _ _ s, hl, hlt, rfl⟩]
  rfl

end OnePass

theorem Selector.paths_eq_unfinished_iff (r : Selector) {s : Text} (hs : s ≠ []) :
    r.paths (some s) = .unfinished ↔ expand r.markers r.limit s = .unfinished := by
  rw [r.paths_of_ne_nil hs]
  cases expand r.markers r.limit s <;> simp [Outcome.map]

/-- Under a limit an expansion without an end is one that comes back. -/
theorem Selector.paths_eq_unfinished_iff_recurs (r : Selector) {s : Text} (hs : s ≠ []) {l : Nat}
    (hl : r.limit = some l) : r.paths (some s) = .unfinished ↔ Recurs r.markers (some l) s := by
  rw [r.paths_eq_unfinished_iff hs, hl]
  exact ⟨recurs_of_unfinished, unfinished_of_recurs⟩

/-- Where passes read back, an expansion ends. -/
theorem Selector.paths_ne_unfinished (r : Selector) {s : Text} (h : Seamless r.markers s) :
    r.paths (some s) ≠ .unfinished := by
  by_cases hs : s = []
  · rw [hs]
    exact fun hu => by cases hu
  · rw [Ne, r.paths_eq_unfinished_iff hs, expand_eq_unfinished_iff]
    obtain ⟨n, t, -, ht, hp⟩ := h.exists_end
    intro hrun
    obtain ⟨⟨u, hu⟩, -⟩ := hrun (n + 1)
    rw [Expansion.after_of_end _ ht hp (Nat.lt_succ_self n)] at hu
    cases hu

theorem ok_of_toOption {ε α : Type} {x : Except ε α} {a : α} (h : x.toOption = some a) :
    x = .ok a := by
  cases x with
  | error e => cases h
  | ok b => rw [Option.some.inj h]

theorem Markers.ofTexts_of_sound {text : Mark → Text} (h : MarkerError.fault? text = none) :
    ofTexts text = .ok (.ofSound h) := by
  unfold ofTexts
  split
  · next e he =>
    rw [h] at he
    cases he
  · rfl

theorem Settings.selector_of_sound {s : Settings}
    (h : MarkerError.fault? (Mark.choose s.opener s.closer s.delimiter) = none) :
    s.selector = .ok { markers := .ofSound h,
                       limit := if s.maxLength = 0 then none else some s.maxLength } := by
  rw [selector, Settings.markers, Markers.ofTexts_of_sound h]
  rfl

/-- A string that a pass gives back within the limit comes back for ever. -/
theorem recurs_of_pass_self {m : Markers} {limit : Option Nat} {s : Text}
    (hp : pass m s = some s) (hc : Expansion.Covers limit s) : Recurs m limit s :=
  ⟨0, 1, s, Nat.zero_lt_one, rfl, Expansion.after_succ_of_pass m hp 0,
    (Expansion.within_succ_of_pass m limit hp 0).2 ⟨hc, Expansion.within_zero m limit s⟩⟩

namespace Command

/-! ### The paths of a list of selections -/

variable {r : Selector}

/-- The selections have paths, each of them its own. -/
def Parse (r : Selector) (inputs : List Text) (pss : List (List Text)) : Prop :=
  List.Forall₂ (fun s ps => r.paths (some s) = .done ps) inputs pss

theorem pathsOf_of_done {s : Text} {ps : List Text} (h : r.paths (some s) = .done ps) :
    pathsOf r s = .ok ps := by rw [pathsOf, h]

theorem pathsOf_of_exceeded {s : Text} {e : LimitError} (h : r.paths (some s) = .exceeded e) :
    pathsOf r s = .error (.limit s e) := by rw [pathsOf, h]

theorem pathsOf_of_unfinished {s : Text} (h : r.paths (some s) = .unfinished) :
    pathsOf r s = .error (.unfinished s) := by rw [pathsOf, h]

theorem pathsOfAll_of_parse {inputs : List Text} {pss : List (List Text)}
    (h : Parse r inputs pss) : pathsOfAll r inputs = .ok pss.flatten := by
  induction h with
  | nil => rfl
  | cons hs _ ih =>
    rw [pathsOfAll, pathsOf_of_done hs, ih]
    rfl

/-- The first selection without paths ends the work, whatever stands behind it. -/
theorem pathsOfAll_of_failure {before : List Text} {pss : List (List Text)}
    (h : Parse r before pss) {s : Text} {f : Failure} (hs : pathsOf r s = .error f)
    (after : List Text) : pathsOfAll r (before ++ s :: after) = .error f := by
  induction h with
  | nil => rw [List.nil_append, pathsOfAll, hs]; rfl
  | cons hy _ ih => rw [List.cons_append, pathsOfAll, pathsOf_of_done hy, ih]; rfl

/-- Either all selections have paths, or there is a first one that has none. -/
theorem exists_parse_or_first (r : Selector) : ∀ inputs : List Text,
    (∃ pss, Parse r inputs pss) ∨
      ∃ before s after pss, inputs = before ++ s :: after ∧ Parse r before pss ∧
        ((∃ e, r.paths (some s) = .exceeded e) ∨ r.paths (some s) = .unfinished)
  | [] => .inl ⟨[], .nil⟩
  | s :: inputs => by
    cases hs : r.paths (some s) with
    | exceeded e => exact .inr ⟨[], s, inputs, [], rfl, .nil, .inl ⟨e, hs⟩⟩
    | unfinished => exact .inr ⟨[], s, inputs, [], rfl, .nil, .inr hs⟩
    | done ps =>
      rcases exists_parse_or_first r inputs with ⟨pss, h⟩ | ⟨before, t, after, pss, rfl, h, ht⟩
      · exact .inl ⟨ps :: pss, .cons hs h⟩
      · exact .inr ⟨s :: before, t, after, ps :: pss, rfl, .cons hs h, ht⟩

/-! ### The report on them -/

variable {w : Surroundings} {o : Options} {settings : Settings}

/-- What a report says of a path: the path, or its record with parameters. -/
def itemOf (o : Options) (settings : Settings) : Text → Report.Item :=
  if o.withParams then .ofPath settings.decodeParams else .plain

/-- The settings do not depend on what is to be expanded. -/
theorem load_inputs (w : Surroundings) (o : Options) (given : List Text) :
    load w { o with inputs := given } = load w o := by
  simp only [load, layers]

theorem expansionReport_eq (hload : load w o = .ok settings) (hr : settings.selector = .ok r)
    {inputs : List Text} (hin : selections w o = .ok inputs) :
    expansionReport w o = (pathsOfAll r inputs).map fun ps =>
      Report.render settings.format (ps.map (itemOf o settings)) := by
  rw [expansionReport, hload, hin]
  simp only [bind, Except.bind, hr, Except.mapError]
  cases pathsOfAll r inputs <;> rfl

theorem selector_default {r : Selector} (h : settings.selector = .ok r) : r.default = [] := by
  rw [Settings.selector] at h
  cases hm : settings.markers with
  | error e => rw [hm] at h; cases h
  | ok m => rw [hm] at h; cases h; rfl

/-- The call with these arguments is for an expansion with the options `o`, and these are the
selections to expand: those among the arguments or, if there are none, those on the lines of
the input. -/
def Expands (w : Surroundings) (o : Options) (args inputs : List Text) : Prop :=
  ∃ given, ofArguments args = .ok (.expand { o with inputs := given }) ∧
    selections w { o with inputs := given } = .ok inputs

theorem expands_of_ne_nil {args given : List Text}
    (h : ofArguments args = .ok (.expand { o with inputs := given })) (hne : given ≠ []) :
    Expands w o args given := by
  refine ⟨given, h, ?_⟩
  rw [selections, if_neg (by simpa using hne)]

/-- The answer with the report on paths. -/
def report (o : Options) (settings : Settings) (ps : List Text) : Response :=
  { code := 0, output := Report.render settings.format (ps.map (itemOf o settings)) }

/-- The answer that names a selection and its complaint. -/
def complaint (s : Text) (e : LimitError) : Response :=
  { code := 1, errors := "Error: ".toList ++ s ++ ": ".toList ++ e.message.toList ++ "\n".toList }

theorem respond_eq (hload : load w o = .ok settings) (hr : settings.selector = .ok r)
    {args inputs : List Text} (h : Expands w o args inputs) :
    respond w args = .ofRun ((pathsOfAll r inputs).map fun ps =>
      Report.render settings.format (ps.map (itemOf o settings))) := by
  obtain ⟨given, hargs, hin⟩ := h
  have hload' : load w { o with inputs := given } = .ok settings := by rw [load_inputs, hload]
  have hitem : itemOf { o with inputs := given } settings = itemOf o settings := by
    simp only [itemOf]
  rw [respond, hargs]
  simp only [run]
  rw [expansionReport_eq hload' hr hin, hitem]

theorem respond_of_parse (hload : load w o = .ok settings) (hr : settings.selector = .ok r)
    {args inputs : List Text} (h : Expands w o args inputs) {pss : List (List Text)}
    (hp : Parse r inputs pss) : respond w args = report o settings pss.flatten := by
  rw [respond_eq hload hr h, pathsOfAll_of_parse hp]
  rfl

theorem ofRun_limit (s : Text) (e : LimitError) :
    Response.ofRun (.error (.limit s e)) = complaint s e := by
  have hmessage : (Failure.limit s e).message = String.ofList s ++ ": " ++ e.message := rfl
  rw [Response.ofRun, complaint, hmessage]
  simp only [String.toList_append, String.toList_ofList, List.append_assoc]

theorem respond_of_exceeded (hload : load w o = .ok settings) (hr : settings.selector = .ok r)
    {args before after : List Text} {s : Text} (h : Expands w o args (before ++ s :: after))
    {pss : List (List Text)} (hp : Parse r before pss) {e : LimitError}
    (hs : r.paths (some s) = .exceeded e) : respond w args = complaint s e := by
  rw [respond_eq hload hr h, pathsOfAll_of_failure hp (pathsOf_of_exceeded hs)]
  exact ofRun_limit s e

/-- Selections one behind the other have their paths one behind the other. -/
theorem exists_parse_of_append {xs ys : List Text} {pss : List (List Text)}
    (h : Parse r (xs ++ ys) pss) : ∃ ps qs, Parse r xs ps ∧ Parse r ys qs ∧ pss = ps ++ qs := by
  induction xs generalizing pss with
  | nil => exact ⟨[], pss, .nil, h, rfl⟩
  | cons x xs ih =>
    obtain ⟨p, rest, hx, hrest, rfl⟩ := List.forall₂_cons_left_iff.1 h
    obtain ⟨ps, qs, hps, hqs, rfl⟩ := ih hrest
    exact ⟨p :: ps, qs, .cons hx hps, hqs, rfl⟩

theorem output_report_append (h : settings.format = .lines) (ps qs : List Text) :
    (report o settings (ps ++ qs)).output =
      (report o settings ps).output ++ (report o settings qs).output := by
  simp only [report, h, Report.render, Report.lines, List.map_append, List.flatMap_append]

theorem newline_not_mem_toString (n : Nat) : '\n' ∉ (toString n).toList := by
  intro h
  have hdigit := Nat.isDigit_of_mem_toDigits (by decide) (by decide) (Nat.toList_repr ▸ h)
  exact absurd hdigit (by decide)

theorem newline_not_mem_message (e : LimitError) : '\n' ∉ e.message.toList := by
  have h1 : '\n' ∉ "expansion exceeded ".toList := by decide
  have h2 : '\n' ∉ " bytes (reached ".toList := by decide
  have h3 : '\n' ∉ " after pass ".toList := by decide
  have h4 : '\n' ∉ ")".toList := by decide
  have hmessage : e.message = "expansion exceeded " ++ toString e.limit ++ " bytes (reached " ++
      toString e.reached ++ " after pass " ++ toString e.pass ++ ")" := rfl
  rw [hmessage]
  simp only [String.toList_append, List.mem_append, not_or]
  simp only [h1, h2, h3, h4, newline_not_mem_toString, not_false_iff, and_self]

/-- A complaint about a selection on one line takes one line. -/
theorem count_newline_complaint {s : Text} (hs : '\n' ∉ s) (e : LimitError) :
    (complaint s e).errors.count '\n' = 1 := by
  have h1 : "Error: ".toList.count '\n' = 0 := by decide
  have h2 : ": ".toList.count '\n' = 0 := by decide
  have h3 : "\n".toList.count '\n' = 1 := by decide
  rw [complaint]
  simp only [List.count_append, h1, h2, h3, List.count_eq_zero_of_not_mem hs,
    List.count_eq_zero_of_not_mem (newline_not_mem_message e)]

/-- **A call expands all of its selections or none.** If all have paths, the answer is the
report on the paths, selection by selection. Otherwise there is a first one without paths; if
that is past the limit, the answer is the complaint about it, with nothing written, whatever
stands behind it. It is past the limit unless its expansion has no end: under a limit this is
one that comes back to a string, and none that reads back. Reports in lines are put together
as their selections are, an empty selection adds nothing, and a complaint takes one line if
its selection does. -/
theorem respond_expansion (hload : load w o = .ok settings) (hr : settings.selector = .ok r) :
    (∀ args inputs, Expands w o args inputs →
      (∀ pss, Parse r inputs pss → respond w args = report o settings pss.flatten) ∧
      (∀ before s after pss e, inputs = before ++ s :: after → Parse r before pss →
        r.paths (some s) = .exceeded e → respond w args = complaint s e) ∧
      ((∃ pss, Parse r inputs pss) ∨
        ∃ before s after pss, inputs = before ++ s :: after ∧ Parse r before pss ∧
          ((∃ e, r.paths (some s) = .exceeded e) ∨ r.paths (some s) = .unfinished))) ∧
    (∀ s ≠ [], ∀ l, r.limit = some l →
      (r.paths (some s) = .unfinished ↔ Recurs r.markers (some l) s)) ∧
    (∀ s, Seamless r.markers s → r.paths (some s) ≠ .unfinished) ∧
    (settings.format = .lines → ∀ args args' args'' xs ys pss, Expands w o args xs →
      Expands w o args' ys → Expands w o args'' (xs ++ ys) → Parse r (xs ++ ys) pss →
        (respond w args'').output = (respond w args).output ++ (respond w args').output) ∧
    r.paths (some []) = .done [] ∧
    ∀ s e, '\n' ∉ s → (complaint s e).errors.count '\n' = 1 := by
  refine ⟨fun args inputs h => ⟨fun pss => respond_of_parse hload hr h, ?_,
    exists_parse_or_first r inputs⟩, fun s hs l => r.paths_eq_unfinished_iff_recurs hs,
    fun s => r.paths_ne_unfinished, ?_,
    by rw [Selector.paths, selector_default hr], fun s e hs => count_newline_complaint hs e⟩
  · rintro before s after pss e rfl hp hs
    exact respond_of_exceeded hload hr h hp hs
  · intro hformat args args' args'' xs ys pss hx hy hxy hp
    obtain ⟨ps, qs, hps, hqs, rfl⟩ := exists_parse_of_append hp
    rw [respond_of_parse hload hr hx hps, respond_of_parse hload hr hy hqs,
      respond_of_parse hload hr hxy hp, List.flatten_append, output_report_append hformat]

/-! ### Two calls -/

/-- No files and an empty input. -/
def bare : Surroundings := ⟨fun _ => none, []⟩

/-- A limit of eight bytes. -/
def tight : Options := { maxLength := some 8 }

theorem load_tight : load bare tight = .ok { Settings.standard with maxLength := 8 } :=
  ok_of_toOption (by decide +kernel)

theorem selector_tight :
    Settings.selector { Settings.standard with maxLength := 8 } =
      .ok { markers := .standard, limit := some 8 } :=
  Settings.selector_of_sound (by decide)

theorem paths_short : Selector.paths { markers := .standard, limit := some 8 }
    (some ['a', '(', 'b', ',', 'c', ')']) = .done [['a', 'b'], ['a', 'c']] := by
  refine Selector.paths_of_pass _ (by simp) (t := ['a', 'b', ',', 'a', 'c']) (by decide)
    (by decide) ?_
  rintro l ⟨⟩
  decide

theorem paths_long : Selector.paths { markers := .standard, limit := some 8 }
    (some ['a', 'a', '(', 'b', ',', 'c', ',', 'd', ')']) = .exceeded ⟨8, 11, 1⟩ :=
  Selector.paths_of_long_pass _ (by simp)
    (t := ['a', 'a', 'b', ',', 'a', 'a', 'c', ',', 'a', 'a', 'd']) (by decide) rfl (by decide)

theorem respond_expansion_tight :
    respond bare (["expand", "--max-len", "8", "--", "a(b,c)", ""].map String.toList) =
      { code := 0, output := "ab\nac\n".toList } ∧
    respond bare (["expand", "--max-len", "8", "--", "a(b,c)", "aa(b,c,d)", "x"].map
        String.toList) =
      { code := 1
        errors := ("Error: aa(b,c,d): expansion exceeded 8 bytes " ++
          "(reached 11 after pass 1)\n").toList } := by
  obtain ⟨hcall, -, -, -, hempty, -⟩ := respond_expansion load_tight selector_tight
  constructor
  · have hexpands : Expands bare tight
        (["expand", "--max-len", "8", "--", "a(b,c)", ""].map String.toList)
        [['a', '(', 'b', ',', 'c', ')'], []] := expands_of_ne_nil (by rfl) (by simp)
    exact (hcall _ _ hexpands).1 _ (.cons paths_short (.cons hempty .nil))
  · have hexpands : Expands bare tight
        (["expand", "--max-len", "8", "--", "a(b,c)", "aa(b,c,d)", "x"].map String.toList)
        [['a', '(', 'b', ',', 'c', ')'], ['a', 'a', '(', 'b', ',', 'c', ',', 'd', ')'], ['x']] :=
      expands_of_ne_nil (by rfl) (by simp)
    rw [(hcall _ _ hexpands).2.1 [_] _ [_] _ _ rfl (.cons paths_short .nil) paths_long]
    decide +kernel

/-! ### A call without an end -/

/-- The markers of `Markers.crossed`, with a limit of eleven bytes. -/
def crossed : Options where
  opener := some ['u', 'v']
  closer := some ['x', 'y']
  delimiter := some ['d']
  maxLength := some 11

/-- A selection that one pass takes past eleven bytes. -/
def broad : Text := "uvadbxycccccccc".toList

/-- **A call that complains about no selection**, though its second one is past the limit: the
first one comes back to itself within the limit, and its expansion has no end. -/
theorem respond_knot :
    let args := ["expand", "--open", "uv", "--close", "xy", "--delimiter", "d", "--max-len", "11",
      "--", "yxuvudyxyvu", "uvadbxycccccccc"].map String.toList
    ∃ settings r, load bare crossed = .ok settings ∧ settings.selector = .ok r ∧
      Expands bare crossed args [knot, broad] ∧ r.paths (some knot) = .unfinished ∧
      r.paths (some broad) = .exceeded ⟨11, 19, 1⟩ ∧
      respond bare args ≠ complaint broad ⟨11, 19, 1⟩ := by
  intro args
  let settings : Settings :=
    { Settings.standard with opener := ['u', 'v'], closer := ['x', 'y'], delimiter := ['d']
                             maxLength := 11 }
  let r : Selector := { markers := .crossed, limit := some 11 }
  have hload : load bare crossed = .ok settings := ok_of_toOption (by decide +kernel)
  have hr : settings.selector = .ok r := Settings.selector_of_sound (by decide)
  have hexpands : Expands bare crossed args [knot, broad] :=
    expands_of_ne_nil (by rfl) (by simp)
  have hknot : r.paths (some knot) = .unfinished := by
    rw [r.paths_eq_unfinished_iff_recurs (by decide) rfl]
    refine recurs_of_pass_self (by decide) ?_
    rintro l ⟨⟩
    decide
  refine ⟨settings, r, hload, hr, hexpands, hknot, ?_, ?_⟩
  · have hbroad : pass .crossed broad = some "accccccccdbcccccccc".toList := by decide
    exact r.paths_of_long_pass (by decide) hbroad rfl (by decide)
  · have hnil : Parse r [] [] := .nil
    have hall : pathsOfAll r [knot, broad] = .error (.unfinished knot) :=
      pathsOfAll_of_failure hnil (pathsOf_of_unfinished hknot) [broad]
    rw [respond_eq hload hr hexpands, hall]
    decide +kernel

end Command
end FieldSelection
