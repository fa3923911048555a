/-
# A JSON report loses nothing

The report of a list of items is the text of one JSON array and the end of a line. By the grammar
that text spells this array and no other value, whatever characters stand in the items and whichever
of their lists are empty; and an item is known again from its value, each part by its name, so that
two lists have one report only if they are the same list.

Key definitions: `Report.itemOf?`, `Report.itemsOf?`.
Key theorems: `Report.itemsOf?_array`, `Report.json_reads_back`.
-/
import FieldSelection.Proofs.Reading
import FieldSelection.Report

namespace FieldSelection
namespace Report

/-! ### Items from their values -/

/-- The parameter that a JSON value shows. -/
def paramOf? : Json → Option Parameter
  | .object [(k, .string key), (v, .string value)] =>
    if k = "key".toList ∧ v = "value".toList then some ⟨key, value⟩ else none
  | _ => none

/-- The parameters that a JSON array shows, in order. -/
def paramsOf? : Json → Option (List Parameter)
  | .array js => js.mapM paramOf?
  | _ => none

/-- The item that a JSON value shows: a text, or a record with its parts in their order. -/
def itemOf? : Json → Option Item
  | .string s => some (.plain s)
  | .object [(f, .string field), (p, params)] =>
    if f = "field".toList ∧ p = "params".toList then (paramsOf? params).map (.field field) else none
  | .object [(s, .string path), (f, .string field), (p, params)] =>
    if s = "path".toList ∧ f = "field".toList ∧ p = "params".toList then
      (paramsOf? params).map (.path path field)
    else none
  | _ => none

/-- The items that a JSON array shows, in order. -/
def itemsOf? : Json → Option (List Item)
  | .array js => js.mapM itemOf?
  | _ => none

theorem mapM_map_eq_some {α β : Type} {f : α → β} {g : β → Option α} (h : ∀ a, g (f a) = some a)
    (l : List α) : (l.map f).mapM g = some l := by
  have hcomp : g ∘ f = fun a => pure a := funext h
  calc (l.map f).mapM g = l.mapM (g ∘ f) := List.mapM_map
    _ = l.mapM fun a => pure a := by rw [hcomp]
    _ = some l := by simpa using List.mapM_pure (m := Option) (f := id) (l := l)

theorem paramsOf?_jsonParams (ps : List Parameter) : paramsOf? (jsonParams ps) = some ps := by
  unfold jsonParams paramsOf?
  apply mapM_map_eq_some
  intro p
  rfl

/-- An item is known again from its value. -/
theorem itemOf?_jsonItem (i : Item) : itemOf? (jsonItem i) = some i := by
  cases i with
  | plain s => rfl
  | path s f ps =>
    show (paramsOf? (jsonParams ps)).map (Item.path s f) = _
    rw [paramsOf?_jsonParams]
    rfl
  | field f ps =>
    show (paramsOf? (jsonParams ps)).map (Item.field f) = _
    rw [paramsOf?_jsonParams]
    rfl

/-- A list of items is known again from the array of their values. -/
theorem itemsOf?_array (items : List Item) : itemsOf? (.array (items.map jsonItem)) = some items :=
  mapM_map_eq_some itemOf?_jsonItem items

/-! ### The report of a list -/

theorem printed_jsonParams (ps : List Parameter) : (jsonParams ps).Printed := by
  apply Json.printed_array
  intro j hj
  obtain ⟨p, -, rfl⟩ := List.mem_map.1 hj
  apply Json.printed_object
  simp [Json.printed_string]

theorem printed_jsonItem (i : Item) : (jsonItem i).Printed := by
  cases i with
  | plain s => exact Json.printed_string s
  | path s f ps =>
    apply Json.printed_object
    simp [Json.printed_string, printed_jsonParams]
  | field f ps =>
    apply Json.printed_object
    simp [Json.printed_string, printed_jsonParams]

/-- The text of a report, without the end of its line, spells the array of the items. -/
theorem spells_pretty_items (items : List Item) :
    Json.Spells (.array (items.map jsonItem)) (Json.array (items.map jsonItem)).pretty := by
  have hprinted : (Json.array (items.map jsonItem)).Printed := by
    apply Json.printed_array
    intro j hj
    obtain ⟨i, -, rfl⟩ := List.mem_map.1 hj
    exact printed_jsonItem i
  exact hprinted 0

theorem isText_render_json (items : List Item) :
    Json.IsText (.array (items.map jsonItem)) (render .json items) :=
  ⟨[], _, ['\n'], Json.blank_nil, spells_pretty_items items,
    fun _ hc => .inr (.inl (List.mem_singleton.1 hc)), rfl⟩

/-- **A JSON report loses nothing.** It is the text of a JSON array and the end of a line; the array
of the items is the one value that it spells; reading it gives the items back; and so no other list
has the same report. -/
theorem json_reads_back (items : List Item) :
    (∃ t, render .json items = t ++ ['\n'] ∧ Json.Spells (.array (items.map jsonItem)) t) ∧
      (∀ j, Json.IsText j (render .json items) ↔ j = .array (items.map jsonItem)) ∧
      (Json.read? (render .json items)).bind itemsOf? = some items ∧
      ∀ others, render .json others = render .json items ↔ others = items := by
  have hread : ∀ is : List Item, (Json.read? (render .json is)).bind itemsOf? = some is := by
    intro is
    rw [Json.read?_of_isText (isText_render_json is)]
    exact itemsOf?_array is
  refine ⟨⟨_, rfl, spells_pretty_items items⟩, ?_, hread items, ?_⟩
  · intro j
    constructor
    · intro h
      exact h.unique (isText_render_json items)
    · rintro rfl
      exact isText_render_json items
  · intro others
    constructor
    · intro h
      have hothers := hread others
      rw [h, hread items] at hothers
      exact (Option.some.inj hothers).symm
    · rintro rfl
      rfl

example : render .json [.plain "a\"\n]".toList, .plain []] =
    "[\n  \"a\\\"\\n]\",\n  \"\"\n]\n".toList := rfl

end Report
end FieldSelection
