/-
# Reports

A report lists items: paths, paths with their parameters, or fields with their
parameters. It is plain lines, JSON or YAML. A line of a record is its head and
its parameters, each after a tab; in JSON and YAML a record shows its parts by
name.

Key definitions: `Report.Format`, `Report.Item`, `Report.lines`, `Report.json`,
`Report.yaml`, `Report.render`.
-/
import FieldSelection.Json
import FieldSelection.Parameter
import FieldSelection.Yaml.Scalar

namespace FieldSelection
namespace Report

/-- The three forms of a report. -/
inductive Format where
  | lines
  | json
  | yaml
  deriving DecidableEq, Repr

namespace Format

/-- The formats in the order in which they are listed. -/
def all : List Format := [.lines, .json, .yaml]

/-- The name of a format. -/
def name : Format → String
  | .lines => "lines"
  | .json => "json"
  | .yaml => "yaml"

/-- The format of a name. -/
def ofName? (s : Text) : Option Format := all.find? fun f => f.name.toList = s

end Format

/-- A line of a report in its parts. -/
inductive Item where
  | plain (s : Text)
  | path (path field : Text) (params : List Parameter)
  | field (field : Text) (params : List Parameter)
  deriving DecidableEq, Repr

namespace Item

/-- The record of a path: the path, the field without its parameters, and the
parameters with their values decoded or as written. -/
def ofPath (decode : Bool) (s : Text) : Item :=
  .path s (Parameter.strip s) (Parameter.read decode s)

/-- The record of a field: the field without its parameters, and the parameters
with their values decoded or as written. -/
def ofField (decode : Bool) (s : Text) : Item :=
  .field (Parameter.strip s) (Parameter.read decode s)

end Item

/-! ### Lines -/

/-- A head with parameters, each after a tab. -/
def withParams (head : Text) (ps : List Parameter) : Text :=
  head ++ ps.flatMap fun p => '\t' :: p.write

/-- An item as one line, without the end of the line. -/
def line : Item → Text
  | .plain s => s
  | .path s _ ps => withParams s ps
  | .field s ps => withParams s ps

/-- A report with one item to a line. -/
def lines (items : List Item) : Text := items.flatMap fun i => line i ++ ['\n']

/-! ### JSON -/

/-- The parameters as a JSON array of keys and values. -/
def jsonParams (ps : List Parameter) : Json :=
  .array (ps.map fun p =>
    .object [("key".toList, .string p.key), ("value".toList, .string p.value)])

/-- An item as a JSON value. -/
def jsonItem : Item → Json
  | .plain s => .string s
  | .path s f ps =>
    .object [("path".toList, .string s), ("field".toList, .string f),
      ("params".toList, jsonParams ps)]
  | .field f ps => .object [("field".toList, .string f), ("params".toList, jsonParams ps)]

/-- A report as one JSON array. -/
def json (items : List Item) : Text := (Json.array (items.map jsonItem)).pretty ++ ['\n']

/-! ### YAML -/

/-- The parameters of a record as lines of YAML. -/
def yamlParams : List Parameter → Text
  | [] => "  params: []\n".toList
  | ps => "  params:\n".toList ++ ps.flatMap fun p =>
      "  - key: ".toList ++ Yaml.scalarLine 6 p.key
        ++ "    value: ".toList ++ Yaml.scalarLine 6 p.value

/-- An item as lines of YAML. -/
def yamlItem : Item → Text
  | .plain s => "- ".toList ++ Yaml.scalarLine 2 s
  | .path s f ps =>
    "- path: ".toList ++ Yaml.scalarLine 4 s ++ "  field: ".toList ++ Yaml.scalarLine 4 f
      ++ yamlParams ps
  | .field f ps => "- field: ".toList ++ Yaml.scalarLine 4 f ++ yamlParams ps

/-- A report as one YAML list. -/
def yaml : List Item → Text
  | [] => "[]\n".toList
  | items => items.flatMap yamlItem

/-- The report in a format. -/
def render : Format → List Item → Text
  | .lines => lines
  | .json => json
  | .yaml => yaml

end Report
end FieldSelection
