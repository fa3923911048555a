/-
# Running a command

A command sees its options, the text of the file they name, and its input. It
answers with a text, or fails with an error and no text at all. The settings are
read first, then the markers are checked, then the input is read, and then
everything is expanded before anything is written. A call whose expansion has no
end gives no answer; the failure `unfinished` stands for it.

Key definitions: `Surroundings`, `Command.run`, `Failure.message`, `respond`.
-/
import FieldSelection.Command.Arguments
import FieldSelection.Settings

namespace FieldSelection

/-- What a command can read: files by name, and its input. -/
structure Surroundings where
  file : Text → Option Text
  input : List UInt8

/-- Why a command fails. -/
inductive Failure where
  | maxLength (n : Nat)
  | settings (e : SettingsError)
  | markers (e : MarkerError)
  | input
  | limit (selection : Text) (e : LimitError)
  | unfinished (selection : Text)
  deriving DecidableEq, Repr

namespace Failure

/-- The greatest length that the settings can hold. -/
def maxSetting : Nat := Nat.pow 2 63 - 1

/-- The text of a failure. -/
def message : Failure → String
  | maxLength n => s!"invalid --max-len: {n} exceeds {maxSetting}"
  | settings e => "configuration: " ++ e.message
  | markers e => (LoadError.markers e).message
  | input => "reading stdin: stream did not contain valid UTF-8"
  | limit s e => String.ofList s ++ ": " ++ e.message
  | unfinished s => String.ofList s ++ ": expansion does not end"

end Failure

namespace Command

/-- The layers that options put on the built-in settings. -/
def layers (w : Surroundings) (o : Options) : List Layer :=
  let set (path : String) (value : Option Text) : List Layer :=
    (value.map fun v => Layer.override path.toList (.string v)).toList
  (o.config.map fun name => Layer.file name (w.file name) true).toList
    ++ set "markers.open" o.opener
    ++ set "markers.close" o.closer
    ++ set "markers.delimiter" o.delimiter
    ++ set "output.format" (o.format.map fun f => f.name.toList)
    ++ (o.maxLength.map fun n =>
        Layer.override "expansion.max_expanded_len".toList (.integer n)).toList

/-- The settings of a command. A length that they cannot hold is an error. -/
def load (w : Surroundings) (o : Options) : Except Failure Settings :=
  match o.maxLength.filter (Failure.maxSetting < ·) with
  | some n => .error (.maxLength n)
  | none => (Settings.load (layers w o)).mapError .settings

/-- The selections on the lines of a text: lines without carriage returns at their
end, unless nothing is left. -/
def inputLines (s : Text) : List Text :=
  ((Text.splitOn ['\n'] s).map (Text.trimEnd (· = '\r'))).filter (!·.isEmpty)

/-- The selections to expand: those among the arguments or, if there are none,
those on the lines of the input. -/
def selections (w : Surroundings) (o : Options) : Except Failure (List Text) :=
  if o.inputs.isEmpty then
    match Utf8.decode? w.input with
    | some s => .ok (inputLines s)
    | none => .error .input
  else .ok o.inputs

/-- The paths of one selection. -/
def pathsOf (r : Selector) (s : Text) : Except Failure (List Text) :=
  match r.paths (some s) with
  | .done paths => .ok paths
  | .exceeded e => .error (.limit s e)
  | .unfinished => .error (.unfinished s)

/-- The paths of all selections, in order. -/
def pathsOfAll (r : Selector) : List Text → Except Failure (List Text)
  | [] => .ok []
  | s :: ss => do
    let paths ← pathsOf r s
    let more ← pathsOfAll r ss
    pure (paths ++ more)

/-- The report on expanded selections. -/
def expansionReport (w : Surroundings) (o : Options) : Except Failure Text := do
  let settings ← load w o
  let selector ← settings.selector.mapError .markers
  let paths ← pathsOfAll selector (← selections w o)
  let item := if o.withParams then Report.Item.ofPath settings.decodeParams else .plain
  pure (Report.render settings.format (paths.map item))

/-- The report on the parameters of fields. -/
def paramsReport (w : Surroundings) (o : Options) : Except Failure Text := do
  let settings ← load w o
  pure (Report.render settings.format
    (o.inputs.map (Report.Item.ofField settings.decodeParams)))

/-- What a command writes. -/
def run (w : Surroundings) : Command → Except Failure Text
  | expand o => expansionReport w o
  | params o => paramsReport w o

/-- The options of a command. -/
def options : Command → Options
  | expand o | params o => o

/-- Whether a command reads its input. -/
def readsInput : Command → Bool
  | expand o => o.inputs.isEmpty
  | params _ => false

end Command

/-- The answer to a call: its exit code and what it writes to either stream. -/
structure Response where
  code : Nat
  output : Text := []
  errors : Text := []
  deriving DecidableEq, Repr

namespace Response

/-- The name and version of the program. -/
def versionText : String := "fieldpath 0.1.0\n"

/-- How to call the program. -/
def usageText : String := "usage: fieldpath [options] (expand | params) [options] [input]...\n"

/-- The answer to arguments that name no command. -/
def ofHalt : Halt → Response
  | .usage => { code := 2, errors := usageText.toList }
  | .help => { code := 0, output := usageText.toList }
  | .version => { code := 0, output := versionText.toList }

/-- The answer of a command that has run. -/
def ofRun : Except Failure Text → Response
  | .ok s => { code := 0, output := s }
  | .error e => { code := 1, errors := ("Error: " ++ e.message ++ "\n").toList }

end Response

/-- The answer to a call with arguments. -/
def respond (w : Surroundings) (args : List Text) : Response :=
  match Command.ofArguments args with
  | .ok c => .ofRun (c.run w)
  | .error h => .ofHalt h

end FieldSelection
