/-
# Settings

The settings are built from layers: the built-in ones, then files in order, then
single settings named by their paths, which come on top wherever they stand among
the layers. A file that must exist and does not is an error, and so is one that
cannot be read as TOML. The layers are merged before anything is read from them,
so what a later layer hides need not make sense.

Key definitions: `Settings`, `Layer`, `Settings.load`, `Settings.markers`,
`Settings.selector`.
-/
import FieldSelection.Report
import FieldSelection.Selection
import FieldSelection.Settings.Reading
import FieldSelection.Toml.Reader

namespace FieldSelection

/-- All that can be set. A length of zero is no limit. -/
structure Settings where
  opener : Text
  closer : Text
  delimiter : Text
  maxLength : Nat
  format : Report.Format
  decodeParams : Bool
  deriving DecidableEq, Repr

/-- A layer of settings: a file with its text, if it exists, or one setting. -/
inductive Layer where
  | file (name : Text) (content : Option Text) (required : Bool)
  | override (path : Text) (value : Scalar)

namespace Settings

/-- The built-in settings. -/
def standard : Settings where
  opener := ['(']
  closer := [')']
  delimiter := [',']
  maxLength := 0
  format := .lines
  decodeParams := true

/-! ### The tree of settings -/

/-- The section of the markers. -/
def markersPart : Section := ⟨"MarkersConfig", ["open", "close", "delimiter"]⟩

/-- The section of the expansion. -/
def expansionPart : Section := ⟨"ExpansionConfig", ["max_expanded_len"]⟩

/-- The section of the output. -/
def outputPart : Section := ⟨"OutputConfig", ["format", "decode_params"]⟩

/-- The sections of the settings. -/
def rootPart : Section := ⟨"Settings", ["markers", "expansion", "output"]⟩

/-- A table of built-in values. -/
def builtIn (entries : List (String × Setting)) : Setting :=
  .table none (entries.map fun e => (e.1.toList, e.2))

/-- The settings as a tree of values. -/
def toSetting (s : Settings) : Setting :=
  let text (t : Text) := Setting.scalar none (.string t)
  builtIn
    [("markers", builtIn
        [("open", text s.opener), ("close", text s.closer), ("delimiter", text s.delimiter)]),
     ("expansion", builtIn [("max_expanded_len", .scalar none (.integer s.maxLength))]),
     ("output", builtIn
        [("format", text s.format.name.toList),
         ("decode_params", .scalar none (.bool s.decodeParams))])]

/-- The format of a name, in capitals or not. -/
def formatNamed (name : Text) : Except SettingsError Report.Format :=
  match Report.Format.ofName? (Text.lowercase name) with
  | some f => .ok f
  | none => .error (.unknownFormat name)

/-- A format: its name, or a table whose one key is the name. -/
def readFormat (_key : Text) : Setting → Except SettingsError Report.Format
  | .scalar _ (.string s) => formatNamed s
  | .table _ [(k, _)] => formatNamed k
  | _ => .error .notFormat

/-- The texts of the markers in a section. -/
def readMarkers (key : Text) (v : Setting) : Except SettingsError (Text × Text × Text) := do
  let c ← markersPart.contents key v
  let opener ← c.read? 0 (Setting.located Setting.readText)
  let closer ← c.read? 1 (Setting.located Setting.readText)
  let delimiter ← c.read? 2 (Setting.located Setting.readText)
  pure (← c.need opener, ← c.need closer, ← c.need delimiter)

/-- The greatest length in a section. -/
def readExpansion (key : Text) (v : Setting) : Except SettingsError Nat := do
  let c ← expansionPart.contents key v
  c.need (← c.read? 0 (Setting.located Setting.readSize))

/-- The format and whether to decode in a section. -/
def readOutput (key : Text) (v : Setting) : Except SettingsError (Report.Format × Bool) := do
  let c ← outputPart.contents key v
  let format ← c.read? 0 readFormat
  let decode ← c.read? 1 (Setting.located Setting.readBool)
  pure (← c.need format, ← c.need decode)

/-- The settings that a tree of values holds. -/
def ofSetting (v : Setting) : Except SettingsError Settings := do
  let c ← rootPart.contents [] v
  let markers ← c.read? 0 readMarkers
  let maxLength ← c.read? 1 readExpansion
  let output ← c.read? 2 readOutput
  let (opener, closer, delimiter) ← c.need markers
  let maxLength ← c.need maxLength
  let (format, decodeParams) ← c.need output
  pure ⟨opener, closer, delimiter, maxLength, format, decodeParams⟩

/-! ### Layers -/

/-- A top-level entry of a file put onto a tree. A key that is a path is followed. -/
def putEntry (key : Text) (value : Setting) (below : Setting) : Setting :=
  match KeyPath.read key with
  | .ok path => Setting.setAt value path below
  | .error _ => Setting.merge key value below

/-- The entries of a file put onto a tree. -/
def putFile (name : Text) (entries : Entries Toml) (below : Setting) : Setting :=
  entries.foldl (fun v e => putEntry e.1 (.ofToml (some name) e.2) v) below

/-- A layer put onto a tree, if it is a file. -/
def addFile (below : Setting) : Layer → Except SettingsError Setting
  | .file name none required => if required then .error (.missingFile name) else .ok below
  | .file name (some content) _ =>
    match Toml.read? content with
    | some entries => .ok (putFile name entries below)
    | none => .error (.badFile name)
  | .override .. => .ok below

/-- The single settings among the layers. The first path that cannot be read is
an error. -/
def overrides : List Layer → Except SettingsError (List (KeyPath × Scalar))
  | [] => .ok []
  | .file .. :: layers => overrides layers
  | .override path value :: layers =>
    match KeyPath.read path with
    | .ok path => (overrides layers).map ((path, value) :: ·)
    | .error e => .error (.path e)

/-- A single setting put onto a tree. -/
def putOverride (below : Setting) (o : KeyPath × Scalar) : Setting :=
  Setting.setAt (.scalar none o.2) o.1 below

/-- The settings of a list of layers on top of the built-in ones. -/
def load (layers : List Layer) : Except SettingsError Settings := do
  let singles ← overrides layers
  let files ← layers.foldlM addFile standard.toSetting
  ofSetting (singles.foldl putOverride files)

/-! ### Use -/

/-- The markers of the settings. -/
def markers (s : Settings) : Except MarkerError Markers :=
  Markers.ofTexts (Mark.choose s.opener s.closer s.delimiter)

/-- The selector of the settings, with no default paths. -/
def selector (s : Settings) : Except MarkerError Selector :=
  s.markers.map fun m =>
    { markers := m, limit := if s.maxLength = 0 then none else some s.maxLength }

end Settings

/-- What can be wrong on the way from a file to a selector. -/
inductive LoadError where
  | settings (e : SettingsError)
  | markers (e : MarkerError)

/-- The text of an error. -/
def LoadError.message : LoadError → String
  | settings e => e.message
  | markers e => "invalid markers: " ++ e.message

/-- The settings of at most one file, and the selector they make. -/
def loadSelector (file : Option Layer) : Except LoadError (Settings × Selector) := do
  let s ← (Settings.load file.toList).mapError .settings
  let r ← s.selector.mapError .markers
  pure (s, r)

end FieldSelection
