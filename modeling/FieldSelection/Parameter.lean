/-
# Parameters of a field

A field may carry a block of parameters between braces, `{key=value;key=value}`.
Only the first block counts: from the first opening brace to the first closing
brace after it. A key is the run of word characters right before an equals sign,
a value goes up to the next semicolon or closing brace. A key that comes again
keeps its first place and takes the last value. Values are read as they are
written, or decoded.

Key definitions: `Parameter`, `Parameter.cutBlock?`, `Parameter.pairs`,
`Parameter.read`, `Parameter.strip`, `Parameter.write`.
-/
import FieldSelection.Text.Percent

namespace FieldSelection

/-- A parameter of a field. -/
structure Parameter where
  key : Text
  value : Text
  deriving DecidableEq, Repr

namespace Parameter

/-- A field cut around its first block. -/
structure Cut where
  before : Text
  inside : Text
  after : Text
  deriving DecidableEq, Repr

/-- The field cut around its first block, if it has one. -/
def cutBlock? (field : Text) : Option Cut :=
  match field.dropWhile (· ≠ '{') with
  | [] => none
  | _ :: opened =>
    match opened.dropWhile (· ≠ '}') with
    | [] => none
    | _ :: after => some
      { before := field.takeWhile (· ≠ '{')
        inside := opened.takeWhile (· ≠ '}')
        after := after }

/-- The block of a cut field, with its braces. -/
def Cut.block (c : Cut) : Text := '{' :: c.inside ++ ['}']

/-- The bytes that the first block of a field takes, if it has one. -/
def blockSpan? (field : Text) : Option Span :=
  (cutBlock? field).map fun c =>
    let start := Text.byteLength c.before
    ⟨start, start + Text.byteLength c.block⟩

/-- Whether a character may be part of a key. -/
def isWord (c : Char) : Bool := c.isAlphanum || c = '_'

/-- Whether a character may be part of a value. -/
def inValue (c : Char) : Bool := c ≠ ';' && c ≠ '}'

/-- The keys and values of a text once `skip` characters of the last value are
passed over. `run` is the run of word characters just read, last one first. -/
def pairsFrom : (skip : Nat) → (run : Text) → Text → List Parameter
  | _, _, [] => []
  | skip + 1, _, _ :: s => pairsFrom skip [] s
  | 0, run, c :: s =>
    if c = '=' then
      let value := s.takeWhile inValue
      ⟨run.reverse, value⟩ :: pairsFrom value.length [] s
    else pairsFrom 0 (if isWord c then c :: run else []) s

/-- The keys and values of a text, from left to right. -/
def pairs (s : Text) : List Parameter := pairsFrom 0 [] s

/-- The parameter put into a list: in the place of its key, or at the end. -/
def put (p : Parameter) : List Parameter → List Parameter
  | [] => [p]
  | q :: qs => if q.key = p.key then p :: qs else q :: put p qs

/-- A parameter with its value decoded. -/
def decoded (p : Parameter) : Parameter := { p with value := Percent.decode p.value }

/-- The parameters of a field, with their values decoded or as they are written. -/
def read (decode : Bool) (field : Text) : List Parameter :=
  match cutBlock? field with
  | none => []
  | some c =>
    (pairs c.block).foldl (fun ps p => put (if decode then p.decoded else p) ps) []

/-- The field without its first block. -/
def strip (field : Text) : Text :=
  match cutBlock? field with
  | none => field
  | some c => c.before ++ c.after

/-- A parameter in plain text. -/
def write (p : Parameter) : Text := p.key ++ '=' :: p.value

end Parameter
end FieldSelection
