/-
# Reading TOML

A document is a list of lines: headers, keys with values, comments, or nothing.
A document that breaks a rule of the format is refused as a whole. A step of a
reader takes one from its fuel; twice the length of the text is enough for a
value and its length for the lines.

Key definitions: `Toml.readValue?`, `Toml.read?`.
-/
import FieldSelection.Toml.Number

namespace FieldSelection
namespace Toml

mutual

/-- A value inside at most `depth` further brackets. -/
def readValue? : (fuel depth : Nat) → Text → Option (Toml × Text)
  | 0, _, _ => none
  | fuel + 1, depth, s =>
    match s with
    | '"' :: _ | '\'' :: _ => (readString? s).map fun (s, r) => (string s, r)
    | '[' :: r =>
      if depth = 0 then none
      else (readItems? fuel (depth - 1) r).map fun (vs, r) => (array vs, r)
    | '{' :: r =>
      if depth = 0 then none
      else
        match skipSpace r with
        | '}' :: r => some (table [], r)
        | r => (readMembers? fuel (depth - 1) .newTable r).map fun (n, r) => (n.toToml, r)
    | 't' :: 'r' :: 'u' :: 'e' :: r => some (bool true, r)
    | 'f' :: 'a' :: 'l' :: 's' :: 'e' :: r => some (bool false, r)
    | s =>
      match readDateTime? .ofValue s with
      | some (date, r) => some (dateTime date, r)
      | none => readNumber? s

/-- The items that are left of an array and the bracket that closes it. -/
def readItems? : (fuel depth : Nat) → Text → Option (List Toml × Text)
  | 0, _, _ => none
  | fuel + 1, depth, s =>
    match skipGap false s with
    | ']' :: r => some ([], r)
    | s => do
      let (v, r) ← readValue? fuel depth s
      match skipGap false r with
      | ',' :: r =>
        let (vs, r) ← readItems? fuel depth r
        pure (v :: vs, r)
      | ']' :: r => pure ([v], r)
      | _ => none

/-- One or more members of a table between braces, put into `n`, and the brace
that closes it. -/
def readMembers? : (fuel depth : Nat) → (n : Node) → Text → Option (Node × Text)
  | 0, _, _, _ => none
  | fuel + 1, depth, n, s => do
    let ((path, key), r) ← readKey? s
    let (v, r) ← readValue? fuel depth (skipSpace (← expect? '=' r))
    let n ← n.define path key v
    match skipSpace r with
    | ',' :: r => readMembers? fuel depth n r
    | '}' :: r => pure (n, r)
    | _ => none

end

/-- A key with its value, on a line of its own. -/
def readDefinition? (d : Draft) (s : Text) : Option (Draft × Text) := do
  let ((path, key), r) ← readKey? s
  let (v, r) ← readValue? (2 * r.length + 2) depthLimit (skipSpace (← expect? '=' r))
  let r ← endLine? r
  pure (← d.define path key v, r)

/-- A line of a document, from its first character that is no blank on. -/
def readLine? (d : Draft) (s : Text) : Option (Draft × Text) :=
  match s with
  | '[' :: '[' :: r => do
    let ((path, key), r) ← readKey? r
    let r ← endLine? (← expect? ']' (← expect? ']' r))
    pure (← d.arrayHeader path key, r)
  | '[' :: r => do
    let ((path, key), r) ← readKey? r
    let r ← endLine? (← expect? ']' r)
    pure (← d.header path key, r)
  | '#' :: _ | '\n' :: _ | '\r' :: _ => (endLine? s).map fun r => (d, r)
  | s => readDefinition? d s

/-- The lines of a document. -/
def readLines? : (fuel : Nat) → Draft → Text → Option Draft
  | 0, _, _ => none
  | fuel + 1, d, s =>
    match skipSpace s with
    | [] => some d
    | s => do
      let (d, r) ← readLine? d s
      readLines? fuel d r

/-- The text without a byte order mark at its front. -/
def dropMark : Text → Text
  | '\uFEFF' :: s => s
  | s => s

/-- The entries of a document. Two byte order marks may stand at its front: one
of the file, one of the text in it. -/
def read? (s : Text) : Option (Entries Toml) := do
  let s := dropMark (dropMark s)
  let d ← readLines? (s.length + 1) {} s
  match ← unmask? (← d.close).toToml with
  | table es => some es
  | _ => none

end Toml
end FieldSelection
