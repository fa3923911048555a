/-
# TOML values and the tables of a document

A document defines its tables bit by bit: by headers, by headers of arrays of
tables, and by dotted keys. A table may be named on the way to another one before
it is defined, and then be defined once by a header. A table that came about by
dotted keys may only be added to by dotted keys. A node remembers how its table
came about; `Node.modifyAt` follows a path through the nodes and refuses one that
leads through a plain value or adds to a finished table.

Key definitions: `Toml`, `Toml.Node`, `Toml.Node.modifyAt`, `Toml.Node.define`.
-/
import FieldSelection.Entries
import FieldSelection.Number.Binary64

namespace FieldSelection

/-- A TOML value. A date or time is its text. -/
inductive Toml where
  | string (s : Text)
  | integer (n : Int)
  | float (x : Binary64)
  | bool (b : Bool)
  | dateTime (s : Text)
  | array (items : List Toml)
  | table (entries : List (Text × Toml))

namespace Toml

/-- A table of a document while it is read: a finished value, a table with what
is known of its origin, or an array of tables of which the last is open. -/
inductive Node where
  | value (v : Toml)
  | table (implicit dotted : Bool) (entries : List (Text × Node))
  | tables (items : List Node)

namespace Node

/-- A table that a header or braces define. -/
def newTable : Node := table false false []

mutual

/-- The value of a node. -/
def toToml : Node → Toml
  | value v => v
  | table _ _ es => .table (toTomlEntries es)
  | tables ns => .array (toTomlItems ns)

/-- The values of the entries of a table. -/
def toTomlEntries : List (Text × Node) → List (Text × Toml)
  | [] => []
  | (k, n) :: es => (k, toToml n) :: toTomlEntries es

/-- The values of the tables of an array. -/
def toTomlItems : List Node → List Toml
  | [] => []
  | n :: ns => toToml n :: toTomlItems ns

end

/-- A change to the table that a node stands for, which is the last one of an
array. A dotted key may not add to a table that is defined already. -/
def onTable (dotted : Bool) (f : Node → Option Node) : Node → Option Node
  | value _ => none
  | table implicit d es => if dotted && !implicit then none else f (table implicit d es)
  | tables ns =>
    match ns.reverse with
    | [] => none
    | n :: before => (f n).map fun n => tables (n :: before).reverse

/-- A change to the table at the end of a path. Tables on the way that are not
there yet come about. -/
def modifyAt (dotted : Bool) (f : Node → Option Node) : List Text → Node → Option Node
  | [], n => f n
  | k :: ks, table implicit d es =>
    let child :=
      match Entries.get? k es with
      | none => modifyAt dotted f ks (table true dotted [])
      | some n => onTable dotted (modifyAt dotted f ks) n
    child.map fun n => table implicit d (Entries.put k n es)
  | _, _ => none

/-- The table with a new key that must not be there yet. -/
def insertNew (key : Text) (n : Node) : Node → Option Node
  | table implicit d es =>
    if (Entries.get? key es).isSome then none else some (table implicit d (es ++ [(key, n)]))
  | _ => none

/-- Whether the table came about by dotted keys. -/
def isDotted : Node → Bool
  | table _ d _ => d
  | _ => false

/-- The table with a value under a dotted key: the path to a table and a key in
it. A path must lead to a table that dotted keys made. -/
def define (path : List Text) (key : Text) (v : Toml) (n : Node) : Option Node :=
  modifyAt true (fun t => if t.isDotted = path.isEmpty then none else insertNew key (value v) t)
    path n

end Node

/-- A document while it is read: the tables that are finished, and the open table
with the path of its header. -/
structure Draft where
  root : Node := .newTable
  current : Node := .newTable
  path : List Text := []
  inArray : Bool := false

namespace Draft

/-- A table added to the array of tables under a key. -/
def appendTable (key : Text) (t : Node) : Node → Option Node
  | .table implicit d es =>
    match Entries.get? key es with
    | none => some (.table implicit d (es ++ [(key, .tables [t])]))
    | some (.tables ns) => some (.table implicit d (Entries.put key (.tables (ns ++ [t])) es))
    | some _ => none
  | _ => none

/-- The document with its open table put in its place. -/
def close (d : Draft) : Option Node :=
  match d.path.getLast? with
  | none => some d.current
  | some key =>
    let put := if d.inArray then appendTable key d.current else Node.insertNew key d.current
    Node.modifyAt false put d.path.dropLast d.root

/-- The table under a key, if it may still be defined: it is not there, or it was
only named on the way to another table. -/
def openTable? (key : Text) : Node → Option Node
  | .table _ _ es =>
    match Entries.get? key es with
    | none => some .newTable
    | some (.table true false inner) => some (.table false false inner)
    | some _ => none
  | _ => none

/-- The table without a key. -/
def forget (key : Text) : Node → Node
  | .table implicit d es => .table implicit d (Entries.erase key es)
  | n => n

/-- The table at the end of a path of headers, and the document in which the
tables on the way exist. -/
def tableAt? : List Text → Node → Option Node
  | [], n => some n
  | k :: ks, .table _ _ es =>
    match Entries.get? k es with
    | none => some .newTable
    | some (.tables ns) => ns.getLast?.bind (tableAt? ks)
    | some n => tableAt? ks n
  | _, _ => none

/-- The document once the header of a table is read. -/
def header (path : List Text) (key : Text) (d : Draft) : Option Draft := do
  let root ← d.close
  let current ← openTable? key (← tableAt? path root)
  let root ← Node.modifyAt false (fun t => some (forget key t)) path root
  pure { root := root, current := current, path := path ++ [key] }

/-- Whether the key may head an array of tables: it is not there, or does so already. -/
def mayHoldTables (key : Text) : Node → Bool
  | .table _ _ es =>
    match Entries.get? key es with
    | none | some (.tables _) => true
    | some _ => false
  | _ => false

/-- The document once the header of an array of tables is read. -/
def arrayHeader (path : List Text) (key : Text) (d : Draft) : Option Draft := do
  let root ← d.close
  let root ← Node.modifyAt false (fun t => if mayHoldTables key t then some t else none) path root
  pure { root := root, path := path ++ [key], inArray := true }

/-- The document with a value under a dotted key of the open table. -/
def define (path : List Text) (key : Text) (v : Toml) (d : Draft) : Option Draft :=
  (d.current.define path key v).map fun t => { d with current := t }

end Draft
end Toml
end FieldSelection
