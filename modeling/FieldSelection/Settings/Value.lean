/-
# Values of settings and their layers

A value remembers the file it comes from. Layers are put on top of each other key
by key: a table onto a table merges their entries, anything else replaces what was
there. Keys count in lower case. A table that comes about by merging has no file
of its own. An empty table has no entry to merge, and so leaves what was there.

Key definitions: `Setting`, `Setting.merge`, `Setting.setAt`, `Setting.ofToml`.
-/
import FieldSelection.Settings.KeyPath
import FieldSelection.Text.Lowercase
import FieldSelection.Toml

namespace FieldSelection

/-- A value without parts. -/
inductive Scalar where
  | nil
  | bool (b : Bool)
  | integer (n : Int)
  | float (x : Binary64)
  | string (s : Text)
  deriving DecidableEq, Repr

/-- A value of the settings, with the file it comes from. -/
inductive Setting where
  | scalar (origin : Option Text) (s : Scalar)
  | table (origin : Option Text) (entries : List (Text × Setting))
  | array (origin : Option Text) (items : List Setting)

namespace Setting

/-- The file that a value comes from. -/
def origin : Setting → Option Text
  | scalar o _ | table o _ | array o _ => o

/-- A value that stands for nothing. -/
def nil : Setting := scalar none .nil

/-- A table without entries. -/
def emptyTable : Setting := table none []

mutual

/-- The value of a file. -/
def ofToml (origin : Option Text) : Toml → Setting
  | .string s => scalar origin (.string s)
  | .integer n => scalar origin (.integer n)
  | .float x => scalar origin (.float x)
  | .bool b => scalar origin (.bool b)
  | .dateTime s => scalar origin (.string s)
  | .array vs => array origin (ofTomlItems origin vs)
  | .table es => table origin (ofTomlEntries origin es)

/-- The items of an array of a file. -/
def ofTomlItems (origin : Option Text) : List Toml → List Setting
  | [] => []
  | v :: vs => ofToml origin v :: ofTomlItems origin vs

/-- The entries of a table of a file. -/
def ofTomlEntries (origin : Option Text) : List (Text × Toml) → List (Text × Setting)
  | [] => []
  | (k, v) :: es => (k, ofToml origin v) :: ofTomlEntries origin es

end

/-- The table with its entries changed; what is no table counts as an empty one. -/
def onEntries (f : Entries Setting → Entries Setting) : Setting → Setting
  | table o es => table o (f es)
  | scalar .. | array .. => table none (f [])

/-- The array with its items changed; what is no array counts as an empty one. -/
def onItems (f : List Setting → List Setting) : Setting → Setting
  | array o vs => array o (f vs)
  | scalar .. | table .. => array none (f [])

/-- The value under a key, changed. A key that is not there holds `default` before. -/
def onKey (key : Text) (default : Setting) (f : Setting → Setting) : Setting → Setting :=
  onEntries fun es =>
    let k := Text.lowercase key
    Entries.put k (f ((Entries.get? k es).getD default)) es

mutual

/-- A value put onto the table `below` under a key. -/
def merge (key : Text) : (value : Setting) → (below : Setting) → Setting
  | table _ es, below => onKey key emptyTable (mergeEntries es) below
  | scalar o s, below => onKey key nil (fun _ => scalar o s) below
  | array o vs, below => onKey key nil (fun _ => array o vs) below

/-- Entries put onto a value, one after the other. -/
def mergeEntries : (entries : List (Text × Setting)) → (below : Setting) → Setting
  | [], below => below
  | (k, v) :: es, below => mergeEntries es (merge k v below)

end

/-- The place of a position in a list of so many items. -/
def place (length : Nat) (position : Int) : Nat :=
  if position < 0 then length - position.natAbs else position.toNat

/-- The list with at least so many items, the new ones standing for nothing. -/
def extendTo (length : Nat) (vs : List Setting) : List Setting :=
  vs ++ List.replicate (length - vs.length) nil

/-- A value put at the end of a path. -/
def setAt (value : Setting) : KeyPath → (below : Setting) → Setting
  | [], _ => value
  | [.key k], below => merge k value below
  | .key k :: path, below => onKey k nil (setAt value path) below
  | .index i :: path, below =>
    onItems (fun vs =>
      let n := place vs.length i
      (extendTo (n + 1) vs).modify n (setAt value path)) below

end Setting
end FieldSelection
