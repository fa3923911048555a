/-
# Entries under keys

A table is a list of entries, each a key with what stands under it. A key comes
once; entries keep the order in which their keys first came.

Key definitions: `Entries.get?`, `Entries.put`, `Entries.erase`.
-/
import FieldSelection.Text.Basic

namespace FieldSelection

/-- What stands under each key, in order. -/
abbrev Entries (α : Type) := List (Text × α)

namespace Entries

variable {α : Type}

/-- What stands under a key. -/
def get? (key : Text) : Entries α → Option α
  | [] => none
  | (k, a) :: es => if k = key then some a else get? key es

/-- The entries with `a` under a key: in the place of the key, or at the end. -/
def put (key : Text) (a : α) : Entries α → Entries α
  | [] => [(key, a)]
  | (k, b) :: es => if k = key then (k, a) :: es else (k, b) :: put key a es

/-- The entries without a key. -/
def erase (key : Text) (es : Entries α) : Entries α := es.filter fun e => e.1 ≠ key

end Entries
end FieldSelection
