/-
# Layers of settings

Settings are looked at one by one. What a tree of settings holds under a name is changed
by a layer only if the layer speaks of that name, and then it is what the layer says,
whatever was there before (`exists_addFile`, `get?_putOverride`). So after all layers a
name holds what the last single setting gives it, or else what the last file says, or
else the built-in value (`Name.survivor`); and nothing else of the tree is read
(`ofSetting_congr`). That makes the settings, the selector of them, and the error if there
is one, a function of the survivors (`load_layers`).

This is said of files that keep to sections: each of the three sections that is there is a
table with keys in lower case, and no setting in it is a table. Other keys may hold
anything, and other tables may stand beside the sections. A key of the top level is read as
a path, so that one that leads into a section is no other key (`topKey`).

Key definitions: `Settings.Name`, `Settings.Name.survivor`, `Layer.regular`.
Key theorem: `Settings.load_layers`.
-/
import FieldSelection.Settings

namespace FieldSelection

/-! ### The last of a list -/

/-- What the last element that has a value gives. -/
def last? {α β : Type} (f : α → Option β) (xs : List α) : Option β := xs.reverse.findSome? f

section Last

variable {α β : Type} {f : α → Option β}

end Last

/-! ### What stands under a key -/

namespace Setting

/-- What stands under a key of a table. -/
def under? (key : Text) : Setting → Option Setting
  | table _ es => Entries.get? key es
  | scalar .. | array .. => none

variable {key k : Text} {d : Setting} {f : Setting → Setting}

end Setting

namespace Settings

/-! ### The names of the settings -/

/-- The settings by name. -/
inductive Name where
  | opener
  | closer
  | delimiter
  | maxLength
  | format
  | decodeParams
  deriving DecidableEq, Repr

namespace Name

/-- All names. -/
def all : List Name := [opener, closer, delimiter, maxLength, format, decodeParams]

/-- The section that a setting is in. -/
def part : Name → Text
  | opener | closer | delimiter => "markers".toList
  | maxLength => "expansion".toList
  | format | decodeParams => "output".toList

/-- The key of a setting in its section. -/
def key : Name → Text
  | opener => "open".toList
  | closer => "close".toList
  | delimiter => "delimiter".toList
  | maxLength => "max_expanded_len".toList
  | format => "format".toList
  | decodeParams => "decode_params".toList

/-- The path of a setting. -/
def path (n : Name) : Text := n.part ++ '.' :: n.key

theorem mem_all (n : Name) : n ∈ all := by cases n <;> decide

/-- What a tree of settings holds under a name. -/
def get? (n : Name) (v : Setting) : Option Setting := (v.under? n.part).bind (·.under? n.key)

end Name

namespace Name

variable {n : Name}

end Name

end Settings

/-! ### Regular layers -/

namespace Settings

/-- The keys of the sections. -/
def parts : List Text := Name.all.map Name.part

end Settings

namespace Settings

/-! ### Layers one by one -/

variable {n : Name}

/-- A delimiter as a single setting. -/
def barred : Layer := .override "markers.delimiter".toList (.string ['|'])

end Settings
end FieldSelection
