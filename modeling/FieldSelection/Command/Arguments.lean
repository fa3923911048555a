/-
# Command-line arguments

There are two commands, each with its options; some options may also stand before
the command. An option has a long name after two hyphens, and some have a letter
after one. Letters may be run together, up to the first that takes a value. A value
stands after an equals sign, right after the letter, or in the next argument, which
must then not look like an option. After two hyphens alone everything is an input.
An option that sets something may come once on either side of the command, and what
comes after the command counts.

Key definitions: `Switch`, `Options`, `Arguments.readFrom`, `Command.ofArguments`.
-/
import FieldSelection.Report

namespace FieldSelection

/-- Where an argument stands: before the command, or after one of the two. -/
inductive Place where
  | start
  | expand
  | params
  deriving DecidableEq, Repr

/-- The options. -/
inductive Switch where
  | config
  | verbose
  | help
  | version
  | opener
  | closer
  | delimiter
  | maxLength
  | withParams
  | format
  deriving DecidableEq, Repr

namespace Switch

/-- The long name of an option. -/
def longName : Switch → String
  | config => "config"
  | verbose => "verbose"
  | help => "help"
  | version => "version"
  | opener => "open"
  | closer => "close"
  | delimiter => "delimiter"
  | maxLength => "max-len"
  | withParams => "with-params"
  | format => "format"

/-- The letter of an option, if it has one. -/
def letter? : Switch → Option Char
  | config => some 'c'
  | verbose => some 'v'
  | help => some 'h'
  | version => some 'V'
  | delimiter => some 'd'
  | format => some 'f'
  | opener | closer | maxLength | withParams => none

/-- Whether the option takes a value. -/
def takesValue : Switch → Bool
  | config | opener | closer | delimiter | maxLength | format => true
  | verbose | help | version | withParams => false

/-- The options that may stand at a place. -/
def allowed : Place → List Switch
  | .start => [config, verbose, help, version]
  | .expand =>
    [config, verbose, help, opener, closer, delimiter, maxLength, withParams, format]
  | .params => [config, verbose, help, format]

/-- The option of a long name at a place. -/
def ofName? (p : Place) (name : Text) : Option Switch :=
  (allowed p).find? fun s => s.longName.toList = name

/-- The option of a letter at a place. -/
def ofLetter? (p : Place) (c : Char) : Option Switch :=
  (allowed p).find? fun s => s.letter? = some c

end Switch

/-- Why arguments name no command to run: they are wrong, or ask for a text. -/
inductive Halt where
  | usage
  | help
  | version
  deriving DecidableEq, Repr

/-- What the arguments of one place set. -/
structure Options where
  config : Option Text := none
  opener : Option Text := none
  closer : Option Text := none
  delimiter : Option Text := none
  maxLength : Option Nat := none
  format : Option Report.Format := none
  withParams : Bool := false
  inputs : List Text := []
  deriving DecidableEq, Repr

namespace Options

/-- A setting that must not be there yet. -/
def setOnce {α : Type} (old : Option α) (new : α) : Except Halt (Option α) :=
  if old.isSome then .error .usage else .ok (some new)

/-- A value that must make sense. -/
def needed {α : Type} : Option α → Except Halt α
  | some a => .ok a
  | none => .error .usage

/-- A length: a numeral of 64 bits, with a plus or without. -/
def lengthOfText? (s : Text) : Option Nat :=
  let digits := match s with
    | '+' :: r => r
    | r => r
  (Numeral.inBase? 10 digits).filter (· < Nat.pow 2 64)

/-- The options with a value for one that takes it. -/
def set (o : Options) (value : Text) : Switch → Except Halt Options
  | .config => do pure { o with config := ← setOnce o.config value }
  | .opener => do pure { o with opener := ← setOnce o.opener value }
  | .closer => do pure { o with closer := ← setOnce o.closer value }
  | .delimiter => do pure { o with delimiter := ← setOnce o.delimiter value }
  | .maxLength => do
    pure { o with maxLength := ← setOnce o.maxLength (← needed (lengthOfText? value)) }
  | .format => do
    pure { o with format := ← setOnce o.format (← needed (Report.Format.ofName? value)) }
  | .verbose | .help | .version | .withParams => .error .usage

/-- The options with one more that takes no value. -/
def raise (o : Options) : Switch → Except Halt Options
  | .verbose => .ok o
  | .help => .error .help
  | .version => .error .version
  | .withParams => if o.withParams then .error .usage else .ok { o with withParams := true }
  | .config | .opener | .closer | .delimiter | .maxLength | .format => .error .usage

end Options

namespace Arguments

/-- Whether an argument looks like an option. -/
def isOption : Text → Bool
  | '-' :: _ :: _ => true
  | _ => false

/-- The text without an equals sign in front. -/
def dropEquals : Text → Text
  | '=' :: s => s
  | s => s

/-- Letters run together: the options they set, and one that waits for its value. -/
def readLetters (p : Place) (o : Options) : Text → Except Halt (Options × Option Switch)
  | [] => .ok (o, none)
  | c :: r =>
    match Switch.ofLetter? p c with
    | none => .error .usage
    | some s =>
      if s.takesValue then
        if r.isEmpty then .ok (o, some s) else (o.set (dropEquals r) s).map (·, none)
      else
        match o.raise s with
        | .ok o => readLetters p o r
        | .error e => .error e

/-- A long option, with or without a value of its own. -/
def readLong (p : Place) (o : Options) (arg : Text) : Except Halt (Options × Option Switch) :=
  match Switch.ofName? p (arg.takeWhile (· ≠ '=')), arg.dropWhile (· ≠ '=') with
  | none, _ => .error .usage
  | some s, [] => if s.takesValue then .ok (o, some s) else (o.raise s).map (·, none)
  | some s, _ :: value => (o.set value s).map (·, none)

/-- One argument: options, or else an input. -/
def readOne (p : Place) (o : Options) : Text → Except Halt (Options × Option Switch)
  | '-' :: '-' :: name => readLong p o name
  | '-' :: c :: letters => readLetters p o (c :: letters)
  | a => .ok ({ o with inputs := o.inputs ++ [a] }, none)

/-- The arguments of a place and those that are left. Before the command the first
argument that is no option is left, with all that follow; `waiting` is an option
whose value comes next. -/
def readFrom (p : Place) : (waiting : Option Switch) → Options → List Text →
    Except Halt (Options × List Text)
  | none, o, [] => .ok (o, [])
  | some _, _, [] => .error .usage
  | some s, o, a :: as =>
    if isOption a then .error .usage
    else
      match o.set a s with
      | .ok o => readFrom p none o as
      | .error e => .error e
  | none, o, a :: as =>
    if a = ['-', '-'] then
      if p = .start then .error .usage else .ok ({ o with inputs := o.inputs ++ as }, [])
    else if p = .start ∧ ¬ isOption a then .ok (o, a :: as)
    else
      match readOne p o a with
      | .ok (o, waiting) => readFrom p waiting o as
      | .error e => .error e

end Arguments

/-- A command to run. -/
inductive Command where
  | expand (o : Options)
  | params (o : Options)
  deriving DecidableEq, Repr

namespace Command

/-- The options of the second place, with the file of the first where they name none. -/
def withConfig (outer o : Options) : Options := { o with config := o.config <|> outer.config }

/-- The command that the arguments name. -/
def ofArguments (args : List Text) : Except Halt Command := do
  match ← Arguments.readFrom .start none {} args with
  | (_, []) => .error .usage
  | (outer, name :: rest) =>
    if name = "expand".toList then
      let (o, _) ← Arguments.readFrom .expand none {} rest
      pure (expand (withConfig outer o))
    else if name = "params".toList then
      let (o, _) ← Arguments.readFrom .params none {} rest
      if o.inputs.isEmpty then .error .usage else pure (params (withConfig outer o))
    else .error .usage

end Command
end FieldSelection
