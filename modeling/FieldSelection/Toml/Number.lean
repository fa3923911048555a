/-
# TOML numbers, dates and times

A whole number has 64 bits with its sign; it is decimal without a zero in front,
or has a mark for base 16, 8 or 2 and no sign. A floating-point number has digits
on both sides of its point, or an exponent, or both. An underscore may stand
between two digits. A date, a time or both are kept as text in one form: a `T`
between them, at most nine digits of a fraction and no zeros at its end, and a
`Z` or a signed offset. A table may also stand for a date: its first key marks it,
and the string under that key writes the date.

Key definitions: `Toml.readNumber?`, `Toml.readDateTime?`, `Toml.unmask?`.
-/
import FieldSelection.Toml
import FieldSelection.Toml.Text

namespace FieldSelection
namespace Toml

/-! ### Numbers -/

/-- The digits at the front, without the underscores between them. -/
def digitRun (isDigit : Char → Bool) : Text → Text × Text
  | [] => ([], [])
  | [c] => if isDigit c then ([c], []) else ([], [c])
  | c :: d :: s =>
    if isDigit c then
      if d = '_' then
        let run := digitRun isDigit s
        if run.1.isEmpty then ([c], d :: s) else (c :: run.1, run.2)
      else
        let run := digitRun isDigit (d :: s)
        (c :: run.1, run.2)
    else ([], c :: d :: s)

/-- One or more digits. -/
def readDigits? (isDigit : Char → Bool) (s : Text) : Option (Text × Text) :=
  let run := digitRun isDigit s
  if run.1.isEmpty then none else some run

/-- A number in base 16, 8 or 2 after its mark. -/
def readMarked? (base : Nat) (s : Text) : Option (Toml × Text) := do
  let (ds, r) ← readDigits? (fun c => (Numeral.digit? base c).isSome) s
  let n ← Numeral.inBase? base ds
  if n < Nat.pow 2 63 then pure (integer n, r) else none

/-- A fraction after its point, or nothing. -/
def readFraction? : Text → Option (Text × Text)
  | '.' :: r => readDigits? Char.isDigit r
  | s => some ([], s)

/-- An exponent, or nothing. -/
def readExponent? : Text → Option (Text × Text)
  | [] => some ([], [])
  | c :: r =>
    if c = 'e' || c = 'E' then
      match r with
      | '-' :: r => (readDigits? Char.isDigit r).map fun (ds, r) => ('e' :: '-' :: ds, r)
      | '+' :: r => (readDigits? Char.isDigit r).map fun (ds, r) => ('e' :: ds, r)
      | r => (readDigits? Char.isDigit r).map fun (ds, r) => ('e' :: ds, r)
    else some ([], c :: r)

/-- The whole part of a number: a zero, or digits that start with none. -/
def readWhole? : Text → Option (Text × Text)
  | '0' :: r => some (['0'], r)
  | s => readDigits? Char.isDigit s

/-- A whole number of 64 bits with its sign. -/
def signedInteger? (negative : Bool) (n : Nat) : Option Toml :=
  if negative then (if n ≤ Nat.pow 2 63 then some (integer (-(n : Int))) else none)
  else if n < Nat.pow 2 63 then some (integer n) else none

/-- A floating-point number. Too great a number is refused unless it is negative. -/
def signedFloat? (negative : Bool) (d : Decimal) : Option Toml :=
  let x := Binary64.ofDecimal negative d
  if x.isFinite || negative then some (float x) else none

/-- A decimal number after its sign. -/
def readDecimal? (negative : Bool) (s : Text) : Option (Toml × Text) := do
  let (whole, r) ← readWhole? s
  let (fraction, r) ← readFraction? r
  let (exponent, r) ← readExponent? r
  if fraction.isEmpty && exponent.isEmpty then
    let v ← signedInteger? negative (← Numeral.inBase? 10 whole)
    pure (v, r)
  else
    let v ← signedFloat? negative (← Decimal.ofParts? whole fraction exponent)
    pure (v, r)

/-- A number after its sign. -/
def readAfterSign? (negative : Bool) : Text → Option (Toml × Text)
  | 'i' :: 'n' :: 'f' :: r => some (float (.infinite negative), r)
  | 'n' :: 'a' :: 'n' :: r => some (float .nan, r)
  | s => readDecimal? negative s

/-- A number. -/
def readNumber? : Text → Option (Toml × Text)
  | '0' :: 'x' :: r => readMarked? 16 r
  | '0' :: 'o' :: r => readMarked? 8 r
  | '0' :: 'b' :: r => readMarked? 2 r
  | '+' :: r => readAfterSign? false r
  | '-' :: r => readAfterSign? true r
  | s => readAfterSign? false s

/-! ### Dates and times -/

/-- A number of exactly so many digits, in the range. -/
def readFixed? (width low high : Nat) (s : Text) : Option (Text × Text) :=
  let ds := s.take width
  if ds.length = width then
    (Numeral.inBase? 10 ds).bind fun n =>
      if low ≤ n && n ≤ high then some (ds, s.drop width) else none
  else none

/-- The text after a character that has to come. -/
def expect? (c : Char) : Text → Option Text
  | [] => none
  | d :: s => if d = c then some s else none

/-- The number of days of a month. -/
def daysIn (year month : Nat) : Nat :=
  if month = 2 then (if year % 4 = 0 && (year % 100 ≠ 0 || year % 400 = 0) then 29 else 28)
  else if month = 4 || month = 6 || month = 9 || month = 11 then 30
  else 31

/-- A date. -/
def readDate? (s : Text) : Option (Text × Text) := do
  let (year, r) ← readFixed? 4 0 9999 s
  let (month, r) ← readFixed? 2 1 12 (← expect? '-' r)
  let days := daysIn (← Numeral.inBase? 10 year) (← Numeral.inBase? 10 month)
  let (day, r) ← readFixed? 2 1 days (← expect? '-' r)
  pure (year ++ '-' :: month ++ '-' :: day, r)

/-- The fraction of a second, or nothing: at most nine digits, no zeros at the end. -/
def readSecondFraction? : Text → Option (Text × Text)
  | '.' :: r =>
    let ds := r.takeWhile Char.isDigit
    let kept := Text.trimEnd (· = '0') (ds.take 9)
    if ds.isEmpty then none
    else some (if kept.isEmpty then [] else '.' :: kept, r.dropWhile Char.isDigit)
  | s => some ([], s)

/-- How far the parts of a time may go: the hour of the day, and the hour and the
minute of an offset. -/
structure ClockBounds where
  hour : Nat
  offsetHour : Nat
  offsetMinute : Nat

/-- The bounds for a time that is a value of a document. -/
def ClockBounds.ofValue : ClockBounds := ⟨23, 23, 59⟩

/-- The bounds for a time in a string: the day may end with hour 24, and the
parts of an offset may be any numbers that come to a day at most. -/
def ClockBounds.ofString : ClockBounds := ⟨24, 99, 99⟩

/-- A number in two digits. -/
def twoDigits (n : Nat) : Text := Numeral.decimal (n / 10 % 10) ++ Numeral.decimal (n % 10)

/-- A time of day. -/
def readTime? (b : ClockBounds) (s : Text) : Option (Text × Text) := do
  let (hour, r) ← readFixed? 2 0 b.hour s
  let (minute, r) ← readFixed? 2 0 59 (← expect? ':' r)
  let (second, r) ← readFixed? 2 0 60 (← expect? ':' r)
  let (fraction, r) ← readSecondFraction? r
  pure (hour ++ ':' :: minute ++ ':' :: second ++ fraction, r)

/-- An offset from universal time in minutes. No offset at all is a positive one. -/
def offsetText? (sign : Char) (minutes : Nat) : Option Text :=
  if minutes ≤ 24 * 60 then
    some ((if minutes = 0 then '+' else sign) :: twoDigits (minutes / 60)
      ++ ':' :: twoDigits (minutes % 60))
  else none

/-- An offset from universal time, or nothing. -/
def readOffset? (b : ClockBounds) : Text → Option (Text × Text)
  | 'Z' :: r | 'z' :: r => some (['Z'], r)
  | [] => some ([], [])
  | c :: s =>
    if c = '+' || c = '-' then do
      let (hour, r) ← readFixed? 2 0 b.offsetHour s
      let (minute, r) ← readFixed? 2 0 b.offsetMinute (← expect? ':' r)
      let hours ← Numeral.inBase? 10 hour
      let minutes ← Numeral.inBase? 10 minute
      pure (← offsetText? c (60 * hours + minutes), r)
    else some ([], c :: s)

/-- The time after a date, with its offset. -/
def readTimeOfDate? (b : ClockBounds) : Text → Option (Text × Text)
  | [] => none
  | c :: s =>
    if c = 'T' || c = 't' || c = ' ' then do
      let (time, r) ← readTime? b s
      let (offset, r) ← readOffset? b r
      pure ('T' :: time ++ offset, r)
    else none

/-- A date, a time or both. -/
def readDateTime? (b : ClockBounds) (s : Text) : Option (Text × Text) :=
  match readDate? s with
  | some (date, r) =>
    match readTimeOfDate? b r with
    | some (time, r) => some (date ++ time, r)
    | none => some (date, r)
  | none => readTime? b s

/-! ### Dates in disguise -/

/-- The key that marks a table as a date. -/
def dateKey : Text := "$__toml_private_datetime".toList

/-- The date or time that a string writes, with nothing around it. -/
def dateOfString? (s : Text) : Option Toml :=
  match readDateTime? .ofString s with
  | some (date, []) => some (dateTime date)
  | _ => none

mutual

/-- The value with its marked tables read as dates. A table is marked by its first
key, under which a string has to stand that writes the date; what else the table
holds does not count. -/
def unmask? : Toml → Option Toml
  | array vs => (unmaskItems? vs).map array
  | table [] => some (table [])
  | table ((k, v) :: es) =>
    if k = dateKey then
      match v with
      | string s => dateOfString? s
      | _ => none
    else
      match unmask? v, unmaskEntries? es with
      | some v, some es => some (table ((k, v) :: es))
      | _, _ => none
  | v => some v

/-- The items of an array with their marked tables read as dates. -/
def unmaskItems? : List Toml → Option (List Toml)
  | [] => some []
  | v :: vs =>
    match unmask? v, unmaskItems? vs with
    | some v, some vs => some (v :: vs)
    | _, _ => none

/-- The entries after the first one of a table with their marked tables read as dates. -/
def unmaskEntries? : List (Text × Toml) → Option (List (Text × Toml))
  | [] => some []
  | (k, v) :: es =>
    match unmask? v, unmaskEntries? es with
    | some v, some es => some ((k, v) :: es)
    | _, _ => none

end

end Toml
end FieldSelection
