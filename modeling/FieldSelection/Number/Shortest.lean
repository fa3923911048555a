/-
# The shortest decimal text of a double-precision number

Every finite number has an interval of reals that are read as it: half-way to
its neighbours on either side, the ends included if its mantissa is even. Of the
decimal numbers in the interval those with the fewest digits are looked for: for
one digit, two digits and so on the two neighbours of the value on that decimal
grid are tried, and of two hits the nearer is taken, the upper in a tie.

The text of a number has no exponent; a whole number has no point.

Key definitions: `Binary64.Interval`, `Binary64.shortest`, `Binary64.text`.
-/
import FieldSelection.Number.Binary64

namespace FieldSelection
namespace Binary64

/-- The reals that are read as one number: `value` and the ends of the interval
around it, all over the denominator `den`. -/
structure Interval where
  low : Nat
  value : Nat
  high : Nat
  den : Nat
  closed : Bool

/-- The interval of a number above zero. A power of two is nearer to its lower
neighbour than to its upper one. -/
def Interval.of (mantissa : Nat) (exponent : Int) : Interval :=
  let below := if mantissa = Nat.pow 2 52 ∧ minExponent < exponent then 1 else 2
  let unit := Nat.pow 2 (exponent - 2).toNat
  { low := (4 * mantissa - below) * unit
    value := 4 * mantissa * unit
    high := (4 * mantissa + 2) * unit
    den := Nat.pow 2 (2 - exponent).toNat
    closed := mantissa % 2 = 0 }

/-- The whole number `n` times `10 ^ p`, over a denominator `den` that is
multiplied by `10 ^ -p` if `p` is below zero. -/
def Interval.grid (i : Interval) (n : Nat) (p : Int) : Nat := n * i.den * Nat.pow 10 p.toNat

/-- A number over the denominator of the interval, made comparable with a point
of the grid of step `10 ^ p`. -/
def Interval.widen (p : Int) (x : Nat) : Nat := x * Nat.pow 10 (-p).toNat

/-- Whether the decimal number `n * 10 ^ p` lies in the interval. -/
def Interval.holds (i : Interval) (n : Nat) (p : Int) : Bool :=
  let x := i.grid n p
  let low := Interval.widen p i.low
  let high := Interval.widen p i.high
  if i.closed then low ≤ x && x ≤ high else low < x && x < high

/-- The first power of ten, counted up from `10 ^ p` at most `fuel` times, that
is above the value. -/
def Interval.topFrom (i : Interval) : (fuel : Nat) → (p : Int) → Int
  | 0, p => p
  | fuel + 1, p => if i.grid 1 p ≤ Interval.widen p i.value then i.topFrom fuel (p + 1) else p

/-- The number of places before the point: the first power of ten above the value. -/
def Interval.top (i : Interval) : Int := i.topFrom 640 (-325)

/-- The neighbour of the value on the grid of step `10 ^ p` that lies in the
interval, if one does. -/
def Interval.onGrid? (i : Interval) (p : Int) : Option Decimal :=
  let n := Interval.widen p i.value / i.grid 1 p
  let up := n + 1
  match i.holds n p, i.holds up p with
  | true, true =>
    if Interval.widen p i.value - i.grid n p < i.grid up p - Interval.widen p i.value
    then some ⟨n, p⟩ else some ⟨up, p⟩
  | true, false => some ⟨n, p⟩
  | false, true => some ⟨up, p⟩
  | false, false => none

/-- The shortest decimal number of the interval, from grids with steps of
`10 ^ p` down. -/
def Interval.search (i : Interval) : (fuel : Nat) → (p : Int) → Decimal
  | 0, p => ⟨Interval.widen p i.value / i.grid 1 p, p⟩
  | fuel + 1, p =>
    match i.onGrid? p with
    | some d => d
    | none => i.search fuel (p - 1)

/-- The shortest decimal number that is read as `mantissa * 2 ^ exponent`. Of a
value just below a power of ten the upper neighbour on the first grid is ten
steps, which is one digit on the grid above. -/
def shortest (mantissa : Nat) (exponent : Int) : Decimal :=
  let i := Interval.of mantissa exponent
  let d := i.search 17 (i.top - 1)
  if d.mantissa = 10 then ⟨1, d.exponent + 1⟩ else d

/-- The text of a number. -/
def text : Binary64 → Text
  | finite negative m e =>
    let size := if m = 0 then ['0'] else (shortest m e).positional
    if negative then '-' :: size else size
  | infinite negative => (if negative then "-inf" else "inf").toList
  | nan => "NaN".toList

end Binary64
end FieldSelection
