import FieldMesh.Binary32

/-!
# Shortest decimals

The fewest decimal digits that read back as a given single-precision number
and, of those, the nearest to it. Everything is exact arithmetic in `Nat`:

* `Interval`: the real numbers that round to the number;
* `Interval.onGrid?`: the best point of the interval with a given number of
  digits;
* `shortest`: the first grid with such a point. The value's two neighbours
  on a grid are the only points to try: if any point of the grid lies in the
  interval, so does one of them.
-/

namespace FieldMesh

/-- A decimal `coefficient * 10 ^ place`. -/
structure Decimal where
  coefficient : Nat
  place : Int
  deriving DecidableEq, Repr

namespace Decimal

/-! ## The numbers that round to one -/

/-- A positive number between two bounds, all three over one denominator. -/
structure Interval where
  low : Nat
  value : Nat
  high : Nat
  denominator : Nat
  /-- Whether the bounds themselves belong to the interval. -/
  closed : Bool
  deriving Repr

/-- The real numbers that round to `mantissa * 2 ^ scale / 2 ^ 149`. Below a
power of two the neighbour is half as far away; the bounds round to even. -/
def Interval.rounding (mantissa scale : Nat) : Interval :=
  let value := (4 * mantissa) <<< scale
  let half := 2 <<< scale
  let below :=
    if mantissa = Binary32.leastNormal ∧ 0 < scale then 1 <<< scale else half
  { low := value - below
    value
    high := value + half
    denominator := 1 <<< 151
    closed := mantissa % 2 == 0 }

/-- Stretches the interval so that the unit is `10 ^ place`. -/
def Interval.inUnits (interval : Interval) (place : Int) : Interval :=
  let up := Nat.pow 10 (-place).toNat
  { interval with
    low := interval.low * up
    value := interval.value * up
    high := interval.high * up
    denominator := interval.denominator * Nat.pow 10 place.toNat }

/-- Whether a whole number lies in the interval. -/
def Interval.contains (interval : Interval) (n : Nat) : Bool :=
  let scaled := n * interval.denominator
  if interval.closed then interval.low ≤ scaled && scaled ≤ interval.high
  else interval.low < scaled && scaled < interval.high

/-! ## Choosing the digits -/

/-- Where a value halfway between two decimals goes. -/
inductive Tie where
  | up
  | even
  deriving DecidableEq, Repr

/-- Whether the whole number above the value is preferred to the one below
it, `floor`. -/
def Interval.prefersUp (interval : Interval) (tie : Tie) (floor : Nat) : Bool :=
  let doubled := 2 * (interval.value - floor * interval.denominator)
  match compare doubled interval.denominator with
  | .lt => false
  | .gt => true
  | .eq => match tie with
    | .up => true
    | .even => floor % 2 == 1

/-- The point of the interval nearest to the value among the multiples of
`10 ^ place`, if one lies in it. -/
def Interval.onGrid? (interval : Interval) (tie : Tie) (place : Int) :
    Option Decimal :=
  let scaled := interval.inUnits place
  let floor := scaled.value / scaled.denominator
  match scaled.contains floor, scaled.contains (floor + 1) with
  | true, true =>
    some ⟨if scaled.prefersUp tie floor then floor + 1 else floor, place⟩
  | true, false => some ⟨floor, place⟩
  | false, true => some ⟨floor + 1, place⟩
  | false, false => none

/-- The exponent of the first digit of the interval's value: the greatest
power of ten that is not above it. -/
def Interval.magnitude (interval : Interval) : Int :=
  let whole := interval.value / interval.denominator
  if whole = 0 then
    match (List.range 46).find? fun k =>
        interval.denominator ≤ interval.value * Nat.pow 10 k with
    | some k => -(k : Int)
    | none => -46
  else ((Nat.toDigits 10 whole).length : Int) - 1

/-- The decimal of fewest digits that reads back as the number, nearest to
it among those. Nine digits always suffice. -/
def shortest (tie : Tie) (mantissa scale : Nat) : Decimal :=
  let interval := Interval.rounding mantissa scale
  let first := interval.magnitude
  ((List.range 9).findSome? fun n : Nat =>
    interval.onGrid? tie (first - (n : Int))).getD ⟨0, 0⟩

/-! ## Digits -/

/-- The same decimal without zeros at the end of its coefficient. -/
def trimmed (decimal : Decimal) : Decimal :=
  let digits := Nat.toDigits 10 decimal.coefficient
  let zeros := (digits.reverse.takeWhile (· == '0')).length
  ⟨decimal.coefficient / Nat.pow 10 zeros, decimal.place + zeros⟩

/-- The digits of the coefficient, most significant first. -/
def digits (decimal : Decimal) : List Char :=
  Nat.toDigits 10 decimal.coefficient

/-- The exponent of the first digit. -/
def leading (decimal : Decimal) : Int :=
  decimal.place + decimal.digits.length - 1

end Decimal

end FieldMesh
