import EntitySql.Decimal.Double

/-! The shortest decimal that reads back as a given double. On the grid of
decimals with a given number of digits only the two neighbours of the double
need a look: if any point of the grid rounds to the double, one of them does.
The coarsest grid with a hit wins; of two hits the nearer one is taken. -/

namespace EntitySql

/-- The number `digits * 10 ^ power`. -/
structure Decimal where
  digits : Nat
  power : Int
  deriving DecidableEq, Repr, Inhabited

/-- Which of two equally near decimals stands for a double. -/
inductive Tie where
  | toEven
  | upward
  deriving DecidableEq, Repr

namespace Decimal

/-! A double and the ends of its rounding interval over one denominator. -/

structure Interval where
  low : Nat
  value : Nat
  high : Nat
  denominator : Nat
  includesEnds : Bool

def Interval.scale (interval : Interval) (factor divisor : Nat) : Interval :=
  { interval with
    low := interval.low * factor
    value := interval.value * factor
    high := interval.high * factor
    denominator := interval.denominator * divisor }

def Interval.around (number : Double) : Interval :=
  let unit := 4 * number.significand
  let below :=
    if number.fraction = 0 && number.biasedExponent > 1 then 1 else 2
  let bare : Interval :=
    { low := unit - below
      value := unit
      high := unit + 2
      denominator := 4
      includesEnds := number.significand % 2 == 0 }
  if number.exponent ≥ 0 then
    bare.scale (1 <<< number.exponent.toNat) 1
  else
    bare.scale 1 (1 <<< (-number.exponent).toNat)

def Interval.holds (interval : Interval) (point : Nat) : Bool :=
  let scaled := point * interval.denominator
  if interval.includesEnds then
    interval.low ≤ scaled && scaled ≤ interval.high
  else
    interval.low < scaled && scaled < interval.high

/-- The exponent of the leading decimal digit. -/
def Interval.leadingPower (interval : Interval) : Int :=
  if interval.value ≥ interval.denominator then
    (Double.digitCount (interval.value / interval.denominator) : Int) - 1
  else
    -(Double.digitCount ((interval.denominator - 1) / interval.value) : Int)

/-- The interval in units of ten to the power `power`. -/
def Interval.inUnits (interval : Interval) (power : Int) : Interval :=
  if power ≥ 0 then
    interval.scale 1 (Nat.pow 10 power.toNat)
  else
    interval.scale (Nat.pow 10 (-power).toNat) 1

/-- The neighbour of the value on the grid of whole units that rounds to it. -/
def Interval.gridPoint? (interval : Interval) (tie : Tie) : Option Nat :=
  let below := interval.value / interval.denominator
  let twice := 2 * (interval.value % interval.denominator)
  let preferAbove :=
    twice > interval.denominator ||
      (twice == interval.denominator &&
        match tie with
        | .toEven => below % 2 == 1
        | .upward => true)
  match interval.holds below, interval.holds (below + 1) with
  | true, true => some (if preferAbove then below + 1 else below)
  | true, false => some below
  | false, true => some (below + 1)
  | false, false => none

/-- The first hit among the grids with `count` digits and more. -/
def shortestFrom (interval : Interval) (tie : Tie) (leading : Int) :
    (attempts count : Nat) → Decimal
  | 0, count =>
      let power := leading - count + 1
      let scaled := interval.inUnits power
      ⟨Double.roundQuotient scaled.value scaled.denominator, power⟩
  | attempts + 1, count =>
      let power := leading - count + 1
      match (interval.inUnits power).gridPoint? tie with
      | some point => ⟨point, power⟩
      | none => shortestFrom interval tie leading attempts (count + 1)

/-- The shortest decimal that reads back as a positive finite double. Seventeen
digits always suffice. -/
def shortest (number : Double) (tie : Tie) : Decimal :=
  let interval := Interval.around number
  shortestFrom interval tie interval.leadingPower 17 1

end Decimal

end EntitySql
