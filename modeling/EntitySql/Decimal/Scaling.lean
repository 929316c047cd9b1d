import EntitySql.Decimal.Reading

/-! Decimals read in steps, each of which rounds: the digits are a whole number
of 64 bits, which becomes a double, and that is multiplied or divided by a power
of ten, which is a double as well. The result may lie one unit beside the double
nearest to the decimal. -/

namespace EntitySql

/-- Takes digits into a number as long as 64 bits hold it. What is left starts
with the first digit that does not fit. -/
def takeWord (number : Nat) : List Char → Nat × List Char
  | [] => (number, [])
  | digit :: rest =>
      let longer := 10 * number + (digit.toNat - '0'.toNat)
      if fitsUnsigned longer then takeWord longer rest else (number, digit :: rest)

namespace Double

/-- The double nearest to a quotient. -/
def nearest (numerator denominator : Nat) : Double :=
  ofMagnitude false (if numerator = 0 then 0 else nearestMagnitude numerator denominator)

/-- The magnitude of a finite double as a quotient of whole numbers. -/
def ratio (value : Double) : Nat × Nat :=
  scaleDown value.significand 1 (-value.exponent)

/-! The product and the quotient of magnitudes, rounded once. -/

def product (left right : Double) : Double :=
  nearest (left.ratio.1 * right.ratio.1) (left.ratio.2 * right.ratio.2)

def quotient (left right : Double) : Double :=
  nearest (left.ratio.1 * right.ratio.2) (left.ratio.2 * right.ratio.1)

/-- The greatest power of ten that is a finite double. -/
def greatestPower : Nat := 308

def tenTo (power : Nat) : Double :=
  ofDecimal false 1 power

/-- Moves the decimal point to the left. More places than one power of ten
reaches take several divisions, as long as anything is left to divide. -/
def shiftDown (value : Double) (places : Nat) : Double :=
  if places ≤ greatestPower then
    value.quotient (tenTo places)
  else if value.isZero then
    value
  else
    (value.quotient (tenTo greatestPower)).shiftDown (places - greatestPower)
termination_by places
decreasing_by simp only [greatestPower] at *; omega

/-- Moves the decimal point to the right. A result beyond every finite double is
none. -/
def shiftUp? (value : Double) (places : Nat) : Option Double :=
  if value.isZero then
    some value
  else if places ≤ greatestPower then
    some (value.product (tenTo places)) |>.filter isFinite
  else
    none

/-- A whole number moved by a power of ten, with its sign. -/
def shifted? (negative : Bool) (number : Nat) (power : Int) : Option Double := do
  let whole := nearest number 1
  let shifted ←
    if power ≥ 0 then whole.shiftUp? power.toNat else some (whole.shiftDown (-power).toNat)
  return ofMagnitude negative shifted.magnitudeBits

/-- The number with the given digits before and after the point. Digits beyond
64 bits count as places only. -/
def readScaled? (negative : Bool) (whole places : List Char) (power : Int) :
    Option Double :=
  let (leading, beyond) := takeWord 0 whole
  let (number, dropped) := takeWord leading places
  let taken := places.length - dropped.length
  shifted? negative number (power + beyond.length - taken)

end Double

end EntitySql
