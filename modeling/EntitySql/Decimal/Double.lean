/-! Double-precision numbers as their bit patterns, read with exact integer
arithmetic. A finite double is `significand * 2 ^ exponent` up to sign; the
numbers that round to it lie within half a unit of the significand, except
that the unit below a power of two is half as wide. -/

namespace EntitySql

structure Double where
  bits : UInt64
  deriving DecidableEq, Repr, Inhabited

namespace Double

def isNegative (value : Double) : Bool :=
  value.bits.toNat ≥ 1 <<< 63

/-- The pattern without its sign; patterns are ordered as the magnitudes are. -/
def magnitudeBits (value : Double) : Nat :=
  value.bits.toNat % (1 <<< 63)

def infinityBits : Nat := 0x7FF <<< 52

def isInfinite (value : Double) : Bool :=
  value.magnitudeBits == infinityBits

def isNaN (value : Double) : Bool :=
  value.magnitudeBits > infinityBits

def isFinite (value : Double) : Bool :=
  value.magnitudeBits < infinityBits

def isZero (value : Double) : Bool :=
  value.magnitudeBits == 0

def biasedExponent (value : Double) : Nat :=
  value.magnitudeBits >>> 52

def fraction (value : Double) : Nat :=
  value.magnitudeBits % (1 <<< 52)

def significand (value : Double) : Nat :=
  if value.biasedExponent = 0 then value.fraction else value.fraction + (1 <<< 52)

def exponent (value : Double) : Int :=
  (max value.biasedExponent 1 : Nat) - 1075

/-! Equality of the numbers denoted: both zeros are one number, and a pattern
that denotes no number equals nothing. -/

def sameNumber (left right : Double) : Bool :=
  !left.isNaN && !right.isNaN &&
    (left.bits == right.bits || (left.isZero && right.isZero))

def ofMagnitude (negative : Bool) (magnitude : Nat) : Double :=
  ⟨UInt64.ofNat (if negative then magnitude + (1 <<< 63) else magnitude)⟩

/-! The double nearest to a positive quotient, a tie going to the even
significand. A quotient has between `53` and `54` bits once it is divided by
two to the power `floorLog2 - 53`; the exponent is never below that of the
least double. Rounding up to the next power of two carries into the exponent
field by itself, and past the last exponent it gives infinity. -/

def roundQuotient (numerator denominator : Nat) : Nat :=
  let whole := numerator / denominator
  let twice := 2 * (numerator % denominator)
  if twice > denominator || (twice == denominator && whole % 2 == 1) then
    whole + 1
  else
    whole

/-- The quotient divided by two to the power `exponent`, as a new quotient. -/
def scaleDown (numerator denominator : Nat) (exponent : Int) : Nat × Nat :=
  if exponent ≥ 0 then
    (numerator, denominator <<< exponent.toNat)
  else
    (numerator <<< (-exponent).toNat, denominator)

def nearestMagnitude (numerator denominator : Nat) : Nat :=
  let floorLog : Int := numerator.log2 - denominator.log2
  let trial := scaleDown numerator denominator (floorLog - 53)
  let fitted :=
    if trial.1 / trial.2 ≥ 1 <<< 53 then floorLog - 52 else floorLog - 53
  let exponent := max fitted (-1074)
  let scaled := scaleDown numerator denominator exponent
  let rounded := roundQuotient scaled.1 scaled.2
  let fieldOffset := (exponent + 1074).toNat <<< 52
  min (fieldOffset + rounded) infinityBits

/-! The magnitude of `digits * 10 ^ power`. Decimals too large for any double or
too small for the least one are recognised by their digit count alone, so that
no power of ten beyond a few hundred is ever formed. -/

def digitCount (digits : Nat) : Nat :=
  (Nat.toDigits 10 digits).length

def decimalMagnitude (digits : Nat) (power : Int) : Nat :=
  if digits = 0 then
    0
  else
    let order : Int := digitCount digits + power
    if order > 310 then
      infinityBits
    else if order < -330 then
      0
    else if power ≥ 0 then
      nearestMagnitude (digits * Nat.pow 10 power.toNat) 1
    else
      nearestMagnitude digits (Nat.pow 10 (-power).toNat)

def ofDecimal (negative : Bool) (digits : Nat) (power : Int) : Double :=
  ofMagnitude negative (decimalMagnitude digits power)

end Double

end EntitySql
