import EntitySql.Decimal.Shortest

/-! How a decimal is written. Two notations are in use: the one of JSON text,
which turns to an exponent for very large and very small numbers and always
shows a fraction otherwise, and the plain one, which is positional throughout
and shows a fraction only where there is one. -/

namespace EntitySql

namespace Decimal

def zeros (count : Nat) : String :=
  String.ofList (List.replicate count '0')

/-- The exponent of the first digit. -/
def leadingPower (decimal : Decimal) : Int :=
  decimal.power + Double.digitCount decimal.digits - 1

/-- Positional text, split at the decimal point; the second part is empty for
a whole number. -/
def positional (decimal : Decimal) : String × String :=
  let text := toString decimal.digits
  if decimal.power ≥ 0 then
    (text ++ zeros decimal.power.toNat, "")
  else
    let places := (-decimal.power).toNat
    let padded := zeros (places + 1 - text.length) ++ text
    let characters := padded.toList
    let whole := characters.length - places
    (String.ofList (characters.take whole), String.ofList (characters.drop whole))

/-- Trailing zeros move from the digits to the power. -/
def withoutTrailingZeros (decimal : Decimal) : Decimal :=
  let kept := (toString decimal.digits).toList.reverse.dropWhile (· == '0')
  let dropped := (toString decimal.digits).length - kept.length
  if decimal.digits = 0 then decimal
  else ⟨decimal.digits / Nat.pow 10 dropped, decimal.power + dropped⟩

def scientific (decimal : Decimal) : String :=
  let mantissa :=
    match (toString decimal.digits).toList with
    | first :: second :: rest => String.ofList (first :: '.' :: second :: rest)
    | short => String.ofList short
  let exponent := decimal.leadingPower
  let sign := if exponent < 0 then "-" else "+"
  mantissa ++ "e" ++ sign ++ toString exponent.natAbs

end Decimal

namespace Double

def signed (number : Double) (text : String) : String :=
  if number.isNegative then "-" ++ text else text

/-- JSON text of a finite double: positional from `1e-5` to below `1e16`. -/
def jsonText (number : Double) : String :=
  if number.isZero then
    number.signed "0.0"
  else
    let decimal := (Decimal.shortest number .toEven).withoutTrailingZeros
    let leading := decimal.leadingPower
    if -5 ≤ leading && leading < 16 then
      let (whole, places) := decimal.positional
      number.signed (whole ++ "." ++ (if places.isEmpty then "0" else places))
    else
      number.signed decimal.scientific

/-- Plain text: positional whatever the size. -/
def plainText (number : Double) : String :=
  if number.isNaN then
    "NaN"
  else if number.isInfinite then
    number.signed "inf"
  else if number.isZero then
    number.signed "0"
  else
    let decimal := (Decimal.shortest number .upward).withoutTrailingZeros
    let (whole, places) := decimal.positional
    number.signed (if places.isEmpty then whole else whole ++ "." ++ places)

end Double

end EntitySql
