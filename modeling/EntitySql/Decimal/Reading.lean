import EntitySql.Decimal.Double
import EntitySql.Decimal.Range

/-! Numbers read from text. Whole numbers take an optional sign and ASCII
digits; other numbers take an optional sign, digits with an optional point on
either side of which at least one digit stands, and an optional exponent, or
name an infinity or no number at all. Nothing may precede or follow. -/

namespace EntitySql

def digitsValue (digits : List Char) : Nat :=
  digits.foldl (fun value digit => 10 * value + (digit.toNat - '0'.toNat)) 0

/-- The value of a non-empty run of digits that is the whole text. -/
def readNatural? (text : List Char) : Option Nat :=
  if text.isEmpty || !text.all Char.isDigit then none else some (digitsValue text)

def splitSign : List Char → Bool × List Char
  | '-' :: rest => (true, rest)
  | '+' :: rest => (false, rest)
  | text => (false, text)

/-- A whole number within the range of 64-bit signed words. -/
def readInt64? (text : String) : Option Int64 := do
  let (negative, digits) := splitSign text.toList
  let magnitude ← readNatural? digits
  let number : Int := if negative then -magnitude else magnitude
  if fitsSigned number then some (Int64.ofInt number) else none

/-- A whole number within the range of 64-bit unsigned words; a minus sign is
never read, not even before zero. -/
def readUInt64? (text : String) : Option UInt64 := do
  let digits := match text.toList with
    | '+' :: rest => rest
    | characters => characters
  let number ← readNatural? digits
  if fitsUnsigned number then some (UInt64.ofNat number) else none

namespace Double

def infinityOf (negative : Bool) : Double := ofMagnitude negative infinityBits

def notANumber (negative : Bool) : Double := ofMagnitude negative (infinityBits + (1 <<< 51))

def readExponent? : List Char → Option Int
  | [] => some 0
  | marker :: rest =>
      if marker == 'e' || marker == 'E' then
        let (negative, digits) := splitSign rest
        (readNatural? digits).map fun value =>
          if negative then -(value : Int) else value
      else
        none

def readFinite? (negative : Bool) (text : List Char) : Option Double := do
  let whole := text.takeWhile Char.isDigit
  let afterWhole := text.dropWhile Char.isDigit
  let (places, afterPlaces) := match afterWhole with
    | '.' :: rest => (rest.takeWhile Char.isDigit, rest.dropWhile Char.isDigit)
    | rest => ([], rest)
  if whole.isEmpty && places.isEmpty then
    none
  else
    let exponent ← readExponent? afterPlaces
    return ofDecimal negative (digitsValue (whole ++ places)) (exponent - places.length)

def read? (text : String) : Option Double :=
  let (negative, rest) := splitSign text.toList
  let folded := String.ofList (rest.map Char.toLower)
  if folded == "inf" || folded == "infinity" then
    some (infinityOf negative)
  else if folded == "nan" then
    some (notANumber negative)
  else
    readFinite? negative rest

end Double

end EntitySql
