/-! Hexadecimal digits: written in lowercase, read in either case. -/

namespace EntitySql

def hexDigit (value : Nat) : Char :=
  Nat.digitChar (value % 16)

/-- A number in a fixed width, zeros in front. -/
def hexDigits (width value : Nat) : List Char :=
  (List.range width).reverse.map fun place => hexDigit (value >>> (4 * place))

def hexValue? (character : Char) : Option Nat :=
  let code := character.toNat
  if character.isDigit then
    some (code - '0'.toNat)
  else if 'a'.toNat ≤ code && code ≤ 'f'.toNat then
    some (code - 'a'.toNat + 10)
  else if 'A'.toNat ≤ code && code ≤ 'F'.toNat then
    some (code - 'A'.toNat + 10)
  else
    none

/-- The number that a run of digits denotes, the first digit counting most. -/
def readHexadecimal? (digits : List Char) : Option Nat := do
  let values ← digits.mapM hexValue?
  return values.foldl (fun number value => 16 * number + value) 0

/-- Two digits are a byte. -/
def readBytes? : List Char → Option (List UInt8)
  | [] => some []
  | [_] => none
  | high :: low :: rest => do
      let byte ← readHexadecimal? [high, low]
      return UInt8.ofNat byte :: (← readBytes? rest)

end EntitySql
