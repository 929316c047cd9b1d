import EntitySql.Decimal.Scaling
import EntitySql.Json.Basic
import EntitySql.Text.Hexadecimal

/-! JSON text, read. A number without a fraction and an exponent is whole where
64 bits hold it; every other number is a double, read in steps, and so is a
negative zero. A number beyond every finite double is no JSON. Of members with
one name the last counts. -/

namespace EntitySql

namespace Json

def isSpacing (character : Char) : Bool :=
  character == ' ' || character == '\t' || character == '\n' || character == '\r'

def skipSpacing (text : List Char) : List Char :=
  text.dropWhile isSpacing

def escaped? : Char → Option Char
  | '"' => some '"'
  | '\\' => some '\\'
  | '/' => some '/'
  | 'b' => some '\x08'
  | 'f' => some '\x0c'
  | 'n' => some '\n'
  | 'r' => some '\r'
  | 't' => some '\t'
  | _ => none

def isHighSurrogate (unit : Nat) : Bool :=
  0xD800 ≤ unit && unit < 0xDC00

def isLowSurrogate (unit : Nat) : Bool :=
  0xDC00 ≤ unit && unit < 0xE000

/-- The character that two halves of a pair stand for. -/
def surrogatePair (high low : Nat) : Char :=
  Char.ofNat (0x10000 + (high - 0xD800) * 0x400 + (low - 0xDC00))

/-- The rest of a string after its opening quote, and the text after it.
`pending` is the first half of a pair whose second half must come next. -/
def readStringRest? : (pending : Option Nat) → List Char → Option (List Char × List Char)
  | none, '"' :: rest => some ([], rest)
  | pending, '\\' :: 'u' :: a :: b :: c :: d :: rest => do
      let unit ← readHexadecimal? [a, b, c, d]
      match pending with
      | some high =>
          if isLowSurrogate unit then
            let (others, after) ← readStringRest? none rest
            return (surrogatePair high unit :: others, after)
          else
            none
      | none =>
          if isHighSurrogate unit then
            readStringRest? (some unit) rest
          else if isLowSurrogate unit then
            none
          else
            let (others, after) ← readStringRest? none rest
            return (Char.ofNat unit :: others, after)
  | none, '\\' :: escape :: rest => do
      let character ← escaped? escape
      let (others, after) ← readStringRest? none rest
      return (character :: others, after)
  | none, character :: rest =>
      if character.toNat < 0x20 then
        none
      else do
        let (others, after) ← readStringRest? none rest
        return (character :: others, after)
  | _, _ => none

/-! Numbers. -/

def takeDigits (text : List Char) : List Char × List Char :=
  (text.takeWhile Char.isDigit, text.dropWhile Char.isDigit)

def readPlaces? : List Char → Option (List Char × List Char)
  | '.' :: rest =>
      let (digits, after) := takeDigits rest
      if digits.isEmpty then none else some (digits, after)
  | rest => some ([], rest)

def readPower? : List Char → Option (Option Int × List Char)
  | marker :: rest =>
      if marker == 'e' || marker == 'E' then
        let (negative, unsigned) := splitSign rest
        let (digits, after) := takeDigits unsigned
        (readNatural? digits).map fun number =>
          (some (if negative then -(number : Int) else number), after)
      else
        some (none, marker :: rest)
  | [] => some (none, [])

/-- A whole number that 64 bits hold, negative zero apart. -/
def readWhole? (negative : Bool) (digits : List Char) : Option Json :=
  let magnitude := digitsValue digits
  let number : Int := if negative then -magnitude else magnitude
  if (negative && magnitude == 0) || !(fitsSigned number || fitsUnsigned number) then
    none
  else
    some (.integer number)

def readNumber? (text : List Char) : Option (Json × List Char) := do
  let (negative, unsigned) := match text with
    | '-' :: rest => (true, rest)
    | _ => (false, text)
  let (whole, afterWhole) := takeDigits unsigned
  if whole.isEmpty || (whole.length > 1 && whole.head? == some '0') then
    none
  else
    let (places, afterPlaces) ← readPlaces? afterWhole
    let (power?, after) ← readPower? afterPlaces
    let held? := if places.isEmpty && power?.isNone then readWhole? negative whole else none
    match held? with
    | some number => return (number, after)
    | none =>
        let number ← Double.readScaled? negative whole places (power?.getD 0)
        return (.double number, after)

/-! Values. Every step into a value or past an item takes a character at least,
so that the length of the text bounds the number of steps. -/

mutual

def readValue? : (fuel : Nat) → List Char → Option (Json × List Char)
  | 0, _ => none
  | fuel + 1, source =>
      match skipSpacing source with
      | 'n' :: 'u' :: 'l' :: 'l' :: rest => some (.null, rest)
      | 't' :: 'r' :: 'u' :: 'e' :: rest => some (.boolean true, rest)
      | 'f' :: 'a' :: 'l' :: 's' :: 'e' :: rest => some (.boolean false, rest)
      | '"' :: rest =>
          (readStringRest? none rest).map fun (value, after) =>
            (.text (String.ofList value), after)
      | '[' :: rest =>
          match skipSpacing rest with
          | ']' :: after => some (.array [], after)
          | items =>
              (readItems? fuel items).map fun (values, after) => (.array values, after)
      | '\x7b' :: rest =>
          match skipSpacing rest with
          | '\x7d' :: after => some (.object [], after)
          | members =>
              (readMembers? fuel members).map fun (pairs, after) =>
                (.object (Members.ofList pairs), after)
      | other => readNumber? other

def readItems? : (fuel : Nat) → List Char → Option (List Json × List Char)
  | 0, _ => none
  | fuel + 1, source => do
      let (item, rest) ← readValue? fuel source
      match skipSpacing rest with
      | ',' :: more => do
          let (items, after) ← readItems? fuel more
          return (item :: items, after)
      | ']' :: after => return ([item], after)
      | _ => none

def readMembers? : (fuel : Nat) → List Char → Option (List (String × Json) × List Char)
  | 0, _ => none
  | fuel + 1, source =>
      match skipSpacing source with
      | '"' :: afterQuote => do
          let (name, afterName) ← readStringRest? none afterQuote
          match skipSpacing afterName with
          | ':' :: afterColon => do
              let (value, rest) ← readValue? fuel afterColon
              let member := (String.ofList name, value)
              match skipSpacing rest with
              | ',' :: more => do
                  let (members, after) ← readMembers? fuel more
                  return (member :: members, after)
              | '\x7d' :: after => return ([member], after)
              | _ => none
          | _ => none
      | _ => none

end

/-- Reads a text that holds one value and nothing else. -/
def read? (text : String) : Option Json := do
  let characters := text.toList
  let (value, rest) ← readValue? (characters.length + 1) characters
  if (skipSpacing rest).isEmpty then some value else none

end Json

end EntitySql
