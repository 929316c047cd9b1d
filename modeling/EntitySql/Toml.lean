import EntitySql.Decimal.Range
import EntitySql.Text.Hexadecimal

/-! Configuration files in a plain subset of TOML: comments, `[table]` headers
and one `key = value` a line, where a key is bare or quoted and a value is a
one-line string, a truth value or a whole number. -/

namespace EntitySql

namespace Toml

inductive Scalar where
  | text (value : String)
  | boolean (value : Bool)
  | integer (value : Int)
  deriving DecidableEq, Repr

inductive Line where
  | blank
  | header (name : String)
  | entry (key : String) (value : Scalar)
  deriving DecidableEq, Repr

/-! A line ends with a line feed, perhaps after a carriage return. Control
characters other than the tab stand nowhere. -/

def isForbidden (character : Char) : Bool :=
  (character.toNat < 0x20 && character != '\t') || character.toNat == 0x7F

def withoutReturn (line : List Char) : List Char :=
  match line.reverse with
  | '\r' :: rest => rest.reverse
  | _ => line

/-- The lines of a text; the last one ends with the text itself. -/
def splitLines (text : List Char) : List (List Char) :=
  let pieces := text.splitOn '\n'
  pieces.dropLast.map withoutReturn ++ pieces.getLast?.toList

def isSpacing (character : Char) : Bool :=
  character == ' ' || character == '\t'

def skipSpacing (text : List Char) : List Char :=
  text.dropWhile isSpacing

/-- Nothing but spacing and a comment may follow. -/
def isLineEnd (text : List Char) : Bool :=
  match skipSpacing text with
  | [] => true
  | first :: _ => first == '#'

/-! Each reader below gives what it read and the text after it. -/

def escaped? : Char → Option Char
  | 'b' => some '\x08'
  | 't' => some '\t'
  | 'n' => some '\n'
  | 'f' => some '\x0c'
  | 'r' => some '\r'
  | '"' => some '"'
  | '\\' => some '\\'
  | _ => none

/-- The character with a code point, where there is one. -/
def scalarValue? (digits : List Char) : Option Char := do
  let code ← readHexadecimal? digits
  if code.isValidChar then some (Char.ofNat code) else none

/-- A string with escapes, after its opening quote. -/
def readBasic? : List Char → Option (List Char × List Char)
  | [] => none
  | '"' :: rest => some ([], rest)
  | '\\' :: 'u' :: a :: b :: c :: d :: rest => do
      let character ← scalarValue? [a, b, c, d]
      let (others, after) ← readBasic? rest
      return (character :: others, after)
  | '\\' :: 'U' :: a :: b :: c :: d :: e :: f :: g :: h :: rest => do
      let character ← scalarValue? [a, b, c, d, e, f, g, h]
      let (others, after) ← readBasic? rest
      return (character :: others, after)
  | '\\' :: escape :: rest => do
      let character ← escaped? escape
      let (others, after) ← readBasic? rest
      return (character :: others, after)
  | character :: rest => do
      let (others, after) ← readBasic? rest
      return (character :: others, after)

/-- A string without escapes, after its opening quote. -/
def readLiteral? (text : List Char) : Option (List Char × List Char) :=
  let isOther := fun character : Char => character != '\x27'
  match text.dropWhile isOther with
  | _ :: after => some (text.takeWhile isOther, after)
  | [] => none

def readString? : List Char → Option (String × List Char)
  | '"' :: rest => (readBasic? rest).map fun (value, after) => (String.ofList value, after)
  | '\x27' :: rest =>
      (readLiteral? rest).map fun (value, after) => (String.ofList value, after)
  | _ => none

def isBareKeyCharacter (character : Char) : Bool :=
  character.isAlphanum || character == '_' || character == '-'

def readKey? (text : List Char) : Option (String × List Char) :=
  match readString? text with
  | some read => some read
  | none =>
      let key := text.takeWhile isBareKeyCharacter
      if key.isEmpty then none
      else some (String.ofList key, text.dropWhile isBareKeyCharacter)

/-! Whole numbers: decimal with an optional sign and no leading zeros, or
unsigned in base sixteen, eight or two. Underscores may stand between digits. -/

def baseDigit? (base : Nat) (character : Char) : Option Nat :=
  (hexValue? character).filter (· < base)

def separatedDigits? (base : Nat) (text : List Char) : Option (List Nat) :=
  let groups := text.splitOn '_'
  if groups.any List.isEmpty then none else groups.flatten.mapM (baseDigit? base)

def digitsInBase (base : Nat) (digits : List Nat) : Nat :=
  digits.foldl (fun number digit => base * number + digit) 0

def readDecimal? (text : List Char) : Option Nat := do
  let digits ← separatedDigits? 10 text
  if digits.length > 1 && digits.head? == some 0 then
    none
  else
    return digitsInBase 10 digits

def readBased? (base : Nat) (text : List Char) : Option Nat :=
  (separatedDigits? base text).map (digitsInBase base)

def readInteger? (text : List Char) : Option Int := do
  let number ← match text with
    | '0' :: 'x' :: digits => (readBased? 16 digits).map Int.ofNat
    | '0' :: 'o' :: digits => (readBased? 8 digits).map Int.ofNat
    | '0' :: 'b' :: digits => (readBased? 2 digits).map Int.ofNat
    | '-' :: digits => (readDecimal? digits).map fun number => -(Int.ofNat number)
    | '+' :: digits => (readDecimal? digits).map Int.ofNat
    | digits => (readDecimal? digits).map Int.ofNat
  if fitsSigned number then some number else none

/-- A value without quotes reaches to the next spacing or comment. -/
def isPlainCharacter (character : Char) : Bool :=
  !(isSpacing character || character == '#')

def readValue? (text : List Char) : Option (Scalar × List Char) :=
  match readString? text with
  | some (value, after) => some (.text value, after)
  | none => do
      let plain := text.takeWhile isPlainCharacter
      let after := text.dropWhile isPlainCharacter
      if plain = "true".toList then
        return (.boolean true, after)
      else if plain = "false".toList then
        return (.boolean false, after)
      else
        return (.integer (← readInteger? plain), after)

def readHeader? (text : List Char) : Option Line := do
  let (name, afterName) ← readKey? (skipSpacing text)
  match skipSpacing afterName with
  | ']' :: after => if isLineEnd after then some (.header name) else none
  | _ => none

def readEntry? (text : List Char) : Option Line := do
  let (key, afterKey) ← readKey? text
  match skipSpacing afterKey with
  | '=' :: rest => do
      let (value, after) ← readValue? (skipSpacing rest)
      if isLineEnd after then some (.entry key value) else none
  | _ => none

def readLine? (line : List Char) : Option Line :=
  if line.any isForbidden then
    none
  else if isLineEnd line then
    some .blank
  else
    match skipSpacing line with
    | '[' :: rest => readHeader? rest
    | text => readEntry? text

/-! A document is its root table and the tables after it. Names are given once:
keys within their table, and tables beside the keys of the root. -/

structure Document where
  root : List (String × Scalar) := []
  tables : List (String × List (String × Scalar)) := []
  deriving DecidableEq, Repr

namespace Document

def hasName (document : Document) (name : String) : Bool :=
  document.root.any (·.1 == name) || document.tables.any (·.1 == name)

/-- Adds an entry to the table that was begun last. -/
def addEntry? (document : Document) (key : String) (value : Scalar) : Option Document :=
  match document.tables.reverse with
  | [] =>
      if document.hasName key then none
      else some { document with root := document.root ++ [(key, value)] }
  | (name, entries) :: earlier =>
      if entries.any (·.1 == key) then none
      else some { document with
        tables := earlier.reverse ++ [(name, entries ++ [(key, value)])] }

def addLine? (document : Document) : Line → Option Document
  | .blank => some document
  | .header name =>
      if document.hasName name then none
      else some { document with tables := document.tables ++ [(name, [])] }
  | .entry key value => document.addEntry? key value

/-- Reads a whole text, passing over a byte order mark in front of it. -/
def read? (text : String) : Option Document := do
  let characters := match text.toList with
    | '\uFEFF' :: rest => rest
    | characters => characters
  let lines ← (splitLines characters).mapM readLine?
  lines.foldlM addLine? {}

end Document

end Toml

end EntitySql
