import EntitySql.Calendar
import EntitySql.Json.Text
import EntitySql.Uuid

/-! Values that statements bind as parameters. -/

namespace EntitySql

inductive Value where
  | null
  | boolean (value : Bool)
  | int (value : Int64)
  | uint (value : UInt64)
  | double (value : Double)
  | text (value : String)
  | uuid (value : Uuid)
  | timestamp (value : Timestamp)
  deriving DecidableEq, Repr, Inhabited

namespace Value

def isNull : Value → Bool
  | .null => true
  | _ => false

/-! An unsigned number is held as a signed one wherever it fits. -/

def ofUnsigned (number : UInt64) : Value :=
  if fitsSigned number.toNat then .int (Int64.ofInt number.toNat) else .uint number

/-- Whole numbers beyond both 64-bit ranges become the nearest double. -/
def ofInteger (number : Int) : Value :=
  if fitsSigned number then
    .int (Int64.ofInt number)
  else if fitsUnsigned number then
    .uint (UInt64.ofNat number.toNat)
  else
    .double (Double.ofDecimal (number < 0) number.natAbs 0)

/-! A value read from a record: arrays and objects are bound as their JSON
text. -/

def ofJson : Json → Value
  | .null => .null
  | .boolean value => .boolean value
  | .integer value => ofInteger value
  | .double value => .double value
  | .text value => .text value
  | .array items => .text (Json.array items).render
  | .object members => .text (Json.object members).render

def toJson : Value → Json
  | .null => .null
  | .boolean value => .boolean value
  | .int value => .integer value.toInt
  | .uint value => .integer value.toNat
  | .double value => if value.isFinite then .double value else .null
  | .text value => .text value
  | .uuid value => .text value.text
  | .timestamp value => .text (value.textWith " ")

/-! The plain text of a value, as a person reads it. -/

def display : Value → String
  | .null => "NULL"
  | .boolean value => if value then "true" else "false"
  | .int value => toString value.toInt
  | .uint value => toString value.toNat
  | .double value => value.plainText
  | .text value => "'" ++ value ++ "'"
  | .uuid value => "'" ++ value.text ++ "'"
  | .timestamp value => "'" ++ value.textWith " " ++ "'"

/-! The tagged form names the kind of a value beside it. -/

def tagged : Value → Json
  | .null => .text "Null"
  | .boolean value => .object [("Bool", .boolean value)]
  | .int value => .object [("Int", .integer value.toInt)]
  | .uint value => .object [("UInt", .integer value.toNat)]
  | .double value => .object [("Float", .double value)]
  | .text value => .object [("String", .text value)]
  | .uuid value => .object [("Uuid", .text value.text)]
  | .timestamp value => .object [("DateTime", .text (value.textWith "T"))]

/-! Two values are the same when they are of one kind and denote the same
thing; doubles are compared as numbers. -/

def same : Value → Value → Bool
  | .double left, .double right => left.sameNumber right
  | left, right => left = right

end Value

end EntitySql
