import EntitySql.Calendar
import EntitySql.Decimal.Reading
import EntitySql.Json.Basic

/-! Values in a result set and what they are read as, by the type of their
column. A value that its column's type does not admit is read as null. -/

namespace EntitySql

namespace MySql

inductive ColumnType where
  | boolean
  | signed
  | unsigned
  | double
  | decimal
  | datetime
  | timestamp
  | date
  | text
  deriving DecidableEq, Repr

/-- The type that the server names. A type that has no reading of its own is read
as text. -/
def ColumnType.ofName (name : String) : ColumnType :=
  match name with
  | "BOOLEAN" => .boolean
  | "TINYINT" | "SMALLINT" | "MEDIUMINT" | "INT" | "BIGINT" => .signed
  | "TINYINT UNSIGNED" | "SMALLINT UNSIGNED" | "MEDIUMINT UNSIGNED" | "INT UNSIGNED"
  | "BIGINT UNSIGNED" => .unsigned
  | "DOUBLE" => .double
  | "DECIMAL" => .decimal
  | "DATETIME" => .datetime
  | "TIMESTAMP" => .timestamp
  | "DATE" => .date
  | _ => .text

inductive Cell where
  | null
  | integer (value : Int)
  | double (value : Double)
  | text (value : String)
  | bytes (value : List UInt8)
  /-- Year, month and day, perhaps with hour, minute and second, perhaps with
  microseconds. -/
  | moment (fields : List Nat)
  deriving DecidableEq, Repr

structure Column where
  name : String
  type : ColumnType
  deriving DecidableEq, Repr

/-- Exact numbers arrive as text. One that is whole stays exact within 64 bits;
any other becomes a double, and a text that is no finite number stays a text. -/
def readDecimal (text : String) : Json :=
  match readInt64? text with
  | some number => .integer number.toInt
  | none =>
      match Double.read? text with
      | some number => if number.isFinite then .double number else .text text
      | none => .text text

def readDate? : List Nat → Option Date
  | year :: month :: day :: _ =>
      let date : Date := { year, month, day }
      if date.isValid then some date else none
  | _ => none

def readTimestamp? (fields : List Nat) : Option Timestamp :=
  let timestamp? : Option Timestamp :=
    match fields with
    | [year, month, day] =>
        some { date := { year, month, day }, hour := 0, minute := 0, second := 0,
               nanosecond := 0 }
    | [year, month, day, hour, minute, second] =>
        some { date := { year, month, day }, hour, minute, second, nanosecond := 0 }
    | [year, month, day, hour, minute, second, microsecond] =>
        some { date := { year, month, day }, hour, minute, second,
               nanosecond := 1000 * microsecond }
    | _ => none
  timestamp?.filter (·.isValid)

def textOrNull : Option String → Json
  | some text => .text text
  | none => .null

namespace Cell

def read (type : ColumnType) (cell : Cell) : Json :=
  match type, cell with
  | .boolean, .integer value => .boolean (value ≠ 0)
  | .signed, .integer value => .integer value
  | .unsigned, .integer value => .integer value
  | .double, .double value => if value.isFinite then .double value else .null
  | .decimal, .text value => readDecimal value
  | .datetime, .moment fields => textOrNull ((readTimestamp? fields).map (·.textWith " "))
  | .timestamp, .moment fields =>
      textOrNull ((readTimestamp? fields).map fun timestamp =>
        timestamp.textWith "T" ++ "+00:00")
  | .date, .moment fields => textOrNull ((readDate? fields).map (·.text))
  | .text, .text value => .text value
  | .text, .bytes value => textOrNull (String.fromUTF8? ⟨value.toArray⟩)
  | _, _ => .null

end Cell

end MySql

end EntitySql
