import EntitySql.Decimal.Reading
import EntitySql.Error

/-! The number of rows, read from a single result. Databases tell it as a number
or as text; no result at all counts as none. -/

namespace EntitySql

def readCount (result : Json) : Except Error UInt64 :=
  match result with
  | .null => .ok 0
  | .integer number =>
      if fitsUnsigned number then
        .ok (UInt64.ofNat number.toNat)
      else
        .error (.execution (.negativeCount result.render))
  | .double _ => .error (.execution (.negativeCount result.render))
  | .text text =>
      match readUInt64? text with
      | some number => .ok number
      | none => .error (.execution (.countText text))
  | other => .error (.execution (.countShape other.render))

end EntitySql
