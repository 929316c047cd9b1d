import EntitySql.Decimal.Range
import EntitySql.Error

/-! The types that results are read as. Reading only checks: a value of the type
is kept as it is, and any other value is an error. -/

namespace EntitySql

inductive ResultType where
  | json
  | signed
  | optionalSigned
  | unsigned
  | text
  | boolean
  /-- An object whose members are all signed. -/
  | signedMembers
  deriving DecidableEq, Repr

def Json.isSigned : Json → Bool
  | .integer number => fitsSigned number
  | _ => false

def Json.isUnsigned : Json → Bool
  | .integer number => fitsUnsigned number
  | _ => false

namespace ResultType

def holds (type : ResultType) (value : Json) : Bool :=
  match type with
  | .json => true
  | .signed => value.isSigned
  | .optionalSigned => value.isNull || value.isSigned
  | .unsigned => value.isUnsigned
  | .text => value.kind = .text
  | .boolean => value.kind = .boolean
  | .signedMembers =>
      match value with
      | .object members => members.all (·.2.isSigned)
      | _ => false

def read (type : ResultType) (value : Json) : Except Error Json :=
  if type.holds value then .ok value else .error .undecodable

end ResultType

end EntitySql
