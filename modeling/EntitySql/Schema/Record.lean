import EntitySql.Error

/-! An instance of an entity, flattened to its properties. -/

namespace EntitySql

structure Record where
  entity : String
  members : Members

namespace Record

/-- Only an object has properties. -/
def ofJson (entity : String) : Json → Except Error Record
  | .object members => .ok ⟨entity, members⟩
  | other => .error (.noMapping entity (.notAnObject other.kind))

/-- The value of a property; one that is absent reads as null. -/
def value (record : Record) (property : String) : Value :=
  match record.members.get? property with
  | some json => .ofJson json
  | none => .null

end Record

end EntitySql
