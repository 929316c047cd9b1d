import EntitySql.Schema.Record
import EntitySql.Sql.Condition

/-! Values written to columns. A record of expressions assigns member by
member; a record of an entity assigns all of its properties but those left
out, and names its row by the values of its keys. -/

namespace EntitySql

namespace Scope

def boundAssignments (scope : Scope) (entity : Entity) :
    List (String × Expr) → Build (List Fragment)
  | [] => return []
  | (member, expression) :: rest => do
      let column ← Build.lift (scope.column entity member)
      let value ← expression.scalar scope member
      return Fragment.joined column .equal value :: (← boundAssignments scope entity rest)

def setting (assignments : List Fragment) : Fragment :=
  [.word "SET", .space] ++ Fragment.commaSeparated assignments

/-- The assignments that an expression makes. -/
def setClause (scope : Scope) (updater : Expr) : Build Fragment :=
  match updater.body with
  | .record name bindings =>
      if bindings.isEmpty then
        Build.fail (.missingArgument .updateAssignments)
      else do
        let entity ← Build.lift (scope.catalog.entity name)
        return setting (← scope.boundAssignments entity bindings)
  | other => Build.fail (.unsupported (.node other.kind) .updateExpression)

/-- One property of a record next to the placeholder of its value. -/
structure BoundField where
  column : Fragment
  placeholder : Fragment

def boundFields (scope : Scope) (entity : Entity) (record : Record) :
    List Field → Build (List BoundField)
  | [] => return []
  | field :: rest => do
      let column ← Build.lift (scope.column entity field.property)
      let placeholder ← Build.input field.property (record.value field.property)
      return { column, placeholder } :: (← boundFields scope entity record rest)

end Scope

namespace Entity

/-- The fields that an update of a whole record assigns. -/
def updatableFields (entity : Entity) (exclude : List String) : List Field :=
  entity.fields.filter fun field =>
    !(entity.isKey field.property || entity.isIdentity field.property ||
      exclude.contains field.property)

/-- The fields that an insert fills. -/
def insertableFields (entity : Entity) (exclude : List String) : List Field :=
  entity.fields.filter fun field =>
    !(entity.isIdentity field.property || exclude.contains field.property)

end Entity

namespace Scope

def recordSetClause (scope : Scope) (entity : Entity) (record : Record)
    (exclude : List String) : Build Fragment := do
  let bound ← scope.boundFields entity record (entity.updatableFields exclude)
  if bound.isEmpty then
    Build.fail (.missingArgument .updatableField)
  else
    return setting (bound.map fun field =>
      Fragment.joined field.column .equal field.placeholder)

/-- The column list and the value list of an insert. -/
def insertLists (scope : Scope) (entity : Entity) (record : Record)
    (exclude : List String) : Build (Fragment × Fragment) := do
  let bound ← scope.boundFields entity record (entity.insertableFields exclude)
  if bound.isEmpty then
    Build.fail (.missingArgument .insertableField)
  else
    return (Fragment.commaSeparated (bound.map (·.column)),
      Fragment.commaSeparated (bound.map (·.placeholder)))

def keyComparisons (scope : Scope) (entity : Entity) (record : Record) :
    List String → Build (List Fragment)
  | [] => return []
  | key :: rest => do
      let value := record.value key
      if value.isNull then
        Build.fail (.missingArgument .primaryKeyValue)
      let column ← Build.lift (scope.column entity key)
      let bound ← Build.input key value
      return Fragment.joined column .equal bound ::
        (← keyComparisons scope entity record rest)

/-- Conditions that single out the row of a record, to go at the end of a where
clause. -/
def keyConditions (scope : Scope) (entity : Entity) (record : Record) : Build Fragment :=
  if entity.keys.isEmpty then
    Build.fail (.noPrimaryKey entity.table)
  else
    return (← scope.keyComparisons entity record entity.keys).flatMap fun comparison =>
      [.space, .word "AND", .space] ++ comparison

end Scope

end EntitySql
