import EntitySql.Sql.Condition

/-! Select lists. Every column comes back under the name of its property: a
column of another name is renamed. -/

namespace EntitySql

namespace Scope

/-- A field of an entity, selected under its property name. -/
def selectedField (scope : Scope) (entity : Entity) (field : Field) :
    Except Error Fragment := do
  let column ← scope.column entity field.property
  return if field.column = field.property then column
    else Fragment.renamed column field.property

def fieldList (scope : Scope) (entity : Entity) : Except Error Fragment := do
  let columns ← entity.fields.mapM (scope.selectedField entity)
  return Fragment.commaSeparated columns

def selectedMember (scope : Scope) (reference : MemberPath) : Except Error Fragment := do
  let entity ← scope.catalog.entity reference.entity
  let column ← scope.column entity reference.member
  let name ← entity.column reference.member
  return if name = reference.member then column
    else Fragment.renamed column reference.member

def selectedBindings (scope : Scope) : List (String × Expr) → Build (List Fragment)
  | [] => return []
  | (name, expression) :: rest => do
      let value ← expression.scalar scope name
      return Fragment.renamed value name :: (← selectedBindings scope rest)

def projection (scope : Scope) (selector : Expr) : Build Fragment :=
  match selector.body with
  | .member reference => Build.lift (scope.selectedMember reference)
  | .record _ bindings =>
      if bindings.isEmpty then
        Build.fail (.missingArgument .projectionMembers)
      else
        return Fragment.commaSeparated (← scope.selectedBindings bindings)
  | .aggregate .. | .bareAggregate _ | .comparison .. | .arithmetic .. =>
      selector.scalar scope Expr.unnamed
  | other => Build.fail (.unsupported (.node other.kind) .projection)

/-- The select list: the given projection, or every mapped column. -/
def selectList (scope : Scope) (entity : Entity) : Option Expr → Build Fragment
  | none => Build.lift (scope.fieldList entity)
  | some selector => scope.projection selector

/-- The column that a summary of one column is taken over. -/
def summarizedColumn (scope : Scope) : Option Expr → Build Fragment
  | none => Build.fail (.missingArgument .aggregateSelector)
  | some selector =>
      match selector.body with
      | .member reference => Build.lift (scope.member reference)
      | other => Build.fail (.unsupported (.node other.kind) .aggregateSelector)

end Scope

end EntitySql
