import EntitySql.Dialect
import EntitySql.Sql.Condition
import EntitySql.Sql.Join

/-! Clauses by which an update tells the rows it changed. Each dialect has its
own: MySQL selects the rows in a second statement, SQL Server outputs them and
Oracle returns them into output parameters. -/

namespace EntitySql

structure ReturnedColumn where
  column : Fragment
  property : String
  deriving DecidableEq, Repr

namespace Scope

def returnedField (scope : Scope) (entity : Entity) (field : Field) :
    Except Error ReturnedColumn := do
  let column ← scope.column entity field.property
  return { column, property := field.property }

def returnedBinding (scope : Scope) (binding : String × Expr) :
    Except Error ReturnedColumn :=
  match binding.2.asMember? with
  | some reference => do
      let column ← scope.member reference
      return { column, property := binding.1 }
  | none => .error (.unsupported (.node binding.2.kind) .updateProjection)

/-- The columns an update returns: those of the projection, or every field. A
projection consists of members only. -/
def returnedColumns (scope : Scope) (entity : Entity) :
    Option Expr → Except Error (List ReturnedColumn)
  | none => entity.fields.mapM (scope.returnedField entity)
  | some selector =>
      match selector.body with
      | .member reference => do
          let column ← scope.member reference
          return [{ column, property := reference.member }]
      | .record name bindings =>
          if bindings.isEmpty then
            .error (.unsupported (.node (Expr.record name bindings).kind) .updateProjection)
          else
            bindings.mapM scope.returnedBinding
      | other => .error (.unsupported (.node other.kind) .updateProjection)

end Scope

/-- The column under its property name; it is renamed unless its text already is
that name. -/
def ReturnedColumn.named (returned : ReturnedColumn) (lexical : Lexical) : Fragment :=
  if returned.column.text lexical = Fragment.text lexical [.identifier returned.property] then
    returned.column
  else
    Fragment.renamed returned.column returned.property

/-- Output parameters are named after the property they return. -/
def outputName (property : String) : String :=
  "out_" ++ property

def Build.outputs : List String → Build (List Fragment)
  | [] => return []
  | property :: rest => do
      let first ← Build.output (outputName property)
      return first :: (← Build.outputs rest)

def Fragment.returning (columns outputs : List Fragment) : Fragment :=
  [.word "RETURNING", .space] ++ Fragment.commaSeparated columns ++
    [.space, .word "INTO", .space] ++ Fragment.commaSeparated outputs

def Dialect.returningClause (dialect : Dialect) (entity : Entity)
    (columns : List ReturnedColumn) : Build Fragment :=
  let named := columns.map (·.named dialect.lexical)
  match dialect with
  | .mysql =>
      return [.word "SELECT", .space] ++ Fragment.commaSeparated named ++
        [.space, .word "FROM", .space] ++ entity.tableName
  | .sqlServer =>
      return [.word "OUTPUT", .space] ++
        Fragment.commaSeparated (named.map ([.word "INSERTED", .symbol .dot] ++ ·))
  | .oracle => do
      let outputs ← Build.outputs (columns.map (·.property))
      return Fragment.returning (columns.map (·.column)) outputs

end EntitySql
