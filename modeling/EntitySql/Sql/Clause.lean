import EntitySql.Sql.Condition

/-! The clauses of a query after its tables. All but the first are empty when
nothing is asked of them. -/

namespace EntitySql

namespace Scope

def conjuncts (scope : Scope) : List Expr → Build (List Fragment)
  | [] => return []
  | expression :: rest => do
      let first ← expression.conjunct scope
      return first :: (← conjuncts scope rest)

def scalars (scope : Scope) : List Expr → Build (List Fragment)
  | [] => return []
  | expression :: rest => do
      let first ← expression.scalar scope Expr.unnamed
      return first :: (← scalars scope rest)

/-- A conjunction that holds where there are no conditions. -/
def whereClause (scope : Scope) (filters : List Expr) : Build Fragment := do
  let conditions ← scope.conjuncts filters
  let added := conditions.flatMap fun condition =>
    [.space, .word "AND", .space] ++ condition
  return [.word "WHERE", .space] ++ Fragment.always ++ added

def groupClause (scope : Scope) (keys : List Expr) : Build Fragment :=
  if keys.isEmpty then
    return []
  else
    return Fragment.words ["GROUP", "BY"] ++ .space ::
      Fragment.commaSeparated (← scope.scalars keys)

def havingClause (scope : Scope) (conditions : List Expr) : Build Fragment :=
  if conditions.isEmpty then
    return []
  else
    return [.word "HAVING", .space] ++
      [Token.space, .word "AND", .space].intercalate (← scope.conjuncts conditions)

def sortKeys (scope : Scope) : List SortKey → Build (List Fragment)
  | [] => return []
  | item :: rest => do
      let key ← item.expression.scalar scope Expr.unnamed
      let direction := match item.direction with
        | .ascending => "ASC"
        | .descending => "DESC"
      return (key ++ [.space, .word direction]) :: (← sortKeys scope rest)

def orderClause (scope : Scope) (items : List SortKey) : Build Fragment :=
  if items.isEmpty then
    return []
  else
    return Fragment.words ["ORDER", "BY"] ++ .space ::
      Fragment.commaSeparated (← scope.sortKeys items)

end Scope

end EntitySql
