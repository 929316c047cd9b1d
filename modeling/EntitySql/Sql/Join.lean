import EntitySql.Sql.Condition

/-! Joined tables. A joined table keeps the alias of its entity unless the root
or an earlier join already has it; then it is known by the name of the
navigation. -/

namespace EntitySql

def JoinKind.keywords : JoinKind → List String
  | .inner => ["INNER", "JOIN"]
  | .left => ["LEFT", "JOIN"]
  | .right => ["RIGHT", "JOIN"]

/-- What stands between the name of a navigation and a property in the name of
a joined column. -/
def navigationSeparator : String := "__"

def joinedColumnName (navigation property : String) : String :=
  navigation ++ navigationSeparator ++ property

def joinAlias (taken : List String) (entityAlias navigation : String) : String :=
  if isTaken taken entityAlias then freshName taken navigation else entityAlias

structure JoinedTable where
  aliasName : String
  clause : Fragment
  /-- The joined columns, each after a comma, to go at the end of a select list. -/
  columns : Fragment
  deriving DecidableEq, Repr

namespace Entity

def tableName (entity : Entity) : Fragment :=
  [.identifier entity.table]

def aliasedTable (entity : Entity) : Fragment :=
  entity.tableName ++ [.space, .word entity.aliasName]

end Entity

namespace Scope

def joinedColumn (scope : Scope) (aliasName : String) (navigation : Navigation)
    (target : Entity) (field : Field) : Except Error Fragment := do
  let column ← scope.columnUnder aliasName target field.property
  return [.symbol .comma, .space] ++
    Fragment.renamed column (joinedColumnName navigation.name field.property)

def joinedColumns (scope : Scope) (aliasName : String) (navigation : Navigation)
    (target : Entity) : Except Error Fragment :=
  if navigation.withFields then do
    let columns ← target.fields.mapM (scope.joinedColumn aliasName navigation target)
    return columns.flatten
  else
    return []

def joinTable (scope : Scope) (root : Entity) (taken : List String)
    (navigation : Navigation) : Build JoinedTable := do
  let target ← Build.lift (scope.catalog.entity navigation.target)
  let aliasName := joinAlias taken target.aliasName navigation.name
  let join : JoinView :=
    { target := navigation.target, aliasName, selfJoin := navigation.target = root.name }
  let condition ← navigation.condition.predicate (.ofJoin scope.catalog join)
  let columns ← Build.lift (scope.joinedColumns aliasName navigation target)
  let clause := Fragment.words navigation.kind.keywords ++ .space :: target.tableName ++
    [.space, .word aliasName, .space, .word "ON", .space] ++ condition
  return { aliasName, clause, columns }

/-- Joins in order, next to the aliases in use before them. -/
def joinTables (scope : Scope) (root : Entity) :
    (taken : List String) → List Navigation → Build (List JoinedTable)
  | _, [] => return []
  | taken, navigation :: rest => do
      let first ← scope.joinTable root taken navigation
      return first :: (← joinTables scope root (taken ++ [first.aliasName]) rest)

def joins (scope : Scope) (root : Entity) (navigations : List Navigation) :
    Build (List JoinedTable) :=
  scope.joinTables root [root.aliasName] navigations

end Scope

namespace JoinedTable

def joinClauses (tables : List JoinedTable) : Fragment :=
  [Token.space].intercalate (tables.map (·.clause))

def selectedColumns (tables : List JoinedTable) : Fragment :=
  tables.flatMap (·.columns)

end JoinedTable

end EntitySql
