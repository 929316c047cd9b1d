import EntitySql.Query
import EntitySql.Sql.Assignment
import EntitySql.Sql.Clause
import EntitySql.Sql.Returning
import EntitySql.Sql.Select

/-! Statements that write. Columns are never qualified here, and no table is
joined. A statement that would change every row is built all the same, with a
warning. -/

namespace EntitySql

namespace Query

def warnUnfiltered (query : Query) (action : String) (entity : Entity) : Build Unit :=
  if query.hasFilters then
    return
  else
    Build.warn (action ++ " on " ++ entity.table ++ " has no predicate; every row is affected")

/-! An insert, and what each dialect adds so that the generated key comes back. -/

structure InsertClauses where
  entity : Entity
  columns : Fragment
  values : Fragment

def InsertClauses.sql (clauses : InsertClauses) : Fragment :=
  Fragment.words ["INSERT", "INTO"] ++ .space :: clauses.entity.tableName ++
    .space :: Fragment.parenthesized clauses.columns ++
    [.space, .word "VALUES", .space] ++ Fragment.parenthesized clauses.values

def insertClauses (catalog : Catalog) (query : Query) (record : Record)
    (exclude : List String) : Build InsertClauses := do
  let entity ← Build.lift (catalog.entity query.entity)
  let (columns, values) ← (Scope.unqualified catalog).insertLists entity record exclude
  return { entity, columns, values }

def buildInsert (catalog : Catalog) (query : Query) (record : Record)
    (exclude : List String) : Build Built := do
  let clauses ← query.insertClauses catalog record exclude
  return { sql := clauses.sql }

/-- Two statements, the second after a semicolon. -/
def followedBy (first second : Fragment) : Fragment :=
  first ++ .symbol .semicolon :: second

def buildInsertIdentity (catalog : Catalog) (dialect : Dialect) (query : Query)
    (record : Record) (exclude : List String) : Build Built := do
  let clauses ← query.insertClauses catalog record exclude
  match clauses.entity.identityOrKey? with
  | none => Build.fail (.noPrimaryKey clauses.entity.table)
  | some property =>
      match dialect with
      | .mysql =>
          let generated := [.word "SELECT", .space, .systemVariable "IDENTITY"]
          return { sql := followedBy clauses.sql generated }
      | .sqlServer =>
          let generated := .word "SELECT" :: .space :: Fragment.call "SCOPE_IDENTITY" []
          return { sql := followedBy clauses.sql generated }
      | .oracle =>
          let column ← Build.lift ((Scope.unqualified catalog).column clauses.entity property)
          let output ← Build.output (outputName property)
          return { sql := clauses.sql ++ .space :: Fragment.returning [column] [output] }

/-! An update: by expressions or by a record. Where a record is written and no
filter is given, the record's key names the row, unless all rows are meant. -/

structure UpdateClauses where
  entity : Entity
  assignments : Fragment
  conditions : Fragment

/-- The update with a clause, if there is one, before the conditions. -/
def UpdateClauses.sqlWith (clauses : UpdateClauses) (clause : Fragment) : Fragment :=
  Fragment.spaced [.word "UPDATE" :: .space :: clauses.entity.tableName, clauses.assignments,
    clause, clauses.conditions]

def UpdateClauses.sql (clauses : UpdateClauses) : Fragment :=
  clauses.sqlWith []

def updateClauses (catalog : Catalog) (query : Query) (updater : Expr) :
    Build UpdateClauses := do
  let entity ← Build.lift (catalog.entity query.entity)
  let assignments ← (Scope.unqualified catalog).setClause updater
  let conditions ← (Scope.unqualified catalog).whereClause query.filters
  query.warnUnfiltered "UPDATE" entity
  return { entity, assignments, conditions }

def buildUpdate (catalog : Catalog) (query : Query) (updater : Expr) : Build Built := do
  let clauses ← query.updateClauses catalog updater
  return { sql := clauses.sql }

/-- An update that tells the rows it changed. -/
def buildUpdateSelect (catalog : Catalog) (dialect : Dialect) (query : Query)
    (updater : Expr) : Build Built := do
  let clauses ← query.updateClauses catalog updater
  let columns ← Build.lift
    ((Scope.unqualified catalog).returnedColumns clauses.entity query.select)
  let clause ← dialect.returningClause clauses.entity columns
  match dialect with
  | .mysql =>
      return { sql := followedBy clauses.sql (clause ++ .space :: clauses.conditions) }
  | .sqlServer => return { sql := clauses.sqlWith clause }
  | .oracle => return { sql := clauses.sql ++ .space :: clause }

def buildUpdateRecord (catalog : Catalog) (query : Query) (record : Record)
    (exclude : List String) (everyRow : Bool) : Build Built := do
  let entity ← Build.lift (catalog.entity query.entity)
  let scope := Scope.unqualified catalog
  let assignments ← scope.recordSetClause entity record exclude
  let conditions ← scope.whereClause query.filters
  let keyed ←
    if query.hasFilters then
      pure []
    else if everyRow then do
      query.warnUnfiltered "batch UPDATE" entity
      pure []
    else
      scope.keyConditions entity record
  let clauses : UpdateClauses := { entity, assignments, conditions := conditions ++ keyed }
  return { sql := clauses.sql }

def buildDelete (catalog : Catalog) (query : Query) : Build Built := do
  let entity ← Build.lift (catalog.entity query.entity)
  let conditions ← (Scope.unqualified catalog).whereClause query.filters
  query.warnUnfiltered "DELETE" entity
  let sql := Fragment.words ["DELETE", "FROM"] ++ .space :: entity.tableName ++
    .space :: conditions
  return { sql }

end Query

end EntitySql
