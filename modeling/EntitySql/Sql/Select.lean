import EntitySql.Dialect
import EntitySql.Paging
import EntitySql.Query
import EntitySql.Sql.Clause
import EntitySql.Sql.Join
import EntitySql.Sql.Projection

/-! Statements that read. Dialects agree on everything but the modifiers of the
select keyword, the table hint and the way the number of rows is capped. -/

namespace EntitySql

/-- A statement next to the joins that it takes. -/
structure Built where
  sql : Fragment
  joins : List Navigation := []

namespace Dialect

def selectKeyword (dialect : Dialect) (distinct : Bool) (top : Option UInt32) : Fragment :=
  let keywords := Fragment.words (if distinct then ["SELECT", "DISTINCT"] else ["SELECT"])
  match dialect, top with
  | .sqlServer, some count =>
      keywords ++ [.space, .word "TOP", .space] ++ Fragment.number count.toNat
  | _, _ => keywords

def tableHint (dialect : Dialect) (noLock : Bool) : Fragment :=
  match dialect, noLock with
  | .sqlServer, true => Fragment.call "WITH" [.word "NOLOCK"]
  | _, _ => []

def fromClause (dialect : Dialect) (entity : Entity) (noLock : Bool) : Fragment :=
  Fragment.spaced [.word "FROM" :: .space :: entity.aliasedTable, dialect.tableHint noLock]

end Dialect

/-! The clauses of a query for rows. -/

structure SelectClauses where
  entity : Entity
  keyword : Fragment
  columns : Fragment
  source : Fragment
  joined : Fragment
  conditions : Fragment
  grouping : Fragment
  having : Fragment
  ordering : Fragment
  joins : List Navigation

namespace SelectClauses

/-- Clauses are built in the order in which they stand, which is the order in
which their parameters are bound. The columns of joined tables are selected only
where no projection is given. -/
def build (catalog : Catalog) (dialect : Dialect) (query : Query) (top : Option UInt32) :
    Build SelectClauses := do
  let entity ← Build.lift (catalog.entity query.entity)
  let scope := Scope.aliased catalog
  let joins := query.joins ++ entity.navigations
  let selected ← scope.selectList entity query.select
  let tables ← scope.joins entity joins
  let conditions ← scope.whereClause query.filters
  let grouping ← scope.groupClause query.groups
  let having ← scope.havingClause query.having
  let ordering ← scope.orderClause query.order
  return {
    entity
    keyword := dialect.selectKeyword query.distinct top
    columns :=
      if query.select.isNone then selected ++ JoinedTable.selectedColumns tables
      else selected
    source := dialect.fromClause entity query.noLock
    joined := JoinedTable.joinClauses tables
    conditions
    grouping
    having
    ordering
    joins }

def sql (clauses : SelectClauses) : Fragment :=
  Fragment.spaced [clauses.keyword ++ .space :: clauses.columns, clauses.source, clauses.joined,
    clauses.conditions, clauses.grouping, clauses.having, clauses.ordering]

end SelectClauses

/-! The clauses of a query for a single value. Grouping, ordering and the
projection play no part in it. -/

structure ScalarClauses where
  head : Fragment
  source : Fragment
  joined : Fragment
  conditions : Fragment
  joins : List Navigation

namespace ScalarClauses

def build (catalog : Catalog) (dialect : Dialect) (query : Query)
    (head : Scope → Build Fragment) : Build ScalarClauses := do
  let entity ← Build.lift (catalog.entity query.entity)
  let scope := Scope.aliased catalog
  let joins := query.joins ++ entity.navigations
  let head ← head scope
  let tables ← scope.joins entity joins
  let conditions ← scope.whereClause query.filters
  return {
    head
    source := dialect.fromClause entity query.noLock
    joined := JoinedTable.joinClauses tables
    conditions
    joins }

def sql (clauses : ScalarClauses) : Fragment :=
  Fragment.spaced [clauses.head, clauses.source, clauses.joined, clauses.conditions]

def built (clauses : ScalarClauses) : Built :=
  { sql := clauses.sql, joins := clauses.joins }

end ScalarClauses

/-! Capping the number of rows. MySQL ends the statement with a limit, SQL Server
puts it after the select keyword, and Oracle numbers the rows of the statement
in an outer one. -/

namespace Fragment

def limit (sql : Fragment) (count : Nat) : Fragment :=
  sql ++ [.space, .word "LIMIT", .space] ++ number count

def rowNumberAtMost (count : Nat) : Fragment :=
  [.word "ROWNUM", .symbol .lessOrEqual] ++ number count

/-- All columns of a table known by an alias. -/
def allOf (aliasName : String) : Fragment :=
  [.word aliasName, .symbol .dot, .symbol .times]

def firstRows (sql : Fragment) (count : Nat) : Fragment :=
  [.word "SELECT", .space] ++ allOf "T" ++ [.space, .word "FROM", .space] ++
    parenthesized sql ++ [.space, .word "T", .space, .word "WHERE", .space] ++
    rowNumberAtMost count

def offsetLimit (sql : Fragment) (rows : RowRange) : Fragment :=
  sql.limit rows.size.toNat ++ [.space, .word "OFFSET", .space] ++
    number rows.skip.toNat

def offsetFetch (sql : Fragment) (rows : RowRange) : Fragment :=
  sql ++ [.space, .word "OFFSET", .space] ++ number rows.skip.toNat ++
    .space :: words ["ROWS", "FETCH", "NEXT"] ++ .space :: number rows.size.toNat ++
    .space :: words ["ROWS", "ONLY"]

def numberedRows (sql : Fragment) : Fragment :=
  [.word "SELECT", .space] ++ allOf "T" ++
    [.symbol .comma, .word "ROWNUM", .space, .word "ROWNUMS", .space, .word "FROM", .space] ++
    parenthesized sql ++ [.space, .word "T"]

def rowsBetween (sql : Fragment) (rows : RowRange) : Fragment :=
  [.word "SELECT", .space] ++ allOf "T2" ++ [.space, .word "FROM", .space] ++
    parenthesized (numberedRows sql) ++
    .space :: words ["T2", "WHERE", "ROWNUMS", "BETWEEN"] ++
    .space :: number rows.first.toNat ++ [.space, .word "AND", .space] ++
    number rows.last.toNat

end Fragment

namespace SelectClauses

/-- Whether the rows of the query carry the key columns for certain. -/
def showsKey (query : Query) (entity : Entity) : Bool :=
  !entity.keys.isEmpty && query.groups.isEmpty && !(query.distinct && query.select.isSome)

def keyOrder (scope : Scope) (entity : Entity) : Except Error Fragment := do
  let columns ← entity.keys.mapM (scope.column entity)
  return Fragment.words ["ORDER", "BY"] ++ .space :: Fragment.commaSeparated columns

/-- An order that leaves the rows as they come. -/
def noOrder : Fragment :=
  Fragment.words ["ORDER", "BY"] ++ .space ::
    Fragment.parenthesized (Fragment.words ["SELECT", "NULL"])

/-- SQL Server pages ordered rows only. Without an order of its own a query is
ordered by the key where its rows show it. -/
def withDefaultOrder (scope : Scope) (query : Query) (clauses : SelectClauses) :
    Except Error SelectClauses :=
  if !clauses.ordering.isEmpty then
    .ok clauses
  else if showsKey query clauses.entity then do
    let ordering ← keyOrder scope clauses.entity
    return { clauses with ordering }
  else
    .ok { clauses with ordering := noOrder }

end SelectClauses

namespace Query

/-- The first matching row. -/
def buildGet (catalog : Catalog) (dialect : Dialect) (query : Query) : Build Built := do
  match dialect with
  | .mysql =>
      let clauses ← SelectClauses.build catalog dialect query none
      return { sql := clauses.sql.limit 1, joins := clauses.joins }
  | .sqlServer =>
      let clauses ← SelectClauses.build catalog dialect query (some 1)
      return { sql := clauses.sql, joins := clauses.joins }
  | .oracle =>
      let clauses ← SelectClauses.build catalog dialect query none
      return { sql := clauses.sql.firstRows 1, joins := clauses.joins }

/-- All matching rows, up to the cap that the query sets. -/
def buildList (catalog : Catalog) (dialect : Dialect) (query : Query) : Build Built := do
  let clauses ← SelectClauses.build catalog dialect query query.top
  let sql := match dialect, query.top with
    | .mysql, some count => clauses.sql.limit count.toNat
    | .oracle, some count => clauses.sql.firstRows count.toNat
    | _, _ => clauses.sql
  return { sql, joins := clauses.joins }

def buildPage (catalog : Catalog) (dialect : Dialect) (query : Query)
    (index size : UInt32) : Build Built := do
  let rows ← Build.lift (RowRange.ofPage index size)
  let clauses ← SelectClauses.build catalog dialect query none
  match dialect with
  | .mysql => return { sql := clauses.sql.offsetLimit rows, joins := clauses.joins }
  | .sqlServer =>
      let ordered ← Build.lift (clauses.withDefaultOrder (.aliased catalog) query)
      return { sql := ordered.sql.offsetFetch rows, joins := ordered.joins }
  | .oracle => return { sql := clauses.sql.rowsBetween rows, joins := clauses.joins }

/-- One row if any row matches. -/
def buildAny (catalog : Catalog) (dialect : Dialect) (query : Query) : Build Built := do
  let head := Fragment.words (match dialect with
    | .sqlServer => ["SELECT", "TOP", "1", "1"]
    | _ => ["SELECT", "1"])
  let clauses ← ScalarClauses.build catalog dialect query (fun _ => return head)
  match dialect with
  | .mysql => return { sql := clauses.sql.limit 1, joins := clauses.joins }
  | .sqlServer => return clauses.built
  | .oracle =>
      let conditions := clauses.conditions ++ [.space, .word "AND", .space] ++
        Fragment.rowNumberAtMost 1
      return { clauses with conditions }.built

def buildCount (catalog : Catalog) (dialect : Dialect) (query : Query) : Build Built := do
  let head : Fragment := .word "SELECT" :: .space :: Fragment.call "COUNT" [.word "1"]
  let clauses ← ScalarClauses.build catalog dialect query (fun _ => return head)
  return clauses.built

end Query

/-! Summaries of one column. A sum over no rows is zero in MySQL. -/

inductive Summary where
  | sum
  | min
  | max
  deriving DecidableEq, Repr

namespace Summary

def aggregate : Summary → Aggregate
  | .sum => .sum
  | .min => .min
  | .max => .max

def head (dialect : Dialect) (summary : Summary) (column : Fragment) : Fragment :=
  let called := Fragment.call summary.aggregate.keyword column
  let shown := match dialect, summary with
    | .mysql, .sum => Fragment.call "IFNULL" (called ++ [.symbol .comma, .word "0"])
    | _, _ => called
  .word "SELECT" :: .space :: shown

def buildHead (dialect : Dialect) (summary : Summary) (selector : Option Expr)
    (scope : Scope) : Build Fragment := do
  let column ← scope.summarizedColumn selector
  return summary.head dialect column

end Summary

def Query.buildSummary (catalog : Catalog) (dialect : Dialect) (query : Query)
    (summary : Summary) (selector : Option Expr) : Build Built := do
  let clauses ← ScalarClauses.build catalog dialect query (summary.buildHead dialect selector)
  return clauses.built

end EntitySql
