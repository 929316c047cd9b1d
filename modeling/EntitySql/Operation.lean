import EntitySql.Sql.Write
import EntitySql.Statement

/-! Everything a statement can be built for. An operation either gives a
statement with its parameters or fails; either way its log lines remain. -/

namespace EntitySql

inductive Operation where
  | get (query : Query)
  | list (query : Query)
  | page (query : Query) (index size : UInt32)
  | any (query : Query)
  | count (query : Query)
  | summarize (summary : Summary) (query : Query) (selector : Option Expr)
  | insert (query : Query) (record : Record) (exclude : List String)
  | insertIdentity (query : Query) (record : Record) (exclude : List String)
  | update (query : Query) (updater : Expr)
  | updateSelect (query : Query) (updater : Expr)
  | updateRecord (query : Query) (record : Record) (exclude : List String) (everyRow : Bool)
  | delete (query : Query)

/-- A statement that was built, and the joins that it takes. -/
structure Composition where
  statement : Statement
  joins : List Navigation

namespace Operation

def build (catalog : Catalog) (dialect : Dialect) : Operation → Build Built
  | .get query => query.buildGet catalog dialect
  | .list query => query.buildList catalog dialect
  | .page query index size => query.buildPage catalog dialect index size
  | .any query => query.buildAny catalog dialect
  | .count query => query.buildCount catalog dialect
  | .summarize summary query selector => query.buildSummary catalog dialect summary selector
  | .insert query record exclude => query.buildInsert catalog record exclude
  | .insertIdentity query record exclude =>
      query.buildInsertIdentity catalog dialect record exclude
  | .update query updater => query.buildUpdate catalog updater
  | .updateSelect query updater => query.buildUpdateSelect catalog dialect updater
  | .updateRecord query record exclude everyRow =>
      query.buildUpdateRecord catalog record exclude everyRow
  | .delete query => query.buildDelete catalog

/-- The line that reports a statement that was built. -/
def builtLine (dialect : Dialect) (statement : Statement) : LogLine :=
  { level := .debug
    message := "[" ++ dialect.name ++ "] " ++ statement.sql ++ " (" ++
      toString statement.params.size ++ " params)" }

def compose (catalog : Catalog) (dialect : Dialect) (operation : Operation) :
    Except Error Composition × List LogLine :=
  match (operation.build catalog dialect).runFrom {} with
  | (.ok built, draft) =>
      let statement : Statement :=
        { sql := built.sql.text dialect.lexical, params := draft.params }
      (.ok { statement, joins := built.joins },
        draft.log ++ [builtLine dialect statement])
  | (.error error, draft) => (.error error, draft.log)

end Operation

end EntitySql
