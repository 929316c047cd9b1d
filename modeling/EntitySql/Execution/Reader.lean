import EntitySql.Execution.Count
import EntitySql.Execution.Database
import EntitySql.Execution.ResultType

/-! Reading from a database. Rows are folded before they are read as the wanted
type. -/

namespace EntitySql

structure Reader (σ : Type) where
  database : Database σ
  query : Query

def Database.reader (database : Database σ) (entity : String) : Reader σ :=
  { database, query := { entity, noLock := database.noLock } }

def readRows (type : ResultType) (rows : List Row) : Except Error (List Json) :=
  rows.mapM fun row => type.read row.fold

namespace Reader

def get (reader : Reader σ) (type : ResultType) : Run σ (Option Json) := do
  let rows ← reader.database.query (← reader.database.statement (.get reader.query))
  match rows.head? with
  | some row => return some (← Run.lift (type.read row.fold))
  | none => return none

def toList (reader : Reader σ) (type : ResultType) : Run σ (List Json) := do
  let rows ← reader.database.query (← reader.database.statement (.list reader.query))
  Run.lift (readRows type rows)

def count (reader : Reader σ) : Run σ UInt64 := do
  let result ← reader.database.scalar (← reader.database.statement (.count reader.query))
  Run.lift (readCount result)

def any (reader : Reader σ) : Run σ Bool := do
  let rows ← reader.database.query (← reader.database.statement (.any reader.query))
  return !rows.isEmpty

/-- A page and the number of rows on all pages. The statement of the page is
built first and run last. -/
def page (reader : Reader σ) (index size : UInt32) : Run σ (Page Json) := do
  let statement ← reader.database.statement (.page reader.query index size)
  let total ← reader.count
  let rows ← reader.database.query statement
  let items ← Run.lift (readRows .json rows)
  return { index, size, total, items }

def summarize (reader : Reader σ) (summary : Summary) (selector : Expr)
    (type : ResultType) : Run σ Json := do
  let operation := Operation.summarize summary reader.query (some selector)
  let result ← reader.database.scalar (← reader.database.statement operation)
  Run.lift (type.read result)

end Reader

end EntitySql
