import EntitySql.Execution.Reader

/-! Writing to a database. A record is written without the excluded properties;
where several records are written, every statement is built before any runs. -/

namespace EntitySql

structure Writer (σ : Type) where
  database : Database σ
  query : Query
  exclude : List String := []

def Database.writer (database : Database σ) (entity : String) : Writer σ :=
  { database, query := { entity } }

namespace Writer

def excluding (writer : Writer σ) (properties : List String) : Writer σ :=
  { writer with exclude := writer.exclude ++ properties }

/-! Operations on an instance, which is read as a record first. -/

def inserting (writer : Writer σ) (item : Json) : Except Error Operation := do
  let record ← Record.ofJson writer.query.entity item
  return .insert writer.query record writer.exclude

def insertingIdentity (writer : Writer σ) (item : Json) : Except Error Operation := do
  let record ← Record.ofJson writer.query.entity item
  return .insertIdentity writer.query record writer.exclude

def updating (writer : Writer σ) (everyRow : Bool) (item : Json) :
    Except Error Operation := do
  let record ← Record.ofJson writer.query.entity item
  return .updateRecord writer.query record writer.exclude everyRow

def prepare (writer : Writer σ) (operation : Except Error Operation) :
    Run σ Statement := do
  writer.database.statement (← Run.lift operation)

def insert (writer : Writer σ) (item : Json) : Run σ UInt64 := do
  writer.database.execute (← writer.prepare (writer.inserting item))

def insertMany (writer : Writer σ) (items : List Json) : Run σ UInt64 := do
  writer.database.executeAll (← writer.database.statements (items.map writer.inserting))

/-- Inserts and gives the generated key. -/
def insertIdentity (writer : Writer σ) (item : Json) : Run σ Json := do
  writer.database.scalar (← writer.prepare (writer.insertingIdentity item))

def update (writer : Writer σ) (item : Json) : Run σ UInt64 := do
  writer.database.execute (← writer.prepare (writer.updating false item))

/-- Updates every row that the filters match. -/
def updateBatch (writer : Writer σ) (item : Json) : Run σ UInt64 := do
  writer.database.execute (← writer.prepare (writer.updating true item))

def updateMany (writer : Writer σ) (items : List Json) : Run σ UInt64 := do
  writer.database.executeAll (← writer.database.statements (items.map (writer.updating false)))

def updateWith (writer : Writer σ) (updater : Expr) : Run σ UInt64 := do
  writer.database.execute (← writer.database.statement (.update writer.query updater))

/-- Updates and gives the updated rows. -/
def updateSelect (writer : Writer σ) (updater : Expr) (type : ResultType) :
    Run σ (List Json) := do
  let rows ← writer.database.query
    (← writer.database.statement (.updateSelect writer.query updater))
  Run.lift (readRows type rows)

def delete (writer : Writer σ) : Run σ UInt64 := do
  writer.database.execute (← writer.database.statement (.delete writer.query))

end Writer

end EntitySql
