import EntitySql.Config
import EntitySql.Execution.Executor
import EntitySql.Execution.Hook
import EntitySql.Operation

/-! A database: an executor, a dialect and the hooks around every call. A session
keeps the state of the executor and a journal of all that happened, which a
failure leaves as it is. -/

namespace EntitySql

structure Database (σ : Type) where
  executor : Executor σ
  catalog : Catalog
  dialect : Dialect
  /-- Whether queries start out reading without locks. -/
  noLock : Bool := false
  hooks : Hooks := []

structure Session (σ : Type) where
  state : σ
  journal : List Event := []

abbrev Run (σ : Type) := ExceptT Error (StateM (Session σ))

namespace Run

def lift (result : Except Error α) : Run σ α :=
  match result with
  | .ok value => pure value
  | .error error => throw error

def record (events : List Event) : Run σ Unit :=
  modify fun session => { session with journal := session.journal ++ events }

/-- Lets the executor act on its state. -/
def perform (action : StateM σ α) : Run σ α := do
  let session ← get
  let (result, state) := action.run session.state
  set { session with state }
  return result

end Run

namespace Database

def withHook (database : Database σ) (hook : Hook) : Database σ :=
  { database with hooks := database.hooks ++ [hook] }

/-- The database that a configuration describes. -/
def ofConfig (executor : Executor σ) (catalog : Catalog) (config : Config) : Database σ :=
  { executor
    catalog
    dialect := config.dialect
    noLock := config.noLock
    hooks := if config.logSql then [Hook.logger] else [] }

/-- Builds a statement; its log lines go into the journal. -/
def statement (database : Database σ) (operation : Operation) : Run σ Statement := do
  let (outcome, log) := operation.compose database.catalog database.dialect
  Run.record (log.map .logged)
  let composition ← Run.lift outcome
  return composition.statement

/-- One call of the executor between the hooks. -/
def call (database : Database σ) (kind : CallKind)
    (action : Statement → StateM σ (Except Error α)) (statement : Statement) : Run σ α := do
  let prepared := database.hooks.executing statement
  Run.record [.called kind prepared]
  let result ← Run.perform (action prepared)
  Run.record (database.hooks.executed prepared)
  Run.lift result

def query (database : Database σ) (statement : Statement) : Run σ (List Row) :=
  database.call .query database.executor.query statement

def scalar (database : Database σ) (statement : Statement) : Run σ Json :=
  database.call .scalar database.executor.scalar statement

def execute (database : Database σ) (statement : Statement) : Run σ UInt64 :=
  database.call .execute database.executor.execute statement

/-- Executes statements in turn and adds up the rows they affected. -/
def executeAll (database : Database σ) : List Statement → Run σ UInt64
  | [] => return 0
  | statement :: rest => do
      let affected ← database.execute statement
      let more ← database.executeAll rest
      return affected + more

/-- Builds all statements before any is run. -/
def statements (database : Database σ) : List (Except Error Operation) →
    Run σ (List Statement)
  | [] => return []
  | operation :: rest => do
      let first ← database.statement (← Run.lift operation)
      return first :: (← database.statements rest)

end Database

end EntitySql
