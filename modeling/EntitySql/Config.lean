import EntitySql.Dialect
import EntitySql.Toml

/-! Configuration of a database: the dialect, the address, and how queries are
read and logged. Keys that are absent keep their defaults and unknown ones are
passed over; a known key of the wrong type makes the text malformed. -/

namespace EntitySql

structure Config where
  dialect : Dialect := .mysql
  databaseUrl? : Option String := none
  /-- Read without locks on SQL Server. -/
  noLock : Bool := false
  /-- Log every statement that was run. -/
  logSql : Bool := false
  deriving DecidableEq, Repr

namespace Config

/-- The value of a key of the root table. A table of that name is no value. -/
def lookup (document : Toml.Document) (key : String) : Except Error (Option Toml.Scalar) :=
  if document.tables.any (·.1 == key) then
    .error (.config .malformed)
  else
    .ok ((document.root.find? (·.1 == key)).map (·.2))

def readText (document : Toml.Document) (key : String) : Except Error (Option String) := do
  match ← lookup document key with
  | none => return none
  | some (.text value) => return some value
  | some _ => throw (.config .malformed)

def readBoolean (document : Toml.Document) (key : String) : Except Error Bool := do
  match ← lookup document key with
  | none => return false
  | some (.boolean value) => return value
  | some _ => throw (.config .malformed)

/-- Names of dialects are exact here. -/
def readDialect (document : Toml.Document) (key : String) : Except Error Dialect := do
  match ← readText document key with
  | none => return .mysql
  | some name =>
      match Dialect.ofName? name with
      | some dialect => return dialect
      | none => throw (.config .malformed)

def ofDocument (document : Toml.Document) : Except Error Config := do
  return {
    dialect := ← readDialect document "dialect"
    databaseUrl? := ← readText document "database_url"
    noLock := ← readBoolean document "no_lock"
    logSql := ← readBoolean document "log_sql" }

def parse (text : String) : Except Error Config :=
  match Toml.Document.read? text with
  | some document => ofDocument document
  | none => .error (.config .malformed)

/-! Configurations are read from the first file there is: the local one, then
the one of the user. The environment's address of the database wins over the
file's. -/

/-- What is found at a path. -/
inductive Source where
  | missing
  | directory
  | file (text : String)
  deriving DecidableEq, Repr

def Source.text? : Source → Option String
  | .file text => some text
  | _ => none

def ofSource (source : Source) : Except Error Config :=
  match source.text? with
  | some text => parse text
  | none => .error .unreadableFile

def load (localSource globalSource : Source) (environmentUrl? : Option String) :
    Except Error Config := do
  let config ← match localSource.text? <|> globalSource.text? with
    | some text => parse text
    | none => .ok {}
  return { config with databaseUrl? := environmentUrl? <|> config.databaseUrl? }

def databaseUrl (config : Config) : Except Error String :=
  match config.databaseUrl? with
  | some url => .ok url
  | none => .error (.config .noDatabaseUrl)

end Config

end EntitySql
