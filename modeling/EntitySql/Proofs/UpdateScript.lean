import EntitySql.Proofs.ConditionGrammar
import EntitySql.Statement

/-! Scripts that update rows and tell them: how they are read from their text, and what
they do to tables. A script is an update that outputs the rows it changed, or one that
is followed by a query for them. -/

namespace EntitySql

/-- A column, and the name that it is shown under. -/
structure ShownColumn where
  column : String
  label : String
  deriving DecidableEq, Repr

structure UpdateStatement where
  table : String
  assignments : List (String × Formula)
  /-- What is output of each changed row. -/
  outputs : List ShownColumn
  condition : Formula
  deriving DecidableEq, Repr

structure SelectStatement where
  columns : List ShownColumn
  table : String
  condition : Formula
  deriving DecidableEq, Repr

structure UpdateScript where
  update : UpdateStatement
  query? : Option SelectStatement
  deriving DecidableEq, Repr

/-! Reading. A reader takes tokens from the front and gives what is left. -/

abbrev TokenReader (α : Type) := List Token → Option (α × List Token)

def takeIdentifier : TokenReader String
  | .identifier name :: rest => some (name, rest)
  | _ => none

/-- Items with commas between them, at most `limit` of them. -/
def readList (item : TokenReader α) : (limit : Nat) → TokenReader (List α)
  | 0 => fun _ => none
  | limit + 1 => fun tokens => do
      let (first, after) ← item tokens
      match after with
      | .symbol .comma :: rest => do
          let (others, last) ← readList item limit rest
          return (first :: others, last)
      | _ => return ([first], after)

def readAssignment (bag : Params) (depth : Nat) : TokenReader (String × Formula) := fun tokens => do
  let (column, rest) ← takeIdentifier tokens
  let rest ← skipToken (.symbol .equal) rest
  let (value, after) ← FormulaReader.sum bag (readFormula bag depth) rest
  return ((column, value), after)

def readShownColumn : TokenReader ShownColumn
  | .identifier column :: rest =>
      match skipToken (.word "AS") rest with
      | some renamed => do
          let (label, after) ← takeIdentifier renamed
          return (⟨column, label⟩, after)
      | none => some (⟨column, column⟩, rest)
  | _ => none

/-- A column as it is after the update. -/
def readInsertedColumn : TokenReader ShownColumn := fun tokens => do
  let rest ← skipToken (.word "INSERTED") tokens
  let rest ← skipToken (.symbol .dot) rest
  readShownColumn rest

def readOutputs (limit : Nat) : TokenReader (List ShownColumn) := fun tokens =>
  match skipToken (.word "OUTPUT") tokens with
  | some rest => readList readInsertedColumn limit rest
  | none => some ([], tokens)

def readUpdate (bag : Params) (size : Nat) : TokenReader UpdateStatement := fun tokens => do
  let rest ← skipToken (.word "UPDATE") tokens
  let (table, rest) ← takeIdentifier rest
  let rest ← skipToken (.word "SET") rest
  let (assignments, rest) ← readList (readAssignment bag size) size rest
  let (outputs, rest) ← readOutputs size rest
  let rest ← skipToken (.word "WHERE") rest
  let (condition, rest) ← readFormula bag (size + 1) rest
  return ({ table, assignments, outputs, condition }, rest)

def readSelect (bag : Params) (size : Nat) : TokenReader SelectStatement := fun tokens => do
  let rest ← skipToken (.word "SELECT") tokens
  let (columns, rest) ← readList readShownColumn size rest
  let rest ← skipToken (.word "FROM") rest
  let (table, rest) ← takeIdentifier rest
  let rest ← skipToken (.word "WHERE") rest
  let (condition, rest) ← readFormula bag (size + 1) rest
  return ({ columns, table, condition }, rest)

/-- The script that some tokens are, all of them. -/
def readScript (bag : Params) (tokens : List Token) : Option UpdateScript := do
  let (update, rest) ← readUpdate bag tokens.length tokens
  match rest with
  | [] => return { update, query? := none }
  | _ => do
      let rest ← skipToken (.symbol .semicolon) rest
      let (select, last) ← readSelect bag tokens.length rest
      if last.isEmpty then return { update, query? := some select } else none

/-- The script of a statement, with the values that its parameters hold. -/
def Dialect.scriptOf (dialect : Dialect) (statement : Statement) : Option UpdateScript := do
  let fragment ← dialect.readTokens statement.sql
  readScript statement.params fragment.squeezed

/-! Running. A row gives each column a value. What an engine makes of the call of an
aggregate in a single row is left open. -/

abbrev TableRow := String → Value

structure Server where
  engine : Engine
  aggregate : TableRow → Aggregate → Formula → Value

namespace Server

variable (server : Server)

def valuation (row : TableRow) : Valuation :=
  { column := fun reference => row reference.name, aggregate := server.aggregate row }

def value (formula : Formula) (row : TableRow) : Value :=
  (formula.value? server.engine (server.valuation row)).getD .null

/-- A condition picks the rows for which it is true, and neither those for which it is
false nor those for which it is unknown. -/
def picks (condition : Formula) (row : TableRow) : Bool :=
  condition.truth? server.engine (server.valuation row) = some .yes

end Server

namespace TableRow

def set (row : TableRow) (column : String) (value : Value) : TableRow := fun other =>
  if other = column then value else row other

/-- One assignment after the other: each sees what those before it have assigned. -/
def assignInOrder (server : Server) : List (String × Formula) → TableRow → TableRow
  | [], row => row
  | (column, formula) :: rest, row =>
      assignInOrder server rest (row.set column (server.value formula row))

/-- All assignments at once: each sees the row as it was. -/
def assignAtOnce (server : Server) (assignments : List (String × Formula)) (row : TableRow) :
    TableRow :=
  assignments.foldl
    (fun changed assignment => set changed assignment.1 (server.value assignment.2 row)) row

/-- MySQL assigns in order, the other dialects at once. -/
def assign (server : Server) (dialect : Dialect) (assignments : List (String × Formula))
    (row : TableRow) : TableRow :=
  match dialect with
  | .mysql => assignInOrder server assignments row
  | .sqlServer | .oracle => assignAtOnce server assignments row

/-- The columns of a row as they are shown. -/
def shown (row : TableRow) (columns : List ShownColumn) : List (String × Value) :=
  columns.map fun shown => (shown.label, row shown.column)

end TableRow

namespace UpdateStatement

variable (update : UpdateStatement) (server : Server) (dialect : Dialect)

/-- A row as the update leaves it if it picks the row. -/
def image (row : TableRow) : TableRow :=
  row.assign server dialect update.assignments

/-- The rows that the update picks, as they were before. -/
def picked (rows : List TableRow) : List TableRow :=
  rows.filter (server.picks update.condition)

def run (rows : List TableRow) : List TableRow :=
  rows.map fun row =>
    if server.picks update.condition row then update.image server dialect row else row

end UpdateStatement

def SelectStatement.run (select : SelectStatement) (server : Server) (rows : List TableRow) :
    List (List (String × Value)) :=
  (rows.filter (server.picks select.condition)).map (TableRow.shown · select.columns)

namespace UpdateScript

/-- The tables after the update. -/
def updated (script : UpdateScript) (server : Server) (dialect : Dialect)
    (tables : String → List TableRow) (table : String) : List TableRow :=
  if table = script.update.table then script.update.run server dialect (tables table)
  else tables table

/-- The rows that a script yields: those that its query finds after the update, or those
that the update outputs. -/
def rows (script : UpdateScript) (server : Server) (dialect : Dialect)
    (tables : String → List TableRow) : List (List (String × Value)) :=
  match script.query? with
  | some select => select.run server (script.updated server dialect tables select.table)
  | none =>
      (script.update.picked server (tables script.update.table)).map fun row =>
        (script.update.image server dialect row).shown script.update.outputs

end UpdateScript

end EntitySql
