import EntitySql.Execution.Executor
import EntitySql.MySql.Cell
import EntitySql.MySql.Placeholder

/-! Running statements on a MySQL server. A text may hold several statements;
they are prepared and sent one at a time, so that a failure finds the earlier
ones already run. -/

namespace EntitySql

namespace MySql

inductive Reply where
  | done (affected : UInt64)
  | refused (code : Nat) (state message : String)
  | resultSet (columns : List Column) (rows : List (List Cell))

/-- A connection knows the replies to come and the statements sent so far. A
server without further replies has nothing to tell. -/
structure Connection where
  replies : List Reply := []
  sent : List Prepared := []

def refusal (code : Nat) (state message : String) : Error :=
  .execution (.refused code state message)

abbrev Exchange := ExceptT Error (StateM Connection)

namespace Exchange

def lift (result : Except Error α) : Exchange α :=
  match result with
  | .ok value => pure value
  | .error error => throw error

/-- Sends a statement; a reply that refuses it is an error. -/
def send (prepared : Prepared) : Exchange Reply := do
  let connection ← get
  let reply := connection.replies.head?.getD (.done 0)
  set { connection with
    replies := connection.replies.tail, sent := connection.sent ++ [prepared] : Connection }
  match reply with
  | .refused code state message => throw (refusal code state message)
  | other => return other

def sendPart (params : Params) (part : List Char) : Exchange Reply := do
  send (← lift (prepare params part))

/-- A reply with rows affected none. -/
def affected : Reply → UInt64
  | .done count => count
  | _ => 0

def executeParts (params : Params) : List (List Char) → Exchange UInt64
  | [] => return 0
  | part :: rest => do
      let reply ← sendPart params part
      let more ← executeParts params rest
      return affected reply + more

/-- The reply to the last statement. -/
def runParts (params : Params) : List (List Char) → Exchange Reply
  | [] => throw (.missingArgument .statementText)
  | [last] => sendPart params last
  | part :: rest => do
      let _ ← sendPart params part
      runParts params rest

end Exchange

namespace Reply

/-- The cells of a row with their columns, as far as both go. -/
def rowOf (columns : List Column) (cells : List Cell) : Row :=
  Members.ofList ((columns.zip cells).map fun (column, cell) =>
    (column.name, cell.read column.type))

def rows : Reply → List Row
  | .resultSet columns rows => rows.map (rowOf columns)
  | _ => []

def firstValue : Reply → Json
  | .resultSet (column :: _) ((cell :: _) :: _) => cell.read column.type
  | _ => .null

end Reply

def executor : Executor Connection where
  query statement :=
    (Reply.rows <$> Exchange.runParts statement.params
      (splitStatements statement.sql.toList)).run
  scalar statement :=
    (Reply.firstValue <$> Exchange.runParts statement.params
      (splitStatements statement.sql.toList)).run
  execute statement :=
    (Exchange.executeParts statement.params (splitStatements statement.sql.toList)).run

end MySql

end EntitySql
