import EntitySql.Execution.Row
import EntitySql.Statement

/-! What runs statements. An executor acts on a state of its own, which tells
everything that an answer can depend on. -/

namespace EntitySql

structure Executor (σ : Type) where
  /-- The rows of the last statement in the text. -/
  query : Statement → StateM σ (Except Error (List Row))
  /-- The first column of the first row, or null. -/
  scalar : Statement → StateM σ (Except Error Json)
  /-- The number of rows affected. -/
  execute : Statement → StateM σ (Except Error UInt64)

/-! A script answers from queues, one for each kind of call, whatever the
statement is. Past the end of its queue a call gives no rows, null, or one row
affected. -/

structure Script where
  rows : List (Except String (List Row)) := []
  scalars : List (Except String Json) := []
  affected : List (Except String UInt64) := []

namespace Script

def answer (entry : Except String α) : Except Error α :=
  entry.mapError fun message => .execution (.reported message)

/-- The first entry of a queue, or what stands for it, and the rest. -/
def pop (queue : List (Except String α)) (standIn : α) :
    Except Error α × List (Except String α) :=
  match queue with
  | [] => (.ok standIn, [])
  | entry :: rest => (answer entry, rest)

def executor : Executor Script where
  query _ script :=
    let (result, rows) := pop script.rows []
    (result, { script with rows })
  scalar _ script :=
    let (result, scalars) := pop script.scalars .null
    (result, { script with scalars })
  execute _ script :=
    let (result, affected) := pop script.affected 1
    (result, { script with affected })

end Script

end EntitySql
