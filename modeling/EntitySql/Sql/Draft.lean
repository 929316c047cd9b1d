import EntitySql.Error
import EntitySql.Log
import EntitySql.Params
import EntitySql.Sql.Token

/-! A statement in the making. What has been bound and logged so far outlives a
failure, so that both can be told afterwards. -/

namespace EntitySql

structure Draft where
  params : Params := {}
  log : List LogLine := []
  deriving DecidableEq, Repr

abbrev Build := ExceptT Error (StateM Draft)

namespace Build

def fail (error : Error) : Build α :=
  throw error

def lift (result : Except Error α) : Build α :=
  match result with
  | .ok value => pure value
  | .error error => throw error

/-- Binds a value and gives the placeholder that stands for it. -/
def input (base : String) (value : Value) : Build Fragment := do
  let draft ← get
  let (name, params) := draft.params.add base value
  set { draft with params }
  return [.placeholder name]

/-- Declares an output and gives the placeholder that stands for it. -/
def output (base : String) : Build Fragment := do
  let draft ← get
  let (name, params) := draft.params.addOutput base
  set { draft with params }
  return [.placeholder name]

def inputs (base : String) : List Value → Build (List Fragment)
  | [] => return []
  | value :: rest => do
      let first ← input base value
      return first :: (← inputs base rest)

def warn (message : String) : Build Unit :=
  modify fun draft => { draft with log := draft.log ++ [⟨.warn, message⟩] }

/-- The outcome and the draft it leaves, starting from a draft. -/
def runFrom (build : Build α) (draft : Draft) : Except Error α × Draft :=
  (ExceptT.run build).run draft

end Build

end EntitySql
