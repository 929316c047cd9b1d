import EntitySql.Log
import EntitySql.Statement

/-! Hooks around execution. Before a statement runs, each hook in turn may change
it; after it ran, with success or not, each hook in turn sees the statement that
ran. -/

namespace EntitySql

inductive CallKind where
  | query
  | scalar
  | execute
  deriving DecidableEq, Repr

def CallKind.name : CallKind → String
  | .query => "query"
  | .scalar => "scalar"
  | .execute => "execute"

/-- What happens around execution and can be told afterwards. -/
inductive Event where
  | logged (line : LogLine)
  /-- The executor got a statement. -/
  | called (kind : CallKind) (statement : Statement)
  /-- A hook took a note. -/
  | noted (text : String)
  deriving DecidableEq, Repr

namespace Event

def line? : Event → Option LogLine
  | .logged line => some line
  | _ => none

def call? : Event → Option (CallKind × Statement)
  | .called kind statement => some (kind, statement)
  | _ => none

def note? : Event → Option String
  | .noted text => some text
  | _ => none

end Event

structure Hook where
  executing : Statement → Statement
  executed : Statement → List Event

namespace Hook

/-- Reports each statement that ran. -/
def logger : Hook where
  executing statement := statement
  executed statement :=
    [.logged
      { level := .info
        message := statement.sql ++ " [" ++ toString statement.params.size ++ " params]" }]

end Hook

/-! A rewriting is a hook given by data: text to put around the statement, a
parameter to add, a statement to take its place, and a tag to note. -/

structure Rewriting where
  before : Option String := none
  after : Option String := none
  param : Option (String × Value) := none
  replacement : Option String := none
  tag : Option String := none

namespace Rewriting

def apply (rewriting : Rewriting) (statement : Statement) : Statement :=
  match rewriting.replacement with
  | some sql => { sql, params := {} }
  | none =>
      { sql := rewriting.before.getD "" ++ statement.sql ++ rewriting.after.getD ""
        params :=
          match rewriting.param with
          | some (base, value) => (statement.params.add base value).2
          | none => statement.params }

def hook (rewriting : Rewriting) : Hook where
  executing := rewriting.apply
  executed statement :=
    match rewriting.tag with
    | some tag => [.noted (tag ++ ":" ++ statement.sql)]
    | none => []

end Rewriting

/-! Hooks act in the order in which they were added. -/

abbrev Hooks := List Hook

namespace Hooks

def executing (hooks : Hooks) (statement : Statement) : Statement :=
  hooks.foldl (fun current hook => hook.executing current) statement

def executed (hooks : Hooks) (statement : Statement) : List Event :=
  hooks.flatMap (·.executed statement)

end Hooks

end EntitySql
