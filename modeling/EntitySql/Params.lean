import EntitySql.Text.FreshName
import EntitySql.Value

/-! The parameters of one statement, in the order they were bound. Names are
unique up to the case of ASCII letters and carry no placeholder mark. -/

namespace EntitySql

inductive Direction where
  | input
  | output
  deriving DecidableEq, Repr

structure Parameter where
  name : String
  value : Value
  direction : Direction
  deriving DecidableEq, Repr

structure Params where
  entries : List Parameter := []
  deriving DecidableEq, Repr, Inhabited

namespace Params

def empty : Params := {}

def names (params : Params) : List String :=
  params.entries.map (·.name)

def size (params : Params) : Nat :=
  params.entries.length

def isEmpty (params : Params) : Bool :=
  params.entries.isEmpty

def find? (params : Params) (name : String) : Option Parameter :=
  params.entries.find? (sameIgnoringCase ·.name name)

def contains (params : Params) (name : String) : Bool :=
  isTaken params.names name

def get? (params : Params) (name : String) : Option Value :=
  (params.find? name).map (·.value)

/-! A parameter is bound under the wanted name or a numbered variant of it; an
empty name stands for `param`. -/

def nameFor (params : Params) (base : String) : String :=
  freshName params.names (if base.isEmpty then "param" else base)

def push (params : Params) (parameter : Parameter) : Params :=
  ⟨params.entries ++ [parameter]⟩

/-- Binds a value and tells the name it is bound under. -/
def add (params : Params) (base : String) (value : Value) : String × Params :=
  let name := params.nameFor base
  (name, params.push ⟨name, value, .input⟩)

/-- Declares a parameter that the database fills. -/
def addOutput (params : Params) (base : String) : String × Params :=
  let name := params.nameFor base
  (name, params.push ⟨name, .null, .output⟩)

end Params

end EntitySql
