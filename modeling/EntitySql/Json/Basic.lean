import EntitySql.Decimal.Double

/-! JSON values: what records are read from, what rows consist of and what
single results come back as. Whole numbers stay exact and are told apart from
doubles, also where a double happens to be whole. -/

namespace EntitySql

inductive Json where
  | null
  | boolean (value : Bool)
  | integer (value : Int)
  | double (value : Double)
  | text (value : String)
  | array (items : List Json)
  | object (members : List (String × Json))
  deriving Inhabited

/-! The members of an object are kept in ascending order of their names, each
name once. Names are ordered by code point, which is also the order of their
UTF-8 bytes. -/

abbrev Members := List (String × Json)

namespace Members

/-- The members with one of them set: replaced where the name is there, put at
its place in the order where it is not. -/
def insert : Members → String → Json → Members
  | [], name, value => [(name, value)]
  | (other, held) :: rest, name, value =>
      if name = other then
        (name, value) :: rest
      else if name < other then
        (name, value) :: (other, held) :: rest
      else
        (other, held) :: insert rest name value

/-- Of equal names the last one counts. -/
def ofList (members : List (String × Json)) : Members :=
  members.foldl (fun built member => built.insert member.1 member.2) []

def get? (members : Members) (name : String) : Option Json :=
  (members.find? (·.1 == name)).map (·.2)

def values (members : Members) : List Json :=
  members.map (·.2)

end Members

namespace Json

def isNull : Json → Bool
  | .null => true
  | _ => false

inductive Kind where
  | null
  | boolean
  | number
  | text
  | array
  | object
  deriving DecidableEq, Repr

def kind : Json → Kind
  | .null => .null
  | .boolean _ => .boolean
  | .integer _ => .number
  | .double _ => .number
  | .text _ => .text
  | .array _ => .array
  | .object _ => .object

end Json

end EntitySql
