import EntitySql.Schema.Entity
import EntitySql.Sql.Draft

/-! Where a column stands and how it is written there. Columns are qualified by
the alias of their entity or not at all. Inside the condition of a join the
members of the joined entity are qualified by the alias of the join; where an
entity is joined with itself, that holds for the right operand of a comparison
only. -/

namespace EntitySql

structure JoinView where
  target : String
  aliasName : String
  selfJoin : Bool
  deriving DecidableEq, Repr

structure Scope where
  catalog : Catalog
  qualified : Bool
  join? : Option JoinView := none
  rightOperand : Bool := false

namespace Scope

/-- For statements that read. -/
def aliased (catalog : Catalog) : Scope :=
  { catalog, qualified := true }

/-- For statements that write. -/
def unqualified (catalog : Catalog) : Scope :=
  { catalog, qualified := false }

def ofJoin (catalog : Catalog) (join : JoinView) : Scope :=
  { catalog, qualified := true, join? := some join }

def inRightOperand (scope : Scope) : Scope :=
  { scope with rightOperand := true }

/-- A column under an explicit alias. -/
def columnUnder (scope : Scope) (aliasName : String) (entity : Entity) (property : String) :
    Except Error Fragment := do
  let column ← entity.column property
  if scope.qualified then
    return [.word aliasName, .symbol .dot, .identifier column]
  else
    return [.identifier column]

def column (scope : Scope) (entity : Entity) (property : String) : Except Error Fragment :=
  scope.columnUnder entity.aliasName entity property

/-- The alias that a join lends to the members of an entity here. -/
def joinedAlias? (scope : Scope) (entity : String) : Option String :=
  match scope.join? with
  | some join =>
      if join.target = entity && (!join.selfJoin || scope.rightOperand) then
        some join.aliasName
      else
        none
  | none => none

def member (scope : Scope) (reference : MemberPath) : Except Error Fragment := do
  let entity ← scope.catalog.entity reference.entity
  match scope.joinedAlias? reference.entity with
  | some aliasName => scope.columnUnder aliasName entity reference.member
  | none => scope.column entity reference.member

end Scope

end EntitySql
