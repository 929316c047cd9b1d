import EntitySql.Value

/-! Expressions over the members of entities. One kind of tree serves as
condition, as scalar, as projection and as list of assignments; which of its
nodes are meaningful depends on where the tree stands. Entities are referred to
by name. -/

namespace EntitySql

structure MemberPath where
  entity : String
  member : String
  deriving DecidableEq, Repr

inductive Comparison where
  | equal
  | notEqual
  | greater
  | greaterOrEqual
  | less
  | lessOrEqual
  deriving DecidableEq, Repr

inductive Arithmetic where
  | add
  | subtract
  | multiply
  | divide
  deriving DecidableEq, Repr

inductive Connective where
  | and
  | or
  deriving DecidableEq, Repr

/-- Which part of a text a pattern is looked for in. -/
inductive Anchor where
  | anywhere
  | start
  | finish
  deriving DecidableEq, Repr

inductive Aggregate where
  | count
  | sum
  | min
  | max
  | avg
  deriving DecidableEq, Repr

inductive SortDirection where
  | ascending
  | descending
  deriving DecidableEq, Repr

inductive Expr where
  | member (reference : MemberPath)
  | constant (value : Value)
  | comparison (operator : Comparison) (left right : Expr)
  | arithmetic (operator : Arithmetic) (left right : Expr)
  | logical (operator : Connective) (left right : Expr)
  | negation (operand : Expr)
  | nullTest (operand : Expr) (negated : Bool)
  | inList (operand : Expr) (items : List Value) (negated : Bool)
  | like (operand : Expr) (pattern : String) (anchor : Anchor) (negated : Bool)
  | between (operand : Expr) (low high : Value)
  | aggregate (function : Aggregate) (operand : Expr)
  /-- An aggregate without an argument. -/
  | bareAggregate (function : Aggregate)
  /-- A new record of an entity, member by member. -/
  | record (entity : String) (bindings : List (String × Expr))
  /-- A body over one entity; the wrapper has no meaning of its own. -/
  | lambda (entity : String) (body : Expr)
  deriving Inhabited

structure SortKey where
  expression : Expr
  direction : SortDirection

namespace Expr

/-- The expression without the lambdas around it. -/
def body : Expr → Expr
  | .lambda _ inner => inner.body
  | other => other

/-- The member an expression reads when it reads nothing else. -/
def asMember? (expression : Expr) : Option MemberPath :=
  match expression.body with
  | .member reference => some reference
  | _ => none

/-! The kind of a node, by which errors name it. Comparisons and arithmetic are
both binary. -/

inductive Kind where
  | member
  | constant
  | binary
  | logical
  | negation
  | nullTest
  | inList
  | like
  | between
  | aggregate
  | record
  | lambda
  deriving DecidableEq, Repr

def Kind.name : Kind → String
  | .member => "member-access"
  | .constant => "constant"
  | .binary => "binary"
  | .logical => "logical"
  | .negation => "not"
  | .nullTest => "null-test"
  | .inList => "in-list"
  | .like => "like"
  | .between => "between"
  | .aggregate => "aggregate"
  | .record => "member-init"
  | .lambda => "lambda"

def kind : Expr → Kind
  | .member _ => .member
  | .constant _ => .constant
  | .comparison .. => .binary
  | .arithmetic .. => .binary
  | .logical .. => .logical
  | .negation _ => .negation
  | .nullTest .. => .nullTest
  | .inList .. => .inList
  | .like .. => .like
  | .between .. => .between
  | .aggregate .. => .aggregate
  | .bareAggregate _ => .aggregate
  | .record .. => .record
  | .lambda .. => .lambda

/-! Parameters are named after the member they are compared with: the first
member found along operands and aggregate arguments, from the left. -/

def hint? : Expr → Option String
  | .member reference => some reference.member
  | .aggregate _ operand => operand.hint?
  | .comparison _ left right => left.hint? <|> right.hint?
  | .arithmetic _ left right => left.hint? <|> right.hint?
  | .lambda _ inner => inner.hint?
  | _ => none

/-! Equality of trees, with doubles compared as numbers. -/

mutual

def same : Expr → Expr → Bool
  | .member left, .member right => left = right
  | .constant left, .constant right => left.same right
  | .comparison op₁ left₁ right₁, .comparison op₂ left₂ right₂ =>
      op₁ = op₂ && same left₁ left₂ && same right₁ right₂
  | .arithmetic op₁ left₁ right₁, .arithmetic op₂ left₂ right₂ =>
      op₁ = op₂ && same left₁ left₂ && same right₁ right₂
  | .logical op₁ left₁ right₁, .logical op₂ left₂ right₂ =>
      op₁ = op₂ && same left₁ left₂ && same right₁ right₂
  | .negation left, .negation right => same left right
  | .nullTest left negated₁, .nullTest right negated₂ =>
      same left right && negated₁ = negated₂
  | .inList left items₁ negated₁, .inList right items₂ negated₂ =>
      same left right && sameValues items₁ items₂ && negated₁ = negated₂
  | .like left pattern₁ anchor₁ negated₁, .like right pattern₂ anchor₂ negated₂ =>
      same left right && pattern₁ = pattern₂ && anchor₁ = anchor₂ && negated₁ = negated₂
  | .between left low₁ high₁, .between right low₂ high₂ =>
      same left right && low₁.same low₂ && high₁.same high₂
  | .aggregate function₁ left, .aggregate function₂ right =>
      function₁ = function₂ && same left right
  | .bareAggregate function₁, .bareAggregate function₂ => function₁ = function₂
  | .record entity₁ bindings₁, .record entity₂ bindings₂ =>
      entity₁ = entity₂ && sameBindings bindings₁ bindings₂
  | .lambda entity₁ left, .lambda entity₂ right => entity₁ = entity₂ && same left right
  | _, _ => false

def sameBindings : List (String × Expr) → List (String × Expr) → Bool
  | [], [] => true
  | (name₁, left) :: rest₁, (name₂, right) :: rest₂ =>
      name₁ = name₂ && same left right && sameBindings rest₁ rest₂
  | _, _ => false

def sameValues : List Value → List Value → Bool
  | [], [] => true
  | left :: rest₁, right :: rest₂ => left.same right && sameValues rest₁ rest₂
  | _, _ => false

end

/-! Building expressions. -/

def column (entity member : String) : Expr :=
  .member ⟨entity, member⟩

def contains (operand : Expr) (pattern : String) : Expr :=
  .like operand pattern .anywhere false

def notContains (operand : Expr) (pattern : String) : Expr :=
  .like operand pattern .anywhere true

def startsWith (operand : Expr) (pattern : String) : Expr :=
  .like operand pattern .start false

def endsWith (operand : Expr) (pattern : String) : Expr :=
  .like operand pattern .finish false

end Expr

/-- The pattern bound for a text that is looked for: `%` stands for the rest. -/
def Anchor.wrap (anchor : Anchor) (pattern : String) : String :=
  match anchor with
  | .anywhere => "%" ++ pattern ++ "%"
  | .start => pattern ++ "%"
  | .finish => "%" ++ pattern

end EntitySql
