import EntitySql.Proofs.Column
import EntitySql.Sql.Condition

/-! What conditions say. A formula is a condition taken apart; its truth has three
values, because a comparison with a null is neither true nor false. How values of
the different types compare is up to the engine, and what the columns and the
aggregates of a row are is up to the valuation. -/

namespace EntitySql

inductive Truth where
  | no
  | unknown
  | yes
  deriving DecidableEq, Repr

namespace Truth

def ofBool : Bool → Truth
  | false => .no
  | true => .yes

def not : Truth → Truth
  | .no => .yes
  | .unknown => .unknown
  | .yes => .no

def and : Truth → Truth → Truth
  | .no, _ => .no
  | _, .no => .no
  | .yes, .yes => .yes
  | _, _ => .unknown

def or : Truth → Truth → Truth
  | .yes, _ => .yes
  | _, .yes => .yes
  | .no, .no => .no
  | _, _ => .unknown

/-- The same truth, or the other one where the test is negated. -/
def negatedIf (negated : Bool) (truth : Truth) : Truth :=
  if negated then truth.not else truth

theorem and_assoc (first second third : Truth) :
    (first.and second).and third = first.and (second.and third) := by
  cases first <;> cases second <;> cases third <;> rfl

theorem or_assoc (first second third : Truth) :
    (first.or second).or third = first.or (second.or third) := by
  cases first <;> cases second <;> cases third <;> rfl

@[simp] theorem yes_and (truth : Truth) : Truth.yes.and truth = truth := by
  cases truth <;> rfl

@[simp] theorem and_yes (truth : Truth) : truth.and .yes = truth := by
  cases truth <;> rfl

/-- Whether several conditions hold together. -/
def all (truths : List Truth) : Truth :=
  truths.foldr and .yes

/-- Whether one of several conditions holds. -/
def any (truths : List Truth) : Truth :=
  truths.foldr or .no

end Truth

namespace Connective

def combine : Connective → Truth → Truth → Truth
  | .and => Truth.and
  | .or => Truth.or

theorem combine_assoc (connective : Connective) (first second third : Truth) :
    connective.combine (connective.combine first second) third =
      connective.combine first (connective.combine second third) := by
  cases connective with
  | and => exact Truth.and_assoc first second third
  | or => exact Truth.or_assoc first second third

end Connective

/-! An engine compares, calculates and matches values that are not null. Whole
numbers it tells apart as everyone does. -/

structure Engine where
  compare : Comparison → Value → Value → Bool
  calculate : Arithmetic → Value → Value → Value
  fits : Value → Value → Bool
  compare_int : ∀ left right : Int64,
    compare .equal (.int left) (.int right) = decide (left = right)

namespace Engine

def compared (engine : Engine) (operator : Comparison) (left right : Value) : Truth :=
  if left.isNull || right.isNull then .unknown
  else .ofBool (engine.compare operator left right)

def calculated (engine : Engine) (operator : Arithmetic) (left right : Value) : Value :=
  if left.isNull || right.isNull then .null else engine.calculate operator left right

def matched (engine : Engine) (subject pattern : Value) : Truth :=
  if subject.isNull || pattern.isNull then .unknown
  else .ofBool (engine.fits subject pattern)

/-- Whether the value is among the items, which it is if it equals one of them. -/
def among (engine : Engine) (value : Value) (items : List Value) : Truth :=
  .any (items.map (engine.compared .equal value))

def within (engine : Engine) (value low high : Value) : Truth :=
  (engine.compared .greaterOrEqual value low).and (engine.compared .lessOrEqual value high)

end Engine

inductive Formula where
  | column (reference : ColumnReference)
  | constant (value : Value)
  | arithmetic (operator : Arithmetic) (left right : Formula)
  | aggregate (function : Aggregate) (argument : Formula)
  | comparison (operator : Comparison) (left right : Formula)
  | nullTest (operand : Formula) (negated : Bool)
  | inList (operand : Formula) (items : List Value) (negated : Bool)
  | like (operand pattern : Formula) (negated : Bool)
  | between (operand low high : Formula) (negated : Bool)
  | negation (operand : Formula)
  | logical (operator : Connective) (left right : Formula)
  deriving DecidableEq, Repr

/-- What the columns and the aggregates of a row, or of a group of rows, are. -/
structure Valuation where
  column : ColumnReference → Value
  aggregate : Aggregate → Formula → Value

namespace Formula

variable (engine : Engine) (valuation : Valuation)

/-- The value of a scalar. -/
def value? : Formula → Option Value
  | .column reference => some (valuation.column reference)
  | .constant value => some value
  | .arithmetic operator left right => do
      let first ← left.value?
      let second ← right.value?
      return engine.calculated operator first second
  | .aggregate function argument => some (valuation.aggregate function argument)
  | _ => none

/-- The truth of a condition. -/
def truth? : Formula → Option Truth
  | .comparison operator left right => do
      let first ← left.value? engine valuation
      let second ← right.value? engine valuation
      return engine.compared operator first second
  | .nullTest operand negated => do
      let tested ← operand.value? engine valuation
      return (Truth.ofBool tested.isNull).negatedIf negated
  | .inList operand items negated => do
      let subject ← operand.value? engine valuation
      return (engine.among subject items).negatedIf negated
  | .like operand pattern negated => do
      let subject ← operand.value? engine valuation
      let looked ← pattern.value? engine valuation
      return (engine.matched subject looked).negatedIf negated
  | .between operand low high negated => do
      let subject ← operand.value? engine valuation
      let least ← low.value? engine valuation
      let greatest ← high.value? engine valuation
      return (engine.within subject least greatest).negatedIf negated
  | .negation operand => operand.truth?.map Truth.not
  | .logical connective left right => do
      let first ← left.truth?
      let second ← right.truth?
      return connective.combine first second
  | _ => none

end Formula

/-! What expressions mean, told without any text. Lambdas mean their bodies, a
comparison with the null constant is a null test, a member on its own has to be
true, and a list without items has no members. -/

namespace Expr

/-- The scalar that an expression stands for. -/
def term? (scope : Scope) : Expr → Option Formula
  | .member path => (scope.reference? path).map .column
  | .constant value => some (.constant value)
  | .arithmetic operator left right => do
      let first ← left.term? scope
      let second ← right.term? scope
      return .arithmetic operator first second
  | .aggregate function operand => (operand.term? scope).map (.aggregate function)
  | .bareAggregate .count => some (.aggregate .count (.constant (.int 1)))
  | .lambda _ inner => inner.term? scope
  | _ => none

variable (scope : Scope) (engine : Engine) (valuation : Valuation)

def value? (expression : Expr) : Option Value := do
  let term ← expression.term? scope
  term.value? engine valuation

/-- What a comparison with the null constant asks of the other operand. -/
def nullTruth? (operator : Comparison) (operand : Expr) : Option Truth := do
  let tested ← operand.value? scope engine valuation
  match operator with
  | .equal => return .ofBool tested.isNull
  | .notEqual => return (Truth.ofBool tested.isNull).not
  | _ => none

def comparisonTruth? (operator : Comparison) (left right : Expr) : Option Truth :=
  if right.isNullConstant then
    nullTruth? scope engine valuation operator left
  else if left.isNullConstant then
    nullTruth? scope engine valuation operator right
  else do
    let first ← left.value? scope engine valuation
    let second ← right.value? scope.inRightOperand engine valuation
    return engine.compared operator first second

def truth? : Expr → Option Truth
  | .member path => do
      let reference ← scope.reference? path
      return engine.compared .equal (valuation.column reference) (.boolean true)
  | .constant (.boolean value) => some (.ofBool value)
  | .comparison operator left right =>
      comparisonTruth? scope engine valuation operator left right
  | .logical connective left right => do
      let first ← left.truth?
      let second ← right.truth?
      return connective.combine first second
  | .negation operand => operand.truth?.map Truth.not
  | .nullTest operand negated => do
      let tested ← operand.value? scope engine valuation
      return (Truth.ofBool tested.isNull).negatedIf negated
  | .inList _ [] negated => some (Truth.no.negatedIf negated)
  | .inList operand (item :: items) negated => do
      let subject ← operand.value? scope engine valuation
      return (engine.among subject (item :: items)).negatedIf negated
  | .like operand pattern anchor negated => do
      let subject ← operand.value? scope engine valuation
      return (engine.matched subject (.text (anchor.wrap pattern))).negatedIf negated
  | .between operand low high => do
      let subject ← operand.value? scope engine valuation
      return engine.within subject low high
  | .lambda _ inner => inner.truth?
  | _ => none

/-- The truth of several conditions taken together. -/
def jointTruth? (expressions : List Expr) : Option Truth :=
  (expressions.mapM (truth? scope engine valuation)).map Truth.all

theorem jointTruth?_cons {expression : Expr} {expressions : List Expr} {first others : Truth}
    (head : expression.truth? scope engine valuation = some first)
    (tail : jointTruth? scope engine valuation expressions = some others) :
    jointTruth? scope engine valuation (expression :: expressions) =
      some (first.and others) := by
  rcases Option.map_eq_some_iff.mp tail with ⟨truths, read, rfl⟩
  simp [jointTruth?, List.mapM_cons, head, read, Truth.all]

end Expr

end EntitySql
