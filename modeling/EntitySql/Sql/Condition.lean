import EntitySql.Sql.Scope

/-! Conditions and scalars. Every constant is bound as a parameter named after
the member it is compared with; a comparison with the null constant becomes a
null test, and a list without items becomes a condition that needs no column. -/

namespace EntitySql

def Comparison.symbol : Comparison → Symbol
  | .equal => .equal
  | .notEqual => .notEqual
  | .greater => .greater
  | .greaterOrEqual => .greaterOrEqual
  | .less => .less
  | .lessOrEqual => .lessOrEqual

def Arithmetic.symbol : Arithmetic → Symbol
  | .add => .plus
  | .subtract => .minus
  | .multiply => .times
  | .divide => .slash

def Connective.keyword : Connective → String
  | .and => "AND"
  | .or => "OR"

def Aggregate.keyword : Aggregate → String
  | .count => "COUNT"
  | .sum => "SUM"
  | .min => "MIN"
  | .max => "MAX"
  | .avg => "AVG"

namespace Fragment

def always : Fragment := [.word "1", .symbol .equal, .word "1"]

def never : Fragment := [.word "1", .symbol .equal, .word "0"]

def nullTest (operand : Fragment) (negated : Bool) : Fragment :=
  operand ++ .space :: words (if negated then ["IS", "NOT", "NULL"] else ["IS", "NULL"])

/-- An operator word, after `NOT` where it is negated. -/
def operatorWord (word : String) (negated : Bool) : Fragment :=
  words (if negated then ["NOT", word] else [word])

def connected (left : Fragment) (connective : Connective) (right : Fragment) : Fragment :=
  left ++ [.space, .word connective.keyword, .space] ++ right

end Fragment

namespace Expr

/-- The name of parameters that no member names. -/
def unnamed : String := "param"

def isNullConstant (expression : Expr) : Bool :=
  match expression.body with
  | .constant .null => true
  | _ => false

/-- Whether the expression is a conjunction or disjunction of the other sort. -/
def mixesWith (expression : Expr) (connective : Connective) : Bool :=
  match expression.body with
  | .logical other .. => other ≠ connective
  | _ => false

/-- A scalar. `hint` names the parameters that it binds. -/
def scalar (scope : Scope) (hint : String) : Expr → Build Fragment
  | .member reference => Build.lift (scope.member reference)
  | .constant value => Build.input hint value
  | .arithmetic operator left right => do
      let hint := (left.hint? <|> right.hint?).getD hint
      let first ← scalar scope hint left
      let second ← scalar scope hint right
      return Fragment.parenthesized (Fragment.joined first operator.symbol second)
  | .aggregate function operand => do
      let argument ← scalar scope (operand.hint?.getD hint) operand
      return Fragment.call function.keyword argument
  | .bareAggregate .count => return Fragment.call "COUNT" [.word "1"]
  | .bareAggregate _ => Build.fail (.missingArgument .aggregateArgument)
  | .lambda _ inner => scalar scope hint inner
  | other => Build.fail (.unsupported (.node other.kind) .value)

/-- A comparison with the null constant. -/
def nullComparison (scope : Scope) (operator : Comparison) (operand : Expr) :
    Build Fragment := do
  let tested ← scalar scope unnamed operand
  match operator with
  | .equal => return Fragment.nullTest tested false
  | .notEqual => return Fragment.nullTest tested true
  | _ => Build.fail (.unsupported .nullConstant .orderingComparison)

def compare (scope : Scope) (operator : Comparison) (left right : Expr) :
    Build Fragment := do
  if right.isNullConstant then
    nullComparison scope operator left
  else if left.isNullConstant then
    nullComparison scope operator right
  else
    let hint := (left.hint? <|> right.hint?).getD unnamed
    let first ← scalar scope hint left
    let second ← scalar scope.inRightOperand hint right
    return Fragment.joined first operator.symbol second

def predicate (scope : Scope) : Expr → Build Fragment
  | .member reference => do
      let column ← Build.lift (scope.member reference)
      let truth ← Build.input reference.member (.boolean true)
      return Fragment.joined column .equal truth
  | .constant (.boolean true) => return Fragment.always
  | .constant (.boolean false) => return Fragment.never
  | .comparison operator left right => compare scope operator left right
  | .logical connective left right => do
      let first ← predicate scope left
      let second ← predicate scope right
      let bracket (operand : Expr) (fragment : Fragment) : Fragment :=
        if operand.mixesWith connective then Fragment.parenthesized fragment else fragment
      return Fragment.connected (bracket left first) connective (bracket right second)
  | .negation operand => do
      let inner ← predicate scope operand
      return .word "NOT" :: .space :: Fragment.parenthesized inner
  | .nullTest operand negated => do
      let tested ← scalar scope unnamed operand
      return Fragment.nullTest tested negated
  | .inList operand items negated =>
      if items.isEmpty then
        return if negated then Fragment.always else Fragment.never
      else do
        let hint := operand.hint?.getD unnamed
        let subject ← scalar scope hint operand
        let members ← Build.inputs hint items
        return subject ++ .space :: Fragment.operatorWord "IN" negated ++
          .space :: Fragment.parenthesized (Fragment.commaSeparated members)
  | .like operand pattern anchor negated => do
      let hint := operand.hint?.getD unnamed
      let subject ← scalar scope hint operand
      let bound ← Build.input hint (.text (anchor.wrap pattern))
      return subject ++ .space :: Fragment.operatorWord "LIKE" negated ++ .space :: bound
  | .between operand low high => do
      let hint := operand.hint?.getD unnamed
      let subject ← scalar scope hint operand
      let least ← Build.input hint low
      let greatest ← Build.input hint high
      return Fragment.connected
        (subject ++ .space :: .word "BETWEEN" :: .space :: least) .and greatest
  | .lambda _ inner => predicate scope inner
  | other => Build.fail (.unsupported (.node other.kind) .predicate)

/-- One of several conditions that all have to hold. -/
def conjunct (scope : Scope) (expression : Expr) : Build Fragment := do
  let condition ← predicate scope expression
  return if expression.mixesWith .and then Fragment.parenthesized condition else condition

end Expr

end EntitySql
