import EntitySql.Proofs.Build
import EntitySql.Proofs.Steps

/-! Conditions written in a context that changes on the way. The context knows the scope of
columns next to the draft; before the right operand of a comparison it turns to the right, and
afterwards it turns back, whether or not the operand could be written. What is written, or why
nothing is, and what is bound is the same as with the scope handed down from operand to operand;
and the scope is left as it was. -/

namespace EntitySql

structure Context where
  scope : Scope
  draft : Draft

abbrev Rendering := ExceptT Error (StateM Context)

namespace Rendering

/-- A build in the draft of the context. -/
def built (build : Build α) : Rendering α := do
  let context ← get
  let (outcome, draft) := build.runFrom context.draft
  set { context with draft }
  match outcome with
  | .ok value => return value
  | .error error => throw error

/-- The outcome of some steps, of which a failure is one. -/
def attempt (steps : Rendering α) : Rendering (Except Error α) :=
  ExceptT.lift steps.run

def turn (right : Bool) : Rendering Unit :=
  modify fun context => { context with scope := { context.scope with rightOperand := right } }

/-- Steps for the right operand of a comparison. -/
def inRightOperand (steps : Rendering α) : Rendering α := do
  let context ← get
  turn true
  let outcome ← attempt steps
  turn context.scope.rightOperand
  match outcome with
  | .ok value => return value
  | .error error => throw error

def member (path : MemberPath) : Rendering Fragment := do
  let context ← get
  built (Build.lift (context.scope.member path))

def scalar (hint : String) : Expr → Rendering Fragment
  | .member path => member path
  | .constant value => built (Build.input hint value)
  | .arithmetic operator left right => do
      let hint := (left.hint? <|> right.hint?).getD hint
      let first ← scalar hint left
      let second ← scalar hint right
      return Fragment.parenthesized (Fragment.joined first operator.symbol second)
  | .aggregate function operand => do
      let argument ← scalar (operand.hint?.getD hint) operand
      return Fragment.call function.keyword argument
  | .bareAggregate .count => return Fragment.call "COUNT" [.word "1"]
  | .bareAggregate _ => throw (.missingArgument .aggregateArgument)
  | .lambda _ inner => scalar hint inner
  | other => throw (.unsupported (.node other.kind) .value)

def nullComparison (operator : Comparison) (operand : Expr) : Rendering Fragment := do
  let tested ← scalar Expr.unnamed operand
  match operator with
  | .equal => return Fragment.nullTest tested false
  | .notEqual => return Fragment.nullTest tested true
  | _ => throw (.unsupported .nullConstant .orderingComparison)

def compare (operator : Comparison) (left right : Expr) : Rendering Fragment := do
  if right.isNullConstant then
    nullComparison operator left
  else if left.isNullConstant then
    nullComparison operator right
  else
    let hint := (left.hint? <|> right.hint?).getD Expr.unnamed
    let first ← scalar hint left
    let second ← inRightOperand (scalar hint right)
    return Fragment.joined first operator.symbol second

def predicate : Expr → Rendering Fragment
  | .member path => do
      let column ← member path
      let truth ← built (Build.input path.member (.boolean true))
      return Fragment.joined column .equal truth
  | .constant (.boolean true) => return Fragment.always
  | .constant (.boolean false) => return Fragment.never
  | .comparison operator left right => compare operator left right
  | .logical connective left right => do
      let first ← predicate left
      let second ← predicate right
      let bracket (operand : Expr) (fragment : Fragment) : Fragment :=
        if operand.mixesWith connective then Fragment.parenthesized fragment else fragment
      return Fragment.connected (bracket left first) connective (bracket right second)
  | .negation operand => do
      let inner ← predicate operand
      return .word "NOT" :: .space :: Fragment.parenthesized inner
  | .nullTest operand negated => do
      let tested ← scalar Expr.unnamed operand
      return Fragment.nullTest tested negated
  | .inList operand items negated =>
      if items.isEmpty then
        return if negated then Fragment.always else Fragment.never
      else do
        let hint := operand.hint?.getD Expr.unnamed
        let subject ← scalar hint operand
        let members ← built (Build.inputs hint items)
        return subject ++ .space :: Fragment.operatorWord "IN" negated ++
          .space :: Fragment.parenthesized (Fragment.commaSeparated members)
  | .like operand pattern anchor negated => do
      let hint := operand.hint?.getD Expr.unnamed
      let subject ← scalar hint operand
      let bound ← built (Build.input hint (.text (anchor.wrap pattern)))
      return subject ++ .space :: Fragment.operatorWord "LIKE" negated ++ .space :: bound
  | .between operand low high => do
      let hint := operand.hint?.getD Expr.unnamed
      let subject ← scalar hint operand
      let least ← built (Build.input hint low)
      let greatest ← built (Build.input hint high)
      return Fragment.connected
        (subject ++ .space :: .word "BETWEEN" :: .space :: least) .and greatest
  | .lambda _ inner => predicate inner
  | other => throw (.unsupported (.node other.kind) .predicate)

/-! Steps that do in a context what a build does in its scope. -/

/-- The steps give what the build gives in the scope of the context, and leave the context as it
was but for the draft, which is the one that the build leaves. -/
def Follows (steps : Rendering α) (build : Scope → Build α) : Prop :=
  ∀ context : Context, runOn steps context =
    (((build context.scope).runFrom context.draft).1,
      { context with draft := ((build context.scope).runFrom context.draft).2 })

namespace Follows

theorem pure (value : α) : Follows (pure value) (fun _ => pure value) :=
  fun _ => rfl

theorem fail (error : Error) : Follows (throw error : Rendering α) (fun _ => Build.fail error) :=
  fun _ => rfl

theorem built (build : Build α) : Follows (built build) (fun _ => build) := by
  intro context
  simp only [Rendering.built, runOn_bind, runOn_get, runOn_set]
  rcases build.runFrom context.draft with ⟨_ | _, draft⟩ <;> rfl

theorem bind {steps : Rendering α} {build : Scope → Build α} {next : α → Rendering β}
    {rest : Scope → α → Build β} (head : Follows steps build)
    (tail : ∀ value, Follows (next value) (fun scope => rest scope value)) :
    Follows (steps >>= next) (fun scope => build scope >>= rest scope) := by
  intro context
  rw [runOn_bind, head, Build.runFrom_bind]
  rcases (build context.scope).runFrom context.draft with ⟨_ | value, later⟩
  · rfl
  · exact tail value { context with draft := later }

theorem member (path : MemberPath) :
    Follows (member path) (fun scope => Build.lift (scope.member path)) := by
  intro context
  rw [Rendering.member, runOn_bind, runOn_get]
  exact built (Build.lift (context.scope.member path)) context

theorem runOn_attempt (steps : Rendering α) (context : Context) :
    runOn (attempt steps) context = (.ok (runOn steps context).1, (runOn steps context).2) :=
  rfl

/-- Turned back, the context is in the scope that it was turned from. -/
theorem inRightOperand {steps : Rendering α} {build : Scope → Build α}
    (inner : Follows steps build) :
    Follows (inRightOperand steps) (fun scope => build scope.inRightOperand) := by
  intro context
  have up : ∀ context, runOn (turn true) context =
      (.ok (), { context with scope := context.scope.inRightOperand }) :=
    fun _ => rfl
  have back : ∀ other, runOn (turn context.scope.rightOperand) other =
      (.ok (), { other with scope :=
        { other.scope with rightOperand := context.scope.rightOperand } }) :=
    fun _ => rfl
  simp only [Rendering.inRightOperand, runOn_bind, runOn_get, up, runOn_attempt, inner _, back]
  rcases (build context.scope.inRightOperand).runFrom context.draft with ⟨_ | _, later⟩ <;> rfl

end Follows

/-! Conditions. -/

theorem follows_scalar : ∀ (expression : Expr) (hint : String),
    Follows (scalar hint expression) (fun scope => expression.scalar scope hint)
  | .member path, hint => .member path
  | .constant value, hint => .built (Build.input hint value)
  | .arithmetic operator left right, hint =>
      (follows_scalar left _).bind fun _ => (follows_scalar right _).bind fun _ => .pure _
  | .aggregate function operand, hint => (follows_scalar operand _).bind fun _ => .pure _
  | .bareAggregate .count, hint => .pure _
  | .bareAggregate .sum, hint | .bareAggregate .min, hint | .bareAggregate .max, hint
  | .bareAggregate .avg, hint => .fail _
  | .lambda _ inner, hint => by
      simp only [scalar, Expr.scalar]
      exact follows_scalar inner hint
  | .comparison .., hint | .logical .., hint | .negation _, hint | .nullTest .., hint
  | .inList .., hint | .like .., hint | .between .., hint | .record .., hint => .fail _

theorem follows_nullComparison (operator : Comparison) (operand : Expr) :
    Follows (nullComparison operator operand)
      (fun scope => operand.nullComparison scope operator) := by
  refine (follows_scalar operand _).bind fun tested => ?_
  cases operator with
  | equal | notEqual => exact .pure _
  | greater | greaterOrEqual | less | lessOrEqual => exact .fail _

theorem follows_compare (operator : Comparison) (left right : Expr) :
    Follows (compare operator left right)
      (fun scope => Expr.compare scope operator left right) := by
  unfold compare Expr.compare
  cases right.isNullConstant with
  | true => exact follows_nullComparison operator left
  | false =>
      cases left.isNullConstant with
      | true => exact follows_nullComparison operator right
      | false =>
          exact (follows_scalar left _).bind fun _ =>
            (follows_scalar right _).inRightOperand.bind fun _ => .pure _

theorem follows_predicate : ∀ expression : Expr,
    Follows (predicate expression) (fun scope => expression.predicate scope)
  | .member path => (Follows.member path).bind fun _ => (Follows.built _).bind fun _ => .pure _
  | .constant (.boolean true) | .constant (.boolean false) => .pure _
  | .comparison operator left right => by
      simp only [predicate, Expr.predicate]
      exact follows_compare operator left right
  | .logical connective left right =>
      (follows_predicate left).bind fun _ => (follows_predicate right).bind fun _ => .pure _
  | .negation operand => (follows_predicate operand).bind fun _ => .pure _
  | .nullTest operand negated => (follows_scalar operand _).bind fun _ => .pure _
  | .inList operand [] negated => .pure _
  | .inList operand (item :: items) negated =>
      (follows_scalar operand _).bind fun _ => (Follows.built _).bind fun _ => .pure _
  | .like operand pattern anchor negated =>
      (follows_scalar operand _).bind fun _ => (Follows.built _).bind fun _ => .pure _
  | .between operand low high =>
      (follows_scalar operand _).bind fun _ => (Follows.built _).bind fun _ =>
        (Follows.built _).bind fun _ => .pure _
  | .lambda _ inner => by
      simp only [predicate, Expr.predicate]
      exact follows_predicate inner
  | .constant .null | .constant (.int _) | .constant (.uint _) | .constant (.double _)
  | .constant (.text _) | .constant (.uuid _) | .constant (.timestamp _)
  | .arithmetic .. | .aggregate .. | .bareAggregate _ | .record .. => .fail _

end Rendering

end EntitySql
