import Mathlib.Data.List.Forall2
import Mathlib.Tactic.SplitIfs
import EntitySql.Proofs.Build

/-! How a scalar or a condition was built. A finished run went through one step for each node
of its expression. What is said of the text of conditions is said by induction on these
steps, so that only this module looks inside the builder of conditions. -/

namespace EntitySql

namespace Expr

/-- A scalar that was built, from the draft before it to the one after it. -/
inductive ScalarRun (scope : Scope) : String → Expr → Draft → Fragment → Draft → Prop
  | member (path : MemberPath) (found : scope.member path = .ok fragment) :
      ScalarRun scope hint (.member path) draft fragment draft
  | constant (value : Value)
      (bound : (Build.input hint value).runFrom draft = (.ok fragment, later)) :
      ScalarRun scope hint (.constant value) draft fragment later
  | arithmetic (operator : Arithmetic)
      (head : ScalarRun scope ((left.hint? <|> right.hint?).getD hint) left draft first middle)
      (tail : ScalarRun scope ((left.hint? <|> right.hint?).getD hint) right middle second later) :
      ScalarRun scope hint (.arithmetic operator left right) draft
        (Fragment.parenthesized (Fragment.joined first operator.symbol second)) later
  | aggregate (function : Aggregate)
      (inner : ScalarRun scope (operand.hint?.getD hint) operand draft argument later) :
      ScalarRun scope hint (.aggregate function operand) draft
        (Fragment.call function.keyword argument) later
  | count :
      ScalarRun scope hint (.bareAggregate .count) draft (Fragment.call "COUNT" [.word "1"]) draft
  | lambda (inner : ScalarRun scope hint operand draft fragment later) :
      ScalarRun scope hint (.lambda entity operand) draft fragment later

/-- A comparison that was built: a null test of one side, or both sides with the operator
between them. -/
inductive CompareRun (scope : Scope) (operator : Comparison) (left right : Expr) :
    Draft → Fragment → Draft → Prop
  | nullOnRight (null : right.isNullConstant = true)
      (negation : operator = if negated then .notEqual else .equal)
      (inner : ScalarRun scope unnamed left draft tested later) :
      CompareRun scope operator left right draft (Fragment.nullTest tested negated) later
  | nullOnLeft (other : ¬ right.isNullConstant = true) (null : left.isNullConstant = true)
      (negation : operator = if negated then .notEqual else .equal)
      (inner : ScalarRun scope unnamed right draft tested later) :
      CompareRun scope operator left right draft (Fragment.nullTest tested negated) later
  | sides (noRight : ¬ right.isNullConstant = true) (noLeft : ¬ left.isNullConstant = true)
      (head : ScalarRun scope ((left.hint? <|> right.hint?).getD unnamed) left draft first middle)
      (tail : ScalarRun scope.inRightOperand ((left.hint? <|> right.hint?).getD unnamed) right
        middle second later) :
      CompareRun scope operator left right draft (Fragment.joined first operator.symbol second)
        later

/-- A condition that was built, from the draft before it to the one after it. -/
inductive PredicateRun (scope : Scope) : Expr → Draft → Fragment → Draft → Prop
  | member (path : MemberPath) (found : scope.member path = .ok reached)
      (bound : (Build.input path.member (.boolean true)).runFrom draft = (.ok truth, later)) :
      PredicateRun scope (.member path) draft (Fragment.joined reached .equal truth) later
  | always : PredicateRun scope (.constant (.boolean true)) draft Fragment.always draft
  | never : PredicateRun scope (.constant (.boolean false)) draft Fragment.never draft
  | comparison (sides : CompareRun scope operator left right draft fragment later) :
      PredicateRun scope (.comparison operator left right) draft fragment later
  | logical (connective : Connective) (left right : Expr)
      (head : PredicateRun scope left draft first middle)
      (tail : PredicateRun scope right middle second later) :
      PredicateRun scope (.logical connective left right) draft
        (Fragment.connected
          (if left.mixesWith connective then Fragment.parenthesized first else first) connective
          (if right.mixesWith connective then Fragment.parenthesized second else second)) later
  | negation (operand : Expr) (inner : PredicateRun scope operand draft fragment later) :
      PredicateRun scope (.negation operand) draft
        (.word "NOT" :: .space :: Fragment.parenthesized fragment) later
  | nullTest (negated : Bool) (inner : ScalarRun scope unnamed operand draft tested later) :
      PredicateRun scope (.nullTest operand negated) draft (Fragment.nullTest tested negated) later
  | emptyList (negated : Bool) :
      PredicateRun scope (.inList operand [] negated) draft
        (if negated then Fragment.always else Fragment.never) draft
  | inList (item : Value) (items : List Value) (negated : Bool)
      (inner : ScalarRun scope (operand.hint?.getD unnamed) operand draft subject middle)
      (bound : (Build.inputs (operand.hint?.getD unnamed) (item :: items)).runFrom middle =
        (.ok members, later)) :
      PredicateRun scope (.inList operand (item :: items) negated) draft
        (subject ++ .space :: Fragment.operatorWord "IN" negated ++
          .space :: Fragment.parenthesized (Fragment.commaSeparated members)) later
  | like (pattern : String) (anchor : Anchor) (negated : Bool)
      (inner : ScalarRun scope (operand.hint?.getD unnamed) operand draft subject middle)
      (bound : (Build.input (operand.hint?.getD unnamed) (.text (anchor.wrap pattern))).runFrom
        middle = (.ok looked, later)) :
      PredicateRun scope (.like operand pattern anchor negated) draft
        (subject ++ .space :: Fragment.operatorWord "LIKE" negated ++ .space :: looked) later
  | between (low high : Value)
      (inner : ScalarRun scope (operand.hint?.getD unnamed) operand draft subject middle)
      (lower : (Build.input (operand.hint?.getD unnamed) low).runFrom middle = (.ok least, last))
      (upper : (Build.input (operand.hint?.getD unnamed) high).runFrom last =
        (.ok greatest, later)) :
      PredicateRun scope (.between operand low high) draft
        (Fragment.connected (subject ++ .space :: .word "BETWEEN" :: .space :: least) .and greatest)
        later
  | lambda (inner : PredicateRun scope operand draft fragment later) :
      PredicateRun scope (.lambda entity operand) draft fragment later

/-! Finished runs are those that went through these steps. -/

theorem scalarRun_of_scalar {scope : Scope} :
    ∀ {expression : Expr} {hint : String} {draft later : Draft} {fragment : Fragment},
      (expression.scalar scope hint).runFrom draft = (.ok fragment, later) →
      ScalarRun scope hint expression draft fragment later
  | .member path, hint, draft, later, fragment, run => by
      rw [scalar, Build.runFrom_lift_eq_ok] at run
      rcases run with ⟨found, rfl⟩
      exact .member path found
  | .constant value, hint, draft, later, fragment, run => .constant value run
  | .arithmetic operator left right, hint, draft, later, fragment, run => by
      simp only [scalar, Build.runFrom_bind_eq_ok, Build.runFrom_pure_eq_ok] at run
      rcases run with ⟨first, middle, head, second, last, tail, rfl, rfl⟩
      exact .arithmetic operator (scalarRun_of_scalar head) (scalarRun_of_scalar tail)
  | .aggregate function operand, hint, draft, later, fragment, run => by
      simp only [scalar, Build.runFrom_bind_eq_ok, Build.runFrom_pure_eq_ok] at run
      rcases run with ⟨argument, middle, inner, rfl, rfl⟩
      exact .aggregate function (scalarRun_of_scalar inner)
  | .bareAggregate .count, hint, draft, later, fragment, run => by
      rw [scalar, Build.runFrom_pure_eq_ok] at run
      rcases run with ⟨rfl, rfl⟩
      exact .count
  | .lambda entity inner, hint, draft, later, fragment, run => by
      rw [scalar] at run
      exact .lambda (scalarRun_of_scalar run)
  | .bareAggregate .sum, _, _, _, _, run | .bareAggregate .min, _, _, _, _, run
  | .bareAggregate .max, _, _, _, _, run | .bareAggregate .avg, _, _, _, _, run
  | .comparison .., _, _, _, _, run | .logical .., _, _, _, _, run
  | .negation _, _, _, _, _, run | .nullTest .., _, _, _, _, run
  | .inList .., _, _, _, _, run | .like .., _, _, _, _, run
  | .between .., _, _, _, _, run | .record .., _, _, _, _, run => by
      simp [scalar] at run

theorem nullTest_of_nullComparison {scope : Scope} {operator : Comparison} {operand : Expr}
    {draft later : Draft} {fragment : Fragment}
    (run : (nullComparison scope operator operand).runFrom draft = (.ok fragment, later)) :
    ∃ (tested : Fragment) (negated : Bool),
      ScalarRun scope unnamed operand draft tested later ∧
      (operator = if negated then .notEqual else .equal) ∧
      fragment = Fragment.nullTest tested negated := by
  simp only [nullComparison, Build.runFrom_bind_eq_ok] at run
  rcases run with ⟨tested, middle, inner, rest⟩
  cases operator <;> simp only [Build.runFrom_pure_eq_ok, Build.runFrom_fail] at rest
  case equal =>
    rcases rest with ⟨rfl, rfl⟩
    exact ⟨tested, false, scalarRun_of_scalar inner, rfl, rfl⟩
  case notEqual =>
    rcases rest with ⟨rfl, rfl⟩
    exact ⟨tested, true, scalarRun_of_scalar inner, rfl, rfl⟩
  all_goals cases rest

theorem compareRun_of_compare {scope : Scope} {operator : Comparison} {left right : Expr}
    {draft later : Draft} {fragment : Fragment}
    (run : (compare scope operator left right).runFrom draft = (.ok fragment, later)) :
    CompareRun scope operator left right draft fragment later := by
  unfold compare at run
  split_ifs at run with rightNull leftNull
  · rcases nullTest_of_nullComparison run with ⟨tested, negated, inner, negation, rfl⟩
    exact .nullOnRight rightNull negation inner
  · rcases nullTest_of_nullComparison run with ⟨tested, negated, inner, negation, rfl⟩
    exact .nullOnLeft rightNull leftNull negation inner
  · simp only [Build.runFrom_bind_eq_ok, Build.runFrom_pure_eq_ok] at run
    rcases run with ⟨first, middle, head, second, last, tail, rfl, rfl⟩
    exact .sides rightNull leftNull (scalarRun_of_scalar head) (scalarRun_of_scalar tail)

theorem predicateRun_of_predicate {scope : Scope} :
    ∀ {expression : Expr} {draft later : Draft} {fragment : Fragment},
      (expression.predicate scope).runFrom draft = (.ok fragment, later) →
      PredicateRun scope expression draft fragment later
  | .member path, draft, later, fragment, run => by
      simp only [predicate, Build.runFrom_bind_eq_ok, Build.runFrom_pure_eq_ok,
        Build.runFrom_lift_eq_ok] at run
      rcases run with ⟨column, _, ⟨found, rfl⟩, truth, last, bound, rfl, rfl⟩
      exact .member path found bound
  | .constant (.boolean true), draft, later, fragment, run => by
      rw [predicate, Build.runFrom_pure_eq_ok] at run
      rcases run with ⟨rfl, rfl⟩
      exact .always
  | .constant (.boolean false), draft, later, fragment, run => by
      rw [predicate, Build.runFrom_pure_eq_ok] at run
      rcases run with ⟨rfl, rfl⟩
      exact .never
  | .comparison operator left right, draft, later, fragment, run => by
      rw [predicate] at run
      exact .comparison (compareRun_of_compare run)
  | .logical connective left right, draft, later, fragment, run => by
      simp only [predicate, Build.runFrom_bind_eq_ok, Build.runFrom_pure_eq_ok] at run
      rcases run with ⟨first, middle, head, second, last, tail, rfl, rfl⟩
      exact .logical connective left right (predicateRun_of_predicate head)
        (predicateRun_of_predicate tail)
  | .negation operand, draft, later, fragment, run => by
      simp only [predicate, Build.runFrom_bind_eq_ok, Build.runFrom_pure_eq_ok] at run
      rcases run with ⟨inner, middle, head, rfl, rfl⟩
      exact .negation operand (predicateRun_of_predicate head)
  | .nullTest operand negated, draft, later, fragment, run => by
      simp only [predicate, Build.runFrom_bind_eq_ok, Build.runFrom_pure_eq_ok] at run
      rcases run with ⟨tested, middle, inner, rfl, rfl⟩
      exact .nullTest negated (scalarRun_of_scalar inner)
  | .inList operand [] negated, draft, later, fragment, run => by
      rw [predicate, if_pos List.isEmpty_nil, Build.runFrom_pure_eq_ok] at run
      rcases run with ⟨rfl, rfl⟩
      exact .emptyList negated
  | .inList operand (item :: items) negated, draft, later, fragment, run => by
      simp only [predicate, List.isEmpty_cons, Bool.false_eq_true, if_false,
        Build.runFrom_bind_eq_ok, Build.runFrom_pure_eq_ok] at run
      rcases run with ⟨subject, middle, inner, members, last, bound, rfl, rfl⟩
      exact .inList item items negated (scalarRun_of_scalar inner) bound
  | .like operand pattern anchor negated, draft, later, fragment, run => by
      simp only [predicate, Build.runFrom_bind_eq_ok, Build.runFrom_pure_eq_ok] at run
      rcases run with ⟨subject, middle, inner, looked, last, bound, rfl, rfl⟩
      exact .like pattern anchor negated (scalarRun_of_scalar inner) bound
  | .between operand low high, draft, later, fragment, run => by
      simp only [predicate, Build.runFrom_bind_eq_ok, Build.runFrom_pure_eq_ok] at run
      rcases run with
        ⟨subject, middle, inner, least, second, lower, greatest, last, upper, rfl, rfl⟩
      exact .between low high (scalarRun_of_scalar inner) lower upper
  | .lambda entity inner, draft, later, fragment, run => by
      rw [predicate] at run
      exact .lambda (predicateRun_of_predicate run)
  | .constant .null, _, _, _, run | .constant (.int _), _, _, _, run
  | .constant (.uint _), _, _, _, run | .constant (.double _), _, _, _, run
  | .constant (.text _), _, _, _, run | .constant (.uuid _), _, _, _, run
  | .constant (.timestamp _), _, _, _, run
  | .arithmetic .., _, _, _, run | .aggregate .., _, _, _, run
  | .bareAggregate _, _, _, _, run | .record .., _, _, _, run => by
      simp [predicate] at run

end Expr

/-! Lists. Each fragment was built from its own item, somewhere on the way. -/

theorem Build.placeholders_of_inputs {base : String} {values : List Value} {draft later : Draft}
    {fragments : List Fragment}
    (run : (Build.inputs base values).runFrom draft = (.ok fragments, later)) :
    List.Forall₂ (fun fragment _ => ∃ name, fragment = [Token.placeholder name]) fragments
      values := by
  induction values generalizing draft fragments with
  | nil =>
      rw [inputs, runFrom_pure_eq_ok] at run
      rcases run with ⟨rfl, rfl⟩
      exact .nil
  | cons value values induction =>
      simp only [inputs, runFrom_bind_eq_ok, runFrom_pure_eq_ok] at run
      rcases run with ⟨first, middle, head, rest, last, tail, rfl, rfl⟩
      rw [runFrom_input] at head
      cases head
      exact .cons ⟨_, rfl⟩ (induction tail)

namespace Scope

open EntitySql.Expr

variable {scope : Scope} {draft later : Draft} {fragments : List Fragment}

theorem runs_of_conjuncts {expressions : List Expr}
    (run : (scope.conjuncts expressions).runFrom draft = (.ok fragments, later)) :
    List.Forall₂ (fun fragment expression => ∃ before condition after,
      PredicateRun scope expression before condition after ∧
        fragment = if expression.mixesWith .and then Fragment.parenthesized condition
          else condition) fragments expressions := by
  induction expressions generalizing draft fragments with
  | nil =>
      rw [conjuncts, Build.runFrom_pure_eq_ok] at run
      rcases run with ⟨rfl, rfl⟩
      exact .nil
  | cons expression expressions induction =>
      simp only [conjuncts, conjunct, Build.runFrom_bind_eq_ok, Build.runFrom_pure_eq_ok] at run
      rcases run with ⟨_, middle, ⟨condition, _, head, rfl, rfl⟩, rest, last, tail, rfl, rfl⟩
      exact .cons ⟨_, condition, _, predicateRun_of_predicate head, rfl⟩ (induction tail)

theorem runs_of_scalars {expressions : List Expr}
    (run : (scope.scalars expressions).runFrom draft = (.ok fragments, later)) :
    List.Forall₂ (fun fragment expression => ∃ before after,
      ScalarRun scope unnamed expression before fragment after) fragments expressions := by
  induction expressions generalizing draft fragments with
  | nil =>
      rw [scalars, Build.runFrom_pure_eq_ok] at run
      rcases run with ⟨rfl, rfl⟩
      exact .nil
  | cons expression expressions induction =>
      simp only [scalars, Build.runFrom_bind_eq_ok, Build.runFrom_pure_eq_ok] at run
      rcases run with ⟨first, middle, head, rest, last, tail, rfl, rfl⟩
      exact .cons ⟨_, _, scalarRun_of_scalar head⟩ (induction tail)

theorem runs_of_sortKeys {items : List SortKey}
    (run : (scope.sortKeys items).runFrom draft = (.ok fragments, later)) :
    List.Forall₂ (fun fragment item => ∃ before key after direction,
      (direction = "ASC" ∨ direction = "DESC") ∧
        ScalarRun scope unnamed (SortKey.expression item) before key after ∧
          fragment = key ++ [.space, .word direction]) fragments items := by
  induction items generalizing draft fragments with
  | nil =>
      rw [sortKeys, Build.runFrom_pure_eq_ok] at run
      rcases run with ⟨rfl, rfl⟩
      exact .nil
  | cons item items induction =>
      simp only [sortKeys, Build.runFrom_bind_eq_ok, Build.runFrom_pure_eq_ok] at run
      rcases run with ⟨key, middle, head, rest, last, tail, rfl, rfl⟩
      refine .cons ⟨_, key, _, _, ?_, scalarRun_of_scalar head, rfl⟩ (induction tail)
      cases item.direction
      · exact .inl rfl
      · exact .inr rfl

theorem runs_of_selectedBindings {bindings : List (String × Expr)}
    (run : (scope.selectedBindings bindings).runFrom draft = (.ok fragments, later)) :
    List.Forall₂ (fun fragment binding => ∃ before value after,
      ScalarRun scope (Prod.fst binding) (Prod.snd binding) before value after ∧
        fragment = Fragment.renamed value (Prod.fst binding)) fragments bindings := by
  induction bindings generalizing draft fragments with
  | nil =>
      rw [selectedBindings, Build.runFrom_pure_eq_ok] at run
      rcases run with ⟨rfl, rfl⟩
      exact .nil
  | cons binding bindings induction =>
      rcases binding with ⟨name, expression⟩
      simp only [selectedBindings, Build.runFrom_bind_eq_ok, Build.runFrom_pure_eq_ok] at run
      rcases run with ⟨value, middle, head, rest, last, tail, rfl, rfl⟩
      exact .cons ⟨_, value, _, scalarRun_of_scalar head, rfl⟩ (induction tail)

theorem runs_of_boundAssignments {entity : Entity} {bindings : List (String × Expr)}
    (run : (scope.boundAssignments entity bindings).runFrom draft = (.ok fragments, later)) :
    List.Forall₂ (fun fragment binding => ∃ column before value after,
      scope.column entity (Prod.fst binding) = .ok column ∧
        ScalarRun scope (Prod.fst binding) (Prod.snd binding) before value after ∧
          fragment = Fragment.joined column .equal value) fragments bindings := by
  induction bindings generalizing draft fragments with
  | nil =>
      rw [boundAssignments, Build.runFrom_pure_eq_ok] at run
      rcases run with ⟨rfl, rfl⟩
      exact .nil
  | cons binding bindings induction =>
      rcases binding with ⟨member, expression⟩
      simp only [boundAssignments, Build.runFrom_bind_eq_ok, Build.runFrom_pure_eq_ok,
        Build.runFrom_lift_eq_ok] at run
      rcases run with ⟨column, _, ⟨found, rfl⟩, value, middle, head, rest, last, tail, rfl, rfl⟩
      exact .cons ⟨column, _, value, _, found, scalarRun_of_scalar head, rfl⟩ (induction tail)

theorem runs_of_boundFields {entity : Entity} {record : Record} {fields : List Field}
    {bound : List BoundField}
    (run : (scope.boundFields entity record fields).runFrom draft = (.ok bound, later)) :
    List.Forall₂ (fun each field =>
      scope.column entity (Field.property field) = .ok (BoundField.column each) ∧
        ∃ before after, (Build.input field.property (record.value field.property)).runFrom before =
          (.ok each.placeholder, after)) bound fields := by
  induction fields generalizing draft bound with
  | nil =>
      rw [boundFields, Build.runFrom_pure_eq_ok] at run
      rcases run with ⟨rfl, rfl⟩
      exact .nil
  | cons field fields induction =>
      simp only [boundFields, Build.runFrom_bind_eq_ok, Build.runFrom_pure_eq_ok,
        Build.runFrom_lift_eq_ok] at run
      rcases run with
        ⟨column, _, ⟨found, rfl⟩, placeholder, middle, head, rest, last, tail, rfl, rfl⟩
      exact .cons ⟨found, _, _, head⟩ (induction tail)

theorem runs_of_keyComparisons {entity : Entity} {record : Record} {keys : List String}
    (run : (scope.keyComparisons entity record keys).runFrom draft = (.ok fragments, later)) :
    List.Forall₂ (fun fragment key => ∃ column before bound after,
      scope.column entity key = .ok column ∧
        (Build.input key (record.value key)).runFrom before = (.ok bound, after) ∧
          fragment = Fragment.joined column .equal bound) fragments keys := by
  induction keys generalizing draft fragments with
  | nil =>
      rw [keyComparisons, Build.runFrom_pure_eq_ok] at run
      rcases run with ⟨rfl, rfl⟩
      exact .nil
  | cons key keys induction =>
      rw [keyComparisons] at run
      cases absent : (record.value key).isNull with
      | true => simp [absent, Build.runFrom_bind_eq_ok] at run
      | false =>
          simp only [absent, Bool.false_eq_true, if_false, Build.runFrom_bind_eq_ok,
            Build.runFrom_pure_eq_ok, Build.runFrom_lift_eq_ok] at run
          rcases run with
            ⟨column, _, ⟨found, rfl⟩, bound, middle, head, rest, last, tail, rfl, rfl⟩
          exact .cons ⟨column, _, bound, _, found, head, rfl⟩ (induction tail)

end Scope

end EntitySql
