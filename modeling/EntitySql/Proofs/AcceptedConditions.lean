import EntitySql.Proofs.Success

/-! Which conditions are accepted. A condition has to be one by its shape, with scalars where
values are expected, and every member in it has to be mapped. Only what stands before a list
without items is not looked at: such a list settles the condition by itself. -/

namespace EntitySql

namespace Expr

/-! The grammar. -/

/-- The expression can stand for a value. -/
def isScalar : Expr → Bool
  | .member _ | .constant _ | .bareAggregate .count => true
  | .arithmetic _ left right => left.isScalar && right.isScalar
  | .aggregate _ operand => operand.isScalar
  | .lambda _ inner => inner.isScalar
  | .bareAggregate _ | .comparison .. | .logical .. | .negation _ | .nullTest .. | .inList ..
  | .like .. | .between .. | .record .. => false

/-- The null constant can be told equal or not, but it has no place in an order. -/
def comparesNull (operator : Comparison) (left right : Expr) : Bool :=
  match operator with
  | .equal | .notEqual => false
  | _ => left.isNullConstant || right.isNullConstant

/-- The expression can stand for a condition. -/
def isCondition : Expr → Bool
  | .member _ | .constant (.boolean _) => true
  | .comparison operator left right =>
      left.isScalar && right.isScalar && !comparesNull operator left right
  | .logical _ left right => left.isCondition && right.isCondition
  | .negation operand => operand.isCondition
  | .nullTest operand _ | .inList operand _ _ | .like operand _ _ _ | .between operand _ _ =>
      operand.isScalar
  | .lambda _ inner => inner.isCondition
  | .constant _ | .arithmetic .. | .aggregate .. | .bareAggregate _ | .record .. => false

/-- A scalar of mapped members. -/
structure ProperScalar (catalog : Catalog) (expression : Expr) : Prop where
  shape : expression.isScalar = true
  mapped : ∀ path ∈ expression.members, catalog.Maps path

/-- A condition of mapped members. -/
structure Proper (catalog : Catalog) (expression : Expr) : Prop where
  shape : expression.isCondition = true
  mapped : ∀ path ∈ expression.members, catalog.Maps path

/-! Lists without items. -/

/-- The condition with every list without items replaced by what it amounts to. -/
def settled : Expr → Expr
  | .inList _ [] negated => .constant (.boolean negated)
  | .logical connective left right => .logical connective left.settled right.settled
  | .negation operand => .negation operand.settled
  | .lambda entity inner => .lambda entity inner.settled
  | other => other

/-- What stands before the lists without items in a condition. -/
def hidden : Expr → List Expr
  | .inList operand [] _ => [operand]
  | .logical _ left right => left.hidden ++ right.hidden
  | .negation operand => operand.hidden
  | .lambda _ inner => inner.hidden
  | _ => []

/-! What is proper, node by node. -/

section Nodes

variable {catalog : Catalog} {left right operand inner : Expr}

theorem properScalar_arithmetic (operator : Arithmetic) :
    (arithmetic operator left right).ProperScalar catalog ↔
      left.ProperScalar catalog ∧ right.ProperScalar catalog := by
  constructor
  · rintro ⟨shape, mapped⟩
    rw [isScalar, Bool.and_eq_true] at shape
    rw [members, List.forall_mem_append] at mapped
    exact ⟨⟨shape.1, mapped.1⟩, ⟨shape.2, mapped.2⟩⟩
  · rintro ⟨head, tail⟩
    refine ⟨Bool.and_eq_true_iff.mpr ⟨head.shape, tail.shape⟩, ?_⟩
    rw [members, List.forall_mem_append]
    exact ⟨head.mapped, tail.mapped⟩

theorem properScalar_aggregate (function : Aggregate) :
    (aggregate function operand).ProperScalar catalog ↔ operand.ProperScalar catalog :=
  ⟨fun given => ⟨given.shape, given.mapped⟩, fun given => ⟨given.shape, given.mapped⟩⟩

theorem properScalar_lambda (entity : String) :
    (lambda entity inner).ProperScalar catalog ↔ inner.ProperScalar catalog :=
  ⟨fun given => ⟨given.shape, given.mapped⟩, fun given => ⟨given.shape, given.mapped⟩⟩

theorem properScalar_member {path : MemberPath} :
    (member path).ProperScalar catalog ↔ catalog.Maps path :=
  ⟨fun given => given.mapped path (List.mem_singleton_self path),
    fun maps => ⟨rfl, fun _ listed => List.mem_singleton.mp listed ▸ maps⟩⟩

theorem proper_member {path : MemberPath} :
    (member path).Proper catalog ↔ catalog.Maps path :=
  ⟨fun given => given.mapped path (List.mem_singleton_self path),
    fun maps => ⟨rfl, fun _ listed => List.mem_singleton.mp listed ▸ maps⟩⟩

theorem proper_constant (truth : Bool) : (constant (.boolean truth)).Proper catalog :=
  ⟨rfl, fun _ listed => absurd listed List.not_mem_nil⟩

theorem proper_comparison {operator : Comparison} :
    (comparison operator left right).Proper catalog ↔
      left.ProperScalar catalog ∧ right.ProperScalar catalog ∧
        comparesNull operator left right = false := by
  constructor
  · rintro ⟨shape, mapped⟩
    rw [isCondition, Bool.and_eq_true, Bool.and_eq_true, Bool.not_eq_true'] at shape
    rw [members, List.forall_mem_append] at mapped
    exact ⟨⟨shape.1.1, mapped.1⟩, ⟨shape.1.2, mapped.2⟩, shape.2⟩
  · rintro ⟨head, tail, ordered⟩
    refine ⟨?_, ?_⟩
    · rw [isCondition, head.shape, tail.shape, ordered]
      rfl
    · rw [members, List.forall_mem_append]
      exact ⟨head.mapped, tail.mapped⟩

theorem proper_logical (connective : Connective) :
    (logical connective left right).Proper catalog ↔
      left.Proper catalog ∧ right.Proper catalog := by
  constructor
  · rintro ⟨shape, mapped⟩
    rw [isCondition, Bool.and_eq_true] at shape
    rw [members, List.forall_mem_append] at mapped
    exact ⟨⟨shape.1, mapped.1⟩, ⟨shape.2, mapped.2⟩⟩
  · rintro ⟨head, tail⟩
    refine ⟨Bool.and_eq_true_iff.mpr ⟨head.shape, tail.shape⟩, ?_⟩
    rw [members, List.forall_mem_append]
    exact ⟨head.mapped, tail.mapped⟩

theorem proper_negation : (negation operand).Proper catalog ↔ operand.Proper catalog :=
  ⟨fun given => ⟨given.shape, given.mapped⟩, fun given => ⟨given.shape, given.mapped⟩⟩

theorem proper_lambda (entity : String) :
    (lambda entity inner).Proper catalog ↔ inner.Proper catalog :=
  ⟨fun given => ⟨given.shape, given.mapped⟩, fun given => ⟨given.shape, given.mapped⟩⟩

theorem proper_nullTest (negated : Bool) :
    (nullTest operand negated).Proper catalog ↔ operand.ProperScalar catalog :=
  ⟨fun given => ⟨given.shape, given.mapped⟩, fun given => ⟨given.shape, given.mapped⟩⟩

theorem proper_inList (items : List Value) (negated : Bool) :
    (inList operand items negated).Proper catalog ↔ operand.ProperScalar catalog :=
  ⟨fun given => ⟨given.shape, given.mapped⟩, fun given => ⟨given.shape, given.mapped⟩⟩

theorem proper_like (pattern : String) (anchor : Anchor) (negated : Bool) :
    (like operand pattern anchor negated).Proper catalog ↔ operand.ProperScalar catalog :=
  ⟨fun given => ⟨given.shape, given.mapped⟩, fun given => ⟨given.shape, given.mapped⟩⟩

theorem proper_between (low high : Value) :
    (between operand low high).Proper catalog ↔ operand.ProperScalar catalog :=
  ⟨fun given => ⟨given.shape, given.mapped⟩, fun given => ⟨given.shape, given.mapped⟩⟩

theorem properScalar_body : ∀ expression : Expr,
    expression.body.ProperScalar catalog ↔ expression.ProperScalar catalog
  | .lambda entity inner => (properScalar_body inner).trans (properScalar_lambda entity).symm
  | .member _ | .constant _ | .comparison .. | .arithmetic .. | .logical .. | .negation _
  | .nullTest .. | .inList .. | .like .. | .between .. | .aggregate .. | .bareAggregate _
  | .record .. => Iff.rfl

theorem properScalar_of_isNullConstant {expression : Expr}
    (null : expression.isNullConstant = true) : expression.ProperScalar catalog := by
  unfold isNullConstant at null
  split at null
  · next shape =>
      rw [← properScalar_body, shape]
      exact ⟨rfl, fun _ listed => absurd listed List.not_mem_nil⟩
  · cases null

end Nodes

/-- A condition is proper where it still is with its lists without items settled, and what
stands before those is proper as well. -/
theorem proper_iff_settled {catalog : Catalog} : ∀ expression : Expr,
    expression.Proper catalog ↔ expression.settled.Proper catalog ∧
      ∀ operand ∈ expression.hidden, operand.ProperScalar catalog
  | .inList operand [] negated => by
      rw [proper_inList, settled, hidden, List.forall_mem_singleton]
      exact (and_iff_right (proper_constant negated)).symm
  | .logical connective left right => by
      rw [settled, hidden, proper_logical, proper_logical, List.forall_mem_append,
        proper_iff_settled left, proper_iff_settled right]
      exact and_and_and_comm
  | .negation operand => by
      rw [settled, hidden, proper_negation, proper_negation]
      exact proper_iff_settled operand
  | .lambda entity inner => by
      rw [settled, hidden, proper_lambda, proper_lambda]
      exact proper_iff_settled inner
  | .member _ | .constant _ | .comparison .. | .arithmetic .. | .nullTest ..
  | .inList _ (_ :: _) _ | .like .. | .between .. | .aggregate .. | .bareAggregate _
  | .record .. =>
      (and_iff_left fun _ listed => absurd listed List.not_mem_nil).symm

end Expr

/-! What is built is proper. -/

theorem Scope.exists_member_iff {scope : Scope} {path : MemberPath} :
    (∃ column, scope.member path = .ok column) ↔ scope.catalog.Maps path := by
  constructor
  · rintro ⟨column, found⟩
    rcases member_eq_ok.mp found with ⟨reference, referred, -⟩
    exact maps_of_reference? referred
  · rintro ⟨entity, name, accepted, mapped⟩
    have referred : scope.reference? path = some
        { qualifier? := scope.qualifierUnder
            ((scope.joinedAlias? path.entity).getD entity.aliasName), name } := by
      simp [reference?, accepted, mapped, Except.toOption]
    exact ⟨_, member_eq_ok.mpr ⟨_, referred, rfl⟩⟩

namespace Expr

variable {scope : Scope} {draft later : Draft} {fragment : Fragment}

theorem ScalarRun.proper {expression : Expr} {hint : String}
    (steps : ScalarRun scope hint expression draft fragment later) :
    expression.ProperScalar scope.catalog := by
  induction steps with
  | member path found => exact properScalar_member.mpr (Scope.exists_member_iff.mp ⟨_, found⟩)
  | constant value bound => exact ⟨rfl, fun _ listed => absurd listed List.not_mem_nil⟩
  | arithmetic operator _ _ head tail =>
      exact (properScalar_arithmetic operator).mpr ⟨head, tail⟩
  | aggregate function _ inner => exact (properScalar_aggregate function).mpr inner
  | count => exact ⟨rfl, fun _ listed => absurd listed List.not_mem_nil⟩
  | lambda _ inner => exact (properScalar_lambda _).mpr inner

theorem comparesNull_of_negation {operator : Comparison} {negated : Bool}
    (negation : operator = if negated then .notEqual else .equal) (left right : Expr) :
    comparesNull operator left right = false := by
  subst negation
  cases negated <;> rfl

theorem CompareRun.proper {operator : Comparison} {left right : Expr}
    (steps : CompareRun scope operator left right draft fragment later) :
    (comparison operator left right).Proper scope.catalog := by
  rw [proper_comparison]
  cases steps with
  | nullOnRight null negation inner =>
      exact ⟨inner.proper, properScalar_of_isNullConstant null,
        comparesNull_of_negation negation left right⟩
  | nullOnLeft _ null negation inner =>
      exact ⟨properScalar_of_isNullConstant null, inner.proper,
        comparesNull_of_negation negation left right⟩
  | sides noRight noLeft head tail =>
      refine ⟨head.proper, tail.proper, ?_⟩
      rw [Bool.not_eq_true] at noRight noLeft
      cases operator <;> simp [comparesNull, noRight, noLeft]

theorem PredicateRun.proper_settled {expression : Expr}
    (steps : PredicateRun scope expression draft fragment later) :
    expression.settled.Proper scope.catalog := by
  induction steps with
  | member path found bound => exact proper_member.mpr (Scope.exists_member_iff.mp ⟨_, found⟩)
  | always => exact proper_constant true
  | never => exact proper_constant false
  | comparison sides => exact sides.proper
  | logical connective left right _ _ head tail =>
      exact (proper_logical connective).mpr ⟨head, tail⟩
  | negation operand _ inner => exact proper_negation.mpr inner
  | nullTest negated inner => exact (proper_nullTest negated).mpr inner.proper
  | emptyList negated => exact proper_constant negated
  | inList item items negated inner binding =>
      exact (proper_inList (item :: items) negated).mpr inner.proper
  | like pattern anchor negated inner binding =>
      exact (proper_like pattern anchor negated).mpr inner.proper
  | between low high inner lower upper => exact (proper_between low high).mpr inner.proper
  | lambda _ inner => exact (proper_lambda _).mpr inner

end Expr

/-! What is proper is built. -/

namespace Expr

open Build

theorem succeeds_scalar : ∀ {expression : Expr} {scope : Scope} {hint : String},
    expression.ProperScalar scope.catalog → (expression.scalar scope hint).Succeeds
  | .member path, scope, hint, proper => by
      rcases Scope.exists_member_iff.mpr (properScalar_member.mp proper) with ⟨column, found⟩
      exact succeeds_lift found
  | .constant value, scope, hint, proper => succeeds_input hint value
  | .arithmetic operator left right, scope, hint, proper => by
      rw [properScalar_arithmetic] at proper
      exact (succeeds_scalar proper.1).bind fun _ => (succeeds_scalar proper.2).bind fun _ =>
        succeeds_pure _
  | .aggregate function operand, scope, hint, proper => by
      rw [properScalar_aggregate] at proper
      exact (succeeds_scalar proper).bind fun _ => succeeds_pure _
  | .bareAggregate .count, scope, hint, proper => succeeds_pure _
  | .lambda entity inner, scope, hint, proper => by
      rw [properScalar_lambda] at proper
      have built : (inner.scalar scope hint).Succeeds := succeeds_scalar proper
      exact built
  | .bareAggregate .sum, _, _, proper | .bareAggregate .min, _, _, proper
  | .bareAggregate .max, _, _, proper | .bareAggregate .avg, _, _, proper
  | .comparison .., _, _, proper | .logical .., _, _, proper | .negation _, _, _, proper
  | .nullTest .., _, _, proper | .inList .., _, _, proper | .like .., _, _, proper
  | .between .., _, _, proper | .record .., _, _, proper =>
      absurd proper.shape Bool.false_ne_true

theorem succeeds_compare {scope : Scope} {operator : Comparison} {left right : Expr}
    (proper : (comparison operator left right).Proper scope.catalog) :
    (compare scope operator left right).Succeeds := by
  rcases proper_comparison.mp proper with ⟨head, tail, ordered⟩
  have nullCompared : ∀ operand : Expr, operand.ProperScalar scope.catalog →
      (left.isNullConstant || right.isNullConstant) = true →
      (nullComparison scope operator operand).Succeeds := by
    intro operand proper null
    refine (succeeds_scalar proper).bind fun tested => ?_
    cases operator
    case equal | notEqual => exact succeeds_pure _
    all_goals exact absurd (ordered.symm.trans null) Bool.false_ne_true
  unfold compare
  split_ifs with rightNull leftNull
  · exact nullCompared left head (by simp [rightNull])
  · exact nullCompared right tail (by simp [leftNull])
  · have behind : ∀ hint, (right.scalar scope.inRightOperand hint).Succeeds :=
      fun hint => succeeds_scalar tail
    exact (succeeds_scalar head).bind fun _ => (behind _).bind fun _ => succeeds_pure _

theorem succeeds_predicate {scope : Scope} : ∀ {expression : Expr},
    expression.settled.Proper scope.catalog → (expression.predicate scope).Succeeds
  | .member path, proper => by
      rcases Scope.exists_member_iff.mpr (proper_member.mp proper) with ⟨column, found⟩
      exact succeeds_lift_bind found ((succeeds_input _ _).bind fun _ => succeeds_pure _)
  | .constant (.boolean true), proper => succeeds_pure _
  | .constant (.boolean false), proper => succeeds_pure _
  | .comparison operator left right, proper => succeeds_compare proper
  | .logical connective left right, proper => by
      rw [settled, proper_logical] at proper
      exact (succeeds_predicate proper.1).bind fun _ => (succeeds_predicate proper.2).bind fun _ =>
        succeeds_pure _
  | .negation operand, proper =>
      (succeeds_predicate (proper_negation.mp proper)).bind fun _ => succeeds_pure _
  | .nullTest operand negated, proper =>
      (succeeds_scalar ((proper_nullTest negated).mp proper)).bind fun _ => succeeds_pure _
  | .inList operand [] negated, proper => succeeds_pure _
  | .inList operand (item :: items) negated, proper =>
      (succeeds_scalar ((proper_inList (item :: items) negated).mp proper)).bind fun _ =>
        (succeeds_inputs _ (item :: items)).bind fun _ => succeeds_pure _
  | .like operand pattern anchor negated, proper =>
      (succeeds_scalar ((proper_like pattern anchor negated).mp proper)).bind fun _ =>
        (succeeds_input _ _).bind fun _ => succeeds_pure _
  | .between operand low high, proper =>
      (succeeds_scalar ((proper_between low high).mp proper)).bind fun _ =>
        (succeeds_input _ low).bind fun _ => (succeeds_input _ high).bind fun _ => succeeds_pure _
  | .lambda entity inner, proper => by
      rw [settled, proper_lambda] at proper
      have built : (inner.predicate scope).Succeeds := succeeds_predicate proper
      exact built
  | .constant .null, proper | .constant (.int _), proper | .constant (.uint _), proper
  | .constant (.double _), proper | .constant (.text _), proper | .constant (.uuid _), proper
  | .constant (.timestamp _), proper | .arithmetic .., proper | .aggregate .., proper
  | .bareAggregate _, proper | .record .., proper =>
      absurd proper.shape Bool.false_ne_true

end Expr

/-! Conditions and the clauses made of them. -/

theorem Expr.predicate_accepted_iff {scope : Scope} {expression : Expr} {draft : Draft} :
    (∃ fragment later, (expression.predicate scope).runFrom draft = (.ok fragment, later)) ↔
      expression.settled.Proper scope.catalog := by
  constructor
  · rintro ⟨fragment, later, run⟩
    exact (predicateRun_of_predicate run).proper_settled
  · intro proper
    exact succeeds_predicate proper draft

namespace Scope

open Build

variable {scope : Scope} {draft later : Draft}

theorem proper_of_conjuncts {conditions : List Expr} {fragments : List Fragment}
    (run : (scope.conjuncts conditions).runFrom draft = (.ok fragments, later)) :
    ∀ condition ∈ conditions, condition.settled.Proper scope.catalog := by
  have each := runs_of_conjuncts run
  clear run
  induction each with
  | nil => exact fun _ listed => absurd listed List.not_mem_nil
  | cons first _ induction =>
      rcases first with ⟨before, condition, after, steps, -⟩
      exact List.forall_mem_cons.mpr ⟨steps.proper_settled, induction⟩

theorem succeeds_conjuncts_of_proper {conditions : List Expr}
    (proper : ∀ condition ∈ conditions, condition.settled.Proper scope.catalog) :
    (scope.conjuncts conditions).Succeeds := by
  induction conditions with
  | nil => exact succeeds_pure []
  | cons condition conditions induction =>
      rw [List.forall_mem_cons] at proper
      have first : (condition.conjunct scope).Succeeds :=
        (Expr.succeeds_predicate proper.1).bind fun _ => succeeds_pure _
      exact first.bind fun _ => (induction proper.2).bind fun _ => succeeds_pure _

theorem whereClause_accepted_iff {filters : List Expr} :
    (∃ fragment later, (scope.whereClause filters).runFrom draft = (.ok fragment, later)) ↔
      ∀ filter ∈ filters, filter.settled.Proper scope.catalog := by
  constructor
  · rintro ⟨fragment, later, run⟩
    rcases runFrom_bind_eq_ok.mp run with ⟨fragments, last, inner, -⟩
    exact proper_of_conjuncts inner
  · intro proper
    have built : (scope.whereClause filters).Succeeds :=
      (succeeds_conjuncts_of_proper proper).bind fun _ => succeeds_pure _
    exact built draft

theorem havingClause_accepted_iff {conditions : List Expr} :
    (∃ fragment later, (scope.havingClause conditions).runFrom draft = (.ok fragment, later)) ↔
      ∀ condition ∈ conditions, condition.settled.Proper scope.catalog := by
  constructor
  · rintro ⟨fragment, later, run⟩
    rcases scope.havingClause_cases run with ⟨rfl, -, -⟩ | ⟨-, fragments, inner, -⟩
    · exact fun _ listed => absurd listed List.not_mem_nil
    · exact proper_of_conjuncts inner
  · intro proper
    have built : (scope.havingClause conditions).Succeeds := by
      unfold havingClause
      split
      · exact succeeds_pure []
      · exact (succeeds_conjuncts_of_proper proper).bind fun _ => succeeds_pure _
    exact built draft

theorem proper_of_joinTables {root : Entity} {taken : List String}
    {navigations : List Navigation} {tables : List JoinedTable}
    (run : (scope.joinTables root taken navigations).runFrom draft = (.ok tables, later)) :
    ∀ navigation ∈ navigations, navigation.condition.settled.Proper scope.catalog := by
  intro navigation listed
  rcases exists_joinTable_of_mem run listed with ⟨before, known, table, after, one⟩
  rcases joinTable_eq_ok one with ⟨target, condition, -, -, on, -, -⟩
  exact (Expr.predicateRun_of_predicate on).proper_settled

end Scope

/-- A condition is built where it is one by its shape and every member in it is mapped, with
its lists without items settled; in every other case it fails. What stands before those
lists is all that a proper condition has to have beyond that. So it is with the conditions of
a clause, whichever draft they are built from. -/
theorem conditions_accepted_iff (scope : Scope) (draft : Draft) :
    (∀ expression : Expr,
      ((∃ fragment later, (expression.predicate scope).runFrom draft = (.ok fragment, later)) ↔
        expression.settled.Proper scope.catalog) ∧
      ((∃ error later, (expression.predicate scope).runFrom draft = (.error error, later)) ↔
        ¬ expression.settled.Proper scope.catalog) ∧
      (expression.Proper scope.catalog ↔ expression.settled.Proper scope.catalog ∧
        ∀ operand ∈ expression.hidden, operand.ProperScalar scope.catalog)) ∧
    (∀ filters : List Expr,
      (∃ fragment later, (scope.whereClause filters).runFrom draft = (.ok fragment, later)) ↔
        ∀ filter ∈ filters, filter.settled.Proper scope.catalog) ∧
    (∀ conditions : List Expr,
      (∃ fragment later, (scope.havingClause conditions).runFrom draft = (.ok fragment, later)) ↔
        ∀ condition ∈ conditions, condition.settled.Proper scope.catalog) ∧
    ∀ (root : Entity) (navigations : List Navigation) (tables : List JoinedTable) (later : Draft),
      (scope.joins root navigations).runFrom draft = (.ok tables, later) →
        ∀ navigation ∈ navigations, navigation.condition.settled.Proper scope.catalog := by
  refine ⟨fun expression => ⟨Expr.predicate_accepted_iff, ?_, expression.proper_iff_settled⟩,
    fun _ => Scope.whereClause_accepted_iff, fun _ => Scope.havingClause_accepted_iff,
    fun _ _ _ _ run => Scope.proper_of_joinTables run⟩
  have accepted : (∃ fragment later, (expression.predicate scope).runFrom draft =
      (.ok fragment, later)) ↔ _ := Expr.predicate_accepted_iff
  rw [← accepted]
  rcases (expression.predicate scope).runFrom draft with ⟨error | fragment, later⟩ <;> simp

/-- The filter of the people under an age is accepted; no age comes before the null constant. -/
theorem conditions_accepted_minors :
    (∃ fragment later, ((Scope.aliased .people).whereClause Query.minors.filters).runFrom {} =
      (.ok fragment, later)) ∧
    ∃ error later, ((Expr.comparison .less (.column "Person" "Age") (.constant .null)).predicate
      (.aliased .people)).runFrom {} = (.error error, later) := by
  have age : (Expr.column "Person" "Age").ProperScalar .people :=
    Expr.properScalar_member.mpr ⟨_, _, rfl, rfl⟩
  have filtered := (conditions_accepted_iff (.aliased .people) {}).2.1 Query.minors.filters
  have refused := ((conditions_accepted_iff (.aliased .people) {}).1
    (.comparison .less (.column "Person" "Age") (.constant .null))).2.1
  refine ⟨filtered.mpr ?_, refused.mpr fun proper => ?_⟩
  · intro filter listed
    rw [Query.minors, List.mem_singleton] at listed
    subst listed
    exact Expr.proper_comparison.mpr
      ⟨age, ⟨rfl, fun _ listed => absurd listed List.not_mem_nil⟩, rfl⟩
  · cases (Expr.proper_comparison.mp proper).2.2

/-- People whose nickname, which people do not have, is none of the given ones. -/
def Expr.nicknameOutside (names : List Value) : Expr :=
  .inList (.column "Person" "Nickname") names true

/-- With no name in the list, the member is not looked for, and every row is deleted; with one,
it is refused. -/
theorem unknown_member_accepted :
    ¬ (Expr.nicknameOutside []).Proper .people ∧
    ((Expr.nicknameOutside []).predicate (.aliased .people)).runFrom {} =
      (.ok Fragment.always, {}) ∧
    (∃ composition, ((Operation.delete { entity := "Person", filters := [.nicknameOutside []] }).compose
        .people .mysql).1 = .ok composition ∧
      composition.statement.sql = "DELETE FROM `people` WHERE 1=1 AND 1=1") ∧
    ((Expr.nicknameOutside [.text "Al"]).predicate (.aliased .people)).runFrom {} =
      (.error (.unknownMember "people" "Nickname"), {}) := by
  refine ⟨?_, rfl, ⟨_, rfl, by decide +kernel⟩, rfl⟩
  intro proper
  rcases proper.mapped ⟨"Person", "Nickname"⟩ (by decide) with ⟨entity, column, accepted, mapped⟩
  cases accepted
  cases mapped

end EntitySql
