import EntitySql.Proofs.ReadText

/-! Whether something can be built has nothing to do with what was bound before it: the
names of parameters differ, and the fragments with them, but no step looks at those. -/

namespace EntitySql

namespace Build

/-- The build succeeds from every draft. -/
def Succeeds (build : Build α) : Prop :=
  ∀ draft, ∃ result later, build.runFrom draft = (.ok result, later)

theorem succeeds_pure (result : α) : Succeeds (pure result) :=
  fun draft => ⟨result, draft, rfl⟩

theorem succeeds_input (base : String) (value : Value) : (input base value).Succeeds :=
  fun draft => ⟨_, _, runFrom_input base value draft⟩

theorem Succeeds.bind {build : Build α} {next : α → Build β} (head : build.Succeeds)
    (tail : ∀ result, (next result).Succeeds) : (build >>= next).Succeeds := by
  intro draft
  rcases head draft with ⟨first, middle, run⟩
  rcases tail first middle with ⟨result, later, rest⟩
  exact ⟨result, later, runFrom_bind_eq_ok.mpr ⟨first, middle, run, rest⟩⟩

theorem succeeds_lift_bind {found : Except Error α} {value : α} {next : α → Build β}
    (accepted : found = .ok value) (tail : (next value).Succeeds) :
    (Build.lift found >>= next).Succeeds := by
  subst accepted
  exact tail

theorem succeeds_lift {found : Except Error α} {value : α} (accepted : found = .ok value) :
    (Build.lift found).Succeeds := by
  subst accepted
  exact succeeds_pure value

theorem succeeds_inputs (base : String) (values : List Value) :
    (inputs base values).Succeeds := by
  induction values with
  | nil => exact succeeds_pure []
  | cons value values induction =>
      exact (succeeds_input base value).bind fun _ => induction.bind fun _ => succeeds_pure _

end Build

open Build

/-! What succeeded once succeeds always. -/

namespace Expr

variable {scope : Scope} {draft later : Draft} {fragment : Fragment}

theorem ScalarRun.succeeds {expression : Expr} {hint : String}
    (steps : ScalarRun scope hint expression draft fragment later) :
    (expression.scalar scope hint).Succeeds := by
  induction steps with
  | member path found => exact succeeds_lift found
  | constant value bound => exact succeeds_input _ value
  | arithmetic operator _ _ head tail =>
      exact head.bind fun _ => tail.bind fun _ => succeeds_pure _
  | aggregate function _ inner => exact inner.bind fun _ => succeeds_pure _
  | count => exact succeeds_pure _
  | lambda _ inner => exact inner

theorem succeeds_nullComparison {operator : Comparison} {operand : Expr} {negated : Bool}
    (negation : operator = if negated then .notEqual else .equal)
    (inner : ScalarRun scope unnamed operand draft fragment later) :
    (nullComparison scope operator operand).Succeeds := by
  refine inner.succeeds.bind fun _ => ?_
  subst negation
  cases negated <;> exact succeeds_pure _

theorem CompareRun.succeeds {operator : Comparison} {left right : Expr}
    (steps : CompareRun scope operator left right draft fragment later) :
    (compare scope operator left right).Succeeds := by
  unfold compare
  cases steps with
  | nullOnRight null negation inner =>
      rw [if_pos null]
      exact succeeds_nullComparison negation inner
  | nullOnLeft other null negation inner =>
      rw [if_neg other, if_pos null]
      exact succeeds_nullComparison negation inner
  | sides noRight noLeft head tail =>
      rw [if_neg noRight, if_neg noLeft]
      exact head.succeeds.bind fun _ => tail.succeeds.bind fun _ => succeeds_pure _

theorem PredicateRun.succeeds {expression : Expr}
    (steps : PredicateRun scope expression draft fragment later) :
    (expression.predicate scope).Succeeds := by
  induction steps with
  | member path found =>
      exact succeeds_lift_bind found ((succeeds_input _ _).bind fun _ => succeeds_pure _)
  | always | never => exact succeeds_pure _
  | comparison sides => exact sides.succeeds
  | logical connective left right _ _ head tail =>
      exact head.bind fun _ => tail.bind fun _ => succeeds_pure _
  | negation operand _ inner => exact inner.bind fun _ => succeeds_pure _
  | nullTest negated inner => exact inner.succeeds.bind fun _ => succeeds_pure _
  | emptyList negated => exact succeeds_pure _
  | inList item items negated inner =>
      exact inner.succeeds.bind fun _ => (succeeds_inputs _ _).bind fun _ => succeeds_pure _
  | like pattern anchor negated inner =>
      exact inner.succeeds.bind fun _ => (succeeds_input _ _).bind fun _ => succeeds_pure _
  | between low high inner =>
      exact inner.succeeds.bind fun _ => (succeeds_input _ _).bind fun _ =>
        (succeeds_input _ _).bind fun _ => succeeds_pure _
  | lambda _ inner => exact inner

end Expr

namespace Scope

variable {scope : Scope}

theorem succeeds_conjuncts {expressions : List Expr} {draft later : Draft}
    {fragments : List Fragment}
    (run : (scope.conjuncts expressions).runFrom draft = (.ok fragments, later)) :
    (scope.conjuncts expressions).Succeeds := by
  induction expressions generalizing draft later fragments with
  | nil => exact succeeds_pure []
  | cons expression expressions induction =>
      simp only [conjuncts, Expr.conjunct, runFrom_bind_eq_ok] at run
      rcases run with ⟨_, middle, ⟨condition, _, head, -⟩, rest, last, tail, -⟩
      refine Succeeds.bind ?_ fun _ => (induction tail).bind fun _ => succeeds_pure _
      exact (Expr.predicateRun_of_predicate head).succeeds.bind fun _ => succeeds_pure _

theorem succeeds_whereClause {filters : List Expr} {draft later : Draft} {fragment : Fragment}
    (run : (scope.whereClause filters).runFrom draft = (.ok fragment, later)) :
    (scope.whereClause filters).Succeeds := by
  simp only [whereClause, runFrom_bind_eq_ok] at run
  rcases run with ⟨fragments, last, inner, -⟩
  exact (succeeds_conjuncts inner).bind fun _ => succeeds_pure _

/-- The alias of a joined table, on which the joins behind it depend, is the same every
time. -/
theorem exists_joinTable {root : Entity} {navigation : Navigation} {taken : List String}
    {draft later : Draft} {table : JoinedTable}
    (run : (scope.joinTable root taken navigation).runFrom draft = (.ok table, later))
    (other : Draft) :
    ∃ again next, (scope.joinTable root taken navigation).runFrom other = (.ok again, next) ∧
      again.aliasName = table.aliasName := by
  rcases joinTable_eq_ok run with ⟨target, condition, accepted, lent, on, -, joined⟩
  have succeeds : (scope.joinTable root taken navigation).Succeeds :=
    succeeds_lift_bind accepted <| (Expr.predicateRun_of_predicate (lent ▸ on)).succeeds.bind fun _ =>
      succeeds_lift_bind (lent ▸ joined) <| succeeds_pure _
  rcases succeeds other with ⟨again, next, repeated⟩
  refine ⟨again, next, repeated, ?_⟩
  rcases joinTable_eq_ok repeated with ⟨found, -, same, lentAgain, -⟩
  rw [accepted] at same
  cases same
  rw [lentAgain, lent]

theorem succeeds_joinTables {root : Entity} {navigations : List Navigation}
    {taken : List String} {draft later : Draft} {tables : List JoinedTable}
    (run : (scope.joinTables root taken navigations).runFrom draft = (.ok tables, later)) :
    (scope.joinTables root taken navigations).Succeeds := by
  induction navigations generalizing taken draft later tables with
  | nil => exact succeeds_pure []
  | cons navigation navigations induction =>
      simp only [joinTables, runFrom_bind_eq_ok] at run
      rcases run with ⟨table, middle, head, rest, last, tail, -⟩
      intro other
      rcases exists_joinTable head other with ⟨again, next, repeated, same⟩
      rcases induction (same ▸ tail) next with ⟨others, final, more⟩
      exact ⟨again :: others, final, runFrom_bind_eq_ok.mpr ⟨again, next, repeated,
        runFrom_bind_eq_ok.mpr ⟨others, final, more, rfl⟩⟩⟩

end Scope

/-- The clauses of a single value succeed where those of rows do, and its head does. -/
theorem ScalarClauses.succeeds_of_selectClauses {catalog : Catalog} {dialect : Dialect}
    {query : Query} {top : Option UInt32} {draft later : Draft} {clauses : SelectClauses}
    (run : (SelectClauses.build catalog dialect query top).runFrom draft = (.ok clauses, later))
    {head : Scope → Build Fragment} (headed : (head (.aliased catalog)).Succeeds) :
    (ScalarClauses.build catalog dialect query head).Succeeds := by
  rcases SelectClauses.run_of_build run with
    ⟨entity, _, tables, conditions, _, _, _, accepted, -, joins, filters, -, -, -⟩
  refine succeeds_lift_bind accepted ?_
  exact headed.bind fun _ => (Scope.succeeds_joinTables joins).bind fun _ =>
    (Scope.succeeds_whereClause filters).bind fun _ => succeeds_pure _

theorem ScalarClauses.succeeds_of_words {catalog : Catalog} {dialect : Dialect} {query : Query}
    {top : Option UInt32} {draft later : Draft} {clauses : SelectClauses}
    (run : (SelectClauses.build catalog dialect query top).runFrom draft = (.ok clauses, later))
    (words : Fragment) :
    (ScalarClauses.build catalog dialect query fun _ => return words).Succeeds :=
  succeeds_of_selectClauses run (Build.succeeds_pure words)

end EntitySql
