import EntitySql.Operation
import EntitySql.Proofs.WriteText

/-! Where the statements of a MySQL text end. Only the builds that ask the server twice write
a semicolon, one, and between two statements; every statement starts with its keyword and
ends in something that is shown, so that nothing of it is lost to trimming. -/

namespace EntitySql

namespace Fragment

/-- The fragment ends no statement. -/
def Single (fragment : Fragment) : Prop :=
  .symbol .semicolon ∉ fragment

@[simp] theorem single_nil : Single [] :=
  List.not_mem_nil

@[simp] theorem single_cons {token : Token} {rest : Fragment} :
    Single (token :: rest) ↔ token ≠ .symbol .semicolon ∧ rest.Single := by
  simp [Single, eq_comm]

@[simp] theorem single_append {left right : Fragment} :
    Single (left ++ right) ↔ left.Single ∧ right.Single := by
  simp [Single]

/-- It ends no statement, and it ends in a token that is not blank. -/
structure Solid (fragment : Fragment) : Prop where
  single : fragment.Single
  last : ∃ token, fragment.getLast? = some token ∧ token ≠ .space

@[simp] theorem solid_singleton {token : Token} :
    Solid [token] ↔ token ≠ .symbol .semicolon ∧ token ≠ .space :=
  ⟨fun solid => ⟨(single_cons.mp solid.single).1, by simpa using solid.last⟩,
    fun shown => ⟨single_cons.mpr ⟨shown.1, single_nil⟩, by simpa using shown.2⟩⟩

@[simp] theorem solid_cons_cons {token next : Token} {rest : Fragment} :
    Solid (token :: next :: rest) ↔ token ≠ .symbol .semicolon ∧ Solid (next :: rest) := by
  constructor
  · rintro ⟨single, last⟩
    exact ⟨(single_cons.mp single).1, (single_cons.mp single).2, by simpa using last⟩
  · rintro ⟨other, single, last⟩
    exact ⟨single_cons.mpr ⟨other, single⟩, by simpa using last⟩

@[simp] theorem solid_append_cons {left right : Fragment} {token : Token} :
    Solid (left ++ token :: right) ↔ left.Single ∧ Solid (token :: right) := by
  constructor
  · rintro ⟨single, last⟩
    exact ⟨(single_append.mp single).1, (single_append.mp single).2, by simpa using last⟩
  · rintro ⟨leftSingle, single, last⟩
    exact ⟨single_append.mpr ⟨leftSingle, single⟩, by simpa using last⟩

theorem Solid.ne_nil {fragment : Fragment} (solid : fragment.Solid) : fragment ≠ [] := by
  rintro rfl
  rcases solid.last with ⟨token, none, -⟩
  cases none

theorem Solid.after {left right : Fragment} (solid : right.Solid) (single : left.Single) :
    Solid (left ++ right) := by
  rcases List.exists_cons_of_ne_nil solid.ne_nil with ⟨token, rest, rfl⟩
  exact solid_append_cons.mpr ⟨single, solid⟩

theorem Solid.cons {token : Token} {fragment : Fragment} (solid : fragment.Solid)
    (other : token ≠ .symbol .semicolon) : Solid (token :: fragment) :=
  have single : Single [token] := single_cons.mpr ⟨other, single_nil⟩
  solid.after single

/-! The forms that statements are put together from. -/

@[simp] theorem single_words (texts : List String) : (words texts).Single := by
  induction texts with
  | nil => exact single_nil
  | cons first rest induction =>
      cases rest with
      | nil => exact single_cons.mpr ⟨by simp, single_nil⟩
      | cons second rest =>
          exact single_cons.mpr ⟨by simp, single_cons.mpr ⟨by simp, induction⟩⟩

theorem single_intercalate {between : Fragment} (plain : between.Single)
    {fragments : List Fragment} (single : ∀ fragment ∈ fragments, fragment.Single) :
    Single (between.intercalate fragments) := by
  induction fragments with
  | nil => exact single_nil
  | cons first rest induction =>
      rw [List.forall_mem_cons] at single
      cases rest with
      | nil =>
          rw [List.intercalate_singleton]
          exact single.1
      | cons second rest =>
          rw [List.intercalate_cons_cons, single_append, single_append]
          exact ⟨⟨single.1, plain⟩, induction single.2⟩

theorem solid_intercalate {between : Fragment} (plain : between.Single)
    {fragments : List Fragment} (given : fragments ≠ [])
    (solid : ∀ fragment ∈ fragments, fragment.Solid) : Solid (between.intercalate fragments) := by
  induction fragments with
  | nil => exact absurd rfl given
  | cons first rest induction =>
      rw [List.forall_mem_cons] at solid
      cases rest with
      | nil =>
          rw [List.intercalate_singleton]
          exact solid.1
      | cons second rest =>
          rw [List.intercalate_cons_cons]
          exact (induction (List.cons_ne_nil _ _) solid.2).after
            (single_append.mpr ⟨solid.1.single, plain⟩)

theorem single_commaSeparated {fragments : List Fragment}
    (single : ∀ fragment ∈ fragments, fragment.Single) : (commaSeparated fragments).Single :=
  single_intercalate (by simp) single

theorem solid_commaSeparated {fragments : List Fragment} (given : fragments ≠ [])
    (solid : ∀ fragment ∈ fragments, fragment.Solid) : (commaSeparated fragments).Solid :=
  solid_intercalate (by simp) given solid

theorem single_flatten {fragments : List Fragment}
    (single : ∀ fragment ∈ fragments, fragment.Single) : Single fragments.flatten := by
  intro ends
  rcases List.mem_flatten.mp ends with ⟨fragment, listed, ends⟩
  exact single fragment listed ends

@[simp] theorem solid_parenthesized {fragment : Fragment} :
    (parenthesized fragment).Solid ↔ fragment.Single := by
  have shape : parenthesized fragment = (.symbol .openParen :: fragment) ++ [.symbol .closeParen] :=
    rfl
  rw [shape, solid_append_cons]
  simp

@[simp] theorem solid_call {function : String} {argument : Fragment} :
    (call function argument).Solid ↔ argument.Single := by
  have shape : call function argument = [.word function] ++ parenthesized argument := rfl
  rw [shape, parenthesized]
  exact ⟨fun solid => by simpa using solid.single,
    fun single => (solid_parenthesized.mpr single).after (by simp)⟩

theorem Solid.joined {left right : Fragment} {glyph : Symbol} (first : left.Solid)
    (second : right.Solid) (other : glyph ≠ .semicolon) :
    (Fragment.joined left glyph right).Solid :=
  second.after (by simp [first.single, other])

theorem Solid.connected {left right : Fragment} {connective : Connective} (first : left.Solid)
    (second : right.Solid) : (Fragment.connected left connective right).Solid :=
  second.after (by simp [first.single])

@[simp] theorem solid_renamed {column : Fragment} {name : String} :
    (renamed column name).Solid ↔ column.Single := by
  simp [renamed]

theorem solid_nullTest {operand : Fragment} (solid : operand.Solid) (negated : Bool) :
    (nullTest operand negated).Solid := by
  cases negated <;> simp [nullTest, words, List.intersperse, solid.single]

theorem solid_always : always.Solid := by
  simp [always]

theorem solid_never : never.Solid := by
  simp [never]

theorem solid_number (value : Nat) : (number value).Solid := by
  simp [number]

theorem Solid.bracketed {fragment : Fragment} (solid : fragment.Solid) (bracketed : Bool) :
    Solid (if bracketed then parenthesized fragment else fragment) := by
  cases bracketed with
  | false => exact solid
  | true => exact solid_parenthesized.mpr solid.single

/-- A spaced fragment ends in the last of its parts that is there. -/
theorem solid_spaced_cons {first : Fragment} {rest : List Fragment} (single : first.Single)
    (solid : (spaced rest).Solid) : (spaced (first :: rest)).Solid := by
  cases first with
  | nil => exact solid
  | cons token first =>
      have kept : rest.filter (!·.isEmpty) ≠ [] := by
        intro none
        rw [spaced, none] at solid
        exact solid.ne_nil rfl
      rcases List.exists_cons_of_ne_nil kept with ⟨second, others, shown⟩
      have shape : spaced ((token :: first) :: rest) = token :: first ++ [.space] ++ spaced rest := by
        simp [spaced, shown, List.intercalate_cons_cons]
      rw [shape]
      exact solid.after (single_append.mpr ⟨single, by simp⟩)

theorem solid_spaced {last : Fragment} (solid : last.Solid) {optional : List Fragment}
    (each : ∀ fragment ∈ optional, fragment = [] ∨ fragment.Solid) :
    (spaced (last :: optional)).Solid := by
  induction optional generalizing last with
  | nil =>
      rcases List.exists_cons_of_ne_nil solid.ne_nil with ⟨token, rest, rfl⟩
      simpa [spaced, List.intercalate_singleton] using solid
  | cons fragment optional induction =>
      rw [List.forall_mem_cons] at each
      rcases each.1 with rfl | shown
      · have gap : spaced (last :: [] :: optional) = spaced (last :: optional) := by
          simp [spaced, List.filter_cons]
        rw [gap]
        exact induction solid each.2
      · exact solid_spaced_cons solid.single (induction shown each.2)

/-- Conditions that are added keep the end of a clause solid. -/
theorem Solid.append_flatMap {clause : Fragment} (solid : clause.Solid)
    {conditions : List Fragment} (each : ∀ condition ∈ conditions, condition.Solid) :
    Solid (clause ++ conditions.flatMap fun condition =>
      [.space, .word "AND", .space] ++ condition) := by
  induction conditions generalizing clause with
  | nil => simpa using solid
  | cons condition conditions induction =>
      rw [List.forall_mem_cons] at each
      rw [List.flatMap_cons, ← List.append_assoc]
      refine induction ?_ each.2
      rw [← List.append_assoc]
      exact each.1.after (by simp [solid.single])

end Fragment

/-! Expressions. -/

namespace Scope

variable {scope : Scope}

theorem solid_columnUnder {aliasName property : String} {entity : Entity} {column : Fragment}
    (found : scope.columnUnder aliasName entity property = .ok column) : column.Solid := by
  rcases columnUnder_eq_ok.mp found with ⟨name, -, rfl⟩
  cases shown : scope.qualifierUnder aliasName <;> simp [ColumnReference.fragment]

theorem solid_member {path : MemberPath} {column : Fragment}
    (found : scope.member path = .ok column) : column.Solid := by
  rcases bind_eq_ok.mp found with ⟨entity, -, found⟩
  split at found <;> exact solid_columnUnder found

end Scope

namespace Build

theorem solid_input {base : String} {value : Value} {draft later : Draft} {fragment : Fragment}
    (run : (input base value).runFrom draft = (.ok fragment, later)) : fragment.Solid := by
  rw [runFrom_input] at run
  cases run
  simp

theorem solid_inputs {base : String} {values : List Value} {draft later : Draft}
    {fragments : List Fragment}
    (run : (inputs base values).runFrom draft = (.ok fragments, later)) :
    ∀ fragment ∈ fragments, fragment.Solid := by
  intro fragment listed
  rcases exists_mem_of_forall₂ (placeholders_of_inputs run) fragment listed with
    ⟨_, -, name, rfl⟩
  simp

end Build

namespace Expr

theorem ScalarRun.solid {scope : Scope} {expression : Expr} {hint : String}
    {draft later : Draft} {fragment : Fragment}
    (steps : ScalarRun scope hint expression draft fragment later) : fragment.Solid := by
  induction steps with
  | member path found => exact Scope.solid_member found
  | constant value bound => exact Build.solid_input bound
  | arithmetic operator _ _ head tail =>
      have other : operator.symbol ≠ .semicolon := by cases operator <;> decide
      exact Fragment.solid_parenthesized.mpr (head.joined tail other).single
  | aggregate function _ inner => exact Fragment.solid_call.mpr inner.single
  | count => exact Fragment.solid_call.mpr (by simp)
  | lambda _ inner => exact inner

theorem CompareRun.solid {scope : Scope} {operator : Comparison} {left right : Expr}
    {draft later : Draft} {fragment : Fragment}
    (steps : CompareRun scope operator left right draft fragment later) : fragment.Solid := by
  cases steps with
  | nullOnRight _ _ inner | nullOnLeft _ _ _ inner => exact Fragment.solid_nullTest inner.solid _
  | sides _ _ head tail => exact head.solid.joined tail.solid (by cases operator <;> decide)

theorem PredicateRun.solid {scope : Scope} {expression : Expr} {draft later : Draft}
    {fragment : Fragment} (steps : PredicateRun scope expression draft fragment later) :
    fragment.Solid := by
  induction steps with
  | member path found bound =>
      exact (Scope.solid_member found).joined (Build.solid_input bound) (by decide)
  | always => exact Fragment.solid_always
  | never => exact Fragment.solid_never
  | comparison sides => exact sides.solid
  | logical connective left right _ _ head tail =>
      exact (head.bracketed _).connected (tail.bracketed _)
  | negation operand _ inner =>
      have enclosed := Fragment.solid_parenthesized.mpr inner.single
      exact (enclosed.cons (by simp)).cons (by simp)
  | nullTest negated inner => exact Fragment.solid_nullTest inner.solid negated
  | emptyList negated =>
      cases negated with
      | false => exact Fragment.solid_never
      | true => exact Fragment.solid_always
  | inList item items negated inner binding =>
      have members := Fragment.single_commaSeparated fun fragment listed =>
        (Build.solid_inputs binding fragment listed).single
      refine ((Fragment.solid_parenthesized.mpr members).cons (by simp)).after ?_
      simp [inner.solid.single, Fragment.operatorWord]
  | like pattern anchor negated inner binding =>
      refine ((Build.solid_input binding).cons (by simp)).after ?_
      simp [inner.solid.single, Fragment.operatorWord]
  | between low high inner lower upper =>
      refine Fragment.Solid.connected (Fragment.Solid.after ?_ inner.solid.single)
        (Build.solid_input upper)
      exact (((Build.solid_input lower).cons (by simp)).cons (by simp)).cons (by simp)
  | lambda _ inner => exact inner

theorem solid_scalar {scope : Scope} {expression : Expr} {hint : String} {draft later : Draft}
    {fragment : Fragment}
    (run : (expression.scalar scope hint).runFrom draft = (.ok fragment, later)) :
    fragment.Solid :=
  (scalarRun_of_scalar run).solid

theorem solid_predicate {scope : Scope} {expression : Expr} {draft later : Draft}
    {fragment : Fragment}
    (run : (expression.predicate scope).runFrom draft = (.ok fragment, later)) :
    fragment.Solid :=
  (predicateRun_of_predicate run).solid

end Expr

namespace Scope

variable {scope : Scope}

/-! Clauses. -/

/-- What is built from items is not empty where they are not. -/
theorem solid_of_forall₂ {α : Type} {built : Fragment → α → Prop}
    (solid : ∀ fragment item, built fragment item → fragment.Solid) {fragments : List Fragment}
    {items : List α} (each : List.Forall₂ built fragments items) :
    (items ≠ [] → fragments ≠ []) ∧ ∀ fragment ∈ fragments, fragment.Solid := by
  constructor
  · rintro given rfl
    cases each
    exact given rfl
  · intro fragment listed
    rcases exists_mem_of_forall₂ each fragment listed with ⟨item, -, own⟩
    exact solid fragment item own

theorem solid_conjuncts {expressions : List Expr} {draft later : Draft}
    {fragments : List Fragment}
    (run : (scope.conjuncts expressions).runFrom draft = (.ok fragments, later)) :
    (expressions ≠ [] → fragments ≠ []) ∧ ∀ fragment ∈ fragments, fragment.Solid := by
  refine solid_of_forall₂ ?_ (runs_of_conjuncts run)
  rintro _ expression ⟨before, condition, after, steps, rfl⟩
  exact steps.solid.bracketed _

theorem solid_scalars {expressions : List Expr} {draft later : Draft}
    {fragments : List Fragment}
    (run : (scope.scalars expressions).runFrom draft = (.ok fragments, later)) :
    (expressions ≠ [] → fragments ≠ []) ∧ ∀ fragment ∈ fragments, fragment.Solid := by
  refine solid_of_forall₂ ?_ (runs_of_scalars run)
  rintro fragment expression ⟨before, after, steps⟩
  exact steps.solid

theorem solid_sortKeys {items : List SortKey} {draft later : Draft} {fragments : List Fragment}
    (run : (scope.sortKeys items).runFrom draft = (.ok fragments, later)) :
    (items ≠ [] → fragments ≠ []) ∧ ∀ fragment ∈ fragments, fragment.Solid := by
  refine solid_of_forall₂ ?_ (runs_of_sortKeys run)
  rintro _ item ⟨before, key, after, direction, -, steps, rfl⟩
  simp [steps.solid.single]

theorem solid_whereClause {filters : List Expr} {draft later : Draft} {fragment : Fragment}
    (run : (scope.whereClause filters).runFrom draft = (.ok fragment, later)) :
    fragment.Solid := by
  simp only [whereClause, Build.runFrom_bind_eq_ok, Build.runFrom_pure_eq_ok] at run
  rcases run with ⟨conditions, last, inner, rfl, rfl⟩
  exact (Fragment.solid_always.after (by simp)).append_flatMap (solid_conjuncts inner).2

theorem solid_groupClause {keys : List Expr} {draft later : Draft} {fragment : Fragment}
    (run : (scope.groupClause keys).runFrom draft = (.ok fragment, later)) :
    fragment = [] ∨ fragment.Solid := by
  rcases groupClause_cases run with ⟨-, rfl, -⟩ | ⟨given, fragments, inner, rfl⟩
  · exact .inl rfl
  · rcases solid_scalars inner with ⟨some', solid⟩
    have listed := Fragment.solid_commaSeparated (some' given) solid
    exact .inr ((listed.cons (by simp)).after (Fragment.single_words _))

theorem solid_havingClause {conditions : List Expr} {draft later : Draft} {fragment : Fragment}
    (run : (scope.havingClause conditions).runFrom draft = (.ok fragment, later)) :
    fragment = [] ∨ fragment.Solid := by
  rcases havingClause_cases run with ⟨-, rfl, -⟩ | ⟨given, fragments, inner, rfl⟩
  · exact .inl rfl
  · rcases solid_conjuncts inner with ⟨some', solid⟩
    exact .inr ((Fragment.solid_intercalate (by simp) (some' given) solid).after (by simp))

theorem solid_orderClause {items : List SortKey} {draft later : Draft} {fragment : Fragment}
    (run : (scope.orderClause items).runFrom draft = (.ok fragment, later)) :
    fragment = [] ∨ fragment.Solid := by
  rcases orderClause_cases run with ⟨-, rfl, -⟩ | ⟨given, fragments, inner, rfl⟩
  · exact .inl rfl
  · rcases solid_sortKeys inner with ⟨some', solid⟩
    have listed := Fragment.solid_commaSeparated (some' given) solid
    exact .inr ((listed.cons (by simp)).after (Fragment.single_words _))

/-! Select lists. -/

theorem single_fieldList {entity : Entity} {columns : Fragment}
    (found : scope.fieldList entity = .ok columns) : columns.Single := by
  rcases fieldList_cases found with ⟨fragments, rfl, each⟩
  apply Fragment.single_commaSeparated
  intro fragment listed
  rcases exists_mem_of_forall₂ each fragment listed with
    ⟨field, -, column, reached, ⟨-, rfl⟩ | rfl⟩
  · exact (solid_columnUnder reached).single
  · exact (Fragment.solid_renamed.mpr (solid_columnUnder reached).single).single

theorem single_selectedMember {path : MemberPath} {fragment : Fragment}
    (found : scope.selectedMember path = .ok fragment) : fragment.Single := by
  rcases selectedMember_cases found with ⟨entity, column, -, reached, rfl | rfl⟩
  · exact (solid_columnUnder reached).single
  · exact (Fragment.solid_renamed.mpr (solid_columnUnder reached).single).single

theorem single_selectedBindings {bindings : List (String × Expr)} {draft later : Draft}
    {fragments : List Fragment}
    (run : (scope.selectedBindings bindings).runFrom draft = (.ok fragments, later)) :
    ∀ fragment ∈ fragments, fragment.Single := by
  intro fragment listed
  rcases exists_mem_of_forall₂ (runs_of_selectedBindings run) fragment listed with
    ⟨binding, -, before, value, after, steps, rfl⟩
  exact (Fragment.solid_renamed.mpr steps.solid.single).single

theorem single_projection {selector : Expr} {draft later : Draft} {columns : Fragment}
    (run : (scope.projection selector).runFrom draft = (.ok columns, later)) :
    columns.Single := by
  cases projectionRun_of_projection run with
  | member path shape found => exact single_selectedMember found
  | record name bindings fragments shape given inner =>
      exact Fragment.single_commaSeparated (single_selectedBindings inner)
  | scalar _ inner => exact (Expr.solid_scalar inner).single

theorem single_selectList {entity : Entity} {select : Option Expr} {draft later : Draft}
    {columns : Fragment}
    (run : (scope.selectList entity select).runFrom draft = (.ok columns, later)) :
    columns.Single := by
  cases select with
  | none =>
      rw [selectList, Build.runFrom_lift_eq_ok] at run
      exact single_fieldList run.1
  | some selector => exact single_projection run

theorem single_summarizedColumn {selector : Option Expr} {draft later : Draft}
    {column : Fragment}
    (run : (scope.summarizedColumn selector).runFrom draft = (.ok column, later)) :
    column.Single := by
  unfold summarizedColumn at run
  split at run
  · cases run
  · split at run
    · rw [Build.runFrom_lift_eq_ok] at run
      exact (solid_member run.1).single
    · cases run

end Scope

end EntitySql
