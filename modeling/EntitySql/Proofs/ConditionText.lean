import EntitySql.Proofs.Binding
import EntitySql.Proofs.Column
import EntitySql.Proofs.ConditionRuns
import EntitySql.Sql.Clause

/-! The text of scalars and conditions: legible, with one placeholder for every
parameter that is bound, in the order of binding. Parameters are named after
members, so the members have to have names that a placeholder can carry. -/

namespace EntitySql

namespace Expr

mutual

/-- Every member that the expression names. -/
def members : Expr → List MemberPath
  | .member reference => [reference]
  | .constant _ => []
  | .comparison _ left right => left.members ++ right.members
  | .arithmetic _ left right => left.members ++ right.members
  | .logical _ left right => left.members ++ right.members
  | .negation operand => operand.members
  | .nullTest operand _ => operand.members
  | .inList operand _ _ => operand.members
  | .like operand _ _ _ => operand.members
  | .between operand _ _ => operand.members
  | .aggregate _ operand => operand.members
  | .bareAggregate _ => []
  | .record _ bindings => membersBound bindings
  | .lambda _ inner => inner.members

def membersBound : List (String × Expr) → List MemberPath
  | [] => []
  | (_, value) :: rest => value.members ++ membersBound rest

end

/-- The members that the catalog maps have plain identifiers for names. -/
def PlainMembers (catalog : Catalog) (expression : Expr) : Prop :=
  ∀ path ∈ expression.members, catalog.Maps path → isPlainIdentifier path.member = true

theorem plainMembers_append {catalog : Catalog} {expression : Expr} (left right : Expr)
    (members : expression.members = left.members ++ right.members)
    (plain : expression.PlainMembers catalog) :
    left.PlainMembers catalog ∧ right.PlainMembers catalog :=
  ⟨fun path member => plain path (by simp [members, member]),
    fun path member => plain path (by simp [members, member])⟩

/-- The name, where there is one, can be that of a parameter. -/
def PlainHint (hint? : Option String) : Prop :=
  ∀ name ∈ hint?, isPlainIdentifier name = true

theorem PlainHint.orElse {first second : Option String} (left : PlainHint first)
    (right : PlainHint second) : PlainHint (first <|> second) := by
  cases first with
  | some name => exact left
  | none => exact right

theorem PlainHint.getD {hint? : Option String} (hint : PlainHint hint?) {fallback : String}
    (plain : isPlainIdentifier fallback = true) :
    isPlainIdentifier (hint?.getD fallback) = true := by
  cases hint? with
  | some name => exact hint name rfl
  | none => exact plain

theorem isPlainIdentifier_unnamed : isPlainIdentifier unnamed = true := by
  decide

/-- A member that was built is mapped, so that its name is plain. -/
theorem ScalarRun.plainHint {scope : Scope} {hint : String} {expression : Expr}
    {draft later : Draft} {fragment : Fragment}
    (steps : ScalarRun scope hint expression draft fragment later)
    (plain : expression.PlainMembers scope.catalog) : PlainHint expression.hint? := by
  induction steps with
  | member path found =>
      rcases Scope.member_eq_ok.mp found with ⟨reference, resolved, -⟩
      intro name named
      cases Option.some.inj named
      exact plain path (by simp [members]) (Scope.maps_of_reference? resolved)
  | constant | count => exact fun _ named => absurd named (Option.not_mem_none _)
  | arithmetic operator _ _ head tail =>
      have parts := plainMembers_append _ _ rfl plain
      exact (head parts.1).orElse (tail parts.2)
  | aggregate _ _ inner | lambda _ inner => exact inner plain

/-! Scalars. -/

theorem bare_member {scope : Scope} (joins : scope.PlainJoin) {path : MemberPath}
    {column : Fragment} (found : scope.member path = .ok column) : column.Bare := by
  rcases Scope.member_eq_ok.mp found with ⟨reference, resolved, rfl⟩
  exact ColumnReference.bare_fragment (Scope.plain_of_reference? joins resolved)

theorem proper_keyword (function : Aggregate) : (Token.word function.keyword).Proper := by
  cases function <;> decide

theorem ScalarRun.written {scope : Scope} (joins : scope.PlainJoin) {hint : String}
    {expression : Expr} {draft later : Draft} {fragment : Fragment}
    (steps : ScalarRun scope hint expression draft fragment later)
    (plain : expression.PlainMembers scope.catalog) (hinted : isPlainIdentifier hint = true) :
    draft.Written fragment later := by
  induction steps with
  | member path found => exact Draft.written_bare (bare_member joins found)
  | constant value bound => exact Build.written_input hinted bound
  | arithmetic operator head tail headWritten tailWritten =>
      have parts := plainMembers_append _ _ rfl plain
      have named := ((head.plainHint parts.1).orElse (tail.plainHint parts.2)).getD hinted
      have leftWritten := headWritten parts.1 named
      have rightWritten := tailWritten parts.2 named
      exact ⟨by simp [leftWritten.legible, rightWritten.legible], by
        simpa using leftWritten.binds.trans rightWritten.binds⟩
  | aggregate function inner innerWritten =>
      have written := innerWritten plain ((inner.plainHint plain).getD hinted)
      exact written.within (Fragment.legible_call (proper_keyword function)).mpr (by simp)
  | count =>
      exact Draft.written_bare ⟨(Fragment.legible_call (by decide)).mpr
        (Fragment.legible_singleton.mpr (by decide)), rfl⟩
  | lambda _ innerWritten => exact innerWritten plain hinted

theorem written_scalar {scope : Scope} (joins : scope.PlainJoin) {expression : Expr}
    {hint : String} {draft later : Draft} {fragment : Fragment}
    (plain : expression.PlainMembers scope.catalog) (hinted : isPlainIdentifier hint = true)
    (run : (expression.scalar scope hint).runFrom draft = (.ok fragment, later)) :
    draft.Written fragment later :=
  (scalarRun_of_scalar run).written joins plain hinted

/-! Conditions. -/

theorem CompareRun.written {scope : Scope} (joins : scope.PlainJoin) {operator : Comparison}
    {left right : Expr} {draft later : Draft} {fragment : Fragment}
    (steps : CompareRun scope operator left right draft fragment later)
    (leftPlain : left.PlainMembers scope.catalog)
    (rightPlain : right.PlainMembers scope.catalog) : draft.Written fragment later := by
  cases steps with
  | nullOnRight _ _ inner =>
      have written := inner.written joins leftPlain isPlainIdentifier_unnamed
      exact written.within Fragment.legible_nullTest.mpr (by simp)
  | nullOnLeft _ _ _ inner =>
      have written := inner.written joins rightPlain isPlainIdentifier_unnamed
      exact written.within Fragment.legible_nullTest.mpr (by simp)
  | sides _ _ head tail =>
      have rightJoins : scope.inRightOperand.PlainJoin := joins
      have rightMembers : right.PlainMembers scope.inRightOperand.catalog := rightPlain
      have hinted := ((head.plainHint leftPlain).orElse
        (tail.plainHint rightMembers)).getD isPlainIdentifier_unnamed
      have leftWritten := head.written joins leftPlain hinted
      have rightWritten := tail.written rightJoins rightMembers hinted
      exact ⟨by simp [leftWritten.legible, rightWritten.legible], by
        simpa using leftWritten.binds.trans rightWritten.binds⟩

theorem PredicateRun.written {scope : Scope} (joins : scope.PlainJoin) {expression : Expr}
    {draft later : Draft} {fragment : Fragment}
    (steps : PredicateRun scope expression draft fragment later)
    (plain : expression.PlainMembers scope.catalog) : draft.Written fragment later := by
  induction steps with
  | member path found bound =>
      rcases Scope.member_eq_ok.mp found with ⟨reference, resolved, -⟩
      have named := plain path (by simp [members]) (Scope.maps_of_reference? resolved)
      have columnBare := bare_member joins found
      have truthWritten := Build.written_input named bound
      exact ⟨by simp [columnBare.legible, truthWritten.legible], by
        simpa using (Draft.written_bare columnBare).binds.trans truthWritten.binds⟩
  | always => exact Draft.written_bare Fragment.bare_always
  | never => exact Draft.written_bare Fragment.bare_never
  | comparison sides =>
      have parts := plainMembers_append _ _ rfl plain
      exact sides.written joins parts.1 parts.2
  | logical connective left right _ _ headWritten tailWritten =>
      have parts := plainMembers_append left right rfl plain
      have leftWritten := (headWritten parts.1).bracketed (left.mixesWith connective)
      have rightWritten := (tailWritten parts.2).bracketed (right.mixesWith connective)
      exact ⟨by simp [leftWritten.legible, rightWritten.legible], by
        simpa using leftWritten.binds.trans rightWritten.binds⟩
  | negation operand _ innerWritten =>
      refine (innerWritten plain).within (fun legible => ?_) (by simp)
      exact (Fragment.legible_cons_cons rfl).mpr
        ⟨by decide, Fragment.legible_parenthesized.mpr legible⟩
  | nullTest negated inner =>
      have written := inner.written joins plain isPlainIdentifier_unnamed
      exact written.within Fragment.legible_nullTest.mpr (by simp)
  | emptyList negated =>
      cases negated with
      | false => exact Draft.written_bare Fragment.bare_never
      | true => exact Draft.written_bare Fragment.bare_always
  | inList item items negated inner bound =>
      have hinted := (inner.plainHint plain).getD isPlainIdentifier_unnamed
      have subjectWritten := inner.written joins plain hinted
      have itemsWritten := (Build.writtenAll_inputs hinted bound).commaSeparated
      refine ⟨?_, by simpa using subjectWritten.binds.trans itemsWritten.binds⟩
      rw [List.append_assoc, List.cons_append, Fragment.legible_append_cons rfl,
        Fragment.legible_append_cons rfl, Fragment.legible_parenthesized]
      exact ⟨subjectWritten.legible, Fragment.legible_operatorWord (by decide) negated,
        itemsWritten.legible⟩
  | like pattern anchor negated inner bound =>
      have hinted := (inner.plainHint plain).getD isPlainIdentifier_unnamed
      have subjectWritten := inner.written joins plain hinted
      have boundWritten := Build.written_input hinted bound
      refine ⟨?_, by simpa using subjectWritten.binds.trans boundWritten.binds⟩
      rw [List.append_assoc, List.cons_append, Fragment.legible_append_cons rfl,
        Fragment.legible_append_cons rfl]
      exact ⟨subjectWritten.legible, Fragment.legible_operatorWord (by decide) negated,
        boundWritten.legible⟩
  | between low high inner lower upper =>
      have hinted := (inner.plainHint plain).getD isPlainIdentifier_unnamed
      have subjectWritten := inner.written joins plain hinted
      have leastWritten := Build.written_input hinted lower
      have greatestWritten := Build.written_input hinted upper
      refine ⟨?_, by
        simpa using (subjectWritten.binds.trans leastWritten.binds).trans
          greatestWritten.binds⟩
      rw [Fragment.legible_connected, Fragment.legible_append_cons rfl,
        Fragment.legible_cons_cons rfl]
      exact ⟨⟨subjectWritten.legible, by decide, leastWritten.legible⟩,
        greatestWritten.legible⟩
  | lambda _ innerWritten => exact innerWritten plain

theorem written_predicate {scope : Scope} (joins : scope.PlainJoin) {expression : Expr}
    {draft later : Draft} {fragment : Fragment}
    (plain : expression.PlainMembers scope.catalog)
    (run : (expression.predicate scope).runFrom draft = (.ok fragment, later)) :
    draft.Written fragment later :=
  (predicateRun_of_predicate run).written joins plain

theorem written_conjunct {scope : Scope} (joins : scope.PlainJoin) {expression : Expr}
    {draft later : Draft} {fragment : Fragment}
    (plain : expression.PlainMembers scope.catalog)
    (run : (expression.conjunct scope).runFrom draft = (.ok fragment, later)) :
    draft.Written fragment later := by
  simp only [conjunct, Build.runFrom_bind_eq_ok, Build.runFrom_pure_eq_ok] at run
  rcases run with ⟨condition, middle, inner, rfl, rfl⟩
  exact (written_predicate joins plain inner).bracketed (expression.mixesWith .and)

end Expr

/-! Clauses. -/

namespace Scope

variable {scope : Scope}

theorem writtenAll_conjuncts (joins : scope.PlainJoin) {expressions : List Expr}
    {draft later : Draft} {fragments : List Fragment}
    (plain : ∀ expression ∈ expressions, expression.PlainMembers scope.catalog)
    (run : (scope.conjuncts expressions).runFrom draft = (.ok fragments, later)) :
    draft.WrittenAll fragments later := by
  induction expressions generalizing draft fragments with
  | nil =>
      rw [conjuncts, Build.runFrom_pure_eq_ok] at run
      rcases run with ⟨rfl, rfl⟩
      exact draft.writtenAll_nil
  | cons expression expressions induction =>
      simp only [conjuncts, Build.runFrom_bind_eq_ok, Build.runFrom_pure_eq_ok] at run
      rcases run with ⟨first, middle, head, rest, last, tail, rfl, rfl⟩
      exact (Expr.written_conjunct joins (plain expression List.mem_cons_self) head).cons
        (induction (fun other member => plain other (List.mem_cons_of_mem _ member)) tail)

theorem writtenAll_scalars (joins : scope.PlainJoin) {expressions : List Expr}
    {draft later : Draft} {fragments : List Fragment}
    (plain : ∀ expression ∈ expressions, expression.PlainMembers scope.catalog)
    (run : (scope.scalars expressions).runFrom draft = (.ok fragments, later)) :
    draft.WrittenAll fragments later := by
  induction expressions generalizing draft fragments with
  | nil =>
      rw [scalars, Build.runFrom_pure_eq_ok] at run
      rcases run with ⟨rfl, rfl⟩
      exact draft.writtenAll_nil
  | cons expression expressions induction =>
      simp only [scalars, Build.runFrom_bind_eq_ok, Build.runFrom_pure_eq_ok] at run
      rcases run with ⟨first, middle, head, rest, last, tail, rfl, rfl⟩
      have written := Expr.written_scalar joins (plain expression List.mem_cons_self)
        Expr.isPlainIdentifier_unnamed head
      exact written.cons
        (induction (fun other member => plain other (List.mem_cons_of_mem _ member)) tail)

theorem writtenAll_sortKeys (joins : scope.PlainJoin) {items : List SortKey}
    {draft later : Draft} {fragments : List Fragment}
    (plain : ∀ item ∈ items, item.expression.PlainMembers scope.catalog)
    (run : (scope.sortKeys items).runFrom draft = (.ok fragments, later)) :
    draft.WrittenAll fragments later := by
  induction items generalizing draft fragments with
  | nil =>
      rw [sortKeys, Build.runFrom_pure_eq_ok] at run
      rcases run with ⟨rfl, rfl⟩
      exact draft.writtenAll_nil
  | cons item items induction =>
      simp only [sortKeys, Build.runFrom_bind_eq_ok, Build.runFrom_pure_eq_ok] at run
      rcases run with ⟨key, middle, head, rest, last, tail, rfl, rfl⟩
      have written := Expr.written_scalar joins (plain item List.mem_cons_self)
        Expr.isPlainIdentifier_unnamed head
      refine Draft.Written.cons (written.within (fun legible => ?_) (by simp))
        (induction (fun other member => plain other (List.mem_cons_of_mem _ member)) tail)
      rw [Fragment.legible_append_cons rfl, Fragment.legible_singleton]
      refine ⟨legible, ?_⟩
      cases item.direction <;> decide

/-- A condition after the keyword that makes it hold beside those before it. -/
def added (condition : Fragment) : Fragment :=
  .space :: .word "AND" :: .space :: condition

theorem written_added {draft later : Draft} {conditions : List Fragment}
    (written : draft.WrittenAll conditions later) :
    draft.Written (conditions.flatMap added) later := by
  rcases written with ⟨legible, binds⟩
  refine ⟨?_, ?_⟩
  · refine Fragment.legible_flatten ?_ ?_ <;>
      simp only [List.mem_map, forall_exists_index, and_imp, forall_apply_eq_imp_iff₂]
    · intro condition member
      exact (Fragment.legible_cons rfl).mpr <| (Fragment.legible_cons_cons rfl).mpr
        ⟨by decide, legible condition member⟩
    · exact fun condition _ => Fragment.startsApart_cons rfl
  · have bare : ∀ conditions : List Fragment,
        Fragment.placeholders (conditions.flatMap added) =
          conditions.flatMap Fragment.placeholders := by
      intro conditions
      induction conditions with
      | nil => rfl
      | cons condition conditions induction =>
          rw [List.flatMap_cons, Fragment.placeholders_append, induction]
          rfl
    rwa [bare]

theorem written_whereClause (joins : scope.PlainJoin) {filters : List Expr}
    {draft later : Draft} {fragment : Fragment}
    (plain : ∀ expression ∈ filters, expression.PlainMembers scope.catalog)
    (run : (scope.whereClause filters).runFrom draft = (.ok fragment, later)) :
    draft.Written fragment later := by
  simp only [whereClause, Build.runFrom_bind_eq_ok, Build.runFrom_pure_eq_ok] at run
  rcases run with ⟨conditions, last, inner, rfl, rfl⟩
  have written := written_added (writtenAll_conjuncts joins plain inner)
  have apart : Fragment.StartsApart (conditions.flatMap added) := by
    cases conditions with
    | nil => exact fun _ member => absurd member (Option.not_mem_none _)
    | cons condition conditions => exact Fragment.startsApart_cons rfl
  refine written.within (fun legible => ?_) rfl
  exact Fragment.legible_append
    ((Fragment.legible_cons_cons rfl).mpr ⟨by decide, Fragment.bare_always.legible⟩) legible apart

/-- A clause is empty just where nothing is asked of it. -/
theorem optional_cases {items : List α} {compile : Build (List Fragment)}
    {clause : List Fragment → Fragment} {draft later : Draft} {fragment : Fragment}
    (run : Build.runFrom (if items.isEmpty then return [] else return clause (← compile)) draft =
      (.ok fragment, later)) :
    (items = [] ∧ fragment = [] ∧ later = draft) ∨
    (items ≠ [] ∧ ∃ fragments, compile.runFrom draft = (.ok fragments, later) ∧
      fragment = clause fragments) := by
  split at run
  · next none =>
      rw [Build.runFrom_pure_eq_ok] at run
      rcases run with ⟨rfl, rfl⟩
      exact .inl ⟨List.isEmpty_iff.mp none, rfl, rfl⟩
  · next given =>
      simp only [Build.runFrom_bind_eq_ok, Build.runFrom_pure_eq_ok] at run
      rcases run with ⟨fragments, _, compiled, rfl, rfl⟩
      exact .inr ⟨by simpa using given, fragments, compiled, rfl⟩

theorem havingClause_cases {conditions : List Expr} {draft later : Draft} {fragment : Fragment}
    (run : (scope.havingClause conditions).runFrom draft = (.ok fragment, later)) :
    (conditions = [] ∧ fragment = [] ∧ later = draft) ∨
    (conditions ≠ [] ∧ ∃ fragments,
      (scope.conjuncts conditions).runFrom draft = (.ok fragments, later) ∧
      fragment = [.word "HAVING", .space] ++
        [Token.space, .word "AND", .space].intercalate fragments) :=
  optional_cases run

theorem groupClause_cases {keys : List Expr} {draft later : Draft} {fragment : Fragment}
    (run : (scope.groupClause keys).runFrom draft = (.ok fragment, later)) :
    (keys = [] ∧ fragment = [] ∧ later = draft) ∨
    (keys ≠ [] ∧ ∃ fragments, (scope.scalars keys).runFrom draft = (.ok fragments, later) ∧
      fragment = Fragment.words ["GROUP", "BY"] ++ .space ::
        Fragment.commaSeparated fragments) :=
  optional_cases run

theorem orderClause_cases {items : List SortKey} {draft later : Draft} {fragment : Fragment}
    (run : (scope.orderClause items).runFrom draft = (.ok fragment, later)) :
    (items = [] ∧ fragment = [] ∧ later = draft) ∨
    (items ≠ [] ∧ ∃ fragments, (scope.sortKeys items).runFrom draft = (.ok fragments, later) ∧
      fragment = Fragment.words ["ORDER", "BY"] ++ .space ::
        Fragment.commaSeparated fragments) :=
  optional_cases run

theorem written_havingClause (joins : scope.PlainJoin) {conditions : List Expr}
    {draft later : Draft} {fragment : Fragment}
    (plain : ∀ expression ∈ conditions, expression.PlainMembers scope.catalog)
    (run : (scope.havingClause conditions).runFrom draft = (.ok fragment, later)) :
    draft.Written fragment later := by
  rcases havingClause_cases run with ⟨-, rfl, rfl⟩ | ⟨-, fragments, inner, rfl⟩
  · exact Draft.written_bare Fragment.bare_nil
  · rcases writtenAll_conjuncts joins plain inner with ⟨legible, binds⟩
    refine ⟨(Fragment.legible_cons_cons rfl).mpr ⟨by decide, ?_⟩, ?_⟩
    · refine Fragment.legible_intercalate (fun left right first second => ?_) legible
      rw [List.append_assoc]
      exact (Fragment.legible_append_cons rfl).mpr
        ⟨first, (Fragment.legible_cons_cons rfl).mpr ⟨by decide, second⟩⟩
    · have none : Fragment.placeholders [.space, .word "AND", .space] = [] := rfl
      exact Fragment.placeholders_intercalate none fragments ▸ binds

theorem written_groupClause (joins : scope.PlainJoin) {keys : List Expr}
    {draft later : Draft} {fragment : Fragment}
    (plain : ∀ expression ∈ keys, expression.PlainMembers scope.catalog)
    (run : (scope.groupClause keys).runFrom draft = (.ok fragment, later)) :
    draft.Written fragment later := by
  rcases groupClause_cases run with ⟨-, rfl, rfl⟩ | ⟨-, fragments, inner, rfl⟩
  · exact Draft.written_bare Fragment.bare_nil
  · exact (writtenAll_scalars joins plain inner).commaSeparated.after
      (Fragment.bare_words _ (by decide))

theorem written_orderClause (joins : scope.PlainJoin) {items : List SortKey}
    {draft later : Draft} {fragment : Fragment}
    (plain : ∀ item ∈ items, item.expression.PlainMembers scope.catalog)
    (run : (scope.orderClause items).runFrom draft = (.ok fragment, later)) :
    draft.Written fragment later := by
  rcases orderClause_cases run with ⟨-, rfl, rfl⟩ | ⟨-, fragments, inner, rfl⟩
  · exact Draft.written_bare Fragment.bare_nil
  · exact (writtenAll_sortKeys joins plain inner).commaSeparated.after
      (Fragment.bare_words _ (by decide))

end Scope

end EntitySql
