import EntitySql.Proofs.ClauseMentions
import EntitySql.Proofs.ConditionReader

/-! Where orders start in a statement: at each word `ORDER` with the word `BY` behind it,
whatever their case. A statement that asks for no order starts none, whatever its tables and
columns are called: names are quoted, and behind an alias stands a dot or a word of the
statement's own. -/

namespace EntitySql

/-- The first token is the keyword. -/
def startsWord (keyword : String) : List Token → Bool
  | .word text :: _ => sameIgnoringCase keyword text
  | _ => false

/-- How often tokens start an order. -/
def orderStarts : List Token → Nat
  | [] => 0
  | token :: rest =>
      (if startsWord "ORDER" [token] && startsWord "BY" rest then 1 else 0) + orderStarts rest

/-- The tokens start no order, whatever stands behind them. -/
def Unordered (tokens : List Token) : Prop :=
  ∀ rest, orderStarts (tokens ++ rest) = orderStarts rest

namespace Unordered

theorem nil : Unordered [] :=
  fun _ => rfl

theorem append {left right : List Token} (head : Unordered left) (tail : Unordered right) :
    Unordered (left ++ right) := by
  intro rest
  rw [List.append_assoc, head, tail]

/-- A token that is not the word `ORDER`. -/
theorem cons {token : Token} (other : startsWord "ORDER" [token] = false) {tokens : List Token}
    (inner : Unordered tokens) : Unordered (token :: tokens) := by
  intro rest
  rw [List.cons_append, orderStarts, other, inner]
  exact Nat.zero_add _

/-- Any token with something else than the word `BY` behind it. -/
theorem cons_apart (token : Token) {tokens : List Token}
    (apart : ∀ rest, startsWord "BY" (tokens ++ rest) = false) (inner : Unordered tokens) :
    Unordered (token :: tokens) := by
  intro rest
  rw [List.cons_append, orderStarts, apart, Bool.and_false, inner]
  exact Nat.zero_add _

theorem single {token : Token} (other : startsWord "ORDER" [token] = false) : Unordered [token] :=
  nil.cons other

theorem parenthesized {tokens : List Token} (inner : Unordered tokens) :
    Unordered (.symbol .openParen :: tokens ++ [.symbol .closeParen]) :=
  (inner.cons rfl).append (single rfl)

theorem joined {left right : List Token} (head : Unordered left) {between : Token}
    (other : startsWord "ORDER" [between] = false) (tail : Unordered right) :
    Unordered (left ++ between :: right) :=
  head.append (tail.cons other)

theorem flatten {pieces : List (List Token)} (each : ∀ piece ∈ pieces, Unordered piece) :
    Unordered pieces.flatten := by
  induction pieces with
  | nil => exact nil
  | cons first rest induction =>
      rw [List.forall_mem_cons] at each
      exact each.1.append (induction each.2)

theorem intercalate {between : Token} (other : startsWord "ORDER" [between] = false)
    {pieces : List (List Token)} (each : ∀ piece ∈ pieces, Unordered piece) :
    Unordered ([between].intercalate pieces) := by
  cases pieces with
  | nil => exact nil
  | cons first rest =>
      rw [List.forall_mem_cons] at each
      rw [Fragment.intercalate_cons_eq, List.flatMap_def]
      refine each.1.append (flatten ?_)
      simpa using fun piece listed => (each.2 piece listed).cons other

theorem commaSeparated {fragments : List Fragment}
    (each : ∀ fragment ∈ fragments, Unordered (Fragment.squeezed fragment)) :
    Unordered (Fragment.commaSeparated fragments).squeezed := by
  rw [Fragment.squeezed_commaSeparated]
  exact intercalate rfl (by simpa using each)

/-! Pieces of expressions. -/

theorem always : Unordered Fragment.always.squeezed :=
  ((single (by decide)).cons rfl).cons (by decide)

theorem never : Unordered Fragment.never.squeezed :=
  ((single (by decide)).cons rfl).cons (by decide)

theorem operatorWord {word : String} (other : startsWord "ORDER" [.word word] = false)
    (negated : Bool) : Unordered (Fragment.operatorWord word negated).squeezed := by
  rw [Fragment.squeezed_operatorWord]
  cases negated
  · exact single other
  · exact (single other).cons (by decide)

theorem input {base : String} {value : Value} {draft later : Draft} {fragment : Fragment}
    (run : (Build.input base value).runFrom draft = (.ok fragment, later)) :
    Unordered fragment.squeezed := by
  rw [Build.runFrom_input] at run
  cases run
  exact single rfl

theorem inputs {base : String} {values : List Value} {draft later : Draft}
    {fragments : List Fragment}
    (run : (Build.inputs base values).runFrom draft = (.ok fragments, later)) :
    ∀ fragment ∈ fragments, Unordered (Fragment.squeezed fragment) := by
  intro fragment listed
  rcases exists_mem_of_forall₂ (Build.placeholders_of_inputs run) fragment listed with
    ⟨-, -, name, rfl⟩
  exact single rfl

/-- Behind the alias of a column stands a dot. -/
theorem column (reference : ColumnReference) : Unordered reference.fragment := by
  rcases reference with ⟨_ | aliasName, name⟩
  · exact single rfl
  · exact ((single rfl).cons rfl).cons_apart (.word aliasName) fun _ => rfl

variable {fragment : Fragment} (inner : Unordered fragment.squeezed)

include inner

theorem nullTest (negated : Bool) : Unordered (Fragment.nullTest fragment negated).squeezed := by
  have null : Unordered [.word "NULL"] := single (by decide)
  rw [Fragment.squeezed_nullTest]
  cases negated
  · exact inner.joined (by decide) null
  · exact inner.joined (by decide) (null.cons (by decide))

theorem bracketed (bracket : Bool) :
    Unordered (Fragment.squeezed
      (if bracket then Fragment.parenthesized fragment else fragment)) := by
  cases bracket
  · exact inner
  · simpa using inner.parenthesized

theorem renamed (name : String) : Unordered (Fragment.renamed fragment name).squeezed := by
  have label : Unordered [.word "AS", .identifier name] := (single rfl).cons (by decide)
  simpa [Fragment.renamed] using inner.append label

theorem called {function : String} (other : startsWord "ORDER" [.word function] = false) :
    Unordered (Fragment.call function fragment).squeezed := by
  rw [Fragment.squeezed_call]
  exact inner.parenthesized.cons other

end Unordered

/-! Expressions. -/

namespace Scope

variable {scope : Scope}

theorem unordered_columnUnder {aliasName property : String} {entity : Entity} {column : Fragment}
    (found : scope.columnUnder aliasName entity property = .ok column) :
    Unordered column.squeezed := by
  rcases columnUnder_eq_ok.mp found with ⟨name, -, rfl⟩
  rw [Fragment.squeezed_fragment]
  exact .column _

theorem unordered_member {path : MemberPath} {column : Fragment}
    (found : scope.member path = .ok column) : Unordered column.squeezed := by
  rcases scope.columnUnder_of_member found with ⟨entity, -, under⟩
  exact unordered_columnUnder under

end Scope

namespace Expr

variable {scope : Scope} {draft later : Draft} {fragment : Fragment}

theorem ScalarRun.unordered {expression : Expr} {hint : String}
    (steps : ScalarRun scope hint expression draft fragment later) :
    Unordered fragment.squeezed := by
  induction steps with
  | member path found => exact Scope.unordered_member found
  | constant value bound => exact .input bound
  | arithmetic operator _ _ head tail =>
      rw [Fragment.squeezed_parenthesized, Fragment.squeezed_joined]
      exact (head.joined rfl tail).parenthesized
  | aggregate function _ inner => exact inner.called (by cases function <;> decide)
  | count =>
      have one : Unordered (Fragment.squeezed [.word "1"]) := .single (by decide)
      exact one.called (by decide)
  | lambda _ inner => exact inner

theorem CompareRun.unordered {operator : Comparison} {left right : Expr}
    (steps : CompareRun scope operator left right draft fragment later) :
    Unordered fragment.squeezed := by
  cases steps with
  | nullOnRight _ _ inner => exact inner.unordered.nullTest _
  | nullOnLeft _ _ _ inner => exact inner.unordered.nullTest _
  | sides _ _ head tail =>
      rw [Fragment.squeezed_joined]
      exact head.unordered.joined rfl tail.unordered

theorem PredicateRun.unordered {expression : Expr}
    (steps : PredicateRun scope expression draft fragment later) :
    Unordered fragment.squeezed := by
  induction steps with
  | member path found bound =>
      rw [Fragment.squeezed_joined]
      exact (Scope.unordered_member found).joined rfl (.input bound)
  | always => exact .always
  | never => exact .never
  | comparison sides => exact sides.unordered
  | logical connective left right _ _ head tail =>
      rw [Fragment.squeezed_connected]
      exact (head.bracketed _).joined (by cases connective <;> decide) (tail.bracketed _)
  | negation operand _ inner => simpa using inner.parenthesized.cons (by decide)
  | nullTest negated inner => exact inner.unordered.nullTest negated
  | emptyList negated =>
      cases negated with
      | false => exact .never
      | true => exact .always
  | inList item items negated inner bound =>
      have word := Unordered.operatorWord (by decide : startsWord "ORDER" [.word "IN"] = false)
        negated
      have listed := (Unordered.commaSeparated (.inputs bound)).parenthesized
      simpa using inner.unordered.append (word.append listed)
  | like pattern anchor negated inner bound =>
      have word := Unordered.operatorWord (by decide : startsWord "ORDER" [.word "LIKE"] = false)
        negated
      simpa using inner.unordered.append (word.append (.input bound))
  | between low high inner lower upper =>
      have range := (Unordered.input lower).joined
        (by decide : startsWord "ORDER" [.word "AND"] = false) (.input upper)
      simpa [Connective.keyword] using inner.unordered.joined
        (by decide : startsWord "ORDER" [.word "BETWEEN"] = false) range
  | lambda _ inner => exact inner

end Expr

/-! Clauses. -/

namespace Scope

variable {scope : Scope} {draft later : Draft}

theorem unordered_conjuncts {expressions : List Expr} {fragments : List Fragment}
    (run : (scope.conjuncts expressions).runFrom draft = (.ok fragments, later)) :
    ∀ fragment ∈ fragments, Unordered (Fragment.squeezed fragment) := by
  intro fragment listed
  rcases exists_mem_of_forall₂ (runs_of_conjuncts run) fragment listed with
    ⟨expression, -, before, condition, after, steps, rfl⟩
  exact steps.unordered.bracketed _

theorem unordered_whereClause {filters : List Expr} {fragment : Fragment}
    (run : (scope.whereClause filters).runFrom draft = (.ok fragment, later)) :
    ∃ tokens, fragment.squeezed = .word "WHERE" :: tokens ∧ Unordered tokens := by
  simp only [whereClause, Build.runFrom_bind_eq_ok, Build.runFrom_pure_eq_ok] at run
  rcases run with ⟨fragments, last, inner, rfl, rfl⟩
  have added : Unordered (Fragment.squeezed (fragments.flatMap fun condition =>
      [.space, .word "AND", .space] ++ condition)) := by
    rw [List.flatMap_def, Fragment.squeezed_flatten]
    apply Unordered.flatten
    simpa using fun fragment listed =>
      (unordered_conjuncts inner fragment listed).cons (by decide)
  exact ⟨_, by simp, Unordered.always.append added⟩

theorem unordered_havingClause {conditions : List Expr} {fragment : Fragment}
    (run : (scope.havingClause conditions).runFrom draft = (.ok fragment, later)) :
    Unordered fragment.squeezed := by
  rcases scope.havingClause_cases run with ⟨-, rfl, -⟩ | ⟨-, fragments, inner, rfl⟩
  · exact .nil
  · have listed : Unordered ([Token.word "AND"].intercalate (fragments.map Fragment.squeezed)) :=
      .intercalate (by decide) (by simpa using unordered_conjuncts inner)
    simpa [Fragment.squeezed_intercalate] using
      listed.cons (by decide : startsWord "ORDER" [.word "HAVING"] = false)

theorem unordered_groupClause {keys : List Expr} {fragment : Fragment}
    (run : (scope.groupClause keys).runFrom draft = (.ok fragment, later)) :
    Unordered fragment.squeezed := by
  rcases scope.groupClause_cases run with ⟨-, rfl, -⟩ | ⟨-, fragments, inner, rfl⟩
  · exact .nil
  · have listed : Unordered (Fragment.commaSeparated fragments).squeezed := by
      apply Unordered.commaSeparated
      intro fragment listed
      rcases exists_mem_of_forall₂ (runs_of_scalars inner) fragment listed with
        ⟨expression, -, before, after, steps⟩
      exact steps.unordered
    simpa [Fragment.words] using
      (listed.cons (by decide : startsWord "ORDER" [.word "BY"] = false)).cons
        (by decide : startsWord "ORDER" [.word "GROUP"] = false)

/-! Select lists. -/

theorem unordered_fieldList {entity : Entity} {columns : Fragment}
    (found : scope.fieldList entity = .ok columns) : Unordered columns.squeezed := by
  rcases fieldList_cases found with ⟨fragments, rfl, each⟩
  apply Unordered.commaSeparated
  intro fragment listed
  rcases exists_mem_of_forall₂ each fragment listed with
    ⟨field, -, column, reached, ⟨-, rfl⟩ | rfl⟩
  · exact unordered_columnUnder reached
  · exact (unordered_columnUnder reached).renamed _

theorem unordered_projection {selector : Expr} {fragment : Fragment}
    (run : (scope.projection selector).runFrom draft = (.ok fragment, later)) :
    Unordered fragment.squeezed := by
  cases projectionRun_of_projection run with
  | member path shape found =>
      rcases selectedMember_cases found with ⟨entity, column, -, reached, rfl | rfl⟩
      · exact unordered_columnUnder reached
      · exact (unordered_columnUnder reached).renamed _
  | record name bindings fragments shape given inner =>
      apply Unordered.commaSeparated
      intro fragment listed
      rcases exists_mem_of_forall₂ (runs_of_selectedBindings inner) fragment listed with
        ⟨binding, -, before, value, after, steps, rfl⟩
      exact steps.unordered.renamed _
  | scalar single inner => exact (Expr.scalarRun_of_scalar inner).unordered

theorem unordered_selectList {entity : Entity} {select : Option Expr} {fragment : Fragment}
    (run : (scope.selectList entity select).runFrom draft = (.ok fragment, later)) :
    Unordered fragment.squeezed := by
  cases select with
  | none =>
      rw [selectList, Build.runFrom_lift_eq_ok] at run
      exact unordered_fieldList run.1
  | some selector => exact unordered_projection run

theorem unordered_joinedColumns {aliasName : String} {navigation : Navigation} {target : Entity}
    {columns : Fragment}
    (found : scope.joinedColumns aliasName navigation target = .ok columns) :
    Unordered columns.squeezed := by
  rcases joinedColumns_cases found with ⟨-, rfl⟩ | ⟨-, fragments, rfl, each⟩
  · exact .nil
  · rw [Fragment.squeezed_flatten]
    apply Unordered.flatten
    simp only [List.forall_mem_map]
    intro fragment listed
    rcases exists_mem_of_forall₂ each fragment listed with ⟨field, -, column, reached, rfl⟩
    simpa using ((unordered_columnUnder reached).renamed _).cons
      (rfl : startsWord "ORDER" [.symbol .comma] = false)

/-! Tables. Behind the alias of a joined table stands `ON`. -/

theorem unordered_joinTable {root : Entity} {taken : List String} {navigation : Navigation}
    {table : JoinedTable}
    (run : (scope.joinTable root taken navigation).runFrom draft = (.ok table, later)) :
    Unordered table.clause.squeezed ∧ Unordered table.columns.squeezed ∧
      ∀ rest, startsWord "BY" (table.clause.squeezed ++ rest) = false := by
  rcases joinTable_eq_ok run with ⟨target, condition, -, -, on, clause, found⟩
  have holds : Unordered condition.squeezed := (Expr.predicateRun_of_predicate on).unordered
  have named : Unordered (.word table.aliasName :: .word "ON" :: condition.squeezed) :=
    (holds.cons (by decide)).cons_apart _ fun _ => (by decide : sameIgnoringCase "BY" "ON" = false)
  have quoted := named.cons (rfl : startsWord "ORDER" [.identifier target.table] = false)
  refine ⟨?_, unordered_joinedColumns found, ?_⟩ <;> rw [clause]
  · cases navigation.kind <;>
      simpa [JoinKind.keywords, Fragment.words, Entity.tableName] using
        (quoted.cons (by decide : startsWord "ORDER" [.word "JOIN"] = false)).cons (by decide)
  · intro rest
    cases navigation.kind <;> simp [JoinKind.keywords, Fragment.words, startsWord] <;> decide

theorem unordered_joins {root : Entity} {navigations : List Navigation}
    {tables : List JoinedTable}
    (run : (scope.joins root navigations).runFrom draft = (.ok tables, later)) :
    ∀ table ∈ tables, Unordered table.clause.squeezed ∧ Unordered table.columns.squeezed ∧
      ∀ rest, startsWord "BY" (table.clause.squeezed ++ rest) = false := by
  intro table listed
  rcases exists_mem_of_forall₂ (runs_of_joinTables run) table listed with
    ⟨-, -, navigation, before, known, after, one, -⟩
  exact unordered_joinTable one

end Scope

/-- Behind the alias of the first table stands the next clause. -/
theorem Dialect.unordered_fromClause (dialect : Dialect) (entity : Entity) (noLock : Bool)
    {tokens : List Token} (next : ∀ rest, startsWord "BY" (tokens ++ rest) = false)
    (behind : Unordered tokens) :
    Unordered ((dialect.fromClause entity noLock).squeezed ++ tokens) := by
  have hint : Unordered ((dialect.tableHint noLock).squeezed ++ tokens) ∧
      ∀ rest, startsWord "BY" ((dialect.tableHint noLock).squeezed ++ tokens ++ rest) = false := by
    unfold tableHint
    split
    · have word : Unordered (Fragment.squeezed [.word "NOLOCK"]) := .single (by decide)
      exact ⟨(word.called (by decide)).append behind,
        fun _ => (by decide : sameIgnoringCase "BY" "WITH" = false)⟩
    · exact ⟨behind, next⟩
  have named := hint.1.cons_apart (.word entity.aliasName) hint.2
  simpa [fromClause, Fragment.squeezed_spaced, Entity.aliasedTable, Entity.tableName] using
    (named.cons (rfl : startsWord "ORDER" [.identifier entity.table] = false)).cons
      (by decide : startsWord "ORDER" [.word "FROM"] = false)

theorem Dialect.unordered_selectKeyword (dialect : Dialect) (distinct : Bool) :
    Unordered (dialect.selectKeyword distinct none).squeezed := by
  have keywords : dialect.selectKeyword distinct none =
      Fragment.words (if distinct then ["SELECT", "DISTINCT"] else ["SELECT"]) := by
    cases dialect <;> rfl
  have shown : Unordered (if distinct then [.word "DISTINCT"] else []) := by
    cases distinct
    · exact .nil
    · exact .single (by decide)
  rw [keywords]
  cases distinct <;> exact shown.cons (by decide : startsWord "ORDER" [.word "SELECT"] = false)

/-- A query that asks for no order is written without one. -/
theorem SelectClauses.unordered_sql {catalog : Catalog} {dialect : Dialect} {query : Query}
    (unordered : query.order = []) {draft later : Draft} {clauses : SelectClauses}
    (run : (build catalog dialect query none).runFrom draft = (.ok clauses, later)) :
    clauses.ordering = [] ∧ Unordered clauses.sql.squeezed := by
  rcases run_of_build run with ⟨entity, selected, tables, conditions, grouping, having, ordering,
    accepted, select, joins, filters, groups, kept, order⟩
  have unasked : ordering = [] := by
    rcases Scope.orderClause_cases order with ⟨-, rfl, -⟩ | ⟨given, -⟩
    · rfl
    · exact absurd unordered given
  refine ⟨unasked, ?_⟩
  have joined := Scope.unordered_joins joins
  have columns : Unordered (Fragment.squeezed
      (if query.select.isNone then selected ++ JoinedTable.selectedColumns tables
        else selected)) := by
    have own := Scope.unordered_selectList select
    split
    · rw [Fragment.squeezed_append, JoinedTable.selectedColumns, List.flatMap_def,
        Fragment.squeezed_flatten]
      refine own.append (.flatten ?_)
      simpa using fun table listed => (joined table listed).2.1
    · exact own
  rcases Scope.unordered_whereClause filters with ⟨holding, starts, filtered⟩
  have conditioned : Unordered conditions.squeezed := starts ▸ filtered.cons (by decide)
  have clausesJoined : Unordered (JoinedTable.joinClauses tables).squeezed := by
    rw [JoinedTable.squeezed_joinClauses]
    apply Unordered.flatten
    simpa using fun table listed => (joined table listed).1
  have next : ∀ rest, startsWord "BY" ((JoinedTable.joinClauses tables).squeezed ++
      conditions.squeezed ++ rest) = false := by
    intro rest
    rw [JoinedTable.squeezed_joinClauses, starts]
    cases tables with
    | nil => exact (by decide : sameIgnoringCase "BY" "WHERE" = false)
    | cons first tables =>
        simpa using (joined first List.mem_cons_self).2.2 _
  have source := dialect.unordered_fromClause entity query.noLock next
    (clausesJoined.append conditioned)
  have head := (dialect.unordered_selectKeyword query.distinct).append columns
  have behind := (Scope.unordered_groupClause groups).append (Scope.unordered_havingClause kept)
  simpa [sql, Fragment.squeezed_spaced, unasked] using head.append (source.append behind)

end EntitySql
