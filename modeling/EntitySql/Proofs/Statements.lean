import EntitySql.Proofs.StatementEnds

/-! The statements of a MySQL text, build by build: one, or two where the build asks for the
generated key or for the rows that it changed. -/

namespace EntitySql

namespace Scope

variable {scope : Scope}

/-! Joins. -/

theorem single_joinedColumns {aliasName : String} {navigation : Navigation} {target : Entity}
    {columns : Fragment}
    (found : scope.joinedColumns aliasName navigation target = .ok columns) :
    columns.Single := by
  rcases joinedColumns_cases found with ⟨-, rfl⟩ | ⟨-, fragments, rfl, each⟩
  · exact Fragment.single_nil
  · apply Fragment.single_flatten
    intro fragment listed
    rcases exists_mem_of_forall₂ each fragment listed with ⟨field, -, column, reached, rfl⟩
    have shown : (Fragment.renamed column
        (joinedColumnName navigation.name field.property)).Solid :=
      Fragment.solid_renamed.mpr (solid_columnUnder reached).single
    exact ((shown.cons (by simp)).cons (by simp)).single

theorem single_joinTable {root : Entity} {taken : List String} {navigation : Navigation}
    {draft later : Draft} {table : JoinedTable}
    (run : (scope.joinTable root taken navigation).runFrom draft = (.ok table, later)) :
    table.clause.Single ∧ table.columns.Single := by
  rcases joinTable_eq_ok run with ⟨target, condition, -, -, compiled, clause, found⟩
  refine ⟨?_, single_joinedColumns found⟩
  rw [clause]
  simp [Entity.tableName, (Expr.solid_predicate compiled).single]

theorem single_joinTables {root : Entity} {taken : List String} {navigations : List Navigation}
    {draft later : Draft} {tables : List JoinedTable}
    (run : (scope.joinTables root taken navigations).runFrom draft = (.ok tables, later)) :
    ∀ table ∈ tables, table.clause.Single ∧ table.columns.Single := by
  induction navigations generalizing taken draft tables with
  | nil =>
      rw [joinTables, Build.runFrom_pure_eq_ok] at run
      rcases run with ⟨rfl, rfl⟩
      simp
  | cons navigation navigations induction =>
      simp only [joinTables, Build.runFrom_bind_eq_ok, Build.runFrom_pure_eq_ok] at run
      rcases run with ⟨first, middle, head, rest, last, tail, rfl, rfl⟩
      exact List.forall_mem_cons.mpr ⟨single_joinTable head, induction tail⟩

end Scope

namespace JoinedTable

variable {tables : List JoinedTable}
  (single : ∀ table ∈ tables, table.clause.Single ∧ table.columns.Single)

include single

theorem single_joinClauses : (joinClauses tables).Single := by
  apply Fragment.single_intercalate (by simp)
  simpa using fun table listed => (single table listed).1

theorem single_selectedColumns : (selectedColumns tables).Single := by
  rw [selectedColumns, List.flatMap]
  apply Fragment.single_flatten
  simpa using fun table listed => (single table listed).2

end JoinedTable

/-! Assignments and key conditions. -/

namespace Scope

variable {scope : Scope}

theorem single_boundAssignments {entity : Entity} {bindings : List (String × Expr)}
    {draft later : Draft} {fragments : List Fragment}
    (run : (scope.boundAssignments entity bindings).runFrom draft = (.ok fragments, later)) :
    ∀ fragment ∈ fragments, fragment.Single := by
  intro fragment listed
  rcases exists_mem_of_forall₂ (runs_of_boundAssignments run) fragment listed with
    ⟨binding, -, column, before, value, after, found, steps, rfl⟩
  have assigned : (Fragment.joined column .equal value).Solid :=
    (solid_columnUnder found).joined steps.solid (by decide)
  exact assigned.single

theorem single_setClause {updater : Expr} {draft later : Draft} {fragment : Fragment}
    (run : (scope.setClause updater).runFrom draft = (.ok fragment, later)) :
    fragment.Single := by
  rcases setClause_eq_ok run with ⟨_, _, _, fragments, -, -, -, inner, rfl⟩
  simp [setting, Fragment.single_commaSeparated (single_boundAssignments inner)]

theorem solid_boundFields {entity : Entity} {record : Record} {fields : List Field}
    {draft later : Draft} {bound : List BoundField}
    (run : (scope.boundFields entity record fields).runFrom draft = (.ok bound, later)) :
    ∀ field ∈ bound, field.column.Solid ∧ field.placeholder.Solid := by
  intro field listed
  rcases exists_mem_of_forall₂ (runs_of_boundFields run) field listed with
    ⟨_, -, found, before, after, head⟩
  exact ⟨solid_columnUnder found, Build.solid_input head⟩

theorem single_recordSetClause {entity : Entity} {record : Record} {exclude : List String}
    {draft later : Draft} {fragment : Fragment}
    (run : (scope.recordSetClause entity record exclude).runFrom draft = (.ok fragment, later)) :
    fragment.Single := by
  simp only [recordSetClause, Build.runFrom_bind_eq_ok] at run
  rcases run with ⟨bound, middle, inner, rest⟩
  split at rest
  · cases rest
  · rw [Build.runFrom_pure_eq_ok] at rest
    rcases rest with ⟨rfl, rfl⟩
    have assigned : ∀ fragment ∈ bound.map fun field =>
        Fragment.joined field.column .equal field.placeholder, fragment.Single := by
      intro fragment listed
      rcases List.mem_map.mp listed with ⟨field, among, rfl⟩
      have solid := solid_boundFields inner field among
      exact (solid.1.joined solid.2 (by decide)).single
    simp [setting, Fragment.single_commaSeparated assigned]

theorem single_insertLists {entity : Entity} {record : Record} {exclude : List String}
    {draft later : Draft} {columns values : Fragment}
    (run : (scope.insertLists entity record exclude).runFrom draft =
      (.ok (columns, values), later)) : columns.Single ∧ values.Single := by
  simp only [insertLists, Build.runFrom_bind_eq_ok] at run
  rcases run with ⟨bound, middle, inner, rest⟩
  split at rest
  · cases rest
  · rw [Build.runFrom_pure_eq_ok] at rest
    rcases rest with ⟨shown, rfl⟩
    cases shown
    constructor <;> apply Fragment.single_commaSeparated <;> intro fragment listed <;>
      rcases List.mem_map.mp listed with ⟨field, among, rfl⟩
    · exact (solid_boundFields inner field among).1.single
    · exact (solid_boundFields inner field among).2.single

theorem solid_keyComparisons {entity : Entity} {record : Record} {keys : List String}
    {draft later : Draft} {fragments : List Fragment}
    (run : (scope.keyComparisons entity record keys).runFrom draft = (.ok fragments, later)) :
    ∀ fragment ∈ fragments, fragment.Solid := by
  intro fragment listed
  rcases exists_mem_of_forall₂ (runs_of_keyComparisons run) fragment listed with
    ⟨_, -, column, before, bound, after, found, head, rfl⟩
  exact (solid_columnUnder found).joined (Build.solid_input head) (by decide)

/-- The conditions on the key carry on the conditions before them. -/
theorem solid_keyConditions {entity : Entity} {record : Record} {draft later : Draft}
    {clause fragment : Fragment} (solid : clause.Solid)
    (run : (scope.keyConditions entity record).runFrom draft = (.ok fragment, later)) :
    Fragment.Solid (clause ++ fragment) := by
  unfold keyConditions at run
  split at run
  · cases run
  · simp only [Build.runFrom_bind_eq_ok, Build.runFrom_pure_eq_ok] at run
    rcases run with ⟨comparisons, last, inner, rfl, rfl⟩
    exact solid.append_flatMap (solid_keyComparisons inner)

end Scope

/-! Statements. -/

namespace Fragment

/-- A statement: it starts with its keyword, ends in something that is shown, and is cut
nowhere. -/
structure Whole (fragment : Fragment) : Prop where
  begins : ∃ keyword rest, fragment = .word keyword :: rest
  solid : fragment.Solid

theorem Whole.append {fragment rest : Fragment} (whole : fragment.Whole) (solid : rest.Solid) :
    Whole (fragment ++ rest) := by
  rcases whole.begins with ⟨keyword, others, rfl⟩
  exact ⟨⟨keyword, others ++ rest, rfl⟩, solid.after whole.solid.single⟩

theorem whole_spaced {keyword : String} {first : Fragment} {rest : List Fragment}
    (solid : (spaced ((.word keyword :: first) :: rest)).Solid) :
    (spaced ((.word keyword :: first) :: rest)).Whole := by
  refine ⟨⟨keyword, ?_⟩, solid⟩
  cases kept : rest.filter (!·.isEmpty) with
  | nil => exact ⟨first, by simp [spaced, kept, List.intercalate_singleton]⟩
  | cons second others =>
      exact ⟨first ++ [.space] ++ [Token.space].intercalate (second :: others), by
        simp [spaced, kept, List.intercalate_cons_cons]⟩

/-- The statements, each between two semicolons. -/
def statements (fragment : Fragment) : List Fragment :=
  fragment.splitOn (.symbol .semicolon)

/-- It is as many statements, each of them whole. -/
structure Consists (fragment : Fragment) (count : Nat) : Prop where
  length : fragment.statements.length = count
  whole : ∀ statement ∈ fragment.statements, statement.Whole

theorem Whole.consists {fragment : Fragment} (whole : fragment.Whole) : fragment.Consists 1 := by
  have one : fragment.statements = [fragment] := List.splitOn_eq_singleton whole.solid.single
  exact ⟨by simp [one], by simpa [one] using whole⟩

theorem Whole.followedBy {first second : Fragment} (head : first.Whole) (tail : second.Whole) :
    (Query.followedBy first second).Consists 2 := by
  have two : (Query.followedBy first second).statements = [first, second] := by
    rw [statements, Query.followedBy, List.splitOn_append_cons_self,
      List.splitOn_eq_singleton head.solid.single, List.splitOn_eq_singleton tail.solid.single]
    rfl
  exact ⟨by simp [two], by simp [two, head, tail]⟩

theorem Whole.limit {sql : Fragment} (whole : sql.Whole) (count : Nat) :
    (sql.limit count).Whole := by
  have capped : Solid ([.space, .word "LIMIT", .space] ++ number count) :=
    (solid_number count).after (by simp)
  simpa [Fragment.limit] using whole.append capped

theorem Whole.offsetLimit {sql : Fragment} (whole : sql.Whole) (rows : RowRange) :
    (sql.offsetLimit rows).Whole := by
  have skipped : Solid ([.space, .word "OFFSET", .space] ++ number rows.skip.toNat) :=
    (solid_number rows.skip.toNat).after (by simp)
  simpa [Fragment.offsetLimit] using (whole.limit rows.size.toNat).append skipped

end Fragment

variable {catalog : Catalog} {query : Query} {draft later : Draft}

theorem single_fromClause (entity : Entity) (noLock : Bool) :
    (Dialect.mysql.fromClause entity noLock).Single := by
  simp [Dialect.fromClause, Dialect.tableHint, Fragment.spaced, List.intercalate_singleton,
    Entity.aliasedTable, Entity.tableName]

theorem SelectClauses.whole_sql {top : Option UInt32} {clauses : SelectClauses}
    (run : (build catalog .mysql query top).runFrom draft = (.ok clauses, later)) :
    clauses.sql.Whole := by
  rcases run_of_build run with ⟨entity, selected, tables, conditions, grouping, having, ordering,
    -, columns, joined, filters, groups, havings, order⟩
  have tablesSingle := Scope.single_joinTables joined
  have selectedSingle := Scope.single_selectList columns
  have columnsSingle : Fragment.Single (if query.select.isNone then
      selected ++ JoinedTable.selectedColumns tables else selected) := by
    split
    · exact Fragment.single_append.mpr
        ⟨selectedSingle, JoinedTable.single_selectedColumns tablesSingle⟩
    · exact selectedSingle
  have ends : (Fragment.spaced [conditions, grouping, having, ordering]).Solid :=
    Fragment.solid_spaced (Scope.solid_whereClause filters) (by
      simp [Scope.solid_groupClause groups, Scope.solid_havingClause havings,
        Scope.solid_orderClause order])
  have tail := Fragment.solid_spaced_cons (single_fromClause entity query.noLock)
    (Fragment.solid_spaced_cons (JoinedTable.single_joinClauses tablesSingle) ends)
  have keyword : ∃ rest, Dialect.mysql.selectKeyword query.distinct top = .word "SELECT" :: rest ∧
      Fragment.Single rest := by
    cases query.distinct <;> cases top <;>
      simp [Dialect.selectKeyword, Fragment.words, List.intersperse]
  rcases keyword with ⟨rest, keyword, restSingle⟩
  simp only [sql, keyword, List.cons_append]
  apply Fragment.whole_spaced
  refine Fragment.solid_spaced_cons ?_ tail
  rw [Fragment.single_cons, Fragment.single_append, Fragment.single_cons]
  exact ⟨by simp, restSingle, by simp, columnsSingle⟩

theorem ScalarClauses.whole_sql {head : Scope → Build Fragment} {clauses : ScalarClauses}
    (headed : ∀ fragment middle, (head (.aliased catalog)).runFrom draft = (.ok fragment, middle) →
      ∃ rest, fragment = .word "SELECT" :: rest ∧ Fragment.Single rest)
    (run : (build catalog .mysql query head).runFrom draft = (.ok clauses, later)) :
    clauses.sql.Whole := by
  rcases run_of_build run with ⟨entity, first, tables, conditions, -, shown, joined, filters⟩
  rcases headed _ _ shown with ⟨rest, rfl, restSingle⟩
  have ends : (Fragment.spaced [conditions]).Solid :=
    Fragment.solid_spaced (Scope.solid_whereClause filters) (by simp)
  apply Fragment.whole_spaced
  refine Fragment.solid_spaced_cons (by simp [restSingle]) ?_
  exact Fragment.solid_spaced_cons (single_fromClause entity query.noLock)
    (Fragment.solid_spaced_cons
      (JoinedTable.single_joinClauses (Scope.single_joinTables joined)) ends)

namespace Query

variable {built : Built}

theorem whole_buildAny
    (run : (query.buildAny catalog .mysql).runFrom draft = (.ok built, later)) :
    built.sql.Whole := by
  simp only [buildAny, Build.runFrom_bind_eq_ok, Build.runFrom_pure_eq_ok] at run
  rcases run with ⟨clauses, middle, inner, rfl, rfl⟩
  apply Fragment.Whole.limit
  apply ScalarClauses.whole_sql _ inner
  intro fragment middle head
  rw [Build.runFrom_pure_eq_ok] at head
  exact ⟨_, head.1.symm, by simp⟩

theorem whole_buildCount
    (run : (query.buildCount catalog .mysql).runFrom draft = (.ok built, later)) :
    built.sql.Whole := by
  simp only [buildCount, Build.runFrom_bind_eq_ok, Build.runFrom_pure_eq_ok] at run
  rcases run with ⟨clauses, middle, inner, rfl, rfl⟩
  apply ScalarClauses.whole_sql _ inner
  intro fragment middle head
  rw [Build.runFrom_pure_eq_ok] at head
  exact ⟨_, head.1.symm, by simp [Fragment.call, Fragment.parenthesized]⟩

theorem whole_buildSummary {summary : Summary} {selector : Option Expr}
    (run : (query.buildSummary catalog .mysql summary selector).runFrom draft =
      (.ok built, later)) : built.sql.Whole := by
  simp only [buildSummary, Build.runFrom_bind_eq_ok, Build.runFrom_pure_eq_ok] at run
  rcases run with ⟨clauses, middle, inner, rfl, rfl⟩
  apply ScalarClauses.whole_sql _ inner
  intro fragment middle head
  simp only [Summary.buildHead, Build.runFrom_bind_eq_ok, Build.runFrom_pure_eq_ok] at head
  rcases head with ⟨column, _, summarized, rfl, rfl⟩
  have single := Scope.single_summarizedColumn summarized
  refine ⟨_, rfl, ?_⟩
  cases summary <;> simp [Fragment.call, Fragment.parenthesized, single]

theorem whole_insertClauses {record : Record} {exclude : List String} {clauses : InsertClauses}
    (run : (query.insertClauses catalog record exclude).runFrom draft = (.ok clauses, later)) :
    clauses.sql.Whole := by
  simp only [insertClauses, Build.runFrom_bind_eq_ok, Build.runFrom_pure_eq_ok,
    Build.runFrom_lift_eq_ok] at run
  rcases run with ⟨entity, _, ⟨-, rfl⟩, ⟨columns, values⟩, last, inner, rfl, rfl⟩
  rcases Scope.single_insertLists inner with ⟨columnsSingle, valuesSingle⟩
  refine ⟨⟨"INSERT", _, rfl⟩, ?_⟩
  apply Fragment.Solid.after
  · exact Fragment.solid_parenthesized.mpr valuesSingle
  · simp [Entity.tableName, Fragment.parenthesized, columnsSingle]

theorem whole_updateClauses {assignments conditions : Fragment} {entity : Entity}
    (assigned : assignments.Single) (filtered : conditions.Solid) :
    (UpdateClauses.sql { entity, assignments, conditions }).Whole := by
  have ends : (Fragment.spaced [conditions]).Solid := Fragment.solid_spaced filtered (by simp)
  apply Fragment.whole_spaced
  exact Fragment.solid_spaced_cons (by simp [Entity.tableName])
    (Fragment.solid_spaced_cons assigned (Fragment.solid_spaced_cons Fragment.single_nil ends))

theorem solid_updateClauses {updater : Expr} {clauses : UpdateClauses}
    (run : (query.updateClauses catalog updater).runFrom draft = (.ok clauses, later)) :
    clauses.sql.Whole ∧ clauses.conditions.Solid := by
  rcases run_of_updateClauses run with ⟨entity, assignments, conditions, -, assigned, filtered, -⟩
  have solid := Scope.solid_whereClause filtered
  exact ⟨whole_updateClauses (Scope.single_setClause assigned) solid, solid⟩

theorem consists_buildUpdateSelect {updater : Expr}
    (run : (query.buildUpdateSelect catalog .mysql updater).runFrom draft = (.ok built, later)) :
    built.sql.Consists 2 := by
  simp only [buildUpdateSelect, Build.runFrom_bind_eq_ok, Build.runFrom_lift_eq_ok,
    Dialect.returningClause, Build.runFrom_pure_eq_ok] at run
  rcases run with ⟨clauses, _, inner, columns, _, ⟨found, rfl⟩, _, _, ⟨rfl, rfl⟩, rfl, rfl⟩
  rcases solid_updateClauses inner with ⟨whole, solid⟩
  apply whole.followedBy
  refine ⟨⟨"SELECT", _, rfl⟩, ?_⟩
  have named : ∀ fragment ∈ columns.map (·.named Dialect.mysql.lexical), fragment.Single := by
    intro fragment listed
    rcases List.mem_map.mp listed with ⟨returned, among, rfl⟩
    have column : returned.column.Single := by
      rcases Scope.returnedColumn_cases found returned among with own | ⟨path, other, -⟩
      · exact (Scope.solid_columnUnder own).single
      · exact (Scope.solid_member other).single
    unfold ReturnedColumn.named
    split
    · exact column
    · exact (Fragment.solid_renamed.mpr column).single
  refine (solid.cons (by simp)).after ?_
  simp [Fragment.single_commaSeparated named, Entity.tableName]

theorem whole_buildUpdateRecord {record : Record} {exclude : List String} {everyRow : Bool}
    (run : (query.buildUpdateRecord catalog record exclude everyRow).runFrom draft =
      (.ok built, later)) : built.sql.Whole := by
  simp only [buildUpdateRecord, Build.runFrom_bind_eq_ok, Build.runFrom_lift_eq_ok] at run
  rcases run with ⟨entity, _, ⟨-, rfl⟩, assignments, _, set, conditions, _, filters, rest⟩
  have assigned := Scope.single_recordSetClause set
  have solid := Scope.solid_whereClause filters
  split at rest
  · simp only [Build.runFrom_bind_eq_ok, Build.runFrom_pure_eq_ok] at rest
    rcases rest with ⟨_, _, ⟨rfl, -⟩, rfl, -⟩
    exact whole_updateClauses assigned (by simpa using solid)
  · split at rest
    · simp only [Build.runFrom_bind_eq_ok, Build.runFrom_pure_eq_ok] at rest
      rcases rest with ⟨_, _, -, _, _, ⟨rfl, -⟩, rfl, -⟩
      exact whole_updateClauses assigned (by simpa using solid)
    · simp only [Build.runFrom_bind_eq_ok, Build.runFrom_pure_eq_ok] at rest
      rcases rest with ⟨keyed, _, keys, rfl, -⟩
      exact whole_updateClauses assigned (Scope.solid_keyConditions solid keys)

theorem whole_buildDelete
    (run : (query.buildDelete catalog).runFrom draft = (.ok built, later)) :
    built.sql.Whole := by
  simp only [buildDelete, Build.runFrom_bind_eq_ok, Build.runFrom_pure_eq_ok,
    Build.runFrom_lift_eq_ok] at run
  rcases run with ⟨entity, _, ⟨-, rfl⟩, conditions, _, filtered, _, _, -, rfl, rfl⟩
  refine ⟨⟨"DELETE", _, rfl⟩, ?_⟩
  refine ((Scope.solid_whereClause filtered).cons (by simp)).after ?_
  simp [Entity.tableName]

end Query

/-- The generated key and the rows that were changed are asked for by a second statement. -/
def Operation.statementCount : Operation → Nat
  | .insertIdentity .. | .updateSelect .. => 2
  | _ => 1

theorem Operation.consists_build {operation : Operation} {built : Built}
    (run : (operation.build catalog .mysql).runFrom draft = (.ok built, later)) :
    built.sql.Consists operation.statementCount := by
  cases operation with
  | get query =>
      simp only [build, Query.buildGet, Build.runFrom_bind_eq_ok, Build.runFrom_pure_eq_ok] at run
      rcases run with ⟨clauses, _, inner, rfl, rfl⟩
      exact ((SelectClauses.whole_sql inner).limit 1).consists
  | list query =>
      simp only [build, Query.buildList, Build.runFrom_bind_eq_ok, Build.runFrom_pure_eq_ok] at run
      rcases run with ⟨clauses, _, inner, rfl, rfl⟩
      have whole := SelectClauses.whole_sql inner
      cases query.top with
      | none => exact whole.consists
      | some count => exact (whole.limit count.toNat).consists
  | page query index size =>
      simp only [build, Query.buildPage, Build.runFrom_bind_eq_ok, Build.runFrom_lift_eq_ok,
        Build.runFrom_pure_eq_ok] at run
      rcases run with ⟨rows, _, ⟨-, rfl⟩, clauses, _, inner, rfl, rfl⟩
      exact ((SelectClauses.whole_sql inner).offsetLimit rows).consists
  | any query => exact (Query.whole_buildAny run).consists
  | count query => exact (Query.whole_buildCount run).consists
  | summarize summary query selector => exact (Query.whole_buildSummary run).consists
  | insert query record exclude =>
      simp only [build, Query.buildInsert, Build.runFrom_bind_eq_ok,
        Build.runFrom_pure_eq_ok] at run
      rcases run with ⟨clauses, _, inner, rfl, rfl⟩
      exact (Query.whole_insertClauses inner).consists
  | insertIdentity query record exclude =>
      simp only [build, Query.buildInsertIdentity, Build.runFrom_bind_eq_ok] at run
      rcases run with ⟨clauses, middle, inner, rest⟩
      split at rest
      · cases rest
      · rw [Build.runFrom_pure_eq_ok] at rest
        rcases rest with ⟨rfl, rfl⟩
        exact (Query.whole_insertClauses inner).followedBy ⟨⟨"SELECT", _, rfl⟩, by simp⟩
  | update query updater =>
      simp only [build, Query.buildUpdate, Build.runFrom_bind_eq_ok,
        Build.runFrom_pure_eq_ok] at run
      rcases run with ⟨clauses, _, inner, rfl, rfl⟩
      exact (Query.solid_updateClauses inner).1.consists
  | updateSelect query updater => exact Query.consists_buildUpdateSelect run
  | updateRecord query record exclude everyRow => exact (Query.whole_buildUpdateRecord run).consists
  | delete query => exact (Query.whole_buildDelete run).consists

end EntitySql
