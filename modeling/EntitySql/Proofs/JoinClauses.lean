import EntitySql.Proofs.Placeholders
import EntitySql.Proofs.QueryMentions

/-! The joins that a statement shows between its table and its conditions: each with a
table under an alias and with a condition that names what the condition of the join
mentions. -/

namespace EntitySql

structure JoinClause where
  kind : JoinKind
  table : String
  aliasName : String
  condition : List Token

namespace JoinClause

def tokens (clause : JoinClause) : List Token :=
  clause.kind.keywords.map Token.word ++
    [.identifier clause.table, .word clause.aliasName, .word "ON"] ++ clause.condition

/-- The aliases that the condition uses. -/
def used (clause : JoinClause) : List String :=
  (namings clause.condition).filterMap fun
    | .table .. => none
    | .column reference => reference.qualifier?

/-- The clause is that of the join. -/
structure Shows (clause : JoinClause) (catalog : Catalog) (join : Navigation × JoinView) :
    Prop where
  kind : clause.kind = join.1.kind
  table : clause.table = catalog.tableName join.2.target
  aliasName : clause.aliasName = join.2.aliasName
  condition : Mentions catalog clause.condition
    (join.1.condition.mentions (.ofJoin catalog join.2))

end JoinClause

/-- The statement takes its rows from the table of the query, joined by these clauses. -/
structure ShowsJoins (catalog : Catalog) (dialect : Dialect) (query : Query)
    (tokens : List Token) (clauses : List JoinClause) : Prop where
  around : ∃ head rest, tokens = head ++
    [.word "FROM", .identifier (catalog.tableName query.entity),
      .word (catalog.aliasName query.entity)] ++
    (dialect.tableHint query.noLock).squeezed ++ clauses.flatMap JoinClause.tokens ++
    .word "WHERE" :: rest
  shows : List.Forall₂ (fun clause join => clause.Shows catalog join) clauses
    (query.joinViews catalog)

/-! The clauses of a statement. -/

section Clauses

variable {catalog : Catalog}

theorem exists_joinClause {root : Entity} {taken : List String} {navigation : Navigation}
    {draft later : Draft} {table : JoinedTable}
    (run : ((Scope.aliased catalog).joinTable root taken navigation).runFrom draft =
      (.ok table, later)) :
    ∃ clause : JoinClause, table.clause.squeezed = clause.tokens ∧
      clause.Shows catalog (navigation, navigation.view root table.aliasName) := by
  rcases Scope.joinTable_eq_ok run with ⟨target, condition, accepted, -, on, text, -⟩
  refine ⟨⟨navigation.kind, target.table, table.aliasName, condition.squeezed⟩, ?_, rfl, ?_, rfl,
    Expr.mentions_predicate (.ofJoin catalog _) rfl on⟩
  · rw [text]
    cases kind : navigation.kind <;>
      simp [JoinClause.tokens, JoinKind.keywords, Fragment.words, Entity.tableName]
  · rcases Catalog.entity_eq_ok.mp accepted with ⟨-, rfl⟩
    rfl

theorem exists_joinClauses {root : Entity} {navigations : List Navigation} {taken : List String}
    {draft later : Draft} {tables : List JoinedTable}
    (run : ((Scope.aliased catalog).joinTables root taken navigations).runFrom draft =
      (.ok tables, later)) :
    ∃ clauses : List JoinClause,
      (JoinedTable.joinClauses tables).squeezed = clauses.flatMap JoinClause.tokens ∧
      List.Forall₂ (fun clause join => JoinClause.Shows clause catalog join) clauses
        (catalog.joinViews root.name taken navigations) := by
  have runs := Scope.runs_of_joinTables run
  rw [JoinedTable.squeezed_joinClauses]
  change List.Forall₂ _ tables (catalog.joinViews root.name taken navigations) at runs
  clear run
  generalize catalog.joinViews root.name taken navigations = joins at runs ⊢
  induction runs with
  | nil => exact ⟨[], rfl, .nil⟩
  | @cons table join tables joins first _ induction =>
      rcases first with ⟨navigation, before, known, after, one, rfl⟩
      rcases exists_joinClause one with ⟨clause, text, shows⟩
      rcases induction with ⟨clauses, texts, all⟩
      refine ⟨clause :: clauses, ?_, .cons shows all⟩
      rw [List.map_cons, List.flatten_cons, text, texts, List.flatMap_cons]

theorem Dialect.squeezed_fromClause (dialect : Dialect) {name : String} {entity : Entity}
    (accepted : catalog.entity name = .ok entity) (noLock : Bool) :
    (dialect.fromClause entity noLock).squeezed =
      [.word "FROM", .identifier (catalog.tableName name), .word (catalog.aliasName name)] ++
        (dialect.tableHint noLock).squeezed := by
  rcases Catalog.entity_eq_ok.mp accepted with ⟨-, rfl⟩
  rw [fromClause, Fragment.squeezed_spaced]
  simp [Entity.aliasedTable, Entity.tableName]
  exact ⟨rfl, rfl⟩

namespace ShowsJoins

variable {dialect : Dialect} {query : Query} {clauses : List JoinClause}

theorem of_inside {inner outer : Fragment}
    (shown : ShowsJoins catalog dialect query inner.squeezed clauses) (inside : inner <:+: outer) :
    ShowsJoins catalog dialect query outer.squeezed clauses := by
  rcases inside with ⟨left, right, rfl⟩
  rcases shown.around with ⟨head, rest, equal⟩
  refine ⟨⟨Fragment.squeezed left ++ head, rest ++ Fragment.squeezed right, ?_⟩, shown.shows⟩
  simp [equal]

/-- The tables and the conditions of a statement, whatever stands around them. -/
theorem exists_of_source {entity : Entity} {tables : List JoinedTable} {conditions : Fragment}
    {draft middle last later : Draft} (accepted : catalog.entity query.entity = .ok entity)
    (joins : ((Scope.aliased catalog).joins entity (query.joins ++ entity.navigations)).runFrom
      draft = (.ok tables, middle))
    (filters : ((Scope.aliased catalog).whereClause query.filters).runFrom last =
      (.ok conditions, later)) :
    ∃ clauses, ∀ head rest, ShowsJoins catalog dialect query
      (head ++ (dialect.fromClause entity query.noLock).squeezed ++
        (JoinedTable.joinClauses tables).squeezed ++ conditions.squeezed ++ rest) clauses := by
  rcases exists_joinClauses joins with ⟨clauses, text, shows⟩
  simp only [Scope.whereClause, Build.runFrom_bind_eq_ok, Build.runFrom_pure_eq_ok] at filters
  rcases filters with ⟨fragments, _, -, rfl, rfl⟩
  rw [Catalog.aliasName_of_entity accepted] at shows
  refine ⟨clauses, fun head rest => ⟨⟨head, (Fragment.always ++ fragments.flatMap fun condition =>
    [Token.space, .word "AND", .space] ++ condition).squeezed ++ rest, ?_⟩, ?_⟩⟩
  · rw [dialect.squeezed_fromClause accepted, text]
    simp
  · rcases Catalog.entity_eq_ok.mp accepted with ⟨-, rfl⟩
    exact shows

end ShowsJoins

section Statements

variable {dialect : Dialect} {query : Query} {draft later : Draft} {built : Built}

theorem SelectClauses.exists_showsJoins {top : Option UInt32} {clauses : SelectClauses}
    (run : (build catalog dialect query top).runFrom draft = (.ok clauses, later)) :
    ∃ joins, ∀ ordering, ShowsJoins catalog dialect query
      { clauses with ordering }.sql.squeezed joins := by
  rcases run_of_build run with ⟨entity, selected, tables, conditions, grouping, having, ordering,
    accepted, -, joins, filters, -, -, -⟩
  rcases ShowsJoins.exists_of_source accepted joins filters with ⟨clauses, shown⟩
  refine ⟨clauses, fun ordering => ?_⟩
  have whole := shown
    ((dialect.selectKeyword query.distinct top).squeezed ++ (Fragment.squeezed
      (if query.select.isNone then selected ++ JoinedTable.selectedColumns tables else selected)))
    (grouping.squeezed ++ having.squeezed ++ ordering.squeezed)
  simpa [SelectClauses.sql, Fragment.squeezed_spaced] using whole

theorem ScalarClauses.exists_showsJoins {head : Scope → Build Fragment} {clauses : ScalarClauses}
    (run : (build catalog dialect query head).runFrom draft = (.ok clauses, later)) :
    ∃ joins, ∀ extra : Fragment, ShowsJoins catalog dialect query
      { clauses with conditions := clauses.conditions ++ extra }.sql.squeezed joins := by
  rcases run_of_build run with
    ⟨entity, first, tables, conditions, accepted, -, joins, filters⟩
  rcases ShowsJoins.exists_of_source accepted joins filters with ⟨clauses, shown⟩
  refine ⟨clauses, fun extra => ?_⟩
  simpa [ScalarClauses.sql, Fragment.squeezed_spaced] using shown first.squeezed extra.squeezed

namespace Fragment

variable (sql : Fragment)

theorem infix_parenthesized : sql <:+: parenthesized sql :=
  List.infix_append ..

theorem infix_limit (count : Nat) : sql <:+: sql.limit count :=
  ((List.prefix_append ..).trans (List.prefix_append ..)).isInfix

theorem infix_offsetLimit (rows : RowRange) : sql <:+: sql.offsetLimit rows :=
  (sql.infix_limit _).trans ((List.prefix_append ..).trans (List.prefix_append ..)).isInfix

theorem infix_offsetFetch (rows : RowRange) : sql <:+: sql.offsetFetch rows := by
  refine List.IsPrefix.isInfix ?_
  simp [offsetFetch]

theorem infix_firstRows (count : Nat) : sql <:+: sql.firstRows count :=
  (sql.infix_parenthesized.trans (List.infix_append ..)).trans (List.prefix_append ..).isInfix

theorem infix_rowsBetween (rows : RowRange) : sql <:+: sql.rowsBetween rows := by
  have numbered : sql <:+: numberedRows sql :=
    sql.infix_parenthesized.trans (List.infix_append ..)
  have range : ∀ text : Fragment, text <:+: text ++ .space :: number rows.first.toNat ++
      [.space, .word "AND", .space] ++ number rows.last.toNat := fun text =>
    (((List.prefix_append ..).trans (List.prefix_append ..)).trans (List.prefix_append ..)).isInfix
  exact ((numbered.trans (infix_parenthesized _)).trans (List.infix_append ..)).trans (range _)

end Fragment

theorem exists_showsJoins_buildGet
    (run : (query.buildGet catalog dialect).runFrom draft = (.ok built, later)) :
    ∃ joins, ShowsJoins catalog dialect query built.sql.squeezed joins := by
  cases dialect <;>
    simp only [Query.buildGet, Build.runFrom_bind_eq_ok, Build.runFrom_pure_eq_ok] at run <;>
    rcases run with ⟨clauses, last, inner, rfl, rfl⟩ <;>
    rcases SelectClauses.exists_showsJoins inner with ⟨joins, shown⟩ <;>
    refine ⟨joins, (shown clauses.ordering).of_inside ?_⟩
  case mysql => exact Fragment.infix_limit _ 1
  case sqlServer => exact List.infix_rfl
  case oracle => exact Fragment.infix_firstRows _ 1

theorem exists_showsJoins_buildList
    (run : (query.buildList catalog dialect).runFrom draft = (.ok built, later)) :
    ∃ joins, ShowsJoins catalog dialect query built.sql.squeezed joins := by
  simp only [Query.buildList, Build.runFrom_bind_eq_ok, Build.runFrom_pure_eq_ok] at run
  rcases run with ⟨clauses, last, inner, rfl, rfl⟩
  rcases SelectClauses.exists_showsJoins inner with ⟨joins, shown⟩
  refine ⟨joins, (shown clauses.ordering).of_inside ?_⟩
  cases dialect <;> cases query.top
  case mysql.some count => exact Fragment.infix_limit _ count.toNat
  case oracle.some count => exact Fragment.infix_firstRows _ count.toNat
  all_goals exact List.infix_rfl

theorem SelectClauses.withDefaultOrder_cases {scope : Scope} {clauses ordered : SelectClauses}
    (found : clauses.withDefaultOrder scope query = .ok ordered) :
    ∃ ordering, ordered = { clauses with ordering } := by
  unfold SelectClauses.withDefaultOrder at found
  split_ifs at found
  · cases found
    exact ⟨_, rfl⟩
  · rcases bind_eq_ok.mp found with ⟨ordering, -, equal⟩
    cases equal
    exact ⟨ordering, rfl⟩
  · cases found
    exact ⟨_, rfl⟩

theorem exists_showsJoins_buildPage {index size : UInt32}
    (run : (query.buildPage catalog dialect index size).runFrom draft = (.ok built, later)) :
    ∃ joins, ShowsJoins catalog dialect query built.sql.squeezed joins := by
  simp only [Query.buildPage, Build.runFrom_bind_eq_ok, Build.runFrom_lift_eq_ok] at run
  rcases run with ⟨rows, _, ⟨-, rfl⟩, clauses, last, inner, run⟩
  rcases SelectClauses.exists_showsJoins inner with ⟨joins, shown⟩
  cases dialect <;>
    simp only [Build.runFrom_bind_eq_ok, Build.runFrom_pure_eq_ok, Build.runFrom_lift_eq_ok] at run
  case mysql =>
    rcases run with ⟨rfl, rfl⟩
    exact ⟨joins, (shown clauses.ordering).of_inside (Fragment.infix_offsetLimit _ rows)⟩
  case sqlServer =>
    rcases run with ⟨ordered, _, ⟨found, rfl⟩, rfl, rfl⟩
    rcases SelectClauses.withDefaultOrder_cases found with ⟨ordering, rfl⟩
    exact ⟨joins, (shown ordering).of_inside (Fragment.infix_offsetFetch _ rows)⟩
  case oracle =>
    rcases run with ⟨rfl, rfl⟩
    exact ⟨joins, (shown clauses.ordering).of_inside (Fragment.infix_rowsBetween _ rows)⟩

theorem exists_showsJoins_buildAny
    (run : (query.buildAny catalog dialect).runFrom draft = (.ok built, later)) :
    ∃ joins, ShowsJoins catalog dialect query built.sql.squeezed joins := by
  simp only [Query.buildAny, Build.runFrom_bind_eq_ok] at run
  rcases run with ⟨clauses, last, inner, run⟩
  rcases ScalarClauses.exists_showsJoins inner with ⟨joins, shown⟩
  have own := shown []
  rw [List.append_nil] at own
  cases dialect <;> rw [Build.runFrom_pure_eq_ok] at run <;> rcases run with ⟨rfl, rfl⟩
  case mysql => exact ⟨joins, own.of_inside (Fragment.infix_limit _ 1)⟩
  case sqlServer => exact ⟨joins, own⟩
  case oracle =>
    rw [List.append_assoc]
    exact ⟨joins, shown _⟩

/-- A count or a summary is its clauses. -/
theorem exists_showsJoins_built {head : Scope → Build Fragment}
    (run : (do
      let clauses ← ScalarClauses.build catalog dialect query head
      return clauses.built : Build Built).runFrom draft = (.ok built, later)) :
    ∃ joins, ShowsJoins catalog dialect query built.sql.squeezed joins := by
  simp only [Build.runFrom_bind_eq_ok, Build.runFrom_pure_eq_ok] at run
  rcases run with ⟨clauses, last, inner, rfl, rfl⟩
  rcases ScalarClauses.exists_showsJoins inner with ⟨joins, shown⟩
  have own := shown []
  rw [List.append_nil] at own
  exact ⟨joins, own⟩

theorem Operation.exists_showsJoins {operation : Operation} (reads : operation.reads = true)
    (run : (operation.build catalog dialect).runFrom draft = (.ok built, later)) :
    ∃ joins, ShowsJoins catalog dialect operation.query built.sql.squeezed joins := by
  cases operation <;> cases reads
  case get => exact exists_showsJoins_buildGet run
  case list => exact exists_showsJoins_buildList run
  case page => exact exists_showsJoins_buildPage run
  case any => exact exists_showsJoins_buildAny run
  case count => exact exists_showsJoins_built run
  case summarize => exact exists_showsJoins_built run

end Statements

end Clauses

end EntitySql
