import Mathlib
import EntitySql.Proofs.RowQueryText
import EntitySql.Proofs.RowQueryRun

/-! The queries that statements ask for. A query for rows says what it shows of which rows;
counting them and looking for any take the same rows. -/

namespace EntitySql

/-! What a query asks for, told without its text. -/

structure SourceJoin.Means (join : SourceJoin) (catalog : Catalog)
    (asked : Navigation × JoinView) : Prop where
  kind : join.kind = asked.1.kind
  source : join.source = ⟨catalog.tableName asked.2.target, asked.2.aliasName⟩
  condition : join.condition.Agrees
    (Expr.truth? (.ofJoin catalog asked.2) · · asked.1.condition)

structure RowSource.Means (source : RowSource) (catalog : Catalog) (query : Query) : Prop where
  first : source.first = ⟨catalog.tableName query.entity, catalog.aliasName query.entity⟩
  joins : List.Forall₂ (fun join asked => SourceJoin.Means join catalog asked) source.joins
    (query.joinViews catalog)
  condition : source.condition.Agrees (Expr.jointTruth? (.aliased catalog) · · query.filters)

/-- The query for rows is the given one, with no cap on its rows. -/
structure RowQuery.Means (rows : RowQuery) (catalog : Catalog) (query : Query) : Prop where
  distinct : rows.distinct = query.distinct
  items : query.itemTerms? catalog = some rows.items
  source : rows.source.Means catalog query
  uncapped : rows.source.cap? = none
  groups : query.groups.mapM (Expr.term? (.aliased catalog)) = some rows.groups
  unasked : query.having = [] → rows.having? = none
  asked : query.having ≠ [] → ∃ condition, rows.having? = some condition ∧
    condition.Agrees (Expr.jointTruth? (.aliased catalog) · · query.having)
  order : query.order.mapM (·.expression.term? (.aliased catalog)) = some rows.order
  unlimited : rows.limit? = none

/-! Conditions that agree are true of the same rows. -/

theorem Formula.Agrees.accepted_eq {first second : Formula}
    {truth? : Engine → Valuation → Option Truth} (one : first.Agrees truth?)
    (other : second.Agrees truth?) (engine : Engine) (valuation : Valuation) :
    first.accepted engine valuation = second.accepted engine valuation := by
  rcases one engine valuation with ⟨truth, read, told⟩
  rcases other engine valuation with ⟨found, again, same⟩
  rw [told] at same
  cases same
  simp only [accepted, read, again]

section

variable {catalog : Catalog} {query : Query} (server : RowServer)

theorem SourceJoin.Means.run_eq {first second : SourceJoin} {asked : Navigation × JoinView}
    (one : first.Means catalog asked) (other : second.Means catalog asked)
    (candidates : List TableRow) (rows : List JoinedRow) :
    first.run server candidates rows = second.run server candidates rows := by
  have picks : server.picks first.condition = server.picks second.condition :=
    funext fun row => one.condition.accepted_eq other.condition _ _
  have extend : first.extend = second.extend := by
    funext row candidate
    rw [SourceJoin.extend, SourceJoin.extend, one.source, other.source]
  have partners : first.partners server candidates = second.partners server candidates := by
    funext row
    rw [SourceJoin.partners, SourceJoin.partners, picks, extend]
  have unmatched : first.unmatched server candidates = second.unmatched server candidates := by
    funext rows
    rw [SourceJoin.unmatched, SourceJoin.unmatched, picks, extend]
  rw [run, run, partners, unmatched, one.kind, other.kind]

theorem foldl_run_eq {asked : List (Navigation × JoinView)} {first second : List SourceJoin}
    (one : List.Forall₂ (fun join asked => SourceJoin.Means join catalog asked) first asked)
    (other : List.Forall₂ (fun join asked => SourceJoin.Means join catalog asked) second asked)
    (tables : String → List TableRow) (rows : List JoinedRow) :
    first.foldl (fun rows join => join.run server (tables join.source.table) rows) rows =
      second.foldl (fun rows join => join.run server (tables join.source.table) rows) rows := by
  induction one generalizing second rows with
  | nil =>
      cases other
      rfl
  | cons head _ induction =>
      cases other with
      | cons same rest =>
          rw [List.foldl_cons, List.foldl_cons, head.run_eq server same, head.source, same.source]
          exact induction rest _

/-- Sources that ask for the same pick the same rows. -/
theorem RowSource.Means.picked_eq {first second : RowSource} (one : first.Means catalog query)
    (other : second.Means catalog query) (tables : String → List TableRow) :
    first.picked server tables = second.picked server tables := by
  have picks : server.picks first.condition = server.picks second.condition :=
    funext fun row => one.condition.accepted_eq other.condition _ _
  have joined : first.joined server tables = second.joined server tables := by
    rw [RowSource.joined, RowSource.joined, one.first, other.first,
      foldl_run_eq server one.joins other.joins]
  rw [picked, picked, joined, picks]

end

/-! Joined tables. -/

theorem Expr.reads_predicate {scope : Scope} (joins : scope.PlainJoin) {expression : Expr}
    (plain : expression.PlainMembers scope.catalog) {draft later : Draft} {fragment : Fragment}
    (run : (expression.predicate scope).runFrom draft = (.ok fragment, later)) {bag : Params}
    (grown : bag.Extends later.params) :
    ∃ formula : Formula, formula.Agrees (truth? scope · · expression) ∧
      EntitySql.Reads bag .disjunction fragment.squeezed formula := by
  rcases expression.exists_mixesWith_eq_false with ⟨own, unmixed⟩
  rcases readsBack_predicate joins plain run bag grown with ⟨formula, agrees, connected⟩
  exact ⟨formula, agrees, reads_connected (connected own unmixed)⟩

/-- How the parts of a joined table read. -/
structure JoinedTable.Reads (table : JoinedTable) (bag : Params) (catalog : Catalog)
    (asked : Navigation × JoinView) : Prop where
  join : ∃ join : SourceJoin, join.Means catalog asked ∧ JoinReads bag table.clause.squeezed join
  columns : ∃ terms, catalog.joinedTerms? asked = some terms ∧
    MoreRead bag table.columns.squeezed terms

namespace Scope

variable {catalog : Catalog} {bag : Params}

theorem reads_joinedColumns (bag : Params) {navigation : Navigation} {target : Entity}
    {aliasName : String} {columns : Fragment}
    (accepted : catalog.entity navigation.target = .ok target)
    (found : (aliased catalog).joinedColumns aliasName navigation target = .ok columns) :
    ∃ terms, (if navigation.withFields then catalog.fieldTerms? navigation.target aliasName
        else some []) = some terms ∧ MoreRead bag columns.squeezed terms := by
  rcases joinedColumns_cases found with ⟨none, rfl⟩ | ⟨given, fragments, rfl, each⟩
  · rw [none]
    exact ⟨[], rfl, [], rfl, .nil⟩
  · have told : ∃ terms, target.fields.mapM (fun field =>
          catalog.fieldTerm? ⟨navigation.target, field.property⟩ aliasName) = some terms ∧
        List.Forall₂ (fun fragment term => MoreRead bag (Fragment.squeezed fragment) [term])
          fragments terms := by
      apply exists_mapM_eq_some
      refine each.imp ?_
      rintro _ field ⟨column, reached, rfl⟩
      rcases reads_columnUnder bag accepted reached with ⟨term, told, reads⟩
      exact ⟨term, told, [_], by simp; rfl, .cons (itemReads_renamed reads _) .nil⟩
    rcases told with ⟨terms, told, reads⟩
    rw [Catalog.fields_of_entity accepted] at told
    rw [if_pos given]
    refine ⟨terms, told, ?_⟩
    have flat := moreRead_flatten (List.forall₂_map_right_iff.mpr reads)
    rwa [← List.flatMap_def, List.flatMap_singleton'] at flat

variable (plain : catalog.PlainProperties)

include plain

theorem reads_joinTable {root : Entity} {taken : List String} {navigation : Navigation}
    (named : isPlainIdentifier navigation.name = true) {draft later : Draft} {table : JoinedTable}
    (run : ((aliased catalog).joinTable root taken navigation).runFrom draft =
      (.ok table, later)) (grown : bag.Extends later.params) :
    table.aliasName = joinAlias taken (catalog.aliasName navigation.target) navigation.name ∧
    table.Reads bag catalog (navigation,
      { target := navigation.target, aliasName := table.aliasName,
        selfJoin := navigation.target = root.name }) := by
  rcases joinTable_eq_ok run with ⟨target, condition, accepted, lent, on, clause, joined⟩
  have aliasPlain : isPlainIdentifier table.aliasName = true :=
    lent ▸ isPlainIdentifier_joinAlias taken (Catalog.isPlainIdentifier_aliasName accepted) named
  have own := Catalog.aliasName_of_entity accepted
  refine ⟨own ▸ lent, ?_, reads_joinedColumns bag accepted joined⟩
  rcases Expr.reads_predicate (plainJoin_ofJoin catalog aliasPlain)
    (plain.members navigation.condition) on grown with ⟨formula, agrees, reads⟩
  refine ⟨⟨navigation.kind, ⟨target.table, table.aliasName⟩, formula⟩, ⟨rfl, ?_, agrees⟩,
    condition.squeezed, reads, ?_⟩
  · rcases Catalog.entity_eq_ok.mp accepted with ⟨-, rfl⟩
    rfl
  · rw [clause]
    cases navigation.kind <;>
      simp [JoinKind.keywords, Fragment.words, Entity.tableName, SourceTable.tokens]

theorem reads_joinTables {root : Entity} {navigations : List Navigation} {taken : List String}
    (named : ∀ navigation ∈ navigations, isPlainIdentifier navigation.name = true)
    {draft later : Draft} {tables : List JoinedTable}
    (run : ((aliased catalog).joinTables root taken navigations).runFrom draft =
      (.ok tables, later)) (grown : bag.Extends later.params) :
    List.Forall₂ (fun table asked => JoinedTable.Reads table bag catalog asked) tables
      (catalog.joinViews root.name taken navigations) := by
  induction navigations generalizing taken draft tables with
  | nil =>
      rw [joinTables, Build.runFrom_pure_eq_ok] at run
      rcases run with ⟨rfl, rfl⟩
      exact .nil
  | cons navigation navigations induction =>
      simp only [joinTables, Build.runFrom_bind_eq_ok, Build.runFrom_pure_eq_ok] at run
      rcases run with ⟨first, middle, head, rest, last, tail, rfl, rfl⟩
      have others : ∀ other ∈ navigations, isPlainIdentifier other.name = true :=
        fun other listed => named other (List.mem_cons_of_mem _ listed)
      have mapped : (aliased catalog).catalog.PlainProperties := plain
      have kept := (written_joinTables mapped others tail).1.binds.extends
      rcases reads_joinTable plain (named navigation List.mem_cons_self) head (grown.trans kept) with
        ⟨aliasName, reads⟩
      rw [aliasName] at tail reads
      exact .cons reads (induction others tail)

end Scope

/-! The rows that a query takes. -/

namespace Query

variable {catalog : Catalog} {query : Query} {entity : Entity} {bag : Params}
  {draft later : Draft} {tables : List JoinedTable} (plain : catalog.PlainProperties)

include plain

theorem reads_joins (names : query.PlainNames)
    (accepted : catalog.entity query.entity = .ok entity)
    (run : ((Scope.aliased catalog).joins entity (query.joins ++ entity.navigations)).runFrom
      draft = (.ok tables, later)) (grown : bag.Extends later.params) :
    List.Forall₂ (fun table asked => JoinedTable.Reads table bag catalog asked) tables
      (query.joinViews catalog) := by
  have reads := Scope.reads_joinTables plain (names.navigations accepted) run grown
  rw [Catalog.aliasName_of_entity accepted] at reads
  rcases Catalog.entity_eq_ok.mp accepted with ⟨-, rfl⟩
  exact reads

/-- The tables and conditions are the source of the query, also with a cap on the row
number behind them. -/
theorem reads_source (dialect : Dialect) (accepted : catalog.entity query.entity = .ok entity)
    (joined : List.Forall₂ (fun table asked => JoinedTable.Reads table bag catalog asked) tables
      (query.joinViews catalog)) {conditions : Fragment}
    (filters : ((Scope.aliased catalog).whereClause query.filters).runFrom draft =
      (.ok conditions, later)) (grown : bag.Extends later.params) :
    ∃ source : RowSource, source.Means catalog query ∧ source.cap? = none ∧
      SourceReads bag ((dialect.fromClause entity query.noLock).squeezed ++
        ((JoinedTable.joinClauses tables).squeezed ++ conditions.squeezed)) source ∧
      SourceReads bag ((dialect.fromClause entity query.noLock).squeezed ++
        ((JoinedTable.joinClauses tables).squeezed ++ (conditions.squeezed ++
          [.word "AND", .word "ROWNUM", .symbol .lessOrEqual, .word "1"])))
        { source with cap? := some 1 } := by
  have joins := Scope.plainJoin_aliased catalog
  rcases Scope.connected_whereClause joins (fun _ _ => plain.members _) filters grown with
    ⟨tokens, condition, starts, connected, agrees⟩
  rcases exists_between (joined.imp fun _ _ each => each.join) with ⟨sources, means, reads⟩
  have pieces := List.forall₂_map_left_iff.mpr reads
  have hinted : (dialect.tableHint query.noLock).squeezed = [] ∨
      (dialect.tableHint query.noLock).squeezed =
        [.word "WITH", .symbol .openParen, .word "NOLOCK", .symbol .closeParen] := by
    cases dialect <;> cases query.noLock <;> decide
  refine ⟨⟨⟨entity.table, entity.aliasName⟩, sources, condition, none⟩, ⟨?_, means, agrees⟩, rfl,
    ⟨_, _, tokens, ?_, hinted, pieces, .inl ⟨reads_connected connected, rfl⟩⟩,
    ⟨_, _, _, ?_, hinted, pieces,
      .inr ⟨tokens, "1", 1, connected, Nat.toNat?_repr 1, rfl, rfl⟩⟩⟩
  · rcases Catalog.entity_eq_ok.mp accepted with ⟨-, rfl⟩
    rfl
  all_goals
    simp [Dialect.fromClause, Fragment.squeezed_spaced, Entity.aliasedTable, Entity.tableName,
      SourceTable.tokens, JoinedTable.squeezed_joinClauses, starts]

end Query

/-! Whole statements. -/

theorem Dialect.squeezed_selectKeyword (dialect : Dialect) (distinct : Bool) :
    (dialect.selectKeyword distinct none).squeezed =
      .word "SELECT" :: if distinct then [.word "DISTINCT"] else [] := by
  cases dialect <;> cases distinct <;> rfl

/-- A query without groups, conditions on them and an order. -/
theorem RowQuery.reads_bare {items : List Formula} {source : RowSource} {bag : Params}
    {head tables limit : List Token} {top? bottom? : Option Nat}
    (headed : HeadReads bag head false top? items) (sourced : SourceReads bag tables source)
    (limited : LimitReads limit bottom?) (ended : source.cap? ≠ none → limit = []) :
    RowQuery.Reads { items, source, limit? := bottom?.or top? } bag
      (.word "SELECT" :: (head ++ (tables ++ limit))) :=
  ⟨head, tables, [], [], [], limit, top?, bottom?, rfl, headed, sourced, .inl ⟨rfl, rfl⟩,
    .inl ⟨rfl, rfl⟩, .inl ⟨rfl, rfl⟩, limited, rfl, ended⟩

section

variable {catalog : Catalog} {dialect : Dialect} {query : Query} {bag : Params}
  {draft later : Draft} (plain : catalog.PlainProperties) (names : query.PlainNames)

include plain names

theorem SelectClauses.reads_of_build {clauses : SelectClauses}
    (run : (build catalog dialect query none).runFrom draft = (.ok clauses, later))
    (grown : bag.Extends later.params) :
    ∃ rows : RowQuery, rows.Means catalog query ∧ rows.Reads bag clauses.sql.squeezed := by
  rcases run_of_build run with ⟨entity, selected, tables, conditions, grouping, having, ordering,
    accepted, select, joined, filters, groups, kept, order⟩
  have joins := Scope.plainJoin_aliased catalog
  -- What is read early is bound early: the bag holds it all the more.
  have grownHaving := grown.trans
    (Scope.written_orderClause joins (fun _ _ => plain.members _) order).binds.extends
  have grownGroups := grownHaving.trans
    (Scope.written_havingClause joins (fun _ _ => plain.members _) kept).binds.extends
  have grownFilters := grownGroups.trans
    (Scope.written_groupClause joins (fun _ _ => plain.members _) groups).binds.extends
  have grownJoins := grownFilters.trans
    (Scope.written_whereClause joins (fun _ _ => plain.members _) filters).binds.extends
  have grownSelect := grownJoins.trans
    (Scope.written_joins (.aliased catalog) plain (names.navigations accepted)
      joined).1.binds.extends
  have tablesRead := Query.reads_joins plain names accepted joined grownJoins
  rcases Query.reads_source plain dialect accepted tablesRead filters grownFilters with
    ⟨source, means, uncapped, sourced, -⟩
  rcases Scope.reads_groupClause groups grownGroups with ⟨keys, keyed, keysRead⟩
  rcases Scope.reads_havingClause joins plain kept grownHaving with
    ⟨having?, havingRead, unasked, asked⟩
  rcases Scope.reads_orderClause order grown with ⟨sorts, sorted, sortsRead⟩
  have listed : ∃ items, query.itemTerms? catalog = some items ∧ ListReads bag (Fragment.squeezed
      (if query.select.isNone then selected ++ JoinedTable.selectedColumns tables
        else selected)) items := by
    unfold Query.itemTerms?
    cases shape : query.select with
    | none =>
        rw [shape, Scope.selectList, Build.runFrom_lift_eq_ok] at select
        rcases Scope.reads_fieldList bag accepted select.1 with ⟨own, told, reads⟩
        rcases exists_mapM_eq_some (tablesRead.imp fun _ _ each => each.columns) with
          ⟨others, toldToo, more⟩
        refine ⟨own ++ others.flatten, by simp [told, toldToo], ?_⟩
        have columns := moreRead_flatten (List.forall₂_map_left_iff.mpr more)
        simpa [JoinedTable.selectedColumns, List.flatMap_def] using reads.append columns
    | some selector =>
        rw [shape] at select
        exact Scope.reads_projection select grownSelect
  rcases listed with ⟨items, told, itemsRead⟩
  refine ⟨⟨query.distinct, items, source, keys, having?, sorts, none⟩,
    ⟨rfl, told, means, uncapped, keyed, unasked, asked, sorted, rfl⟩,
    _, _, _, _, _, [], none, none, ?_, itemsRead.head (.inl ⟨rfl, rfl⟩) query.distinct, sourced,
    keysRead, havingRead, sortsRead, .inl ⟨rfl, rfl⟩, rfl, fun capped => absurd uncapped capped⟩
  simp [sql, Fragment.squeezed_spaced, Dialect.squeezed_selectKeyword]

theorem ScalarClauses.reads_of_build {head : Fragment} {clauses : ScalarClauses}
    (run : (build catalog dialect query fun _ => return head).runFrom draft =
      (.ok clauses, later)) (grown : bag.Extends later.params) :
    ∃ (tokens : List Token) (source : RowSource), source.Means catalog query ∧
      source.cap? = none ∧
      (∀ extra : Fragment, { clauses with conditions := clauses.conditions ++ extra }.sql.squeezed =
        head.squeezed ++ (tokens ++ extra.squeezed)) ∧
      SourceReads bag tokens source ∧
      SourceReads bag (tokens ++ [.word "AND", .word "ROWNUM", .symbol .lessOrEqual, .word "1"])
        { source with cap? := some 1 } := by
  rcases run_of_build run with
    ⟨entity, _, tables, conditions, accepted, ⟨rfl, rfl⟩, joined, filters⟩
  have joins := Scope.plainJoin_aliased catalog
  have grownJoins := grown.trans
    (Scope.written_whereClause joins (fun _ _ => plain.members _) filters).binds.extends
  have tablesRead := Query.reads_joins plain names accepted joined grownJoins
  rcases Query.reads_source plain dialect accepted tablesRead filters grown with
    ⟨source, means, uncapped, sourced, capped⟩
  refine ⟨_, source, means, uncapped, fun extra => ?_, sourced, by simpa using capped⟩
  simp [sql, Fragment.squeezed_spaced]

end

namespace Query

variable {catalog : Catalog} {dialect : Dialect} {query : Query} {later : Draft} {built : Built}
  (plain : catalog.PlainProperties) (names : query.PlainNames)

include plain names

/-- A query for all rows reads as itself. -/
theorem reads_buildList (whole : query.top = none) {draft : Draft}
    (run : (query.buildList catalog dialect).runFrom draft = (.ok built, later)) :
    ∃ rows : RowQuery, rows.Means catalog query ∧ rows.Reads later.params built.sql.squeezed := by
  simp only [buildList, whole, Build.runFrom_bind_eq_ok, Build.runFrom_pure_eq_ok] at run
  rcases run with ⟨clauses, last, inner, rfl, rfl⟩
  have reads := SelectClauses.reads_of_build plain names inner last.params.extends_refl
  cases dialect <;> exact reads

theorem reads_buildCount {draft : Draft}
    (run : (query.buildCount catalog dialect).runFrom draft = (.ok built, later)) :
    ∃ source : RowSource, source.Means catalog query ∧ source.cap? = none ∧
      (RowQuery.counting source).Reads later.params built.sql.squeezed := by
  simp only [buildCount, Build.runFrom_bind_eq_ok, Build.runFrom_pure_eq_ok] at run
  rcases run with ⟨clauses, last, inner, rfl, rfl⟩
  rcases ScalarClauses.reads_of_build plain names inner last.params.extends_refl with
    ⟨tokens, source, means, uncapped, shape, sourced, -⟩
  have one : Reads last.params .primary [.word "1"] (.constant (.int 1)) :=
    reads_number (by decide +kernel)
  have count : Reads last.params .sum (Fragment.call "COUNT" [.word "1"]).squeezed
      (.aggregate .count (.constant (.int 1))) :=
    reads_sum_of_primary
      (reads_call .count (reads_disjunction_of_sum (reads_sum_of_primary one)))
  have headed := (listReads_single (.inl count)).head (.inl ⟨rfl, rfl⟩) false
  refine ⟨source, means, uncapped, ?_⟩
  have reads : (RowQuery.counting source).Reads last.params _ :=
    RowQuery.reads_bare headed sourced (.inl ⟨rfl, rfl⟩) fun capped => absurd uncapped capped
  have text := shape []
  simp only [List.append_nil] at text
  rw [ScalarClauses.built, text]
  simpa using reads

/-- A query for any row asks for the rows of its source, in one way or another for no more
than one of them. -/
theorem reads_buildAny {draft : Draft}
    (run : (query.buildAny catalog dialect).runFrom draft = (.ok built, later)) :
    ∃ (source : RowSource) (limit? : Option Nat), source.Means catalog query ∧
      source.cap? ≠ some 0 ∧ limit? ≠ some 0 ∧
      (RowQuery.probing source limit?).Reads later.params built.sql.squeezed := by
  unfold buildAny at run
  simp only [Build.runFrom_bind_eq_ok] at run
  rcases run with ⟨clauses, last, inner, rest⟩
  rcases ScalarClauses.reads_of_build plain names inner last.params.extends_refl with
    ⟨tokens, source, means, uncapped, shape, sourced, capped⟩
  have one : ItemReads last.params [.word "1"] (.constant (.int 1)) :=
    .inl (reads_sum_of_primary (reads_number (by decide +kernel)))
  have item := listReads_single one
  have digit : "1".toNat? = some 1 := Nat.toNat?_repr 1
  have number : Fragment.number 1 = [.word "1"] := by rfl
  have text := shape []
  simp only [List.append_nil] at text
  cases dialect <;> rw [Build.runFrom_pure_eq_ok] at rest <;> rcases rest with ⟨rfl, rfl⟩
  case mysql =>
    have reads : (RowQuery.probing source (some 1)).Reads last.params _ :=
      RowQuery.reads_bare (item.head (.inl ⟨rfl, rfl⟩) false) sourced
        (.inr ⟨"1", 1, digit, rfl, rfl⟩) fun capped => absurd uncapped capped
    refine ⟨source, some 1, means, by simp [uncapped], by simp, ?_⟩
    simpa [Fragment.limit, number, Fragment.words, text] using reads
  case sqlServer =>
    have reads : (RowQuery.probing source (some 1)).Reads last.params _ :=
      RowQuery.reads_bare (item.head (.inr ⟨"1", 1, digit, rfl, rfl⟩) false) sourced
        (.inl ⟨rfl, rfl⟩) fun capped => absurd uncapped capped
    refine ⟨source, some 1, means, by simp [uncapped], by simp, ?_⟩
    simpa [ScalarClauses.built, Fragment.words, text] using reads
  case oracle =>
    have reads : (RowQuery.probing { source with cap? := some 1 } none).Reads last.params _ :=
      RowQuery.reads_bare (item.head (.inl ⟨rfl, rfl⟩) false) capped
        (.inl ⟨rfl, rfl⟩) fun _ => rfl
    refine ⟨{ source with cap? := some 1 }, none, ⟨means.first, means.joins, means.condition⟩,
      by simp, by simp, ?_⟩
    simpa [ScalarClauses.built, shape, Fragment.rowNumberAtMost, number, Fragment.words]
      using reads

end Query

end EntitySql
