import EntitySql.Proofs.ClauseMentions

/-! What statements that read name: what their clauses do, one after the other, in
whichever way a dialect caps the rows. -/

namespace EntitySql

namespace Query

/-- The joins of a query: its own, then those of its entity. -/
def joinViews (catalog : Catalog) (query : Query) : List (Navigation × JoinView) :=
  catalog.joinViews query.entity [catalog.aliasName query.entity]
    (query.joins ++ (catalog.descriptor query.entity).navigations)

/-- What the tables of a query name, and the conditions of its joins. -/
def sourceMentions (catalog : Catalog) (query : Query) : List Mention :=
  .table query.entity (catalog.aliasName query.entity) ::
    (query.joinViews catalog).flatMap catalog.joinMentions

def selectMentions (catalog : Catalog) (query : Query) : List Mention :=
  match query.select with
  | none =>
      catalog.fieldMentions query.entity (catalog.aliasName query.entity) ++
        (query.joinViews catalog).flatMap catalog.joinedMentions
  | some selector => selector.projectedMentions (.aliased catalog)

def orderMentions (catalog : Catalog) (query : Query) : List Mention :=
  query.order.flatMap fun item => item.expression.mentions (.aliased catalog)

/-- The columns of the key, where the rows show it. -/
def keyMentions (catalog : Catalog) (query : Query) : List Mention :=
  if query.groups.isEmpty && !(query.distinct && query.select.isSome) then
    (catalog.descriptor query.entity).keys.map fun key =>
      .column ⟨query.entity, key⟩ (catalog.aliasName query.entity)
  else []

/-- Where SQL Server pages rows without an order, they are in that of the key. -/
def pageOrderMentions (catalog : Catalog) (dialect : Dialect) (query : Query) : List Mention :=
  match dialect, query.order with
  | .sqlServer, [] => query.keyMentions catalog
  | _, _ => query.orderMentions catalog

/-- What a query for rows names, in whatever order they come. -/
def rowMentions (catalog : Catalog) (query : Query) (ordering : List Mention) : List Mention :=
  query.selectMentions catalog ++ query.sourceMentions catalog ++
    (query.filters ++ query.groups ++ query.having).flatMap (Expr.mentions (.aliased catalog)) ++
    ordering

/-- What a query for a single value names, whatever the value. -/
def valueMentions (catalog : Catalog) (query : Query) (head : List Mention) : List Mention :=
  head ++ query.sourceMentions catalog ++
    query.filters.flatMap (Expr.mentions (.aliased catalog))

end Query

theorem Query.mentions_joins {catalog : Catalog} {query : Query} {entity : Entity}
    (accepted : catalog.entity query.entity = .ok entity) {draft later : Draft}
    {tables : List JoinedTable}
    (run : ((Scope.aliased catalog).joins entity (query.joins ++ entity.navigations)).runFrom
      draft = (.ok tables, later)) :
    List.Forall₂ (fun table join => JoinedTable.Names table catalog join) tables
      (query.joinViews catalog) := by
  have names := Scope.mentions_joinTables run
  rw [Catalog.aliasName_of_entity accepted] at names
  rcases Catalog.entity_eq_ok.mp accepted with ⟨-, rfl⟩
  exact names

theorem Dialect.mentions_fromClause (dialect : Dialect) {catalog : Catalog} {name : String}
    {entity : Entity} (accepted : catalog.entity name = .ok entity) (noLock : Bool) :
    Mentions catalog (dialect.fromClause entity noLock).squeezed
      [.table name (catalog.aliasName name)] := by
  have source := Mentions.table catalog accepted (.inl rfl) entity.aliasName
  have hint : Mentions catalog (dialect.tableHint noLock).squeezed [] :=
    Mentions.of_solid (by cases dialect <;> cases noLock <;> decide)
  rw [← Catalog.aliasName_of_entity accepted]
  simpa [fromClause, Fragment.squeezed_spaced, Entity.aliasedTable, Entity.tableName] using
    source.append hint

theorem Dialect.mentions_selectKeyword (dialect : Dialect) (catalog : Catalog) (distinct : Bool)
    (top : Option UInt32) :
    Mentions catalog (dialect.selectKeyword distinct top).squeezed [] := by
  apply Mentions.of_solid
  cases dialect <;> cases top <;> cases distinct <;>
    simp [selectKeyword, Fragment.words, Fragment.number, Token.solid]

namespace SelectClauses

variable {catalog : Catalog} {dialect : Dialect} {query : Query} {top : Option UInt32}
  {draft later : Draft} {clauses : SelectClauses}

/-- What the clauses name, but for the order. -/
structure Names (clauses : SelectClauses) (catalog : Catalog) (query : Query) : Prop where
  accepted : catalog.entity query.entity = .ok clauses.entity
  sql : ∀ {ordering : Fragment} {mentions : List Mention},
    Mentions catalog ordering.squeezed mentions →
    Mentions catalog { clauses with ordering }.sql.squeezed (query.rowMentions catalog mentions)
  ordering : Mentions catalog clauses.ordering.squeezed (query.orderMentions catalog)
  unordered : clauses.ordering.isEmpty = query.order.isEmpty

theorem names_of_build
    (run : (build catalog dialect query top).runFrom draft = (.ok clauses, later)) :
    clauses.Names catalog query := by
  rcases run_of_build run with ⟨entity, selected, tables, conditions, grouping, having, ordering,
    accepted, select, joins, filters, groups, kept, order⟩
  have scopeQualified : (Scope.aliased catalog).qualified = true := rfl
  have joined := Query.mentions_joins accepted joins
  have columns : Mentions catalog (Fragment.squeezed
      (if query.select.isNone then selected ++ JoinedTable.selectedColumns tables else selected))
      (query.selectMentions catalog) := by
    unfold Query.selectMentions
    cases shape : query.select with
    | none =>
        rw [shape, Scope.selectList, Build.runFrom_lift_eq_ok] at select
        simpa using (Catalog.mentions_fieldList accepted select.1).append
          (JoinedTable.mentions_selectedColumns joined)
    | some selector =>
        rw [shape] at select
        exact Catalog.mentions_projection select
  refine ⟨accepted, ?_, ?_, ?_⟩
  · intro ordering mentions ordered
    have first := (dialect.mentions_selectKeyword catalog query.distinct top).append columns
    have source := (dialect.mentions_fromClause accepted query.noLock).append
      (JoinedTable.mentions_joinClauses joined)
    have filtered := Scope.mentions_whereClause (.aliased catalog) scopeQualified filters
    have grouped := Scope.mentions_groupClause (.aliased catalog) scopeQualified groups
    have kept := Scope.mentions_havingClause (.aliased catalog) scopeQualified kept
    have whole := first.append
      (source.append (filtered.append (grouped.append (kept.append ordered))))
    simpa [SelectClauses.sql, Fragment.squeezed_spaced, Query.rowMentions, Query.sourceMentions]
      using whole
  · exact Scope.mentions_orderClause (.aliased catalog) scopeQualified order
  · exact Scope.isEmpty_orderClause _ order

theorem mentions_keyOrder {name : String} {entity : Entity} {ordering : Fragment}
    (accepted : catalog.entity name = .ok entity)
    (found : keyOrder (.aliased catalog) entity = .ok ordering) :
    Mentions catalog ordering.squeezed (entity.keys.map fun key =>
      .column ⟨name, key⟩ (catalog.aliasName name)) := by
  rcases bind_eq_ok.mp found with ⟨columns, each, shown⟩
  cases shown
  have one : ∀ column key, (Scope.aliased catalog).column entity key = .ok column →
      Mentions catalog (Fragment.squeezed column) [.column ⟨name, key⟩ (catalog.aliasName name)] :=
    fun column key => (Scope.aliased catalog).mentions_column rfl accepted
  have listed := Mentions.commaSeparated
    (List.forall₂_map_right_iff.mpr ((forall₂_of_mapM_eq_ok each).imp one))
  rw [← List.flatMap_def, ← List.map_eq_flatMap] at listed
  simpa [Fragment.words] using
    (listed.cons (.word "BY") rfl).cons (.word "ORDER") rfl

theorem keyMentions_of_entity {entity : Entity}
    (accepted : catalog.entity query.entity = .ok entity) :
    query.keyMentions catalog =
      if showsKey query entity then
        entity.keys.map fun key => .column ⟨query.entity, key⟩ (catalog.aliasName query.entity)
      else [] := by
  rcases Catalog.entity_eq_ok.mp accepted with ⟨-, rfl⟩
  unfold Query.keyMentions showsKey
  cases (catalog.descriptor query.entity).keys <;> simp

theorem Names.withDefaultOrder {ordered : SelectClauses} (names : clauses.Names catalog query)
    (found : clauses.withDefaultOrder (.aliased catalog) query = .ok ordered) :
    Mentions catalog ordered.sql.squeezed
      (query.rowMentions catalog (query.pageOrderMentions catalog .sqlServer)) := by
  unfold SelectClauses.withDefaultOrder at found
  have unordered := names.unordered
  cases order : query.order with
  | cons item items =>
      rw [order] at unordered
      rw [unordered] at found
      cases found
      have ownOrder : query.pageOrderMentions catalog .sqlServer = query.orderMentions catalog := by
        simp [Query.pageOrderMentions, order]
      rw [ownOrder]
      exact names.sql names.ordering
  | nil =>
      rw [order] at unordered
      rw [unordered] at found
      simp only [Query.pageOrderMentions, order, keyMentions_of_entity names.accepted]
      simp only [List.isEmpty_nil, Bool.not_true, Bool.false_eq_true, if_false] at found
      split at found
      · next shown =>
          rcases bind_eq_ok.mp found with ⟨ordering, keyed, equal⟩
          cases equal
          rw [if_pos shown]
          exact names.sql (mentions_keyOrder names.accepted keyed)
      · next hidden =>
          cases found
          rw [if_neg hidden]
          exact names.sql (Mentions.of_solid (by decide))

end SelectClauses

namespace ScalarClauses

variable {catalog : Catalog} {dialect : Dialect} {query : Query} {draft later : Draft}

/-- What the clauses name, also with conditions that name nothing behind their own. -/
def Names (clauses : ScalarClauses) (catalog : Catalog) (mentions : List Mention) : Prop :=
  ∀ extra : Fragment, Mentions catalog extra.squeezed [] →
    Mentions catalog { clauses with conditions := clauses.conditions ++ extra }.sql.squeezed
      mentions

theorem Names.own {clauses : ScalarClauses} {mentions : List Mention}
    (names : clauses.Names catalog mentions) : Mentions catalog clauses.sql.squeezed mentions := by
  simpa using names [] .nil

theorem names_of_build {head : Scope → Build Fragment} {clauses : ScalarClauses}
    {mentions : List Mention}
    (shown : ∀ {draft later : Draft} {fragment : Fragment},
      (head (.aliased catalog)).runFrom draft = (.ok fragment, later) →
      Mentions catalog fragment.squeezed mentions)
    (run : (build catalog dialect query head).runFrom draft = (.ok clauses, later)) :
    clauses.Names catalog (query.valueMentions catalog mentions) := by
  intro extra silent
  rcases run_of_build run with
    ⟨entity, first, tables, conditions, accepted, top, joins, filters⟩
  have source := (dialect.mentions_fromClause accepted query.noLock).append
    (JoinedTable.mentions_joinClauses (Query.mentions_joins accepted joins))
  have filtered := Scope.mentions_whereClause (.aliased catalog) rfl filters
  have whole := (shown top).append (source.append (filtered.append silent))
  simpa [ScalarClauses.sql, Fragment.squeezed_spaced, Query.valueMentions, Query.sourceMentions]
    using whole

end ScalarClauses

namespace Fragment

variable {catalog : Catalog} {sql : Fragment} {mentions : List Mention}
  (inner : Mentions catalog sql.squeezed mentions)

include inner

theorem mentions_limit (count : Nat) : Mentions catalog (sql.limit count).squeezed mentions := by
  have capped : Mentions catalog [.word "LIMIT", .word (toString count)] [] :=
    Mentions.of_solid (by simp [Token.solid])
  simpa [limit, number] using inner.append capped

theorem mentions_offsetLimit (rows : RowRange) :
    Mentions catalog (sql.offsetLimit rows).squeezed mentions := by
  have skipped : Mentions catalog [.word "OFFSET", .word (toString rows.skip.toNat)] [] :=
    Mentions.of_solid (by simp [Token.solid])
  simpa [offsetLimit, number] using (mentions_limit inner rows.size.toNat).append skipped

theorem mentions_offsetFetch (rows : RowRange) :
    Mentions catalog (sql.offsetFetch rows).squeezed mentions := by
  have capped : Mentions catalog
      [.word "OFFSET", .word (toString rows.skip.toNat), .word "ROWS", .word "FETCH",
        .word "NEXT", .word (toString rows.size.toNat), .word "ROWS", .word "ONLY"] [] :=
    Mentions.of_solid (by simp [Token.solid])
  simpa [offsetFetch, number, words] using inner.append capped

theorem mentions_firstRows (count : Nat) :
    Mentions catalog (sql.firstRows count).squeezed mentions := by
  have all : Mentions catalog (allOf "T") [] := .of_names (names_allOf "T")
  have capped : Mentions catalog
      [.word "T", .word "WHERE", .word "ROWNUM", .symbol .lessOrEqual, .word (toString count)] [] :=
    Mentions.of_solid (by simp [Token.solid])
  have whole := (all.cons (.word "SELECT") rfl).append
    (((inner.parenthesized).append capped).cons (.word "FROM") rfl)
  simpa [firstRows, rowNumberAtMost, number, allOf] using whole

theorem mentions_numberedRows : Mentions catalog (numberedRows sql).squeezed mentions := by
  have all : Mentions catalog (allOf "T") [] := .of_names (names_allOf "T")
  have numbered : Mentions catalog [.symbol .comma, .word "ROWNUM", .word "ROWNUMS"] [] :=
    Mentions.of_solid (by decide)
  have whole := ((all.cons (.word "SELECT") rfl).append numbered).append
    ((inner.parenthesized.append (Mentions.token (.word "T") rfl)).cons (.word "FROM") rfl)
  simpa [numberedRows, allOf] using whole

theorem mentions_rowsBetween (rows : RowRange) :
    Mentions catalog (sql.rowsBetween rows).squeezed mentions := by
  have all : Mentions catalog (allOf "T2") [] := .of_names (names_allOf "T2")
  have range : Mentions catalog
      [.word "T2", .word "WHERE", .word "ROWNUMS", .word "BETWEEN",
        .word (toString rows.first.toNat), .word "AND", .word (toString rows.last.toNat)] [] :=
    Mentions.of_solid (by simp [Token.solid])
  have whole := (all.cons (.word "SELECT") rfl).append
    (((mentions_numberedRows inner).parenthesized.append range).cons (.word "FROM") rfl)
  simpa [rowsBetween, number, words, allOf] using whole

end Fragment

/-! Operations. -/

/-- What an operation that reads names, in the order of its text. -/
def Operation.mentions (catalog : Catalog) (dialect : Dialect) : Operation → List Mention
  | .get query | .list query => query.rowMentions catalog (query.orderMentions catalog)
  | .page query _ _ => query.rowMentions catalog (query.pageOrderMentions catalog dialect)
  | .any query | .count query => query.valueMentions catalog []
  | .summarize _ query selector =>
      query.valueMentions catalog (selector.toList.flatMap (Expr.mentions (.aliased catalog)))
  | .insert .. | .insertIdentity .. | .update .. | .updateSelect .. | .updateRecord ..
  | .delete _ => []

def Operation.reads : Operation → Bool
  | .get _ | .list _ | .page .. | .any _ | .count _ | .summarize .. => true
  | .insert .. | .insertIdentity .. | .update .. | .updateSelect .. | .updateRecord ..
  | .delete _ => false

section Statements

variable {catalog : Catalog} {dialect : Dialect} {query : Query} {draft later : Draft}
  {built : Built}

theorem mentions_buildGet
    (run : (query.buildGet catalog dialect).runFrom draft = (.ok built, later)) :
    Mentions catalog built.sql.squeezed
      (query.rowMentions catalog (query.orderMentions catalog)) := by
  cases dialect <;>
    simp only [Query.buildGet, Build.runFrom_bind_eq_ok, Build.runFrom_pure_eq_ok] at run <;>
    rcases run with ⟨clauses, last, inner, rfl, rfl⟩ <;>
    have names := SelectClauses.names_of_build inner <;>
    have whole := names.sql names.ordering
  case mysql => exact Fragment.mentions_limit whole 1
  case sqlServer => exact whole
  case oracle => exact Fragment.mentions_firstRows whole 1

theorem mentions_buildList
    (run : (query.buildList catalog dialect).runFrom draft = (.ok built, later)) :
    Mentions catalog built.sql.squeezed
      (query.rowMentions catalog (query.orderMentions catalog)) := by
  simp only [Query.buildList, Build.runFrom_bind_eq_ok, Build.runFrom_pure_eq_ok] at run
  rcases run with ⟨clauses, last, inner, rfl, rfl⟩
  have names := SelectClauses.names_of_build inner
  have whole := names.sql names.ordering
  cases dialect <;> cases query.top
  case mysql.some count => exact Fragment.mentions_limit whole count.toNat
  case oracle.some count => exact Fragment.mentions_firstRows whole count.toNat
  all_goals exact whole

theorem mentions_buildPage {index size : UInt32}
    (run : (query.buildPage catalog dialect index size).runFrom draft = (.ok built, later)) :
    Mentions catalog built.sql.squeezed
      (query.rowMentions catalog (query.pageOrderMentions catalog dialect)) := by
  simp only [Query.buildPage, Build.runFrom_bind_eq_ok, Build.runFrom_lift_eq_ok] at run
  rcases run with ⟨rows, _, ⟨-, rfl⟩, clauses, last, inner, run⟩
  have names := SelectClauses.names_of_build inner
  have whole := names.sql names.ordering
  cases dialect <;>
    simp only [Build.runFrom_bind_eq_ok, Build.runFrom_pure_eq_ok, Build.runFrom_lift_eq_ok] at run
  case mysql =>
    rcases run with ⟨rfl, rfl⟩
    exact Fragment.mentions_offsetLimit whole rows
  case sqlServer =>
    rcases run with ⟨ordered, _, ⟨found, rfl⟩, rfl, rfl⟩
    exact Fragment.mentions_offsetFetch (names.withDefaultOrder found) rows
  case oracle =>
    rcases run with ⟨rfl, rfl⟩
    exact Fragment.mentions_rowsBetween whole rows

theorem mentions_buildAny
    (run : (query.buildAny catalog dialect).runFrom draft = (.ok built, later)) :
    Mentions catalog built.sql.squeezed (query.valueMentions catalog []) := by
  simp only [Query.buildAny, Build.runFrom_bind_eq_ok] at run
  rcases run with ⟨clauses, last, inner, run⟩
  have names : clauses.Names catalog (query.valueMentions catalog []) := by
    refine ScalarClauses.names_of_build ?_ inner
    intro draft later fragment shown
    rw [Build.runFrom_pure_eq_ok] at shown
    rcases shown with ⟨rfl, rfl⟩
    exact Mentions.of_solid (by cases dialect <;> decide)
  cases dialect <;> rw [Build.runFrom_pure_eq_ok] at run <;> rcases run with ⟨rfl, rfl⟩
  case mysql => exact Fragment.mentions_limit names.own 1
  case sqlServer => exact names.own
  case oracle =>
    rw [List.append_assoc]
    exact names _ (Mentions.of_solid (by decide))

theorem mentions_buildCount
    (run : (query.buildCount catalog dialect).runFrom draft = (.ok built, later)) :
    Mentions catalog built.sql.squeezed (query.valueMentions catalog []) := by
  simp only [Query.buildCount, Build.runFrom_bind_eq_ok, Build.runFrom_pure_eq_ok] at run
  rcases run with ⟨clauses, last, inner, rfl, rfl⟩
  refine (ScalarClauses.names_of_build ?_ inner).own
  intro draft later fragment shown
  rw [Build.runFrom_pure_eq_ok] at shown
  rcases shown with ⟨rfl, rfl⟩
  exact Mentions.of_solid (by decide)

theorem mentions_summarizedColumn {selector : Option Expr} {column : Fragment}
    (run : ((Scope.aliased catalog).summarizedColumn selector).runFrom draft =
      (.ok column, later)) :
    Mentions catalog column.squeezed
      (selector.toList.flatMap (Expr.mentions (.aliased catalog))) := by
  cases selector with
  | none => cases run
  | some selector =>
      unfold Scope.summarizedColumn at run
      dsimp only at run
      split at run
      · next path shape =>
          rw [Build.runFrom_lift_eq_ok] at run
          have mentioned := (Scope.aliased catalog).mentions_member rfl run.1
          rw [Option.toList_some, List.flatMap_singleton, ← Expr.mentions_body, shape]
          exact mentioned
      · cases run

theorem mentions_buildSummary {summary : Summary} {selector : Option Expr}
    (run : (query.buildSummary catalog dialect summary selector).runFrom draft =
      (.ok built, later)) :
    Mentions catalog built.sql.squeezed (query.valueMentions catalog
      (selector.toList.flatMap (Expr.mentions (.aliased catalog)))) := by
  simp only [Query.buildSummary, Build.runFrom_bind_eq_ok, Build.runFrom_pure_eq_ok] at run
  rcases run with ⟨clauses, last, inner, rfl, rfl⟩
  refine (ScalarClauses.names_of_build ?_ inner).own
  intro draft later fragment shown
  simp only [Summary.buildHead, Build.runFrom_bind_eq_ok, Build.runFrom_pure_eq_ok] at shown
  rcases shown with ⟨column, middle, found, rfl, rfl⟩
  have called := (mentions_summarizedColumn found).parenthesized.cons
    (.word summary.aggregate.keyword) rfl
  have orZero : Mentions catalog [.symbol .comma, .word "0"] [] := Mentions.of_solid (by decide)
  have guarded := ((called.append orZero).parenthesized.cons (.word "IFNULL") rfl).cons
    (.word "SELECT") rfl
  cases dialect <;> cases summary
  case mysql.sum => simpa [Summary.head] using guarded
  all_goals simpa [Summary.head] using called.cons (.word "SELECT") rfl

end Statements

theorem Operation.mentions_build {catalog : Catalog} {dialect : Dialect} {operation : Operation}
    (reads : operation.reads = true) {draft later : Draft} {built : Built}
    (run : (operation.build catalog dialect).runFrom draft = (.ok built, later)) :
    Mentions catalog built.sql.squeezed (operation.mentions catalog dialect) := by
  cases operation <;> cases reads
  case get => exact mentions_buildGet run
  case list => exact mentions_buildList run
  case page => exact mentions_buildPage run
  case any => exact mentions_buildAny run
  case count => exact mentions_buildCount run
  case summarize => exact mentions_buildSummary run

end EntitySql
