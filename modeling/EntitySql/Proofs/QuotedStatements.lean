import Mathlib.Data.Option.Basic
import EntitySql.Proofs.QuotedNames

/-! The names that the statement of an operation quotes, from the first to the last: those of
the tables it is about, of the columns that its members are mapped to, and what its columns are
shown as. Nothing else is quoted, and behind each of these names stands what ends it. -/

namespace EntitySql

/-! What is asked for. -/

namespace Query

/-- The joins of a query: its own, then those of its entity. -/
def taken (catalog : Catalog) (query : Query) : List Navigation :=
  query.joins ++ (catalog.descriptor query.entity).navigations

def sourceWritten (catalog : Catalog) (query : Query) : List Written :=
  .table query.entity :: (query.taken catalog).flatMap Navigation.written

def selectWritten (catalog : Catalog) (query : Query) : List Written :=
  match query.select with
  | none =>
      catalog.fieldsWritten query.entity ++ (query.taken catalog).flatMap catalog.joinedWritten
  | some selector => selector.projectionWritten catalog

def orderWritten (query : Query) : List Written :=
  query.order.flatMap fun item => item.expression.written

/-- The columns of the key. -/
def keyWritten (catalog : Catalog) (query : Query) : List Written :=
  (catalog.descriptor query.entity).keys.map fun key => .column ⟨query.entity, key⟩

/-- Where SQL Server pages rows without an order, they are in that of the key if they show it. -/
def pageOrderWritten (catalog : Catalog) (dialect : Dialect) (query : Query) : List Written :=
  match dialect, query.order with
  | .sqlServer, [] =>
      if query.groups.isEmpty && !(query.distinct && query.select.isSome) then
        query.keyWritten catalog
      else []
  | _, _ => query.orderWritten

/-- What a query for rows quotes, in whatever order they come. -/
def rowWritten (catalog : Catalog) (query : Query) (ordering : List Written) : List Written :=
  query.selectWritten catalog ++ query.sourceWritten catalog ++
    (query.filters ++ query.groups ++ query.having).flatMap Expr.written ++ ordering

/-- What a query for a single value quotes, whatever the value. -/
def valueWritten (catalog : Catalog) (query : Query) (head : List Written) : List Written :=
  head ++ query.sourceWritten catalog ++ query.filtersWritten

/-- The columns of those fields of the entity that are picked. -/
def pickedWritten (catalog : Catalog) (query : Query) (picked : Entity → List Field) :
    List Written :=
  (catalog.entity query.entity).toOption.toList.flatMap fun entity =>
    (picked entity).map fun field => .column ⟨query.entity, field.property⟩

def insertWritten (catalog : Catalog) (query : Query) (exclude : List String) : List Written :=
  .table query.entity :: query.pickedWritten catalog (·.insertableFields exclude)

/-- Oracle returns the generated key into a parameter. -/
def generatedWritten (catalog : Catalog) (dialect : Dialect) (query : Query) : List Written :=
  match dialect with
  | .oracle =>
      (catalog.entity query.entity).toOption.toList.flatMap fun entity =>
        entity.identityOrKey?.toList.map fun property => .column ⟨query.entity, property⟩
  | .mysql | .sqlServer => []

/-- A record names its row by the key unless there are filters or all rows are meant. -/
def recordWritten (catalog : Catalog) (query : Query) (exclude : List String) (everyRow : Bool) :
    List Written :=
  .table query.entity :: query.pickedWritten catalog (·.updatableFields exclude) ++
    query.filtersWritten ++
    if query.hasFilters || everyRow then [] else query.keyWritten catalog

end Query

/-- The names that the statement of an operation quotes, in the order of its text. -/
def Operation.quotedNames (catalog : Catalog) (dialect : Dialect) :
    Operation → List Written
  | .get query | .list query => query.rowWritten catalog query.orderWritten
  | .page query _ _ => query.rowWritten catalog (query.pageOrderWritten catalog dialect)
  | .any query | .count query => query.valueWritten catalog []
  | .summarize _ query selector =>
      query.valueWritten catalog (selector.toList.flatMap Expr.written)
  | .insert query _ exclude => query.insertWritten catalog exclude
  | .insertIdentity query _ exclude =>
      query.insertWritten catalog exclude ++ query.generatedWritten catalog dialect
  | .updateRecord query _ exclude everyRow => query.recordWritten catalog exclude everyRow
  | .update query updater =>
      ((Operation.update query updater).written catalog dialect).filter Written.isName
  | .updateSelect query updater =>
      ((Operation.updateSelect query updater).written catalog dialect).filter Written.isName
  | .delete query => ((Operation.delete query).written catalog dialect).filter Written.isName

/-! Clauses of queries. -/

theorem Query.keyWritten_of_entity {catalog : Catalog} {query : Query} {entity : Entity}
    (accepted : catalog.entity query.entity = .ok entity) :
    query.keyWritten catalog = entity.keys.map fun key => .column ⟨query.entity, key⟩ := by
  rcases Catalog.entity_eq_ok.mp accepted with ⟨-, rfl⟩
  rfl

theorem Query.pickedWritten_of_entity {catalog : Catalog} {query : Query} {entity : Entity}
    (accepted : catalog.entity query.entity = .ok entity) (picked : Entity → List Field) :
    query.pickedWritten catalog picked =
      (picked entity).map fun field => .column ⟨query.entity, field.property⟩ := by
  simp [pickedWritten, accepted, Except.toOption]

theorem Query.quotes_joins {catalog : Catalog} {query : Query} {entity : Entity}
    (accepted : catalog.entity query.entity = .ok entity) {draft later : Draft}
    {tables : List JoinedTable}
    (run : ((Scope.aliased catalog).joins entity (query.joins ++ entity.navigations)).runFrom
      draft = (.ok tables, later)) :
    List.Forall₂ (fun table navigation => JoinedTable.Quotes table catalog navigation) tables
      (query.taken catalog) := by
  have quotes := Scope.quotes_joins (.aliased catalog) run
  rcases Catalog.entity_eq_ok.mp accepted with ⟨-, rfl⟩
  exact quotes

theorem Dialect.quotes_fromClause (dialect : Dialect) {catalog : Catalog} {name : String}
    {entity : Entity} (accepted : catalog.entity name = .ok entity) (noLock : Bool) :
    (dialect.fromClause entity noLock).Quotes catalog [.table name] := by
  have hint : (dialect.tableHint noLock).nameParts = [] := by
    cases dialect <;> cases noLock <;> rfl
  refine (Entity.quotes_tableName accepted).of_nameParts ?_
  simp [fromClause, Entity.aliasedTable, hint]

theorem Dialect.nameParts_selectKeyword (dialect : Dialect) (distinct : Bool)
    (top : Option UInt32) : (dialect.selectKeyword distinct top).nameParts = [] := by
  cases dialect <;> cases top <;> simp [selectKeyword, Fragment.number]

namespace SelectClauses

variable {catalog : Catalog} {dialect : Dialect} {query : Query} {top : Option UInt32}
  {draft later : Draft} {clauses : SelectClauses}

/-- What the clauses quote, but for the order. -/
structure Quotes (clauses : SelectClauses) (catalog : Catalog) (query : Query) : Prop where
  accepted : catalog.entity query.entity = .ok clauses.entity
  sql : ∀ {ordering : Fragment} {written : List Written},
    ordering.Quotes catalog written →
    { clauses with ordering }.sql.Quotes catalog (query.rowWritten catalog written)
  ordering : clauses.ordering.Quotes catalog query.orderWritten
  unordered : clauses.ordering.isEmpty = query.order.isEmpty

theorem quotes_of_build
    (run : (build catalog dialect query top).runFrom draft = (.ok clauses, later)) :
    clauses.Quotes catalog query := by
  rcases run_of_build run with ⟨entity, selected, tables, conditions, grouping, having, ordering,
    accepted, select, joins, filters, groups, kept, order⟩
  have joined := Query.quotes_joins accepted joins
  have columns : Fragment.Quotes
      (if query.select.isNone then selected ++ JoinedTable.selectedColumns tables else selected)
      catalog (query.selectWritten catalog) := by
    unfold Query.selectWritten
    cases shape : query.select with
    | none =>
        rw [shape, Scope.selectList, Build.runFrom_lift_eq_ok] at select
        have own : selected.Quotes catalog (catalog.fieldsWritten query.entity) :=
          Scope.quotes_fieldList (.aliased catalog) accepted select.1
        exact own.append (JoinedTable.quotes_selectedColumns joined)
    | some selector =>
        rw [shape] at select
        exact Scope.quotes_projection (.aliased catalog) select
  refine ⟨accepted, ?_, Scope.quotes_orderClause (.aliased catalog) order,
    Scope.isEmpty_orderClause _ order⟩
  intro ordering written ordered
  have source := (dialect.quotes_fromClause accepted query.noLock).append
    (JoinedTable.quotes_joinClauses joined)
  have restricted : conditions.Quotes catalog (query.filters.flatMap Expr.written) :=
    Scope.quotes_whereClause (.aliased catalog) filters
  have grouped : grouping.Quotes catalog (query.groups.flatMap Expr.written) :=
    Scope.quotes_groupClause (.aliased catalog) groups
  have chosen : having.Quotes catalog (query.having.flatMap Expr.written) :=
    Scope.quotes_havingClause (.aliased catalog) kept
  have whole := ((columns.append source).append
    ((restricted.append grouped).append chosen)).append ordered
  rw [Query.rowWritten, Query.sourceWritten, List.flatMap_append, List.flatMap_append]
  refine whole.of_nameParts ?_
  simp [SelectClauses.sql, Dialect.nameParts_selectKeyword]

theorem quotes_keyOrder {entity : Entity} {ordering : Fragment}
    (accepted : catalog.entity query.entity = .ok entity)
    (found : keyOrder (.aliased catalog) entity = .ok ordering) :
    ordering.Quotes catalog (query.keyWritten catalog) := by
  rcases bind_eq_ok.mp found with ⟨columns, each, shown⟩
  cases shown
  have one : ∀ column key, (Scope.aliased catalog).column entity key = .ok column →
      Fragment.Quotes column catalog [.column ⟨query.entity, key⟩] := fun column key =>
    Scope.quotes_columnUnder (.aliased catalog) accepted
  have listed := Fragment.Quotes.commaSeparated_map ((forall₂_of_mapM_eq_ok each).imp one)
  rw [Query.keyWritten_of_entity accepted]
  exact listed.of_nameParts (by simp)

/-- An order by the key needs one. -/
theorem keyWritten_of_showsKey (accepted : catalog.entity query.entity = .ok clauses.entity) :
    (if query.groups.isEmpty && !(query.distinct && query.select.isSome) then
      query.keyWritten catalog else []) =
      if showsKey query clauses.entity then query.keyWritten catalog else [] := by
  rcases Catalog.entity_eq_ok.mp accepted with ⟨-, described⟩
  rw [showsKey, described, Query.keyWritten]
  cases (catalog.descriptor query.entity).keys <;> simp

theorem Quotes.withDefaultOrder {ordered : SelectClauses} (quotes : clauses.Quotes catalog query)
    (found : clauses.withDefaultOrder (.aliased catalog) query = .ok ordered) :
    ordered.sql.Quotes catalog
      (query.rowWritten catalog (query.pageOrderWritten catalog .sqlServer)) := by
  unfold SelectClauses.withDefaultOrder at found
  rw [quotes.unordered] at found
  cases order : query.order with
  | cons item items =>
      rw [order] at found
      cases found
      have ownOrder : query.pageOrderWritten catalog .sqlServer = query.orderWritten := by
        simp [Query.pageOrderWritten, order]
      rw [ownOrder]
      exact quotes.sql quotes.ordering
  | nil =>
      simp only [Query.pageOrderWritten, order, keyWritten_of_showsKey quotes.accepted]
      simp only [order, List.isEmpty_nil, Bool.not_true, Bool.false_eq_true, if_false] at found
      split at found
      · next shown =>
          rcases bind_eq_ok.mp found with ⟨ordering, keyed, equal⟩
          cases equal
          rw [if_pos shown]
          exact quotes.sql (quotes_keyOrder quotes.accepted keyed)
      · next hidden =>
          cases found
          rw [if_neg hidden]
          exact quotes.sql .nil

end SelectClauses

namespace ScalarClauses

variable {catalog : Catalog} {dialect : Dialect} {query : Query} {draft later : Draft}

theorem quotes_of_build {head : Scope → Build Fragment} {clauses : ScalarClauses}
    {written : List Written}
    (shown : ∀ {draft later : Draft} {fragment : Fragment},
      (head (.aliased catalog)).runFrom draft = (.ok fragment, later) →
      fragment.Quotes catalog written)
    (run : (build catalog dialect query head).runFrom draft = (.ok clauses, later)) :
    clauses.sql.Quotes catalog (query.valueWritten catalog written) := by
  rcases run_of_build run with
    ⟨entity, first, tables, conditions, accepted, top, joins, filters⟩
  have source := (dialect.quotes_fromClause accepted query.noLock).append
    (JoinedTable.quotes_joinClauses (Query.quotes_joins accepted joins))
  have restricted := Scope.quotes_whereClause (.aliased catalog) filters
  have whole := ((shown top).append source).append restricted
  rw [Query.valueWritten, Query.sourceWritten, Query.filtersWritten]
  exact whole.of_nameParts (by simp [ScalarClauses.sql])

end ScalarClauses

/-! Capping the number of rows quotes nothing. -/

namespace Fragment.Quotes

variable {catalog : Catalog} {sql : Fragment} {written : List Written}
  (quotes : sql.Quotes catalog written)

include quotes

theorem limit (count : Nat) : (sql.limit count).Quotes catalog written :=
  quotes.of_nameParts (by simp [Fragment.limit, number])

theorem offsetLimit (rows : RowRange) : (sql.offsetLimit rows).Quotes catalog written :=
  (quotes.limit rows.size.toNat).of_nameParts (by simp [Fragment.offsetLimit, number])

theorem offsetFetch (rows : RowRange) : (sql.offsetFetch rows).Quotes catalog written :=
  quotes.of_nameParts (by simp [Fragment.offsetFetch, number])

theorem firstRows (count : Nat) : (sql.firstRows count).Quotes catalog written := by
  refine quotes.of_quoted ?_
  simp [quoted_eq, Fragment.firstRows, allOf, rowNumberAtMost, number, nameParts_symbol,
    List.filterMap_cons, NamePart.name?]

theorem numberedRows : (Fragment.numberedRows sql).Quotes catalog written := by
  refine quotes.of_quoted ?_
  simp [quoted_eq, Fragment.numberedRows, allOf, nameParts_symbol, List.filterMap_cons,
    NamePart.name?]

theorem rowsBetween (rows : RowRange) : (sql.rowsBetween rows).Quotes catalog written := by
  refine quotes.numberedRows.of_quoted ?_
  simp [quoted_eq, Fragment.rowsBetween, allOf, number, nameParts_symbol, List.filterMap_cons,
    NamePart.name?]

end Fragment.Quotes

/-! Statements that read. -/

section Reads

variable {catalog : Catalog} {dialect : Dialect} {query : Query} {draft later : Draft}
  {built : Built}

theorem quotes_buildGet
    (run : (query.buildGet catalog dialect).runFrom draft = (.ok built, later)) :
    built.sql.Quotes catalog (query.rowWritten catalog query.orderWritten) := by
  cases dialect <;>
    simp only [Query.buildGet, Build.runFrom_bind_eq_ok, Build.runFrom_pure_eq_ok] at run <;>
    rcases run with ⟨clauses, last, inner, rfl, rfl⟩ <;>
    have quotes := SelectClauses.quotes_of_build inner <;>
    have whole := quotes.sql quotes.ordering
  case mysql => exact whole.limit 1
  case sqlServer => exact whole
  case oracle => exact whole.firstRows 1

theorem quotes_buildList
    (run : (query.buildList catalog dialect).runFrom draft = (.ok built, later)) :
    built.sql.Quotes catalog (query.rowWritten catalog query.orderWritten) := by
  simp only [Query.buildList, Build.runFrom_bind_eq_ok, Build.runFrom_pure_eq_ok] at run
  rcases run with ⟨clauses, last, inner, rfl, rfl⟩
  have quotes := SelectClauses.quotes_of_build inner
  have whole := quotes.sql quotes.ordering
  cases dialect <;> cases query.top
  case mysql.some count => exact whole.limit count.toNat
  case oracle.some count => exact whole.firstRows count.toNat
  all_goals exact whole

theorem quotes_buildPage {index size : UInt32}
    (run : (query.buildPage catalog dialect index size).runFrom draft = (.ok built, later)) :
    built.sql.Quotes catalog
      (query.rowWritten catalog (query.pageOrderWritten catalog dialect)) := by
  simp only [Query.buildPage, Build.runFrom_bind_eq_ok, Build.runFrom_lift_eq_ok] at run
  rcases run with ⟨rows, _, ⟨-, rfl⟩, clauses, last, inner, run⟩
  have quotes := SelectClauses.quotes_of_build inner
  have whole := quotes.sql quotes.ordering
  cases dialect <;>
    simp only [Build.runFrom_bind_eq_ok, Build.runFrom_pure_eq_ok, Build.runFrom_lift_eq_ok] at run
  case mysql =>
    rcases run with ⟨rfl, rfl⟩
    exact whole.offsetLimit rows
  case sqlServer =>
    rcases run with ⟨ordered, _, ⟨found, rfl⟩, rfl, rfl⟩
    exact (quotes.withDefaultOrder found).offsetFetch rows
  case oracle =>
    rcases run with ⟨rfl, rfl⟩
    exact whole.rowsBetween rows

theorem quotes_buildAny
    (run : (query.buildAny catalog dialect).runFrom draft = (.ok built, later)) :
    built.sql.Quotes catalog (query.valueWritten catalog []) := by
  simp only [Query.buildAny, Build.runFrom_bind_eq_ok] at run
  rcases run with ⟨clauses, last, inner, run⟩
  have whole : clauses.sql.Quotes catalog (query.valueWritten catalog []) := by
    refine ScalarClauses.quotes_of_build ?_ inner
    intro draft later fragment shown
    rw [Build.runFrom_pure_eq_ok] at shown
    rcases shown with ⟨rfl, rfl⟩
    exact Fragment.Quotes.nil.of_nameParts (by simp)
  cases dialect <;> rw [Build.runFrom_pure_eq_ok] at run <;> rcases run with ⟨rfl, rfl⟩
  case mysql => exact whole.limit 1
  case sqlServer => exact whole
  case oracle =>
    refine whole.of_nameParts ?_
    simp [ScalarClauses.built, ScalarClauses.sql, Fragment.rowNumberAtMost, Fragment.number,
      Fragment.nameParts_symbol]

theorem quotes_buildCount
    (run : (query.buildCount catalog dialect).runFrom draft = (.ok built, later)) :
    built.sql.Quotes catalog (query.valueWritten catalog []) := by
  simp only [Query.buildCount, Build.runFrom_bind_eq_ok, Build.runFrom_pure_eq_ok] at run
  rcases run with ⟨clauses, last, inner, rfl, rfl⟩
  refine ScalarClauses.quotes_of_build ?_ inner
  intro draft later fragment shown
  rw [Build.runFrom_pure_eq_ok] at shown
  rcases shown with ⟨rfl, rfl⟩
  exact .nil

theorem quotes_summarizedColumn {selector : Option Expr} {column : Fragment}
    (run : ((Scope.aliased catalog).summarizedColumn selector).runFrom draft =
      (.ok column, later)) :
    column.Quotes catalog (selector.toList.flatMap Expr.written) := by
  cases selector with
  | none => cases run
  | some selector =>
      unfold Scope.summarizedColumn at run
      dsimp only at run
      split at run
      · next path shape =>
          rw [Build.runFrom_lift_eq_ok] at run
          rw [Option.toList_some, List.flatMap_singleton, Expr.written, ← Expr.shown_body, shape]
          exact Scope.quotes_member (.aliased catalog) run.1
      · cases run

theorem quotes_buildSummary {summary : Summary} {selector : Option Expr}
    (run : (query.buildSummary catalog dialect summary selector).runFrom draft =
      (.ok built, later)) :
    built.sql.Quotes catalog
      (query.valueWritten catalog (selector.toList.flatMap Expr.written)) := by
  simp only [Query.buildSummary, Build.runFrom_bind_eq_ok, Build.runFrom_pure_eq_ok] at run
  rcases run with ⟨clauses, last, inner, rfl, rfl⟩
  refine ScalarClauses.quotes_of_build ?_ inner
  intro draft later fragment shown
  simp only [Summary.buildHead, Build.runFrom_bind_eq_ok, Build.runFrom_pure_eq_ok] at shown
  rcases shown with ⟨column, middle, found, rfl, rfl⟩
  refine (quotes_summarizedColumn found).of_nameParts ?_
  cases dialect <;> cases summary <;> simp [Summary.head, Fragment.nameParts_symbol]

end Reads

/-! Statements that write a record. -/

namespace Scope

variable (scope : Scope) {name : String} {entity : Entity} {record : Record}
  (accepted : scope.catalog.entity name = .ok entity)

include accepted

theorem quotes_boundFields {fields : List Field} {draft later : Draft} {bound : List BoundField}
    (run : (scope.boundFields entity record fields).runFrom draft = (.ok bound, later)) :
    List.Forall₂ (fun bound field =>
      bound.column.Quotes scope.catalog [.column ⟨name, Field.property field⟩] ∧
        bound.placeholder.nameParts = []) bound fields :=
  (runs_of_boundFields run).imp fun _ _ ⟨found, _, _, head⟩ =>
    ⟨scope.quotes_columnUnder accepted found, nameParts_input head⟩

theorem quotes_insertLists {exclude : List String} {draft later : Draft}
    {columns values : Fragment}
    (run : (scope.insertLists entity record exclude).runFrom draft =
      (.ok (columns, values), later)) :
    columns.Quotes scope.catalog ((entity.insertableFields exclude).map fun field =>
      .column ⟨name, field.property⟩) ∧ values.nameParts = [] := by
  simp only [insertLists, Build.runFrom_bind_eq_ok] at run
  rcases run with ⟨bound, middle, inner, rest⟩
  split at rest
  · cases rest
  · rw [Build.runFrom_pure_eq_ok] at rest
    rcases rest with ⟨shown, rfl⟩
    cases shown
    have each := scope.quotes_boundFields accepted inner
    constructor
    · exact .commaSeparated_map (List.forall₂_map_left_iff.mpr (each.imp fun _ _ own => own.1))
    · rw [Fragment.nameParts_commaSeparated, List.flatMap_map, List.flatMap_eq_nil_iff]
      intro field listed
      rcases exists_mem_of_forall₂ each field listed with ⟨_, -, own⟩
      exact own.2

theorem quotes_recordSetClause {exclude : List String} {draft later : Draft} {fragment : Fragment}
    (run : (scope.recordSetClause entity record exclude).runFrom draft = (.ok fragment, later)) :
    fragment.Quotes scope.catalog ((entity.updatableFields exclude).map fun field =>
      .column ⟨name, field.property⟩) := by
  simp only [recordSetClause, Build.runFrom_bind_eq_ok] at run
  rcases run with ⟨bound, middle, inner, rest⟩
  split at rest
  · cases rest
  · rw [Build.runFrom_pure_eq_ok] at rest
    rcases rest with ⟨rfl, rfl⟩
    have assigned : List.Forall₂ (fun fragment field =>
        Fragment.Quotes fragment scope.catalog [.column ⟨name, Field.property field⟩])
        (bound.map fun field => Fragment.joined field.column .equal field.placeholder)
        (entity.updatableFields exclude) := by
      rw [List.forall₂_map_left_iff]
      exact (scope.quotes_boundFields accepted inner).imp fun _ _ own => own.1.comparedTo own.2
    exact (Fragment.Quotes.commaSeparated_map assigned).of_nameParts (by simp [setting])

theorem quotes_keyComparisons {keys : List String} {draft later : Draft}
    {fragments : List Fragment}
    (run : (scope.keyComparisons entity record keys).runFrom draft = (.ok fragments, later)) :
    List.Forall₂ (fun fragment key =>
      Fragment.Quotes fragment scope.catalog [.column ⟨name, key⟩]) fragments keys := by
  refine (runs_of_keyComparisons run).imp ?_
  rintro _ key ⟨column, before, bound, after, found, head, rfl⟩
  exact (scope.quotes_columnUnder accepted found).comparedTo (nameParts_input head)

theorem quotes_keyConditions {draft later : Draft} {fragment : Fragment}
    (run : (scope.keyConditions entity record).runFrom draft = (.ok fragment, later)) :
    fragment.Quotes scope.catalog (entity.keys.map fun key => .column ⟨name, key⟩) := by
  unfold keyConditions at run
  split at run
  · cases run
  · simp only [Build.runFrom_bind_eq_ok, Build.runFrom_pure_eq_ok] at run
    rcases run with ⟨comparisons, last, inner, rfl, rfl⟩
    refine (Fragment.Quotes.commaSeparated_map
      (scope.quotes_keyComparisons accepted inner)).of_nameParts ?_
    rw [Fragment.nameParts_flatMap, Fragment.nameParts_commaSeparated]
    simp

end Scope

section Writes

variable {catalog : Catalog} {dialect : Dialect} {query : Query} {record : Record}
  {exclude : List String} {draft later : Draft} {built : Built}

theorem quotes_insertClauses {clauses : Query.InsertClauses}
    (run : (query.insertClauses catalog record exclude).runFrom draft = (.ok clauses, later)) :
    catalog.entity query.entity = .ok clauses.entity ∧
      clauses.sql.Quotes catalog (query.insertWritten catalog exclude) := by
  simp only [Query.insertClauses, Build.runFrom_bind_eq_ok, Build.runFrom_pure_eq_ok,
    Build.runFrom_lift_eq_ok] at run
  rcases run with ⟨entity, _, ⟨accepted, rfl⟩, ⟨columns, values⟩, last, inner, rfl, rfl⟩
  rcases (Scope.unqualified catalog).quotes_insertLists accepted inner with ⟨listed, silent⟩
  rw [Query.insertWritten, Query.pickedWritten_of_entity accepted]
  refine ⟨accepted, ((Entity.quotes_tableName accepted).append listed).of_nameParts ?_⟩
  simp [Query.InsertClauses.sql, silent]

theorem quotes_buildInsertIdentity
    (run : (query.buildInsertIdentity catalog dialect record exclude).runFrom draft =
      (.ok built, later)) :
    built.sql.Quotes catalog
      (query.insertWritten catalog exclude ++ query.generatedWritten catalog dialect) := by
  simp only [Query.buildInsertIdentity, Build.runFrom_bind_eq_ok] at run
  rcases run with ⟨clauses, middle, inner, rest⟩
  rcases quotes_insertClauses inner with ⟨accepted, inserted⟩
  split at rest
  · cases rest
  · next property generated =>
      cases dialect <;>
        simp only [Build.runFrom_bind_eq_ok, Build.runFrom_pure_eq_ok,
          Build.runFrom_lift_eq_ok] at rest
      case oracle =>
        rcases rest with ⟨column, _, ⟨found, rfl⟩, output, last, bound, rfl, rfl⟩
        have own : query.generatedWritten catalog .oracle =
            [.column ⟨query.entity, property⟩] := by
          simp [Query.generatedWritten, accepted, Except.toOption, generated]
        have silent : output.nameParts = [] := by
          rw [Build.runFrom_output] at bound
          cases bound
          rfl
        have generated := (Scope.unqualified catalog).quotes_columnUnder accepted found
        rw [own]
        refine (inserted.append generated).of_nameParts ?_
        simp [Fragment.returning, silent]
      all_goals
        rcases rest with ⟨rfl, rfl⟩
        rw [Query.generatedWritten, List.append_nil]
        refine inserted.of_nameParts ?_
        simp [Query.followedBy, Fragment.nameParts_symbol]

theorem quotes_updateClauses {clauses : Query.UpdateClauses} {assigned conditions : List Written}
    (accepted : catalog.entity query.entity = .ok clauses.entity)
    (assignments : clauses.assignments.Quotes catalog assigned)
    (restricted : clauses.conditions.Quotes catalog conditions) :
    clauses.sql.Quotes catalog (.table query.entity :: assigned ++ conditions) := by
  refine (((Entity.quotes_tableName accepted).append assignments).append restricted).of_nameParts ?_
  simp [Query.UpdateClauses.sql, Query.UpdateClauses.sqlWith]

theorem quotes_buildUpdateRecord {everyRow : Bool}
    (run : (query.buildUpdateRecord catalog record exclude everyRow).runFrom draft =
      (.ok built, later)) :
    built.sql.Quotes catalog (query.recordWritten catalog exclude everyRow) := by
  simp only [Query.buildUpdateRecord, Build.runFrom_bind_eq_ok, Build.runFrom_lift_eq_ok] at run
  rcases run with ⟨entity, _, ⟨accepted, rfl⟩, assignments, _, set, conditions, _, filters, rest⟩
  have assigned := (Scope.unqualified catalog).quotes_recordSetClause accepted set
  have restricted := (Scope.unqualified catalog).quotes_whereClause filters
  have whole : ∀ {keyed : Fragment} {keys : List Written}, keyed.Quotes catalog keys →
      (Query.UpdateClauses.sql
        { entity, assignments, conditions := conditions ++ keyed }).Quotes catalog
        (.table query.entity :: query.pickedWritten catalog (·.updatableFields exclude) ++
          query.filtersWritten ++ keys) := by
    intro keyed keys named
    rw [Query.pickedWritten_of_entity accepted, List.append_assoc]
    exact quotes_updateClauses accepted assigned (restricted.append named)
  unfold Query.recordWritten
  split at rest
  · next filtered =>
      simp only [Build.runFrom_bind_eq_ok, Build.runFrom_pure_eq_ok] at rest
      rcases rest with ⟨_, _, ⟨rfl, -⟩, rfl, -⟩
      rw [filtered, Bool.true_or, if_pos rfl]
      exact whole .nil
  · next unfiltered =>
      rw [Bool.not_eq_true] at unfiltered
      rw [unfiltered, Bool.false_or]
      split at rest
      · next every =>
          simp only [Build.runFrom_bind_eq_ok, Build.runFrom_pure_eq_ok] at rest
          rcases rest with ⟨_, _, -, _, _, ⟨rfl, -⟩, rfl, -⟩
          rw [if_pos every]
          exact whole .nil
      · next single =>
          simp only [Build.runFrom_bind_eq_ok, Build.runFrom_pure_eq_ok] at rest
          rcases rest with ⟨keyed, _, keys, rfl, -⟩
          rw [if_neg single, Query.keyWritten_of_entity accepted]
          exact whole ((Scope.unqualified catalog).quotes_keyConditions accepted keys)

end Writes

theorem Operation.quotes_build {operation : Operation} {catalog : Catalog} {dialect : Dialect}
    {draft later : Draft} {built : Built}
    (run : (operation.build catalog dialect).runFrom draft = (.ok built, later)) :
    built.sql.Quotes catalog (operation.quotedNames catalog dialect) := by
  cases operation with
  | get query => exact quotes_buildGet run
  | list query => exact quotes_buildList run
  | page query index size => exact quotes_buildPage run
  | any query => exact quotes_buildAny run
  | count query => exact quotes_buildCount run
  | summarize summary query selector => exact quotes_buildSummary run
  | insert query record exclude =>
      simp only [build, Query.buildInsert, Build.runFrom_bind_eq_ok,
        Build.runFrom_pure_eq_ok] at run
      rcases run with ⟨clauses, _, inner, rfl, rfl⟩
      exact (quotes_insertClauses inner).2
  | insertIdentity query record exclude => exact quotes_buildInsertIdentity run
  | updateRecord query record exclude everyRow => exact quotes_buildUpdateRecord run
  | update query updater => exact (writes_build rfl run).2.quotes
  | updateSelect query updater => exact (writes_build rfl run).2.quotes
  | delete query => exact (writes_build rfl run).2.quotes

/-! The text. -/

theorem Fragment.Legible.of_append {before fragment : Fragment}
    (legible : Legible (before ++ fragment)) : fragment.Legible :=
  ⟨fun token member => legible.proper token (List.mem_append_right before member),
    (List.isChain_append.mp legible.apart).2.1⟩

/-- A name that stands in quotes between two parts of a text: the second does not carry it on,
so that it is read back from where the first ends. -/
structure Dialect.QuotedAt (dialect : Dialect) (text : List Char) (before : List Char)
    (name : String) (after : List Char) : Prop where
  whole : text = before ++ dialect.lexical.quote name ++ after
  ends : ∀ next ∈ after.head?, next ≠ dialect.closeQuote
  read : dialect.readIdentifier (text.drop before.length) = some (name, after)

theorem Dialect.quotedAt_of_legible (dialect : Dialect) {before after : Fragment} {name : String}
    (legible : Fragment.Legible (before ++ .identifier name :: after)) :
    dialect.QuotedAt (Fragment.characters dialect.lexical (before ++ .identifier name :: after))
      (before.characters dialect.lexical) name (after.characters dialect.lexical) := by
  have ends := dialect.endsBefore_of_legible legible.of_append
  have whole : Fragment.characters dialect.lexical (before ++ .identifier name :: after) =
      before.characters dialect.lexical ++
        (dialect.lexical.quote name ++ after.characters dialect.lexical) := by
    simp [Fragment.characters, Token.characters]
  refine ⟨by rw [whole, List.append_assoc], ends, ?_⟩
  rw [whole, List.drop_left]
  exact dialect.readIdentifier_quote name ends

/-- Quoting cannot be escaped from. A name in quotes is read back as it was, whatever the name
and whatever stands behind, unless that is a closing quote; so no two names are quoted alike. In
a statement a closing quote never stands there: each of its quoted names is read back from where
it stands, and they are those that the operation is about, one after the other. -/
theorem quoted_names_read_back (dialect : Dialect) :
    (∀ (name : String) (rest : List Char), (∀ next ∈ rest.head?, next ≠ dialect.closeQuote) →
      dialect.readIdentifier (dialect.lexical.quote name ++ rest) = some (name, rest)) ∧
    Function.Injective dialect.lexical.quote ∧
    ∀ (catalog : Catalog) (operation : Operation) (composition : Composition),
      catalog.PlainProperties → operation.query.PlainNames →
      (operation.compose catalog dialect).1 = .ok composition →
      ∃ tokens : Fragment,
        dialect.readTokens composition.statement.sql = some tokens ∧
        tokens.Quotes catalog (operation.quotedNames catalog dialect) ∧
        ∀ (before after : Fragment) (name : String),
          tokens = before ++ .identifier name :: after →
          dialect.QuotedAt composition.statement.sql.toList (before.characters dialect.lexical)
            name (after.characters dialect.lexical) := by
  refine ⟨fun name rest => dialect.readIdentifier_quote name, dialect.quote_injective, ?_⟩
  intro catalog operation composition plain names composed
  rcases Operation.exists_run_of_compose composed with ⟨built, later, run, statement⟩
  have legible := (sound_build plain names run).1
  rw [statement]
  refine ⟨built.sql, dialect.readTokens_text legible, Operation.quotes_build run, ?_⟩
  intro before after name shape
  rw [shape] at legible ⊢
  rw [Fragment.text, String.toList_ofList]
  exact dialect.quotedAt_of_legible legible

/-- Boxes in a table and in columns that are named by quotes. -/
def Catalog.boxes : Catalog :=
  { descriptors :=
      [("Box", { table := "]", fields := [⟨"Id", "]]"⟩, ⟨"Outer", "[]"⟩], keys := ["Id"] })] }

/-- Boxes, joined with the ones that they are put in. -/
def Query.boxesPutIn : Query :=
  { entity := "Box"
    joins := [
      { name := "outer"
        target := "Box"
        kind := .left
        condition := .comparison .equal (.column "Box" "Outer") (.column "Box" "Id") }] }

theorem quoted_names_read_back_boxes :
    ∃ (composition : Composition) (tokens : Fragment),
      ((Operation.list .boxesPutIn).compose .boxes .sqlServer).1 = .ok composition ∧
      Dialect.sqlServer.readTokens composition.statement.sql = some tokens ∧
      tokens.quoted = ["]]", "Id", "[]", "Outer", "]]", "outer__Id", "[]", "outer__Outer", "]",
        "]", "[]", "]]"] ∧
      ∀ (before after : Fragment) (name : String),
        tokens = before ++ .identifier name :: after →
        Dialect.sqlServer.QuotedAt composition.statement.sql.toList
          (before.characters Dialect.sqlServer.lexical) name
          (after.characters Dialect.sqlServer.lexical) := by
  have plain : Catalog.boxes.PlainProperties := plainProperties_of_fields (by decide)
  have names : Query.boxesPutIn.PlainNames := ⟨by decide, by simp [Query.boxesPutIn]⟩
  rcases (quoted_names_read_back .sqlServer).2.2 .boxes (.list .boxesPutIn) _ plain names rfl with
    ⟨tokens, read, quotes, stands⟩
  have those := List.map_injective_iff.mpr (Option.some_injective String)
    (quotes.trans (by decide : _ = List.map some ["]]", "Id", "[]", "Outer", "]]", "outer__Id",
      "[]", "outer__Outer", "]", "]", "[]", "]]"]))
  exact ⟨_, tokens, rfl, read, those, stands⟩

end EntitySql
