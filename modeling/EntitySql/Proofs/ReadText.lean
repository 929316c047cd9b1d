import EntitySql.Proofs.ClauseRuns
import EntitySql.Proofs.ConditionText
import EntitySql.Sql.Select

/-! The text of statements that read. Column lists show no placeholder at all, the
clauses show theirs in the order in which they are built, and capping the number
of rows adds nothing but numbers. -/

namespace EntitySql

/-- The mapped properties have plain identifiers for names. -/
def Catalog.PlainProperties (catalog : Catalog) : Prop :=
  ∀ path, catalog.Maps path → isPlainIdentifier path.member = true

theorem Catalog.PlainProperties.members {catalog : Catalog} (plain : catalog.PlainProperties)
    (expression : Expr) : expression.PlainMembers catalog :=
  fun path _ => plain path

/-- It is enough to look at the fields of every descriptor. -/
theorem plainProperties_of_fields {catalog : Catalog}
    (plain : ∀ described ∈ catalog.descriptors, ∀ field ∈ described.2.fields,
      isPlainIdentifier field.property = true) : catalog.PlainProperties := by
  rintro path ⟨entity, column, accepted, mapped⟩
  rcases Catalog.entity_eq_ok.mp accepted with ⟨-, rfl⟩
  unfold Entity.column at mapped
  split at mapped
  · next field found =>
      have named : field.property = path.member := by simpa using List.find?_some found
      have inFields : field ∈ (catalog.descriptor path.entity).fields :=
        List.mem_of_find?_eq_some found
      unfold Catalog.descriptor at inFields
      cases described : catalog.descriptors.find? (·.1 == path.entity) with
      | none => simp [described] at inFields
      | some entry =>
          rw [described] at inFields
          rw [← named]
          exact plain entry (List.mem_of_find?_eq_some described) field inFields
  · cases mapped

theorem plainProperties_people : Catalog.people.PlainProperties :=
  plainProperties_of_fields (by decide)

/-- A successful run of two lookups in a row is a successful run of each. -/
theorem bind_eq_ok {first : Except Error α} {next : α → Except Error β} {result : β} :
    (first >>= next) = .ok result ↔ ∃ value, first = .ok value ∧ next value = .ok result := by
  cases first <;> simp [bind, Except.bind]

theorem forall₂_of_mapM_eq_ok {transform : α → Except Error β} {items : List α}
    {results : List β} (run : items.mapM transform = .ok results) :
    List.Forall₂ (fun result item => transform item = .ok result) results items := by
  induction items generalizing results with
  | nil =>
      cases run
      exact .nil
  | cons item items induction =>
      rw [List.mapM_cons] at run
      rcases bind_eq_ok.mp run with ⟨first, head, run⟩
      rcases bind_eq_ok.mp run with ⟨others, tail, shown⟩
      cases shown
      exact .cons head (induction tail)

/-- Where every item comes to a result that is related to it, so do all of them together. -/
theorem exists_forall₂_of_mapM {transform : α → Except Error β} {relation : β → α → Prop}
    {items : List α}
    (each : ∀ item ∈ items, ∃ result, transform item = .ok result ∧ relation result item) :
    ∃ results, items.mapM transform = .ok results ∧ List.Forall₂ relation results items := by
  induction items with
  | nil => exact ⟨[], rfl, .nil⟩
  | cons item items induction =>
      rcases each item List.mem_cons_self with ⟨first, head, related⟩
      rcases induction fun other listed => each other (List.mem_cons_of_mem _ listed) with
        ⟨rest, tail, others⟩
      exact ⟨first :: rest, by rw [List.mapM_cons, head, tail]; rfl, .cons related others⟩

theorem exists_mem_of_forall₂ {relation : α → β → Prop} {items : List α} {others : List β}
    (each : List.Forall₂ relation items others) :
    ∀ item ∈ items, ∃ other ∈ others, relation item other := by
  induction each with
  | nil => simp
  | cons head _ induction =>
      simp only [List.forall_mem_cons, List.exists_mem_cons_iff]
      exact ⟨.inl head, fun item listed => .inr (induction item listed)⟩

theorem mem_of_mapM_eq_ok {transform : α → Except Error β} {items : List α} {results : List β}
    (run : items.mapM transform = .ok results) :
    ∀ result ∈ results, ∃ item ∈ items, transform item = .ok result :=
  exists_mem_of_forall₂ (forall₂_of_mapM_eq_ok run)

/-! Column lists. -/

namespace Scope

variable {scope : Scope}

theorem bare_columnUnder {aliasName property : String} {entity : Entity} {column : Fragment}
    (plain : isPlainIdentifier aliasName = true)
    (found : scope.columnUnder aliasName entity property = .ok column) : column.Bare := by
  rcases columnUnder_eq_ok.mp found with ⟨name, -, rfl⟩
  apply ColumnReference.bare_fragment
  intro qualifier qualifies
  rcases Option.ite_none_right_eq_some.mp qualifies with ⟨-, written⟩
  exact Option.some.inj written ▸ plain

theorem bare_column {entity : Entity} {property : String} {column : Fragment}
    (plain : isPlainIdentifier entity.aliasName = true)
    (found : scope.column entity property = .ok column) : column.Bare :=
  bare_columnUnder plain found

/-- Every field is selected under the name of its property. -/
theorem fieldList_cases {entity : Entity} {columns : Fragment}
    (found : scope.fieldList entity = .ok columns) :
    ∃ fragments, columns = Fragment.commaSeparated fragments ∧
      List.Forall₂ (fun fragment field => ∃ column,
        scope.column entity (Field.property field) = .ok column ∧
          (Field.column field = field.property ∧ fragment = column ∨
            fragment = column.renamed field.property)) fragments entity.fields := by
  rcases bind_eq_ok.mp found with ⟨fragments, each, shown⟩
  cases shown
  refine ⟨fragments, rfl, (forall₂_of_mapM_eq_ok each).imp ?_⟩
  intro fragment field selected
  rcases bind_eq_ok.mp selected with ⟨column, reached, shown⟩
  cases shown
  refine ⟨column, reached, ?_⟩
  split
  · next same => exact .inl ⟨same, rfl⟩
  · exact .inr rfl

theorem selectedMember_cases {path : MemberPath} {fragment : Fragment}
    (found : scope.selectedMember path = .ok fragment) :
    ∃ entity column, scope.catalog.entity path.entity = .ok entity ∧
      scope.column entity path.member = .ok column ∧
        (fragment = column ∨ fragment = column.renamed path.member) := by
  rcases bind_eq_ok.mp found with ⟨entity, accepted, found⟩
  rcases bind_eq_ok.mp found with ⟨column, reached, named⟩
  rcases bind_eq_ok.mp named with ⟨name, -, shown⟩
  cases shown
  refine ⟨entity, column, accepted, reached, ?_⟩
  split
  · exact .inl rfl
  · exact .inr rfl

theorem bare_fieldList {entity : Entity} {columns : Fragment}
    (plain : isPlainIdentifier entity.aliasName = true)
    (found : scope.fieldList entity = .ok columns) : columns.Bare := by
  rcases fieldList_cases found with ⟨fragments, rfl, each⟩
  apply Fragment.bare_commaSeparated
  intro fragment member
  rcases exists_mem_of_forall₂ each fragment member with
    ⟨field, -, column, reached, ⟨-, rfl⟩ | rfl⟩
  · exact bare_column plain reached
  · exact (bare_column plain reached).renamed _

theorem bare_selectedMember {path : MemberPath} {fragment : Fragment}
    (found : scope.selectedMember path = .ok fragment) : fragment.Bare := by
  rcases selectedMember_cases found with ⟨entity, column, accepted, reached, shown⟩
  have bare := bare_column (Catalog.isPlainIdentifier_aliasName accepted) reached
  rcases shown with rfl | rfl
  · exact bare
  · exact bare.renamed _

end Scope

/-- The names that a projection gives to its columns. -/
def Expr.boundNames (selector : Expr) : List String :=
  match selector.body with
  | .record _ bindings => bindings.map (·.1)
  | _ => []

namespace Scope

variable {scope : Scope} (joins : scope.PlainJoin) (plain : scope.catalog.PlainProperties)

include joins plain

theorem writtenAll_selectedBindings {bindings : List (String × Expr)} {draft later : Draft}
    {fragments : List Fragment}
    (named : ∀ binding ∈ bindings, isPlainIdentifier binding.1 = true)
    (run : (scope.selectedBindings bindings).runFrom draft = (.ok fragments, later)) :
    draft.WrittenAll fragments later := by
  induction bindings generalizing draft fragments with
  | nil =>
      rw [selectedBindings, Build.runFrom_pure_eq_ok] at run
      rcases run with ⟨rfl, rfl⟩
      exact draft.writtenAll_nil
  | cons binding bindings induction =>
      rcases binding with ⟨name, expression⟩
      simp only [selectedBindings, Build.runFrom_bind_eq_ok, Build.runFrom_pure_eq_ok] at run
      rcases run with ⟨value, middle, head, rest, last, tail, rfl, rfl⟩
      have written := Expr.written_scalar joins (plain.members expression)
        (named _ List.mem_cons_self) head
      exact Draft.Written.cons
        (written.within Fragment.legible_renamed.mpr (by simp))
        (induction (fun other member => named other (List.mem_cons_of_mem _ member)) tail)

theorem written_projection {selector : Expr} {draft later : Draft} {fragment : Fragment}
    (named : ∀ name ∈ selector.boundNames, isPlainIdentifier name = true)
    (run : (scope.projection selector).runFrom draft = (.ok fragment, later)) :
    draft.Written fragment later := by
  cases projectionRun_of_projection run with
  | member path shape found => exact Draft.written_bare (bare_selectedMember found)
  | record entity bindings fragments shape given inner =>
      rw [Expr.boundNames, shape] at named
      refine (writtenAll_selectedBindings joins plain (fun binding member => ?_)
        inner).commaSeparated
      exact named _ (List.mem_map_of_mem member)
  | scalar _ inner =>
      exact Expr.written_scalar joins (plain.members selector) Expr.isPlainIdentifier_unnamed inner

theorem written_selectList {entity : Entity} {select : Option Expr} {draft later : Draft}
    {fragment : Fragment} (entityPlain : isPlainIdentifier entity.aliasName = true)
    (named : ∀ selector ∈ select, ∀ name ∈ selector.boundNames, isPlainIdentifier name = true)
    (run : (scope.selectList entity select).runFrom draft = (.ok fragment, later)) :
    draft.Written fragment later := by
  cases select with
  | none =>
      rw [selectList, Build.runFrom_lift_eq_ok] at run
      rcases run with ⟨found, rfl⟩
      exact Draft.written_bare (bare_fieldList entityPlain found)
  | some selector => exact written_projection joins plain (named selector rfl) run

omit plain in
theorem bare_summarizedColumn {selector : Option Expr} {draft later : Draft}
    {column : Fragment}
    (run : (scope.summarizedColumn selector).runFrom draft = (.ok column, later)) :
    column.Bare ∧ draft = later := by
  unfold summarizedColumn at run
  split at run
  · cases run
  · split at run
    · rw [Build.runFrom_lift_eq_ok] at run
      exact ⟨Expr.bare_member joins run.1, run.2⟩
    · cases run

end Scope

/-! Joined tables. -/

/-- What each navigation of an accepted entity is called. -/
theorem Catalog.isPlainIdentifier_navigation {catalog : Catalog} {name : String}
    {entity : Entity} (accepted : catalog.entity name = .ok entity) :
    ∀ navigation ∈ entity.navigations, isPlainIdentifier navigation.name = true := by
  rcases Catalog.entity_eq_ok.mp accepted with ⟨sound, rfl⟩
  exact Descriptor.isPlainIdentifier_navigation sound

theorem isPlainIdentifier_joinAlias (taken : List String) {entityAlias navigation : String}
    (aliased : isPlainIdentifier entityAlias = true)
    (named : isPlainIdentifier navigation = true) :
    isPlainIdentifier (joinAlias taken entityAlias navigation) = true := by
  unfold joinAlias
  split
  · exact isPlainIdentifier_freshName _ named
  · exact aliased

namespace Scope

variable {scope : Scope}

/-- The columns that a join adds stand each behind a comma and go by a name of its own. -/
theorem joinedColumns_cases {aliasName : String} {navigation : Navigation} {target : Entity}
    {columns : Fragment}
    (found : scope.joinedColumns aliasName navigation target = .ok columns) :
    (navigation.withFields = false ∧ columns = []) ∨
    (navigation.withFields = true ∧ ∃ fragments : List Fragment, columns = fragments.flatten ∧
      List.Forall₂ (fun fragment field => ∃ column,
        scope.columnUnder aliasName target field.property = .ok column ∧
        fragment = [.symbol .comma, .space] ++
          column.renamed (joinedColumnName navigation.name field.property))
        fragments target.fields) := by
  unfold joinedColumns at found
  split at found
  · next given =>
      rcases bind_eq_ok.mp found with ⟨fragments, each, shown⟩
      cases shown
      refine .inr ⟨given, fragments, rfl, (forall₂_of_mapM_eq_ok each).imp ?_⟩
      intro fragment field shown
      rcases bind_eq_ok.mp shown with ⟨column, reached, shown⟩
      cases shown
      exact ⟨column, reached, rfl⟩
  · next none =>
      cases found
      exact .inl ⟨by simpa using none, rfl⟩

theorem appendable_joinedColumns {aliasName : String} {navigation : Navigation}
    {target : Entity} {columns : Fragment} (plain : isPlainIdentifier aliasName = true)
    (found : scope.joinedColumns aliasName navigation target = .ok columns) :
    columns.Appendable := by
  rcases joinedColumns_cases found with ⟨-, rfl⟩ | ⟨-, fragments, rfl, each⟩
  · exact Fragment.appendable_nil
  · apply Fragment.appendable_flatten
    intro fragment member
    rcases exists_mem_of_forall₂ each fragment member with ⟨field, -, column, reached, rfl⟩
    have bare := (bare_columnUnder plain reached).renamed
      (joinedColumnName navigation.name field.property)
    refine ⟨⟨?_, by simp [bare.placeholders]⟩, Fragment.startsApart_cons rfl⟩
    exact (Fragment.legible_cons rfl).mpr ((Fragment.legible_cons rfl).mpr bare.legible)

/-- A join compiles its condition under the alias that it lends, and looks up its columns
under that alias too. -/
theorem joinTable_eq_ok {root : Entity} {taken : List String} {navigation : Navigation}
    {draft later : Draft} {table : JoinedTable}
    (run : (scope.joinTable root taken navigation).runFrom draft = (.ok table, later)) :
    ∃ target condition, scope.catalog.entity navigation.target = .ok target ∧
      table.aliasName = joinAlias taken target.aliasName navigation.name ∧
      (navigation.condition.predicate (.ofJoin scope.catalog
        { target := navigation.target
          aliasName := table.aliasName
          selfJoin := navigation.target = root.name })).runFrom draft = (.ok condition, later) ∧
      table.clause = Fragment.words navigation.kind.keywords ++ .space :: target.tableName ++
        [.space, .word table.aliasName, .space, .word "ON", .space] ++ condition ∧
      scope.joinedColumns table.aliasName navigation target = .ok table.columns := by
  simp only [joinTable, Build.runFrom_bind_eq_ok, Build.runFrom_pure_eq_ok,
    Build.runFrom_lift_eq_ok] at run
  rcases run with
    ⟨target, _, ⟨accepted, rfl⟩, condition, _, compiled, columns, _, ⟨found, rfl⟩, rfl, rfl⟩
  exact ⟨target, condition, accepted, rfl, compiled, rfl, found⟩

theorem exists_joinTable_of_mem {root : Entity} {taken : List String}
    {navigations : List Navigation} {draft later : Draft} {tables : List JoinedTable}
    (run : (scope.joinTables root taken navigations).runFrom draft = (.ok tables, later))
    {navigation : Navigation} (listed : navigation ∈ navigations) :
    ∃ before known table after,
      (scope.joinTable root known navigation).runFrom before = (.ok table, after) := by
  induction navigations generalizing taken draft later tables with
  | nil => cases listed
  | cons first navigations induction =>
      simp only [joinTables, Build.runFrom_bind_eq_ok] at run
      rcases run with ⟨table, middle, head, rest, last, tail, -⟩
      rcases List.mem_cons.mp listed with rfl | listed
      · exact ⟨_, _, table, middle, head⟩
      · exact induction tail listed

theorem written_joinTable (plain : scope.catalog.PlainProperties) {root : Entity}
    {taken : List String} {navigation : Navigation} {draft later : Draft} {table : JoinedTable}
    (named : isPlainIdentifier navigation.name = true)
    (run : (scope.joinTable root taken navigation).runFrom draft = (.ok table, later)) :
    draft.Written table.clause later ∧ table.columns.Appendable := by
  rcases joinTable_eq_ok run with ⟨target, condition, accepted, lent, compiled, clause, found⟩
  have aliasPlain : isPlainIdentifier table.aliasName = true :=
    lent ▸ isPlainIdentifier_joinAlias taken (Catalog.isPlainIdentifier_aliasName accepted) named
  refine ⟨?_, appendable_joinedColumns aliasPlain found⟩
  have written := Expr.written_predicate (plainJoin_ofJoin scope.catalog aliasPlain)
    (plain.members navigation.condition) compiled
  have keywords : (Fragment.words navigation.kind.keywords).Bare :=
    Fragment.bare_words _ (by cases navigation.kind <;> decide)
  have named : Fragment.Bare target.tableName := ⟨Fragment.legible_singleton.mpr trivial, rfl⟩
  have aliased := Fragment.bare_word (proper_word_of_isPlainIdentifier aliasPlain)
  have on : Fragment.Bare [.word "ON"] := Fragment.bare_word (by decide)
  have head := ((keywords.append_space named).append_space aliased).append_space on
  rw [clause]
  simpa using written.after head

theorem written_joinTables (plain : scope.catalog.PlainProperties) {root : Entity}
    {taken : List String} {navigations : List Navigation} {draft later : Draft}
    {tables : List JoinedTable}
    (named : ∀ navigation ∈ navigations, isPlainIdentifier navigation.name = true)
    (run : (scope.joinTables root taken navigations).runFrom draft = (.ok tables, later)) :
    draft.WrittenAll (tables.map (·.clause)) later ∧
      ∀ table ∈ tables, table.columns.Appendable := by
  induction navigations generalizing taken draft tables with
  | nil =>
      rw [joinTables, Build.runFrom_pure_eq_ok] at run
      rcases run with ⟨rfl, rfl⟩
      exact ⟨draft.writtenAll_nil, by simp⟩
  | cons navigation navigations induction =>
      simp only [joinTables, Build.runFrom_bind_eq_ok, Build.runFrom_pure_eq_ok] at run
      rcases run with ⟨first, middle, head, rest, last, tail, rfl, rfl⟩
      rcases written_joinTable plain (named _ List.mem_cons_self) head with ⟨written, appendable⟩
      rcases induction (fun other member => named other (List.mem_cons_of_mem _ member)) tail with
        ⟨others, othersAppendable⟩
      exact ⟨written.cons others, by simpa [appendable] using othersAppendable⟩

theorem written_joins (scope : Scope) (plain : scope.catalog.PlainProperties) {root : Entity}
    {navigations : List Navigation} {draft later : Draft} {tables : List JoinedTable}
    (named : ∀ navigation ∈ navigations, isPlainIdentifier navigation.name = true)
    (run : (scope.joins root navigations).runFrom draft = (.ok tables, later)) :
    draft.WrittenAll (tables.map (·.clause)) later ∧
      ∀ table ∈ tables, table.columns.Appendable :=
  written_joinTables plain named run

end Scope

namespace JoinedTable

theorem written_joinClauses {tables : List JoinedTable} {draft later : Draft}
    (written : draft.WrittenAll (tables.map (·.clause)) later) :
    draft.Written (joinClauses tables) later := by
  refine ⟨Fragment.legible_intercalate (fun left right first second => ?_) written.legible, ?_⟩
  · rw [List.append_assoc]
    exact (Fragment.legible_append_cons rfl).mpr ⟨first, second⟩
  · have none : Fragment.placeholders [.space] = [] := rfl
    exact Fragment.placeholders_intercalate none _ ▸ written.binds

theorem appendable_selectedColumns {tables : List JoinedTable}
    (appendable : ∀ table ∈ tables, table.columns.Appendable) :
    (selectedColumns tables).Appendable :=
  Fragment.appendable_flatten (by simpa using appendable)

end JoinedTable

/-! Whole statements. -/

theorem bare_selectKeyword (dialect : Dialect) (distinct : Bool) (top : Option UInt32) :
    (dialect.selectKeyword distinct top).Bare := by
  have keywords : (Fragment.words
      (if distinct then ["SELECT", "DISTINCT"] else ["SELECT"])).Bare :=
    Fragment.bare_words _ (by cases distinct <;> decide)
  cases dialect <;> cases top
  case sqlServer.some count =>
    have cap : Fragment.Bare [.word "TOP"] := Fragment.bare_word (by decide)
    simpa [Dialect.selectKeyword] using
      keywords.append_space (cap.append_space (Fragment.bare_number count.toNat))
  all_goals exact keywords

theorem bare_fromClause {entity : Entity} (plain : isPlainIdentifier entity.aliasName = true)
    (dialect : Dialect) (noLock : Bool) : (dialect.fromClause entity noLock).Bare := by
  have hint : (dialect.tableHint noLock).Bare := by
    unfold Dialect.tableHint
    split
    · exact ⟨⟨by decide, by decide⟩, rfl⟩
    · exact Fragment.bare_nil
  have table : Fragment.Bare (.word "FROM" :: .space :: entity.aliasedTable) := by
    refine ⟨(Fragment.legible_cons_cons rfl).mpr ⟨by decide, ?_⟩, rfl⟩
    exact (Fragment.legible_cons_cons rfl).mpr
      ⟨trivial, Fragment.legible_singleton.mpr (proper_word_of_isPlainIdentifier plain)⟩
  refine ⟨Fragment.legible_spaced ?_, ?_⟩
  · simp [table.legible, hint.legible]
  · simp [Dialect.fromClause, table.placeholders, hint.placeholders]

/-- The names that a query brings along itself can be written without quotes. -/
structure Query.PlainNames (query : Query) : Prop where
  joins : ∀ navigation ∈ query.joins, isPlainIdentifier navigation.name = true
  select : ∀ selector ∈ query.select, ∀ name ∈ selector.boundNames,
    isPlainIdentifier name = true

variable {catalog : Catalog} {dialect : Dialect} {query : Query}

theorem Query.PlainNames.navigations (names : query.PlainNames) {entity : Entity}
    (accepted : catalog.entity query.entity = .ok entity) :
    ∀ navigation ∈ query.joins ++ entity.navigations,
      isPlainIdentifier navigation.name = true := by
  intro navigation member
  rcases List.mem_append.mp member with member | member
  · exact names.joins navigation member
  · exact Catalog.isPlainIdentifier_navigation accepted navigation member

namespace SelectClauses

/-- The clauses as they stand in the statement. -/
def parts (clauses : SelectClauses) : List Fragment :=
  [clauses.keyword ++ .space :: clauses.columns, clauses.source, clauses.joined,
    clauses.conditions, clauses.grouping, clauses.having, clauses.ordering]

theorem writtenAll_parts (plain : catalog.PlainProperties) (names : query.PlainNames)
    {top : Option UInt32} {draft later : Draft} {clauses : SelectClauses}
    (run : (build catalog dialect query top).runFrom draft = (.ok clauses, later)) :
    draft.WrittenAll clauses.parts later ∧
      catalog.entity query.entity = .ok clauses.entity := by
  rcases run_of_build run with ⟨entity, selected, tables, conditions, grouping, having, ordering,
    accepted, columns, joined, filters, groups, havings, order⟩
  refine ⟨?_, accepted⟩
  have joins := Scope.plainJoin_aliased catalog
  have aliasPlain := Catalog.isPlainIdentifier_aliasName accepted
  have selectedWritten := Scope.written_selectList joins plain aliasPlain names.select columns
  rcases Scope.written_joins (.aliased catalog) plain (names.navigations accepted) joined with
    ⟨tablesWritten, appendable⟩
  have columnsWritten : ∀ next, draft.Written selected next → draft.Written
      (if query.select.isNone then selected ++ JoinedTable.selectedColumns tables
        else selected) next := by
    intro next written
    split
    · exact written.append (JoinedTable.appendable_selectedColumns appendable)
    · exact written
  refine ((columnsWritten _ selectedWritten).after
    (bare_selectKeyword dialect query.distinct top)).cons ?_
  refine (Draft.written_bare (bare_fromClause aliasPlain dialect query.noLock)).cons ?_
  refine (JoinedTable.written_joinClauses tablesWritten).cons ?_
  refine (Scope.written_whereClause joins (fun _ _ => plain.members _) filters).cons ?_
  refine (Scope.written_groupClause joins (fun _ _ => plain.members _) groups).cons ?_
  refine (Scope.written_havingClause joins (fun _ _ => plain.members _) havings).cons ?_
  exact (Scope.written_orderClause joins (fun _ _ => plain.members _) order).cons
    (Draft.writtenAll_nil _)

theorem written_sql (plain : catalog.PlainProperties) (names : query.PlainNames)
    {top : Option UInt32} {draft later : Draft} {clauses : SelectClauses}
    (run : (build catalog dialect query top).runFrom draft = (.ok clauses, later)) :
    draft.Written clauses.sql later :=
  (writtenAll_parts plain names run).1.spaced

theorem bare_keyOrder {scope : Scope} {entity : Entity} {ordering : Fragment}
    (aliasPlain : isPlainIdentifier entity.aliasName = true)
    (found : keyOrder scope entity = .ok ordering) : ordering.Bare := by
  rcases bind_eq_ok.mp found with ⟨columns, each, shown⟩
  cases shown
  refine (Fragment.bare_words _ (by decide)).append_space
    (Fragment.bare_commaSeparated fun column member => ?_)
  rcases mem_of_mapM_eq_ok each column member with ⟨key, -, columnFound⟩
  exact Scope.bare_column aliasPlain columnFound

/-- The default order takes the place of no order, so that it moves no placeholder. -/
theorem written_withDefaultOrder {scope : Scope} {draft later : Draft}
    {clauses ordered : SelectClauses} (written : draft.WrittenAll clauses.parts later)
    (aliasPlain : isPlainIdentifier clauses.entity.aliasName = true)
    (found : clauses.withDefaultOrder scope query = .ok ordered) :
    draft.Written ordered.sql later := by
  have replaced : ∀ ordering : Fragment, ordering.Bare → clauses.ordering = [] →
      draft.Written (sql { clauses with ordering }) later := by
    intro ordering bare unordered
    refine Draft.WrittenAll.spaced ⟨?_, ?_⟩
    · have legible := written.legible
      simp only [parts, List.mem_cons, List.not_mem_nil, or_false, forall_eq_or_imp,
        forall_eq] at legible ⊢
      rcases legible with ⟨columns, source, joined, conditions, grouping, having, -⟩
      exact ⟨columns, source, joined, conditions, grouping, having, bare.legible⟩
    · have binds := written.binds
      simpa [parts, unordered, bare.placeholders] using binds
  unfold withDefaultOrder at found
  split at found
  · cases found
    exact written.spaced
  · next unordered =>
      have empty : clauses.ordering = [] := by simpa using unordered
      split at found
      · rcases bind_eq_ok.mp found with ⟨ordering, keyed, shown⟩
        cases shown
        exact replaced ordering (bare_keyOrder aliasPlain keyed) empty
      · cases found
        exact replaced noOrder ⟨⟨by decide, by decide⟩, rfl⟩ empty

end SelectClauses

namespace ScalarClauses

theorem written_sql (plain : catalog.PlainProperties) (names : query.PlainNames)
    {head : Scope → Build Fragment} {draft later : Draft} {clauses : ScalarClauses}
    (headWritten : ∀ fragment middle,
      (head (.aliased catalog)).runFrom draft = (.ok fragment, middle) →
        draft.Written fragment middle)
    (run : (build catalog dialect query head).runFrom draft = (.ok clauses, later))
    {suffix : Fragment} (appendable : suffix.Appendable) :
    draft.Written (sql { clauses with conditions := clauses.conditions ++ suffix }) later := by
  rcases run_of_build run with
    ⟨entity, first, tables, conditions, accepted, headed, joined, filters⟩
  have joins := Scope.plainJoin_aliased catalog
  have aliasPlain := Catalog.isPlainIdentifier_aliasName accepted
  rcases Scope.written_joins (.aliased catalog) plain (names.navigations accepted) joined with
    ⟨tablesWritten, -⟩
  refine Draft.WrittenAll.spaced ((headWritten _ _ headed).cons ?_)
  refine (Draft.written_bare (bare_fromClause aliasPlain dialect query.noLock)).cons ?_
  refine (JoinedTable.written_joinClauses tablesWritten).cons ?_
  exact ((Scope.written_whereClause joins (fun _ _ => plain.members _) filters).append
    appendable).cons (Draft.writtenAll_nil _)

end ScalarClauses

/-! Capping the number of rows. -/

namespace Fragment

variable {draft later : Draft} {sql : Fragment}

theorem written_limit (written : draft.Written sql later) (count : Nat) :
    draft.Written (sql.limit count) later := by
  have limit' : Fragment.Bare [.word "LIMIT"] := bare_word (by decide)
  simpa [limit] using written.append (appendable_space (limit'.append_space (bare_number count)))

theorem bare_rowNumberAtMost (count : Nat) : (rowNumberAtMost count).Bare := by
  have digits := (bare_number count).legible.proper _ (by simp [number]; rfl)
  refine ⟨⟨?_, ?_⟩, rfl⟩
  · simpa [rowNumberAtMost, number] using
      ⟨(by decide : (Token.word "ROWNUM").Proper), trivial, digits⟩
  · simp [rowNumberAtMost, number, Token.mayPrecede]

theorem written_firstRows (written : draft.Written sql later) (count : Nat) :
    draft.Written (sql.firstRows count) later := by
  have names : Fragment.Bare [.space, .word "T", .space, .word "WHERE"] :=
    ⟨⟨by decide, by decide⟩, rfl⟩
  have tail := names.append_space (bare_rowNumberAtMost count)
  have head : Fragment.Bare [.word "SELECT", .space, .word "T", .symbol .dot, .symbol .times,
      .space, .word "FROM", .space] := ⟨⟨by decide, by decide⟩, rfl⟩
  simpa [firstRows, allOf] using written.enclosed head tail

theorem bare_offset (count : Nat) :
    Fragment.Bare (.word "OFFSET" :: .space :: number count) :=
  (bare_word (by decide)).append_space (bare_number count)

theorem written_offsetLimit (written : draft.Written sql later) (rows : RowRange) :
    draft.Written (sql.offsetLimit rows) later := by
  simpa [offsetLimit] using
    (written_limit written rows.size.toNat).append (appendable_space (bare_offset _))

theorem written_offsetFetch (written : draft.Written sql later) (rows : RowRange) :
    draft.Written (sql.offsetFetch rows) later := by
  have next := (bare_offset rows.skip.toNat).append_space
    (bare_words ["ROWS", "FETCH", "NEXT"] (by decide))
  have fetched := (next.append_space (bare_number rows.size.toNat)).append_space
    (bare_words ["ROWS", "ONLY"] (by decide))
  simpa [offsetFetch] using written.append (appendable_space fetched)

theorem written_rowsBetween (written : draft.Written sql later) (rows : RowRange) :
    draft.Written (sql.rowsBetween rows) later := by
  have numbered : draft.Written (numberedRows sql) later := by
    have head : Fragment.Bare [.word "SELECT", .space, .word "T", .symbol .dot, .symbol .times,
        .symbol .comma, .word "ROWNUM", .space, .word "ROWNUMS", .space, .word "FROM",
        .space] := ⟨⟨by decide, by decide⟩, rfl⟩
    have tail : Fragment.Bare [.space, .word "T"] := ⟨⟨by decide, by decide⟩, rfl⟩
    exact written.enclosed head tail
  have head : Fragment.Bare [.word "SELECT", .space, .word "T2", .symbol .dot, .symbol .times,
      .space, .word "FROM", .space] := ⟨⟨by decide, by decide⟩, rfl⟩
  have names := (appendable_space
    (bare_words ["T2", "WHERE", "ROWNUMS", "BETWEEN"] (by decide))).bare
  have least := names.append_space (bare_number rows.first.toNat)
  have both : Fragment.Bare [.word "AND"] := bare_word (by decide)
  have tail := (least.append_space both).append_space (bare_number rows.last.toNat)
  simpa [rowsBetween, allOf] using numbered.enclosed head tail

end Fragment

end EntitySql
