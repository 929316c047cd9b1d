import EntitySql.Proofs.OuterAliases

/-! The clauses of a query, told from its text. -/

namespace EntitySql

/-! Select lists. -/

namespace Catalog

variable {catalog : Catalog}

theorem body_selectedMember {path : MemberPath} {fragment : Fragment}
    (found : (Scope.aliased catalog).selectedMember path = .ok fragment) :
    Body fragment.squeezed ((Expr.member path).outerAliases (.aliased catalog)) := by
  rcases Scope.selectedMember_cases found with ⟨entity, column, accepted, reached, shown⟩
  have body : Body column.squeezed [catalog.aliasName path.entity] :=
    (Scope.aliased catalog).body_column rfl accepted reached
  rcases shown with rfl | rfl
  · exact body
  · exact body.renamed _

theorem body_projection {selector : Expr} {draft later : Draft} {fragment : Fragment}
    (run : ((Scope.aliased catalog).projection selector).runFrom draft = (.ok fragment, later)) :
    Body fragment.squeezed (selector.projectedAliases (.aliased catalog)) := by
  cases Scope.projectionRun_of_projection run with
  | member path shape found =>
      have body := body_selectedMember found
      rw [← shape, Expr.outerAliases_body] at body
      rwa [Expr.projectedAliases, shape]
  | record name bindings fragments shape given inner =>
      have each : List.Forall₂ (fun fragment shown => Body (Fragment.squeezed fragment) shown)
          fragments (bindings.map (·.2.outerAliases (.aliased catalog))) := by
        rw [List.forall₂_map_right_iff]
        refine (Scope.runs_of_selectedBindings inner).imp ?_
        rintro _ binding ⟨before, value, after, steps, rfl⟩
        exact (steps.body rfl).renamed binding.1
      rw [Expr.projectedAliases, shape]
      exact body_commaSeparated each
  | scalar single inner =>
      unfold Expr.projectedAliases
      split
      · next name bindings shape => exact absurd shape (single name bindings)
      · exact (Expr.scalarRun_of_scalar inner).body rfl

theorem fieldAliases_eq_flatten {name : String} {entity : Entity}
    (accepted : catalog.entity name = .ok entity) (aliasName : String) :
    catalog.fieldAliases name aliasName = (entity.fields.map fun _ => [aliasName]).flatten := by
  rw [fields_of_entity accepted, fieldAliases, List.map_eq_flatMap, List.flatMap_def]

theorem body_fieldList {name : String} {entity : Entity} {columns : Fragment}
    (accepted : catalog.entity name = .ok entity)
    (found : (Scope.aliased catalog).fieldList entity = .ok columns) :
    Body columns.squeezed (catalog.fieldAliases name (catalog.aliasName name)) := by
  rcases Scope.fieldList_cases found with ⟨fragments, rfl, each⟩
  rw [fieldAliases_eq_flatten accepted]
  apply body_commaSeparated
  rw [List.forall₂_map_right_iff]
  refine each.imp ?_
  rintro fragment field ⟨column, reached, shown⟩
  have body : Body column.squeezed [catalog.aliasName name] :=
    (Scope.aliased catalog).body_column rfl accepted reached
  rcases shown with ⟨-, rfl⟩ | rfl
  · exact body
  · exact body.renamed _

theorem body_joinedColumns {navigation : Navigation} {target : Entity} {aliasName : String}
    {columns : Fragment} (accepted : catalog.entity navigation.target = .ok target)
    (found : (Scope.aliased catalog).joinedColumns aliasName navigation target = .ok columns) :
    Body columns.squeezed
      (if navigation.withFields then catalog.fieldAliases navigation.target aliasName
        else []) := by
  rcases Scope.joinedColumns_cases found with ⟨none, rfl⟩ | ⟨given, fragments, rfl, each⟩
  · rw [none]
    exact body_nil
  · rw [if_pos given, fieldAliases_eq_flatten accepted, Fragment.squeezed_flatten]
    apply body_flatten
    rw [List.forall₂_map_left_iff, List.forall₂_map_right_iff]
    refine each.imp ?_
    rintro _ field ⟨column, reached, rfl⟩
    have body : Body column.squeezed [aliasName] :=
      (Scope.aliased catalog).body_columnUnder rfl reached
    simpa using (body.renamed _).cons_mark (rfl : (Token.symbol .comma).isMark = true)

end Catalog

theorem Query.body_selectedColumns {catalog : Catalog} {query : Query} {entity : Entity}
    (accepted : catalog.entity query.entity = .ok entity) {draft later : Draft}
    {tables : List JoinedTable}
    (run : ((Scope.aliased catalog).joins entity (query.joins ++ entity.navigations)).runFrom
      draft = (.ok tables, later)) :
    Body (JoinedTable.selectedColumns tables).squeezed
      ((query.joinViews catalog).flatMap catalog.joinedAliases) := by
  rw [JoinedTable.selectedColumns, List.flatMap_def, Fragment.squeezed_flatten, List.map_map,
    List.flatMap_def]
  apply body_flatten
  rw [List.forall₂_map_left_iff, List.forall₂_map_right_iff]
  refine (Query.runs_of_joins accepted run).imp ?_
  rintro table _ ⟨navigation, before, known, after, one, rfl⟩
  rcases Scope.joinTable_eq_ok one with ⟨target, -, found, -, -, -, joined⟩
  exact Catalog.body_joinedColumns found joined

theorem Dialect.body_selectKeyword (dialect : Dialect) (distinct : Bool) :
    Body (dialect.selectKeyword distinct none).squeezed [] := by
  have select : quiet "SELECT" = true := by decide
  have keywords : dialect.selectKeyword distinct none =
      Fragment.words (if distinct then ["SELECT", "DISTINCT"] else ["SELECT"]) := by
    cases dialect <;> rfl
  rw [keywords]
  cases distinct
  · exact body_word select
  · exact (body_word (by decide : quiet "DISTINCT" = true)).cons_word select

/-! The clauses of a query for rows. -/

theorem Fragment.flatten_squeezed_filter (fragments : List Fragment) :
    ((fragments.filter (!·.isEmpty)).map squeezed).flatten = (fragments.map squeezed).flatten := by
  induction fragments with
  | nil => rfl
  | cons first rest induction =>
      cases first with
      | nil => exact induction
      | cons token tokens => simp [induction]

/-- A clause stands where what it is made of is given. -/
theorem Clauses.optional {item : Type} {fragment : Fragment} {items : List item}
    {shown : item → List String}
    (clause : fragment = [] ∧ items = [] ∨
      fragment ≠ [] ∧ Clause fragment.squeezed (items.flatMap shown)) :
    Clauses (([fragment].filter (!·.isEmpty)).map Fragment.squeezed) (items.flatMap shown) := by
  rcases clause with ⟨rfl, rfl⟩ | ⟨given, clause⟩
  · exact ⟨[], .nil, rfl⟩
  · rw [List.filter_cons_of_pos (by simpa using given)]
    exact .single clause

namespace SelectClauses

variable {catalog : Catalog} {dialect : Dialect} {query : Query} {draft later : Draft}
  {clauses : SelectClauses} {tables : List JoinedTable}

/-- The tables that the clauses take next to that of the query, as they were built. -/
def Joins (clauses : SelectClauses) (catalog : Catalog) (tables : List JoinedTable) : Prop :=
  clauses.joined = JoinedTable.joinClauses tables ∧
    ∃ before after, ((Scope.aliased catalog).joins clauses.entity clauses.joins).runFrom before =
      (.ok tables, after)

def head (clauses : SelectClauses) : Fragment :=
  clauses.keyword ++ .space :: clauses.columns

/-- The clauses behind the select list, the joins one by one. Those that the query leaves out
are empty and stand nowhere. -/
def behind (clauses : SelectClauses) (tables : List JoinedTable) : List Fragment :=
  clauses.source :: tables.map (·.clause) ++
    [clauses.conditions, clauses.grouping, clauses.having, clauses.ordering].filter (!·.isEmpty)

theorem squeezed_sql_of_joins (joins : clauses.Joins catalog tables) :
    clauses.sql.squeezed =
      clauses.head.squeezed ++ ((clauses.behind tables).map Fragment.squeezed).flatten := by
  rw [behind, List.map_append, List.flatten_append,
    Fragment.flatten_squeezed_filter, List.map_cons, List.map_map, List.flatten_cons]
  simp [sql, head, Fragment.squeezed_spaced, joins.1, JoinedTable.squeezed_joinClauses,
    Function.comp_def]

/-- The select list and the clauses behind it, each with the aliases that it shows. -/
theorem clauses_of_build
    (run : (build catalog dialect query none).runFrom draft = (.ok clauses, later)) :
    Body clauses.head.squeezed (query.selectAliases catalog) ∧
      ∃ tables, clauses.Joins catalog tables ∧
        Clauses ((clauses.behind tables).map Fragment.squeezed) (query.clauseAliases catalog) := by
  rcases run_of_build run with ⟨entity, selected, tables, conditions, grouping, having, ordering,
    accepted, select, joins, filters, groups, kept, order⟩
  have columns : Body (Fragment.squeezed
      (if query.select.isNone then selected ++ JoinedTable.selectedColumns tables else selected))
      (query.selectAliases catalog) := by
    unfold Query.selectAliases
    cases shape : query.select with
    | none =>
        rw [shape, Scope.selectList, Build.runFrom_lift_eq_ok] at select
        simpa using (Catalog.body_fieldList accepted select.1).append
          (Query.body_selectedColumns accepted joins)
    | some selector =>
        rw [shape] at select
        exact Catalog.body_projection select
  have filtered := Scope.clause_whereClause rfl filters
  have source := Clauses.single (dialect.clause_fromClause accepted query.noLock)
  have sources := source.append (Query.clauses_joins accepted joins)
  have whole := ((((sources.append (Clauses.optional (.inr filtered))).append
    (Clauses.optional (Scope.clause_groupClause rfl groups))).append
    (Clauses.optional (Scope.clause_havingClause rfl kept))).append
    (Clauses.optional (Scope.clause_orderClause rfl order)))
  refine ⟨?_, tables, ⟨rfl, _, _, joins⟩, ?_⟩
  · simpa [head] using (dialect.body_selectKeyword query.distinct).append columns
  · -- Each of the last clauses is there or not on its own.
    have pieces : ∀ first second third fourth : Fragment,
        [first, second, third, fourth].filter (!·.isEmpty) =
          [first].filter (!·.isEmpty) ++ [second].filter (!·.isEmpty) ++
            [third].filter (!·.isEmpty) ++ [fourth].filter (!·.isEmpty) := by
      intro first second third fourth
      simp only [← List.filter_append, List.cons_append, List.nil_append]
    rw [behind, pieces]
    simpa [Query.clauseAliases, Function.comp_def] using whole

theorem legible_pieces (plain : catalog.PlainProperties) (names : query.PlainNames)
    {top : Option UInt32}
    (run : (build catalog dialect query top).runFrom draft = (.ok clauses, later))
    (joins : clauses.Joins catalog tables) :
    ∀ piece ∈ clauses.head :: clauses.behind tables, piece.Legible := by
  rcases writtenAll_parts plain names run with ⟨⟨legible, -⟩, accepted⟩
  have taken : clauses.joins = query.joins ++ clauses.entity.navigations := by
    cases run_of_build run
    rfl
  rcases joins with ⟨-, before, after, joined⟩
  rw [taken] at joined
  rcases Scope.written_joins (.aliased catalog) plain (names.navigations accepted) joined with
    ⟨⟨each, -⟩, -⟩
  simp only [parts, List.forall_mem_cons] at legible
  rcases legible with ⟨columns, source, -, conditions, grouping, having, ordering, -⟩
  simp only [behind, List.cons_append, List.forall_mem_cons, List.forall_mem_append]
  refine ⟨columns, source, each, ?_⟩
  intro piece listed
  have known := List.mem_of_mem_filter listed
  simp only [List.mem_cons, List.not_mem_nil, or_false] at known
  rcases known with rfl | rfl | rfl | rfl
  · exact conditions
  · exact grouping
  · exact having
  · exact ordering

end SelectClauses

/-- The clauses of a text, each from the keyword that starts it. -/
def Dialect.clausesOf (dialect : Dialect) (text : String) : Option (List (List Token)) :=
  (dialect.readTokens text).map fun tokens => splitClauses 0 tokens.squeezed

/-- The clauses of an uncapped list can be told from its text just where no alias that stands
outside parentheses is `FROM`, `WHERE` or `HAVING`. -/
theorem clauses_recovered_iff (catalog : Catalog) (dialect : Dialect) (query : Query)
    (plain : catalog.PlainProperties) (names : query.PlainNames) (uncapped : query.top = none)
    {composition : Composition}
    (composed : ((Operation.list query).compose catalog dialect).1 = .ok composition) :
    ∃ clauses tables draft,
      (SelectClauses.build catalog dialect query none).runFrom {} = (.ok clauses, draft) ∧
      clauses.Joins catalog tables ∧
      composition.statement.sql = clauses.sql.text dialect.lexical ∧
      (∀ piece ∈ clauses.head :: clauses.behind tables,
        dialect.readTokens (piece.text dialect.lexical) = some piece) ∧
      (dialect.clausesOf composition.statement.sql =
          some ((clauses.head :: clauses.behind tables).map Fragment.squeezed) ↔
        ∀ aliasName ∈ query.outerAliases catalog, startsAlone aliasName = false) := by
  rcases Operation.exists_run_of_compose composed with ⟨built, draft, run, statement⟩
  have list : (query.buildList catalog dialect).runFrom {} = (.ok built, draft) := run
  simp only [Query.buildList, uncapped, Build.runFrom_bind_eq_ok, Build.runFrom_pure_eq_ok] at list
  rcases list with ⟨clauses, _, inner, rfl, rfl⟩
  have whole : composition.statement.sql = clauses.sql.text dialect.lexical := by
    rw [statement]
  rcases SelectClauses.clauses_of_build inner with ⟨first, tables, joins, shown, each, aliases⟩
  refine ⟨clauses, tables, _, inner, joins, whole, ?_, ?_⟩
  · intro piece listed
    exact dialect.readTokens_text
      (SelectClauses.legible_pieces plain names inner joins piece listed)
  · have read : dialect.readTokens composition.statement.sql = some clauses.sql := by
      rw [whole]
      exact dialect.readTokens_text (SelectClauses.written_sql plain names inner).legible
    rw [Dialect.clausesOf, read, Option.map_some, Option.some_inj,
      SelectClauses.squeezed_sql_of_joins joins, List.map_cons, splitClauses_eq_iff first each, aliases]
    rfl

/-- Places, in a table of any name, which is their alias too. -/
def Catalog.places (table : String) : Catalog :=
  { descriptors := [("Place", { table, fields := [⟨"Id", "id"⟩], keys := ["Id"] })] }

def Query.placesInOrder : Query :=
  { entity := "Place", order := [⟨.column "Place" "Id", .ascending⟩] }

/-- An alias can be one of two words that start a clause together. -/
theorem clauses_recovered_order :
    ∃ (composition : Composition) (clauses : SelectClauses) (tables : List JoinedTable),
      ((Operation.list .placesInOrder).compose (.places "order") .mysql).1 = .ok composition ∧
      composition.statement.sql =
        "SELECT order.`id` AS `Id` FROM `order` order WHERE 1=1 ORDER BY order.`id` ASC" ∧
      clauses.Joins (.places "order") tables ∧
      Dialect.mysql.clausesOf composition.statement.sql =
        some ((clauses.head :: clauses.behind tables).map Fragment.squeezed) := by
  have plain : (Catalog.places "order").PlainProperties := plainProperties_of_fields (by decide)
  have names : Query.placesInOrder.PlainNames := ⟨by decide, by simp [Query.placesInOrder]⟩
  rcases clauses_recovered_iff (.places "order") .mysql .placesInOrder plain names rfl rfl with
    ⟨clauses, tables, draft, -, joins, -, -, recovered⟩
  exact ⟨_, clauses, tables, rfl, by decide +kernel, joins, recovered.mpr (by decide)⟩

/-- The source of the rows is cut before its alias. -/
theorem clause_cut_at_alias :
    ∃ (composition : Composition) (clauses : SelectClauses) (tables : List JoinedTable)
      (draft : Draft),
      ((Operation.list .placesInOrder).compose (.places "where") .mysql).1 = .ok composition ∧
      (SelectClauses.build (.places "where") .mysql .placesInOrder none).runFrom {} =
        (.ok clauses, draft) ∧
      clauses.Joins (.places "where") tables ∧
      composition.statement.sql =
        "SELECT where.`id` AS `Id` FROM `where` where WHERE 1=1 ORDER BY where.`id` ASC" ∧
      Dialect.mysql.clausesOf composition.statement.sql ≠
        some ((clauses.head :: clauses.behind tables).map Fragment.squeezed) := by
  refine ⟨_, _, [], _, rfl, rfl, ⟨rfl, {}, {}, rfl⟩, by decide +kernel, by decide +kernel⟩

end EntitySql
