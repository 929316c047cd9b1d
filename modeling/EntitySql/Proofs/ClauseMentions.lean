import EntitySql.Proofs.Mentions

/-! What the clauses of a query name. The members of an entity stand under the alias of the
entity in every clause but the condition of a join to it, and the columns that a join adds
to the select list stand under the alias that it lends. -/

namespace EntitySql

theorem Fragment.squeezed_flatten (fragments : List Fragment) :
    squeezed fragments.flatten = (fragments.map squeezed).flatten := by
  induction fragments with
  | nil => rfl
  | cons first rest induction => simp [induction]

namespace Mentions

variable {catalog : Catalog}

theorem table (catalog : Catalog) {name : String} {entity : Entity}
    (accepted : catalog.entity name = .ok entity) {keyword : String}
    (known : keyword = "FROM" ∨ keyword = "JOIN") (aliasName : String) :
    Mentions catalog [.word keyword, .identifier entity.table, .word aliasName]
      [.table name aliasName] := by
  rcases Catalog.entity_eq_ok.mp accepted with ⟨-, rfl⟩
  exact ⟨_, names_table known _ aliasName, rfl⟩

theorem of_solid {tokens : List Token} (solid : ∀ token ∈ tokens, token.solid = true) :
    Mentions catalog tokens [] := by
  induction tokens with
  | nil => exact nil
  | cons token tokens induction =>
      exact (induction fun other listed => solid other (List.mem_cons_of_mem _ listed)).cons
        token (solid token List.mem_cons_self)

end Mentions

/-! Lists of expressions. -/

namespace Scope

variable (scope : Scope) (qualified : scope.qualified = true)

include qualified

theorem mentions_conjuncts {expressions : List Expr} {draft later : Draft}
    {fragments : List Fragment}
    (run : (scope.conjuncts expressions).runFrom draft = (.ok fragments, later)) :
    List.Forall₂ (fun fragment expression =>
      Mentions scope.catalog (Fragment.squeezed fragment) (Expr.mentions scope expression))
      fragments expressions := by
  refine (runs_of_conjuncts run).imp ?_
  rintro _ expression ⟨before, condition, after, steps, rfl⟩
  exact (steps.mentioned qualified).bracketed _

theorem mentions_scalars {expressions : List Expr} {draft later : Draft}
    {fragments : List Fragment}
    (run : (scope.scalars expressions).runFrom draft = (.ok fragments, later)) :
    List.Forall₂ (fun fragment expression =>
      Mentions scope.catalog (Fragment.squeezed fragment) (Expr.mentions scope expression))
      fragments expressions := by
  refine (runs_of_scalars run).imp ?_
  rintro fragment expression ⟨before, after, steps⟩
  exact steps.mentioned qualified

theorem mentions_sortKeys {items : List SortKey} {draft later : Draft}
    {fragments : List Fragment}
    (run : (scope.sortKeys items).runFrom draft = (.ok fragments, later)) :
    List.Forall₂ (fun fragment item =>
      Mentions scope.catalog (Fragment.squeezed fragment)
        (Expr.mentions scope (SortKey.expression item))) fragments items := by
  refine (runs_of_sortKeys run).imp ?_
  rintro _ item ⟨before, key, after, direction, -, steps, rfl⟩
  simpa using (steps.mentioned qualified).append (Mentions.token (.word direction) rfl)

theorem mentions_selectedBindings {bindings : List (String × Expr)} {draft later : Draft}
    {fragments : List Fragment}
    (run : (scope.selectedBindings bindings).runFrom draft = (.ok fragments, later)) :
    List.Forall₂ (fun fragment binding =>
      Mentions scope.catalog (Fragment.squeezed fragment) (Expr.mentions scope (Prod.snd binding)))
      fragments bindings := by
  refine (runs_of_selectedBindings run).imp ?_
  rintro _ binding ⟨before, value, after, steps, rfl⟩
  exact (steps.mentioned qualified).renamed binding.1

end Scope

/-! Clauses. -/

namespace Scope

variable (scope : Scope)

theorem isEmpty_orderClause {items : List SortKey} {draft later : Draft} {fragment : Fragment}
    (run : (scope.orderClause items).runFrom draft = (.ok fragment, later)) :
    fragment.isEmpty = items.isEmpty := by
  rcases scope.orderClause_cases run with ⟨rfl, rfl, -⟩ | ⟨given, fragments, -, rfl⟩
  · rfl
  · simpa [Fragment.words] using given

variable (qualified : scope.qualified = true)

include qualified

theorem mentions_whereClause {filters : List Expr} {draft later : Draft} {fragment : Fragment}
    (run : (scope.whereClause filters).runFrom draft = (.ok fragment, later)) :
    Mentions scope.catalog fragment.squeezed (filters.flatMap (Expr.mentions scope)) := by
  simp only [whereClause, Build.runFrom_bind_eq_ok, Build.runFrom_pure_eq_ok] at run
  rcases run with ⟨fragments, last, inner, rfl, rfl⟩
  have added : Mentions scope.catalog (Fragment.squeezed (fragments.flatMap fun condition =>
      [.space, .word "AND", .space] ++ condition)) (filters.flatMap (Expr.mentions scope)) := by
    have each := scope.mentions_conjuncts qualified inner
    clear inner
    induction each with
    | nil => exact .nil
    | cons first _ induction =>
        simpa using (first.cons (.word "AND") rfl).append induction
  simpa using (Mentions.always.append added).cons (.word "WHERE") rfl

theorem mentions_groupClause {keys : List Expr} {draft later : Draft} {fragment : Fragment}
    (run : (scope.groupClause keys).runFrom draft = (.ok fragment, later)) :
    Mentions scope.catalog fragment.squeezed (keys.flatMap (Expr.mentions scope)) := by
  rcases scope.groupClause_cases run with ⟨rfl, rfl, -⟩ | ⟨-, fragments, inner, rfl⟩
  · exact .nil
  · have listed : Mentions scope.catalog (Fragment.commaSeparated fragments).squeezed
        (keys.map (Expr.mentions scope)).flatten :=
      Mentions.commaSeparated (List.forall₂_map_right_iff.mpr (scope.mentions_scalars qualified inner))
    simpa [Fragment.words, List.flatMap] using
      (listed.cons (.word "BY") rfl).cons (.word "GROUP") rfl

theorem mentions_havingClause {conditions : List Expr} {draft later : Draft}
    {fragment : Fragment}
    (run : (scope.havingClause conditions).runFrom draft = (.ok fragment, later)) :
    Mentions scope.catalog fragment.squeezed (conditions.flatMap (Expr.mentions scope)) := by
  rcases scope.havingClause_cases run with ⟨rfl, rfl, -⟩ | ⟨-, fragments, inner, rfl⟩
  · exact .nil
  · have each : List.Forall₂ (Mentions scope.catalog) (fragments.map Fragment.squeezed)
        (conditions.map (Expr.mentions scope)) := by
      simpa using scope.mentions_conjuncts qualified inner
    have listed := Mentions.intercalate (.word "AND") rfl each
    simpa [Fragment.squeezed_intercalate, List.flatMap] using
      listed.cons (.word "HAVING") rfl

theorem mentions_orderClause {items : List SortKey} {draft later : Draft} {fragment : Fragment}
    (run : (scope.orderClause items).runFrom draft = (.ok fragment, later)) :
    Mentions scope.catalog fragment.squeezed
      (items.flatMap fun item => item.expression.mentions scope) := by
  rcases scope.orderClause_cases run with ⟨rfl, rfl, -⟩ | ⟨-, fragments, inner, rfl⟩
  · exact .nil
  · have listed : Mentions scope.catalog (Fragment.commaSeparated fragments).squeezed
        (items.map fun item => item.expression.mentions scope).flatten :=
      Mentions.commaSeparated (List.forall₂_map_right_iff.mpr (scope.mentions_sortKeys qualified inner))
    simpa [Fragment.words, List.flatMap] using
      (listed.cons (.word "BY") rfl).cons (.word "ORDER") rfl

end Scope

/-! Select lists. -/

/-- The columns of an entity, each by its property, under an alias. -/
def Catalog.fieldMentions (catalog : Catalog) (entity aliasName : String) : List Mention :=
  (catalog.descriptor entity).fields.map fun field => .column ⟨entity, field.property⟩ aliasName

/-- The columns that a projection mentions: those that its bindings do, if it has any. -/
def Expr.projectedMentions (scope : Scope) (selector : Expr) : List Mention :=
  match selector.body with
  | .record _ bindings => bindings.flatMap (·.2.mentions scope)
  | _ => selector.mentions scope

theorem Expr.mentions_body (scope : Scope) :
    ∀ expression : Expr, expression.body.mentions scope = expression.mentions scope
  | .lambda _ inner => mentions_body scope inner
  | .member _ | .constant _ | .comparison .. | .arithmetic .. | .logical .. | .negation _
  | .nullTest .. | .inList .. | .like .. | .between .. | .aggregate .. | .bareAggregate _
  | .record .. => rfl

namespace Catalog

variable {catalog : Catalog}

theorem fieldMentions_eq_flatten {name : String} {entity : Entity}
    (accepted : catalog.entity name = .ok entity) (aliasName : String) :
    catalog.fieldMentions name aliasName =
      (entity.fields.map fun field => [Mention.column ⟨name, field.property⟩ aliasName]).flatten := by
  rw [fields_of_entity accepted, fieldMentions, List.map_eq_flatMap, List.flatMap_def]

theorem mentions_fieldList {name : String} {entity : Entity} {columns : Fragment}
    (accepted : catalog.entity name = .ok entity)
    (found : (Scope.aliased catalog).fieldList entity = .ok columns) :
    Mentions catalog columns.squeezed (catalog.fieldMentions name (catalog.aliasName name)) := by
  rcases Scope.fieldList_cases found with ⟨fragments, rfl, each⟩
  rw [fieldMentions_eq_flatten accepted]
  apply Mentions.commaSeparated
  rw [List.forall₂_map_right_iff]
  refine each.imp ?_
  rintro fragment field ⟨column, reached, shown⟩
  have mentioned : Mentions catalog column.squeezed _ :=
    (Scope.aliased catalog).mentions_column rfl accepted reached
  rcases shown with ⟨-, rfl⟩ | rfl
  · exact mentioned
  · exact mentioned.renamed _

theorem mentions_selectedMember {path : MemberPath} {fragment : Fragment}
    (found : (Scope.aliased catalog).selectedMember path = .ok fragment) :
    Mentions catalog fragment.squeezed ((Expr.member path).mentions (.aliased catalog)) := by
  rcases Scope.selectedMember_cases found with ⟨entity, column, accepted, reached, shown⟩
  have mentioned : Mentions catalog column.squeezed _ :=
    (Scope.aliased catalog).mentions_column rfl accepted reached
  rcases shown with rfl | rfl
  · exact mentioned
  · exact mentioned.renamed _

theorem mentions_projection {selector : Expr} {draft later : Draft} {fragment : Fragment}
    (run : ((Scope.aliased catalog).projection selector).runFrom draft = (.ok fragment, later)) :
    Mentions catalog fragment.squeezed (selector.projectedMentions (.aliased catalog)) := by
  cases Scope.projectionRun_of_projection run with
  | member path shape found =>
      have mentioned := mentions_selectedMember found
      rw [← shape, Expr.mentions_body] at mentioned
      rwa [Expr.projectedMentions, shape]
  | record name bindings fragments shape given inner =>
      have listed : Mentions catalog (Fragment.commaSeparated fragments).squeezed
          (bindings.map fun binding => binding.2.mentions (.aliased catalog)).flatten :=
        Mentions.commaSeparated (List.forall₂_map_right_iff.mpr
          ((Scope.aliased catalog).mentions_selectedBindings rfl inner))
      simpa [Expr.projectedMentions, shape, List.flatMap] using listed
  | scalar single inner =>
      unfold Expr.projectedMentions
      split
      · next name bindings shape => exact absurd shape (single name bindings)
      · exact Expr.mentions_scalar (.aliased catalog) rfl inner

end Catalog

/-! Joined tables. -/

/-- The joins in order, each with the alias that it lends its target: `taken` are the
aliases before them. -/
def Catalog.joinViews (catalog : Catalog) (root : String) :
    (taken : List String) → List Navigation → List (Navigation × JoinView)
  | _, [] => []
  | taken, navigation :: rest =>
      let aliasName := joinAlias taken (catalog.aliasName navigation.target) navigation.name
      let view : JoinView :=
        { target := navigation.target, aliasName, selfJoin := navigation.target = root }
      (navigation, view) :: joinViews catalog root (taken ++ [aliasName]) rest

/-- What a join lends its target once its table has an alias. -/
def Navigation.view (navigation : Navigation) (root : Entity) (aliasName : String) : JoinView :=
  { target := navigation.target, aliasName, selfJoin := navigation.target = root.name }

/-- Each table comes of its own join, under the alias that the join lends. -/
theorem Scope.runs_of_joinTables {scope : Scope} {root : Entity} {navigations : List Navigation}
    {taken : List String} {draft later : Draft} {tables : List JoinedTable}
    (run : (scope.joinTables root taken navigations).runFrom draft = (.ok tables, later)) :
    List.Forall₂ (fun table join => ∃ navigation before known after,
      (scope.joinTable root known navigation).runFrom before = (.ok table, after) ∧
        join = (navigation, navigation.view root table.aliasName))
      tables (scope.catalog.joinViews root.name taken navigations) := by
  induction navigations generalizing taken draft tables with
  | nil =>
      rw [joinTables, Build.runFrom_pure_eq_ok] at run
      rcases run with ⟨rfl, rfl⟩
      exact .nil
  | cons navigation navigations induction =>
      simp only [joinTables, Build.runFrom_bind_eq_ok, Build.runFrom_pure_eq_ok] at run
      rcases run with ⟨first, middle, head, rest, last, tail, rfl, rfl⟩
      rcases joinTable_eq_ok head with ⟨target, -, accepted, lent, -⟩
      rw [Catalog.aliasName_of_entity accepted] at lent
      rw [lent] at tail
      refine .cons ⟨_, _, _, _, head, ?_⟩ (induction tail)
      rw [lent]
      rfl

/-- What a join names where it stands: its table, and the columns of its condition. -/
def Catalog.joinMentions (catalog : Catalog) (join : Navigation × JoinView) : List Mention :=
  .table join.2.target join.2.aliasName :: join.1.condition.mentions (.ofJoin catalog join.2)

/-- The columns that a join adds to the select list. -/
def Catalog.joinedMentions (catalog : Catalog) (join : Navigation × JoinView) : List Mention :=
  if join.1.withFields then catalog.fieldMentions join.2.target join.2.aliasName else []

/-- What the parts of a joined table name. -/
structure JoinedTable.Names (table : JoinedTable) (catalog : Catalog)
    (join : Navigation × JoinView) : Prop where
  clause : Mentions catalog table.clause.squeezed (catalog.joinMentions join)
  columns : Mentions catalog table.columns.squeezed (catalog.joinedMentions join)

namespace Scope

variable {catalog : Catalog}

theorem mentions_joinedColumns {navigation : Navigation} {target : Entity} {aliasName : String}
    {columns : Fragment} (accepted : catalog.entity navigation.target = .ok target)
    (found : (aliased catalog).joinedColumns aliasName navigation target = .ok columns) :
    Mentions catalog columns.squeezed
      (if navigation.withFields then catalog.fieldMentions navigation.target aliasName else []) := by
  rcases joinedColumns_cases found with ⟨none, rfl⟩ | ⟨given, fragments, rfl, each⟩
  · rw [none]
    exact .nil
  · rw [if_pos given, Catalog.fieldMentions_eq_flatten accepted, Fragment.squeezed_flatten]
    apply Mentions.flatten
    rw [List.forall₂_map_left_iff, List.forall₂_map_right_iff]
    refine each.imp ?_
    rintro _ field ⟨column, reached, rfl⟩
    have mentioned : Mentions catalog column.squeezed _ :=
      (aliased catalog).mentions_columnUnder rfl accepted reached
    simpa using (mentioned.renamed _).cons (.symbol .comma) rfl

theorem mentions_joinTable {root : Entity} {taken : List String} {navigation : Navigation}
    {draft later : Draft} {table : JoinedTable}
    (run : ((aliased catalog).joinTable root taken navigation).runFrom draft =
      (.ok table, later)) :
    table.Names catalog (navigation, navigation.view root table.aliasName) := by
  rcases joinTable_eq_ok run with ⟨target, condition, accepted, -, on, clause, joined⟩
  refine ⟨?_, mentions_joinedColumns accepted joined⟩
  have condition := Expr.mentions_predicate (.ofJoin catalog _) rfl on
  have source := Mentions.table catalog accepted (.inr rfl) table.aliasName
  have named := source.append (condition.cons (.word "ON") rfl)
  rw [clause]
  cases navigation.kind <;>
    simpa [Catalog.joinMentions, Navigation.view, JoinKind.keywords, Fragment.words,
      Entity.tableName] using named.cons (.word _) rfl

theorem mentions_joinTables {root : Entity} {navigations : List Navigation}
    {taken : List String} {draft later : Draft} {tables : List JoinedTable}
    (run : ((aliased catalog).joinTables root taken navigations).runFrom draft =
      (.ok tables, later)) :
    List.Forall₂ (fun table join => JoinedTable.Names table catalog join) tables
      (catalog.joinViews root.name taken navigations) := by
  refine (runs_of_joinTables run).imp ?_
  rintro table _ ⟨navigation, before, known, after, one, rfl⟩
  exact mentions_joinTable one

end Scope

namespace JoinedTable

theorem squeezed_joinClauses (tables : List JoinedTable) :
    (joinClauses tables).squeezed = (tables.map fun table => table.clause.squeezed).flatten := by
  rw [joinClauses, Fragment.squeezed_intercalate, List.map_map]
  cases tables with
  | nil => rfl
  | cons first rest =>
      rw [List.map_cons, Fragment.intercalate_cons_eq]
      simp [List.flatMap_def, Function.comp_def]

variable {catalog : Catalog} {tables : List JoinedTable} {joins : List (Navigation × JoinView)}
  (names : List.Forall₂ (fun table join => Names table catalog join) tables joins)

include names

theorem mentions_joinClauses :
    Mentions catalog (joinClauses tables).squeezed (joins.flatMap catalog.joinMentions) := by
  rw [squeezed_joinClauses, List.flatMap_def]
  apply Mentions.flatten
  rw [List.forall₂_map_left_iff, List.forall₂_map_right_iff]
  exact names.imp fun _ _ each => each.clause

theorem mentions_selectedColumns :
    Mentions catalog (selectedColumns tables).squeezed
      (joins.flatMap catalog.joinedMentions) := by
  rw [selectedColumns, List.flatMap_def, Fragment.squeezed_flatten, List.map_map, List.flatMap_def]
  apply Mentions.flatten
  rw [List.forall₂_map_left_iff, List.forall₂_map_right_iff]
  exact names.imp fun _ _ each => each.columns

end JoinedTable

end EntitySql
