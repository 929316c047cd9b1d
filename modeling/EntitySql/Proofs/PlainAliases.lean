import EntitySql.Proofs.JoinScopes

/-! Which aliases need no quotes. An alias is the one that an entity declares, one made of
the name of its table, the name of a join or a numbered variant of that. An entity is
accepted only where its own alias and the names of its navigations are plain identifiers;
the joins that a query brings along are not looked at, so an alias can be anything where
such a join goes by its name. -/

namespace EntitySql

/-! The aliases that a statement shows. -/

def Naming.aliasName? : Naming → Option String
  | .table _ aliasName => some aliasName
  | .column reference => reference.qualifier?

def Mention.aliasName : Mention → String
  | .table _ aliasName => aliasName
  | .column _ aliasName => aliasName

/-- The aliases that tokens introduce behind a table or put before a column. -/
def shownAliases (tokens : List Token) : List String :=
  (namings tokens).filterMap Naming.aliasName?

theorem Mention.aliasName?_of_naming? {catalog : Catalog} {mention : Mention} {naming : Naming}
    (named : some naming = mention.naming? catalog) :
    naming.aliasName? = some mention.aliasName := by
  cases mention with
  | table entity aliasName =>
      cases named
      rfl
  | column path aliasName =>
      rcases Option.map_eq_some_iff.mp named.symm with ⟨name, -, rfl⟩
      rfl

theorem Mentions.shownAliases_eq {catalog : Catalog} {tokens : List Token}
    {mentions : List Mention} (mentioned : Mentions catalog tokens mentions) :
    shownAliases tokens = mentions.map Mention.aliasName := by
  have each := mentioned.map_namings
  rw [← List.forall₂_eq_eq_eq, List.forall₂_map_left_iff, List.forall₂_map_right_iff] at each
  unfold shownAliases
  clear mentioned
  generalize namings tokens = named at each
  induction each with
  | nil => rfl
  | cons named _ induction =>
      rw [List.filterMap_cons, Mention.aliasName?_of_naming? named, List.map_cons, induction]

/-- Members are mentioned of accepted entities only. -/
theorem Mentions.accepted_of_mem {catalog : Catalog} {tokens : List Token} {mentions : List Mention}
    (mentioned : Mentions catalog tokens mentions) {path : MemberPath} {aliasName : String}
    (listed : .column path aliasName ∈ mentions) :
    ∃ entity, catalog.entity path.entity = .ok entity := by
  have known := List.mem_map_of_mem (f := Mention.naming? catalog) listed
  rw [← mentioned.map_namings, List.mem_map] at known
  rcases known with ⟨naming, -, named⟩
  rcases Option.map_eq_some_iff.mp named.symm with ⟨name, found, -⟩
  rcases Option.bind_eq_some_iff.mp found with ⟨entity, accepted, -⟩
  cases looked : catalog.entity path.entity with
  | error error => simp [looked, Except.toOption] at accepted
  | ok entity => exact ⟨entity, rfl⟩

theorem Catalog.isPlainIdentifier_aliasName_of_entity {catalog : Catalog} {name : String}
    (accepted : ∃ entity, catalog.entity name = .ok entity) :
    isPlainIdentifier (catalog.aliasName name) = true := by
  rcases accepted with ⟨entity, accepted⟩
  rw [← aliasName_of_entity accepted]
  exact isPlainIdentifier_aliasName accepted

/-! The entities that a statement joins were accepted. -/

/-- The entity of a query, and the entities that its joins go to. -/
structure Query.SourcesAccepted (query : Query) (catalog : Catalog) : Prop where
  root : ∃ entity, catalog.entity query.entity = .ok entity
  targets : ∀ navigation ∈ query.joins ++ query.declaredJoins catalog,
    ∃ entity, catalog.entity navigation.target = .ok entity

section Sources

variable {catalog : Catalog} {dialect : Dialect} {query : Query} {draft later : Draft}

theorem Query.sourcesAccepted_of_joins {entity : Entity} {tables : List JoinedTable}
    (accepted : catalog.entity query.entity = .ok entity)
    (joined : ((Scope.aliased catalog).joins entity (query.joins ++ entity.navigations)).runFrom
      draft = (.ok tables, later)) : query.SourcesAccepted catalog := by
  refine ⟨⟨entity, accepted⟩, ?_⟩
  have targets : ∀ navigation ∈ query.joins ++ entity.navigations,
      ∃ target, catalog.entity navigation.target = .ok target := by
    intro navigation listed
    rcases Scope.exists_joinTable_of_mem joined listed with ⟨before, known, table, after, run⟩
    rcases Scope.joinTable_eq_ok run with ⟨target, condition, accepted, -⟩
    exact ⟨target, accepted⟩
  rcases Catalog.entity_eq_ok.mp accepted with ⟨-, rfl⟩
  exact targets

theorem SelectClauses.sourcesAccepted {top : Option UInt32} {clauses : SelectClauses}
    (run : (build catalog dialect query top).runFrom draft = (.ok clauses, later)) :
    query.SourcesAccepted catalog := by
  rcases run_of_build run with ⟨entity, _, tables, _, _, _, _, accepted, -, joined, -, -, -, -⟩
  exact Query.sourcesAccepted_of_joins accepted joined

theorem ScalarClauses.sourcesAccepted {head : Scope → Build Fragment} {clauses : ScalarClauses}
    (run : (build catalog dialect query head).runFrom draft = (.ok clauses, later)) :
    query.SourcesAccepted catalog := by
  rcases run_of_build run with ⟨entity, _, tables, _, accepted, -, joined, -⟩
  exact Query.sourcesAccepted_of_joins accepted joined

/-- Every statement that reads is built of the clauses of a query. -/
theorem Operation.sourcesAccepted {operation : Operation} (reads : operation.reads = true)
    {built : Built} (run : (operation.build catalog dialect).runFrom draft = (.ok built, later)) :
    operation.query.SourcesAccepted catalog := by
  cases operation <;> cases reads
  case get query =>
    cases dialect <;> rcases Build.runFrom_bind_eq_ok.mp run with ⟨clauses, _, inner, -⟩ <;>
      exact SelectClauses.sourcesAccepted inner
  case list query =>
    rcases Build.runFrom_bind_eq_ok.mp run with ⟨clauses, _, inner, -⟩
    exact SelectClauses.sourcesAccepted inner
  case page query index size =>
    rcases Build.runFrom_bind_eq_ok.mp run with ⟨rows, _, -, run⟩
    rcases Build.runFrom_bind_eq_ok.mp run with ⟨clauses, _, inner, -⟩
    exact SelectClauses.sourcesAccepted inner
  case any query =>
    rcases Build.runFrom_bind_eq_ok.mp run with ⟨clauses, _, inner, -⟩
    exact ScalarClauses.sourcesAccepted inner
  case count query =>
    rcases Build.runFrom_bind_eq_ok.mp run with ⟨clauses, _, inner, -⟩
    exact ScalarClauses.sourcesAccepted inner
  case summarize summary query selector =>
    rcases Build.runFrom_bind_eq_ok.mp run with ⟨clauses, _, inner, -⟩
    exact ScalarClauses.sourcesAccepted inner

end Sources

/-! Joins that go by their names. -/

/-- The name is plain where the alias found for it is, as long as the aliases before it are:
only the empty name could be numbered into a plain one, and it is free then. -/
theorem isPlainIdentifier_freshName_iff {taken : List String} {name : String}
    (before : ∀ aliasName ∈ taken, isPlainIdentifier aliasName = true) :
    isPlainIdentifier (freshName taken name) = true ↔ isPlainIdentifier name = true := by
  refine ⟨fun plain => ?_, isPlainIdentifier_freshName taken⟩
  unfold freshName at plain
  split at plain
  · next used =>
      have given : name.toList ≠ [] := by
        intro empty
        rw [isTaken_iff, foldCase, empty, List.map_nil, List.mem_map] at used
        rcases used with ⟨other, listed, same⟩
        exact (word_of_isPlainIdentifier (before other listed)).1 (List.map_eq_nil_iff.mp same)
      rcases firstFreeNumbered_eq_numberedName taken name taken.length 1 with ⟨number, equal⟩
      rw [freshNumbered, equal] at plain
      rcases List.exists_cons_of_ne_nil given with ⟨first, rest, characters⟩
      rcases isPlainIdentifier_iff.mp plain with ⟨start, others, numbered, starts, words⟩
      have split : first :: (rest ++ '_' :: Nat.toDigits 10 number) = start :: others := by
        rw [← numbered, numberedName]
        simp [characters]
      rcases List.cons.inj split with ⟨rfl, rfl⟩
      exact isPlainIdentifier_iff.mpr ⟨first, rest, characters, starts,
        fun character listed => words character (List.mem_append_left _ listed)⟩
  · exact plain

/-- The join goes by its name, or by a numbered variant of it: a table before it has the
alias that its target declares. -/
def Catalog.GoesByName (catalog : Catalog) (join : Navigation × JoinView) : Prop :=
  join.2.aliasName ≠ catalog.aliasName join.1.target

instance (catalog : Catalog) (join : Navigation × JoinView) :
    Decidable (catalog.GoesByName join) :=
  inferInstanceAs (Decidable (_ ≠ _))

theorem isPlainIdentifier_joinAlias_iff {taken : List String} {own : String} (name : String)
    (before : ∀ aliasName ∈ taken, isPlainIdentifier aliasName = true)
    (plain : isPlainIdentifier own = true) :
    isPlainIdentifier (joinAlias taken own name) = true ↔
      (joinAlias taken own name ≠ own → isPlainIdentifier name = true) := by
  have free := joinAlias_not_isTaken taken own name
  unfold joinAlias at free ⊢
  split
  · next used =>
      rw [if_pos used] at free
      have other : freshName taken name ≠ own := by
        intro same
        rw [same, used] at free
        cases free
      rw [isPlainIdentifier_freshName_iff before]
      exact ⟨fun given _ => given, fun given => given other⟩
  · exact iff_of_true plain fun other => absurd rfl other

theorem Catalog.target_of_mem_joinViews {catalog : Catalog} {root : String}
    {navigations : List Navigation} {taken : List String} {join : Navigation × JoinView}
    (listed : join ∈ catalog.joinViews root taken navigations) :
    join.1 ∈ navigations ∧ join.2.target = join.1.target := by
  induction navigations generalizing taken with
  | nil => cases listed
  | cons navigation navigations induction =>
      rw [joinViews] at listed
      rcases List.mem_cons.mp listed with rfl | listed
      · exact ⟨List.mem_cons_self, rfl⟩
      · have others := induction listed
        exact ⟨List.mem_cons_of_mem _ others.1, others.2⟩

theorem Query.accepted_of_mem_tables {catalog : Catalog} {query : Query}
    (sources : query.SourcesAccepted catalog) {table : TableAlias}
    (listed : table ∈ query.tables catalog) :
    ∃ entity, catalog.entity table.entity = .ok entity := by
  rcases List.mem_cons.mp listed with rfl | listed
  · exact sources.root
  · rcases List.mem_map.mp listed with ⟨join, member, rfl⟩
    rcases Catalog.target_of_mem_joinViews member with ⟨asked, target⟩
    rw [JoinView.table, target]
    exact sources.targets join.1 asked

theorem Catalog.plain_joinViews_iff {catalog : Catalog} (root : String)
    {navigations : List Navigation} {taken : List String}
    (before : ∀ aliasName ∈ taken, isPlainIdentifier aliasName = true)
    (targets : ∀ navigation ∈ navigations,
      isPlainIdentifier (catalog.aliasName navigation.target) = true) :
    (∀ join ∈ catalog.joinViews root taken navigations,
      isPlainIdentifier join.2.aliasName = true) ↔
    ∀ join ∈ catalog.joinViews root taken navigations,
      catalog.GoesByName join → isPlainIdentifier join.1.name = true := by
  induction navigations generalizing taken with
  | nil => simp [joinViews]
  | cons navigation navigations induction =>
      rw [List.forall_mem_cons] at targets
      have first := isPlainIdentifier_joinAlias_iff navigation.name before targets.1
      simp only [joinViews, List.forall_mem_cons, GoesByName]
      rw [← first]
      refine and_congr_right fun plain => induction ?_ targets.2
      intro aliasName listed
      rcases List.mem_append.mp listed with listed | listed
      · exact before aliasName listed
      · exact List.mem_singleton.mp listed ▸ plain

theorem Query.plain_tables_iff {catalog : Catalog} {query : Query}
    (sources : query.SourcesAccepted catalog) :
    (∀ table ∈ query.tables catalog, isPlainIdentifier table.aliasName = true) ↔
      ∀ join ∈ query.joinViews catalog,
        catalog.GoesByName join → isPlainIdentifier join.1.name = true := by
  have root := Catalog.isPlainIdentifier_aliasName_of_entity sources.root
  have views := Catalog.plain_joinViews_iff query.entity
    (fun aliasName listed => List.mem_singleton.mp listed ▸ root)
    fun navigation listed =>
      Catalog.isPlainIdentifier_aliasName_of_entity (sources.targets navigation listed)
  rw [tables, List.forall_mem_cons, List.forall_mem_map]
  exact (and_iff_right root).trans views

/-- Aliases of columns are those of tables, or declared by accepted entities. -/
theorem Operation.plain_mentions_iff {catalog : Catalog} {dialect : Dialect}
    {operation : Operation} (reads : operation.reads = true) {tokens : List Token}
    (mentioned : Mentions catalog tokens (operation.mentions catalog dialect)) :
    (∀ mention ∈ operation.mentions catalog dialect, isPlainIdentifier mention.aliasName = true) ↔
      ∀ table ∈ operation.query.tables catalog, isPlainIdentifier table.aliasName = true := by
  have introduces := introduces_operation catalog dialect reads
  constructor
  · intro plain table listed
    rw [← introduces.introduced, List.mem_filterMap] at listed
    rcases listed with ⟨_ | _, listed, equal⟩ <;> cases equal
    exact plain _ listed
  · intro plain mention listed
    cases mention with
    | table entity aliasName =>
        have introduced : { entity, aliasName } ∈ operation.query.tables catalog := by
          rw [← introduces.introduced]
          exact List.mem_filterMap.mpr ⟨_, listed, rfl⟩
        exact plain _ introduced
    | column path aliasName =>
        rcases introduces.settled path aliasName listed with declared | introduced
        · have accepted := mentioned.accepted_of_mem listed
          exact declared ▸ Catalog.isPlainIdentifier_aliasName_of_entity accepted
        · exact plain _ introduced

/-- A statement that reads shows the aliases of its tables and columns, and the entities that
it takes tables of declare no navigation but under a plain identifier. All these aliases are
plain identifiers just where the joins that go by their names have such names. -/
theorem aliases_plain_iff (catalog : Catalog) (dialect : Dialect) (operation : Operation)
    (reads : operation.reads = true) {composition : Composition}
    (composed : (operation.compose catalog dialect).1 = .ok composition) :
    ∃ built draft,
      (operation.build catalog dialect).runFrom {} = (.ok built, draft) ∧
      composition.statement.sql = built.sql.text dialect.lexical ∧
      (catalog.PlainProperties → operation.query.PlainNames →
        dialect.readTokens composition.statement.sql = some built.sql) ∧
      shownAliases built.sql.squeezed =
        (operation.mentions catalog dialect).map Mention.aliasName ∧
      (operation.mentions catalog dialect).filterMap Mention.table? =
        operation.query.tables catalog ∧
      (∀ table ∈ operation.query.tables catalog,
        ∀ navigation ∈ (catalog.descriptor table.entity).navigations,
          isPlainIdentifier navigation.name = true) ∧
      ((∀ aliasName ∈ shownAliases built.sql.squeezed, isPlainIdentifier aliasName = true) ↔
        ∀ join ∈ operation.query.joinViews catalog,
          catalog.GoesByName join → isPlainIdentifier join.1.name = true) := by
  rcases Operation.exists_run_of_compose composed with ⟨built, draft, run, statement⟩
  have mentioned := Operation.mentions_build reads run
  have sources := Operation.sourcesAccepted reads run
  rw [statement]
  refine ⟨built, draft, run, rfl, ?_, mentioned.shownAliases_eq,
    (introduces_operation catalog dialect reads).introduced, ?_, ?_⟩
  · intro plain names
    exact dialect.readTokens_text (sound_build plain names run).1
  · intro table listed navigation declared
    rcases Query.accepted_of_mem_tables sources listed with ⟨entity, accepted⟩
    rcases Catalog.entity_eq_ok.mp accepted with ⟨sound, -⟩
    exact Descriptor.isPlainIdentifier_navigation sound navigation declared
  · rw [mentioned.shownAliases_eq, List.forall_mem_map, Operation.plain_mentions_iff reads mentioned,
      Query.plain_tables_iff sources]

/-- Folders, each of which may stand in another one. -/
def Descriptor.folders : Descriptor :=
  { table := "folders"
    fields := [⟨"Id", "id"⟩, ⟨"Parent", "parent_id"⟩]
    keys := ["Id"] }

def Catalog.folders : Catalog :=
  { descriptors := [("Folder", .folders)] }

/-- The folder that a folder stands in. -/
def Navigation.parent (name : String) : Navigation :=
  { name
    target := "Folder"
    kind := .left
    condition := .comparison .equal (.column "Folder" "Parent") (.column "Folder" "Id")
    withFields := false }

/-- Folders, joined with the ones that they stand in. -/
def Query.foldersWith (name : String) : Query :=
  { entity := "Folder", joins := [.parent name] }

theorem aliases_plain_folders :
    ∃ composition built,
      ((Operation.list (.foldersWith "above")).compose .folders .oracle).1 = .ok composition ∧
      Dialect.oracle.readTokens composition.statement.sql = some built ∧
      "above" ∈ shownAliases built.squeezed ∧
      ∀ aliasName ∈ shownAliases built.squeezed, isPlainIdentifier aliasName = true := by
  have plain : Catalog.folders.PlainProperties := plainProperties_of_fields (by decide)
  have names : (Query.foldersWith "above").PlainNames := ⟨by decide, by simp [Query.foldersWith]⟩
  rcases aliases_plain_iff .folders .oracle (.list (.foldersWith "above")) rfl rfl with
    ⟨built, draft, -, -, read, shown, -, -, quoteless⟩
  have given : ∀ join ∈ (Query.foldersWith "above").joinViews .folders,
      Catalog.folders.GoesByName join → isPlainIdentifier join.1.name = true := by decide
  exact ⟨_, built.sql, rfl, read plain names, shown ▸ by decide, quoteless.mpr given⟩

/-- A name that a navigation must not be declared under stands in a statement as it was
given, where a join of the query brings it along. -/
theorem alias_not_plain :
    ({ Descriptor.folders with navigations := [.parent "the parent"] }).fault? =
      some (.improperNavigation "the parent") ∧
    ∃ composition built draft,
      ((Operation.list (.foldersWith "the parent")).compose .folders .mysql).1 =
        .ok composition ∧
      ((Operation.list (.foldersWith "the parent")).build .folders .mysql).runFrom {} =
        (.ok built, draft) ∧
      composition.statement.sql =
        "SELECT folders.`id` AS `Id`, folders.`parent_id` AS `Parent` " ++
        "FROM `folders` folders " ++
        "LEFT JOIN `folders` the parent ON folders.`parent_id` = the parent.`id` WHERE 1=1" ∧
      "the parent" ∈ shownAliases built.sql.squeezed ∧
      isPlainIdentifier "the parent" = false := by
  refine ⟨by decide, _, _, _, rfl, rfl, by decide +kernel, by decide, by decide⟩

end EntitySql
