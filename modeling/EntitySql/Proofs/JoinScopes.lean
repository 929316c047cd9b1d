import EntitySql.Proofs.Aliases
import EntitySql.Proofs.JoinClauses
import EntitySql.Proofs.ShownMembers

/-! How far the conditions of joins reach. A condition may use the aliases of the tables
before it and the one that its own join introduces. The joins of a query stand before
those that its entity declares: a condition of the query does not reach the tables of
declared navigations, while declared navigations reach each other in their order. -/

namespace EntitySql

/-- Each condition uses the aliases before it and its own, and none that a later join
introduces. -/
def ScopedBehind : (before : List String) → List JoinClause → Prop
  | _, [] => True
  | before, clause :: rest =>
      (∀ name ∈ clause.used, isTaken (before ++ [clause.aliasName]) name = true ∧
        isTaken (rest.map (·.aliasName)) name = false) ∧
      ScopedBehind (before ++ [clause.aliasName]) rest

/-- The conditions of the joins mention entities that are known before them, or joined by
themselves. -/
def ReachBack : (known : List String) → List Navigation → Prop
  | _, [] => True
  | known, join :: rest =>
      (∀ path ∈ join.condition.shown, path.entity ∈ known ++ [join.target]) ∧
      ReachBack (known ++ [join.target]) rest

instance decidableReachBack : (known : List String) → (joins : List Navigation) →
    Decidable (ReachBack known joins)
  | _, [] => .isTrue trivial
  | known, join :: rest =>
      have := decidableReachBack (known ++ [join.target]) rest
      inferInstanceAs (Decidable (_ ∧ _))

/-- The conditions of the joins mention entities whose declared aliases are in use by then. -/
def Catalog.Introduced (catalog : Catalog) : (before : List TableAlias) → List Navigation → Prop
  | _, [] => True
  | before, join :: rest =>
      (∀ path ∈ join.condition.shown,
        isTaken ((before ++ [catalog.joinedTable before join]).map (·.aliasName))
          (catalog.aliasName path.entity) = true) ∧
      catalog.Introduced (before ++ [catalog.joinedTable before join]) rest

/-! The aliases that a condition uses. -/

theorem Mentions.map_namings {catalog : Catalog} {tokens : List Token} {mentions : List Mention}
    (mentioned : Mentions catalog tokens mentions) :
    (namings tokens).map some = mentions.map (Mention.naming? catalog) := by
  rcases mentioned with ⟨named, names, same⟩
  have whole := names.names [] names_nil.opens
  rw [List.append_nil, namings, List.append_nil] at whole
  exact whole ▸ same

theorem JoinClause.Shows.mem_used_iff {catalog : Catalog} {clause : JoinClause}
    {join : Navigation × JoinView} (shows : clause.Shows catalog join) {name : String} :
    name ∈ clause.used ↔
      ∃ path, .column path name ∈ join.1.condition.mentions (.ofJoin catalog join.2) := by
  have named := shows.condition.map_namings
  rw [used, List.mem_filterMap]
  constructor
  · rintro ⟨_ | reference, listed, qualified⟩
    · cases qualified
    · have known := List.mem_map_of_mem (f := some) listed
      rw [named, List.mem_map] at known
      rcases known with ⟨_ | ⟨path, aliasName⟩, mentioned, same⟩
      · cases same
      · rcases Option.map_eq_some_iff.mp same with ⟨column, -, equal⟩
        cases equal
        cases qualified
        exact ⟨path, mentioned⟩
  · rintro ⟨path, mentioned⟩
    have known := List.mem_map_of_mem (f := Mention.naming? catalog) mentioned
    rw [← named, List.mem_map] at known
    rcases known with ⟨naming, listed, same⟩
    rcases Option.map_eq_some_iff.mp same.symm with ⟨column, -, rfl⟩
    exact ⟨_, listed, rfl⟩

/-- A column in the condition of a join is under the declared alias of its entity, or under
that of the join where it is one of the joined table. -/
theorem Expr.alias_cases {catalog : Catalog} {view : JoinView} {expression : Expr}
    {path : MemberPath} {name : String}
    (mentioned : .column path name ∈ expression.mentions (.ofJoin catalog view)) :
    name = catalog.aliasName path.entity ∨ path.entity = view.target ∧ name = view.aliasName := by
  have lent : ∀ join ∈ (Scope.ofJoin catalog view).join?, join.table ∈ [view.table] := by
    intro join joined
    cases joined
    exact List.mem_singleton_self _
  refine ((Expr.introduces_mentions lent).settled path name mentioned).imp id fun own => ?_
  have same := List.mem_singleton.mp own
  exact ⟨congrArg TableAlias.entity same, congrArg TableAlias.aliasName same⟩

/-- All that joins mention is known before them or joined by one of them. -/
theorem ReachBack.mem {joins : List Navigation} {known : List String}
    (back : ReachBack known joins) :
    ∀ join ∈ joins, ∀ path ∈ join.condition.shown,
      path.entity ∈ known ++ joins.map (·.target) := by
  induction joins generalizing known with
  | nil => exact fun _ listed => absurd listed List.not_mem_nil
  | cons join joins induction =>
      rcases back with ⟨own, back⟩
      intro other listed path shown
      rw [List.map_cons, List.append_cons]
      rcases List.mem_cons.mp listed with rfl | listed
      · exact List.mem_append_left _ (own path shown)
      · exact induction back other listed path shown

/-! Aliases in use. -/

theorem isTaken_append {left right : List String} {name : String} :
    isTaken (left ++ right) name = true ↔
      isTaken left name = true ∨ isTaken right name = true := by
  simp [isTaken]

theorem isTaken_of_mem {taken : List String} {name : String} (listed : name ∈ taken) :
    isTaken taken name = true :=
  isTaken_iff.mpr (List.mem_map_of_mem listed)

/-- Behind a join the alias that its target declares is in use, by the joined table or by one
before it. -/
theorem isTaken_joined (catalog : Catalog) (before : List TableAlias) (join : Navigation) :
    isTaken ((before ++ [catalog.joinedTable before join]).map (·.aliasName))
      (catalog.aliasName join.target) = true := by
  rw [List.map_append, isTaken_append]
  by_cases free : isTaken (before.map (·.aliasName)) (catalog.aliasName join.target) = true
  · exact .inl free
  · refine .inr (isTaken_of_mem ?_)
    simp [Catalog.joinedTable, joinAlias, free]

theorem DifferentAliases.not_isTaken {left right : List TableAlias}
    (different : DifferentAliases (left ++ right)) {name : String}
    (taken : isTaken (left.map (·.aliasName)) name = true) :
    isTaken (right.map (·.aliasName)) name = false := by
  rw [← Bool.not_eq_true]
  intro again
  rw [isTaken_iff, List.map_map] at taken again
  rw [DifferentAliases, List.map_append] at different
  exact List.disjoint_of_nodup_append different taken again

/-! Conditions in scope. -/

namespace Catalog

variable (catalog : Catalog) (root : String)

theorem used_isTaken_iff {before : List TableAlias} {join : Navigation} {view : JoinView}
    {clause : JoinClause} (shows : clause.Shows catalog (join, view))
    (table : view.table = catalog.joinedTable before join) :
    (∀ name ∈ clause.used,
      isTaken ((before ++ [catalog.joinedTable before join]).map (·.aliasName)) name = true) ↔
    ∀ path ∈ join.condition.shown,
      isTaken ((before ++ [catalog.joinedTable before join]).map (·.aliasName))
        (catalog.aliasName path.entity) = true := by
  have target : view.target = join.target := congrArg TableAlias.entity table
  constructor
  · intro used path shown
    rcases (Expr.mem_shown_iff (.ofJoin catalog view)).mp shown with ⟨name, mentioned⟩
    rcases Expr.alias_cases mentioned with declared | ⟨own, -⟩
    · exact declared ▸ used name (shows.mem_used_iff.mpr ⟨path, mentioned⟩)
    · rw [own, target]
      exact isTaken_joined catalog before join
  · intro shown name used
    rcases shows.mem_used_iff.mp used with ⟨path, mentioned⟩
    rcases Expr.alias_cases mentioned with declared | ⟨-, lent⟩
    · rw [declared]
      exact shown path ((Expr.mem_shown_iff (.ofJoin catalog view)).mpr ⟨name, mentioned⟩)
    · refine isTaken_of_mem (List.mem_map.mpr ⟨view.table, ?_, lent.symm⟩)
      rw [table]
      exact List.mem_append_right _ (List.mem_singleton_self _)

theorem aliasNames_of_shows {joins : List Navigation} {before : List TableAlias}
    {clauses : List JoinClause}
    (shows : List.Forall₂ (fun clause join => JoinClause.Shows clause catalog join) clauses
      (catalog.joinViews root (before.map (·.aliasName)) joins)) :
    clauses.map (·.aliasName) = (catalog.joinedTables root before joins).map (·.aliasName) := by
  rw [joinedTables, List.map_map, ← List.forall₂_eq_eq_eq, List.forall₂_map_left_iff,
    List.forall₂_map_right_iff]
  exact shows.imp fun _ _ each => each.aliasName

/-- Conditions are in scope just where the aliases that their entities declare are in use. -/
theorem scopedBehind_iff {joins : List Navigation} {before : List TableAlias}
    {clauses : List JoinClause}
    (shows : List.Forall₂ (fun clause join => JoinClause.Shows clause catalog join) clauses
      (catalog.joinViews root (before.map (·.aliasName)) joins))
    (different : DifferentAliases (before ++ catalog.joinedTables root before joins)) :
    ScopedBehind (before.map (·.aliasName)) clauses ↔ catalog.Introduced before joins := by
  induction joins generalizing before clauses with
  | nil =>
      cases shows
      exact Iff.rfl
  | cons join joins induction =>
      rw [joinedTables_cons, List.append_cons] at different
      rw [joinViews] at shows
      rcases shows with _ | ⟨first, rest⟩
      next clause clauses =>
        have used := catalog.used_isTaken_iff first rfl
        have own : before.map (·.aliasName) ++ [clause.aliasName] =
            (before ++ [catalog.joinedTable before join]).map (·.aliasName) := by
          simp [first.aliasName, joinedTable]
        have later : List.Forall₂ (fun clause join => JoinClause.Shows clause catalog join) clauses
            (catalog.joinViews root
              ((before ++ [catalog.joinedTable before join]).map (·.aliasName)) joins) := by
          rwa [← own, first.aliasName]
        rw [ScopedBehind, Introduced, own, induction later different, ← used]
        refine and_congr_left fun _ => forall₂_congr fun name listed => ?_
        refine and_iff_left_of_imp fun taken => ?_
        rw [catalog.aliasNames_of_shows root later]
        exact different.not_isTaken taken

/-! Entities in scope. -/

variable {catalog}

theorem introduced_append {first second : List Navigation} {before : List TableAlias} :
    catalog.Introduced before (first ++ second) ↔
      catalog.Introduced before first ∧
        catalog.Introduced (before ++ catalog.joinedTables root before first) second := by
  induction first generalizing before with
  | nil => simp [Introduced, joinedTables, joinViews]
  | cons join first induction =>
      rw [List.cons_append, Introduced, induction, Introduced, joinedTables_cons,
        List.append_cons before _ (catalog.joinedTables ..), and_assoc]

/-- An alias is in use for each of the entities that a condition may mention. -/
theorem introduced_of_reachBack {joins : List Navigation} {known : List String}
    {before : List TableAlias}
    (taken : ∀ entity ∈ known, isTaken (before.map (·.aliasName)) (catalog.aliasName entity) = true)
    (back : ReachBack known joins) : catalog.Introduced before joins := by
  induction joins generalizing known before with
  | nil => trivial
  | cons join joins induction =>
      rcases back with ⟨own, back⟩
      have grown : ∀ entity ∈ known ++ [join.target],
          isTaken ((before ++ [catalog.joinedTable before join]).map (·.aliasName))
            (catalog.aliasName entity) = true := by
        intro entity listed
        rcases List.mem_append.mp listed with listed | listed
        · rw [List.map_append, isTaken_append]
          exact .inl (taken entity listed)
        · rw [List.mem_singleton.mp listed]
          exact isTaken_joined catalog before join
      exact ⟨fun path shown => grown _ (own path shown), induction grown back⟩

end Catalog

/-! Entities whose declared aliases all differ. -/

/-- The table of an entity under the alias that it declares. -/
def Catalog.declaredTable (catalog : Catalog) (entity : String) : TableAlias :=
  { entity, aliasName := catalog.aliasName entity }

/-- The entities are different, and declare different aliases, in whatever case. -/
def Catalog.DeclaredApart (catalog : Catalog) (entities : List String) : Prop :=
  DifferentAliases (entities.map catalog.declaredTable)

instance (catalog : Catalog) (entities : List String) : Decidable (catalog.DeclaredApart entities) :=
  inferInstanceAs (Decidable (List.Nodup _))

theorem Catalog.DeclaredApart.left {catalog : Catalog} {first second : List String}
    (apart : catalog.DeclaredApart (first ++ second)) : catalog.DeclaredApart first := by
  rw [DeclaredApart, List.map_append, DifferentAliases, List.map_append] at apart
  exact apart.of_append_left

namespace Catalog

variable {catalog : Catalog}

theorem joinedTable_of_apart {known : List String} {join : Navigation}
    (apart : catalog.DeclaredApart (known ++ [join.target])) :
    catalog.joinedTable (known.map catalog.declaredTable) join =
      catalog.declaredTable join.target := by
  have free : isTaken ((known.map catalog.declaredTable).map (·.aliasName))
      (catalog.aliasName join.target) = false := by
    rw [DeclaredApart, List.map_append] at apart
    rw [← Bool.not_eq_true]
    intro taken
    have own := apart.not_isTaken taken
    rw [isTaken_of_mem (by simp [declaredTable])] at own
    cases own
  rw [joinedTable, joinAlias, free]
  rfl

/-- Every table goes by the alias that its entity declares. -/
theorem joinedTables_of_apart (root : String) {joins : List Navigation} {known : List String}
    (apart : catalog.DeclaredApart (known ++ joins.map (·.target))) :
    catalog.joinedTables root (known.map catalog.declaredTable) joins =
      (joins.map (·.target)).map catalog.declaredTable := by
  induction joins generalizing known with
  | nil => rfl
  | cons join joins induction =>
      rw [List.map_cons, List.append_cons] at apart
      rw [joinedTables_cons, joinedTable_of_apart apart.left, List.map_cons, List.map_cons,
        ← induction apart, List.map_append, List.map_singleton]

theorem isTaken_declared_iff {known others : List String} {entity : String}
    (apart : catalog.DeclaredApart (known ++ others)) (listed : entity ∈ known ++ others) :
    isTaken ((known.map catalog.declaredTable).map (·.aliasName)) (catalog.aliasName entity) = true ↔
      entity ∈ known := by
  constructor
  · intro taken
    rcases List.mem_append.mp listed with early | late
    · exact early
    · rw [DeclaredApart, List.map_append] at apart
      have free := apart.not_isTaken taken
      rw [isTaken_of_mem (by simpa [declaredTable] using ⟨entity, late, rfl⟩)] at free
      cases free
  · intro early
    exact isTaken_of_mem (by simpa [declaredTable] using ⟨entity, early, rfl⟩)

theorem introduced_iff_reachBack {joins : List Navigation} {known others : List String}
    (apart : catalog.DeclaredApart (known ++ joins.map (·.target) ++ others))
    (shown : ∀ join ∈ joins, ∀ path ∈ join.condition.shown,
      path.entity ∈ known ++ joins.map (·.target) ++ others) :
    catalog.Introduced (known.map catalog.declaredTable) joins ↔ ReachBack known joins := by
  induction joins generalizing known with
  | nil => exact Iff.rfl
  | cons join joins induction =>
      rw [List.map_cons, List.append_cons] at apart shown
      have own : catalog.joinedTable (known.map catalog.declaredTable) join =
          catalog.declaredTable join.target := joinedTable_of_apart apart.left.left
      have grown : known.map catalog.declaredTable ++ [catalog.declaredTable join.target] =
          (known ++ [join.target]).map catalog.declaredTable := by
        rw [List.map_append, List.map_singleton]
      rw [Introduced, ReachBack, own, grown,
        induction apart fun other listed => shown other (List.mem_cons_of_mem _ listed)]
      refine and_congr_left fun _ => forall₂_congr fun path member => ?_
      rw [List.append_assoc] at apart shown
      exact isTaken_declared_iff apart (shown join List.mem_cons_self path member)

end Catalog

/-! The joins of a query. -/

namespace Query

def declaredJoins (catalog : Catalog) (query : Query) : List Navigation :=
  (catalog.descriptor query.entity).navigations

/-- The entities of the tables that a query is about, in their order. -/
def joinedEntities (catalog : Catalog) (query : Query) : List String :=
  query.entity :: (query.joins ++ query.declaredJoins catalog).map (·.target)

/-- Declared navigations reach back to the table of the query and to each other. -/
def DeclaredReachBack (catalog : Catalog) (query : Query) : Prop :=
  ReachBack [query.entity] (query.declaredJoins catalog)

instance (catalog : Catalog) (query : Query) : Decidable (query.DeclaredReachBack catalog) :=
  decidableReachBack _ _

/-- The joins of the query reach back to its table, to those of the declared navigations
and to each other. -/
def OwnReachBack (catalog : Catalog) (query : Query) : Prop :=
  ReachBack (query.entity :: (query.declaredJoins catalog).map (·.target)) query.joins

instance (catalog : Catalog) (query : Query) : Decidable (query.OwnReachBack catalog) :=
  decidableReachBack _ _

variable {catalog : Catalog} {query : Query}

/-- Only the joins of the query itself can be out of scope. -/
theorem introduced_joins_iff (declared : query.DeclaredReachBack catalog) :
    catalog.Introduced [query.rootTable catalog] (query.joins ++ query.declaredJoins catalog) ↔
      catalog.Introduced [query.rootTable catalog] query.joins := by
  rw [Catalog.introduced_append query.entity]
  refine and_iff_left (Catalog.introduced_of_reachBack ?_ declared)
  intro entity listed
  rw [List.mem_singleton.mp listed, List.map_append, isTaken_append]
  exact .inl (isTaken_of_mem (by simp [rootTable]))

theorem scopedBehind_joins_iff (declared : query.DeclaredReachBack catalog)
    {clauses : List JoinClause}
    (shows : List.Forall₂ (fun clause join => JoinClause.Shows clause catalog join) clauses
      (query.joinViews catalog)) :
    ScopedBehind [catalog.aliasName query.entity] clauses ↔
      catalog.Introduced [query.rootTable catalog] query.joins := by
  have different : DifferentAliases ([query.rootTable catalog] ++ _) :=
    query.differentAliases_tables catalog
  exact (catalog.scopedBehind_iff query.entity shows different).trans
    (introduced_joins_iff declared)

/-- Where all declared aliases differ, the joins of the query are in scope just where they
reach back without the declared navigations. -/
theorem introduced_own_iff (own : query.OwnReachBack catalog)
    (apart : catalog.DeclaredApart (query.joinedEntities catalog)) :
    catalog.Introduced [query.rootTable catalog] query.joins ↔
      ReachBack [query.entity] query.joins := by
  have listed : query.joinedEntities catalog = [query.entity] ++ query.joins.map (·.target) ++
      (query.declaredJoins catalog).map (·.target) := by
    simp [joinedEntities]
  refine Catalog.introduced_iff_reachBack (listed ▸ apart) fun join member path shown => ?_
  have known := own.mem join member path shown
  simp only [List.cons_append, List.nil_append, List.mem_cons, List.mem_append] at known ⊢
  tauto

theorem tables_of_apart (apart : catalog.DeclaredApart (query.joinedEntities catalog)) :
    query.tables catalog = (query.joinedEntities catalog).map catalog.declaredTable := by
  have whole : catalog.DeclaredApart
      ([query.entity] ++ (query.joins ++ query.declaredJoins catalog).map (·.target)) := apart
  exact congrArg (query.rootTable catalog :: ·)
    (Catalog.joinedTables_of_apart query.entity whole)

end Query

/-- The joins of a statement that reads, where the declared navigations of its entity reach
back to it and to each other: all conditions are in scope just where the conditions of the
query's own joins mention entities whose declared aliases are in use by then. Where these
reach back to it, to the declared navigations and to each other, and no two of the joined
entities declare one alias, that is where they do not mention any of the declared ones. -/
theorem join_conditions_in_scope_iff (catalog : Catalog) (dialect : Dialect)
    (operation : Operation) (reads : operation.reads = true) {composition : Composition}
    (composed : (operation.compose catalog dialect).1 = .ok composition)
    (declared : operation.query.DeclaredReachBack catalog) :
    ∃ (tokens : Fragment) (clauses : List JoinClause),
      composition.statement.sql = tokens.text dialect.lexical ∧
      (catalog.PlainProperties → operation.query.PlainNames →
        dialect.readTokens composition.statement.sql = some tokens) ∧
      ShowsJoins catalog dialect operation.query tokens.squeezed clauses ∧
      (ScopedBehind [catalog.aliasName operation.query.entity] clauses ↔
        catalog.Introduced [operation.query.rootTable catalog] operation.query.joins) ∧
      (operation.query.OwnReachBack catalog →
        catalog.DeclaredApart (operation.query.joinedEntities catalog) →
        operation.query.tables catalog =
          (operation.query.joinedEntities catalog).map catalog.declaredTable ∧
        (ScopedBehind [catalog.aliasName operation.query.entity] clauses ↔
          ReachBack [operation.query.entity] operation.query.joins)) := by
  rcases Operation.exists_run_of_compose composed with ⟨built, draft, run, statement⟩
  rcases Operation.exists_showsJoins reads run with ⟨clauses, shown⟩
  have reached := Query.scopedBehind_joins_iff declared shown.shows
  rw [statement]
  refine ⟨built.sql, clauses, rfl, ?_, shown, reached, ?_⟩
  · intro plain names
    exact dialect.readTokens_text (sound_build plain names run).1
  · intro own apart
    exact ⟨Query.tables_of_apart apart, reached.trans (Query.introduced_own_iff own apart)⟩

/-- Employees, whose department is a declared navigation, and offices. -/
def Catalog.offices : Catalog :=
  { descriptors :=
      [("Employee",
        { table := "employees"
          fields := [⟨"Id", "id"⟩, ⟨"Dept", "dept_id"⟩]
          keys := ["Id"]
          navigations :=
            [{ name := "dept"
               target := "Dept"
               kind := .left
               condition := .comparison .equal (.column "Employee" "Dept") (.column "Dept" "Id")
               withFields := false }] }),
       ("Dept", { table := "depts", fields := [⟨"Id", "id"⟩], keys := ["Id"] }),
       ("Office",
        { table := "offices", fields := [⟨"Employee", "employee_id"⟩, ⟨"Dept", "dept_id"⟩] })] }

/-- Employees with the offices of their own, or with those of their departments. -/
def Query.housed (owner : String) : Query :=
  { entity := "Employee"
    joins :=
      [{ name := "office"
         target := "Office"
         kind := .inner
         condition := .comparison .equal (.column "Office" owner) (.column owner "Id")
         withFields := false }] }

theorem join_conditions_in_scope_own_offices :
    ∃ composition tokens clauses,
      ((Operation.list (.housed "Employee")).compose .offices .mysql).1 = .ok composition ∧
      Dialect.mysql.readTokens composition.statement.sql = some tokens ∧
      ShowsJoins .offices .mysql (.housed "Employee") tokens.squeezed clauses ∧
      ScopedBehind ["employees"] clauses := by
  have plain : Catalog.offices.PlainProperties := plainProperties_of_fields (by decide)
  have names : (Query.housed "Employee").PlainNames := ⟨by decide, by simp [Query.housed]⟩
  rcases join_conditions_in_scope_iff .offices .mysql (.list (.housed "Employee")) rfl rfl
    (by decide : (Query.housed "Employee").DeclaredReachBack .offices) with
    ⟨tokens, clauses, -, read, shown, -, apart⟩
  have inScope := (apart (by decide : (Query.housed "Employee").OwnReachBack .offices)
    (by decide)).2.mpr (by decide : ReachBack ["Employee"] (Query.housed "Employee").joins)
  exact ⟨_, tokens, clauses, rfl, read plain names, shown, inScope⟩

/-- The offices of a department are joined before the department is. -/
theorem join_condition_out_of_scope :
    (Query.housed "Dept").DeclaredReachBack .offices ∧
    (Query.housed "Dept").OwnReachBack .offices ∧
    Catalog.offices.DeclaredApart ((Query.housed "Dept").joinedEntities .offices) ∧
    ∃ composition tokens clauses,
      ((Operation.list (.housed "Dept")).compose .offices .mysql).1 = .ok composition ∧
      composition.statement.sql =
        "SELECT employees.`id` AS `Id`, employees.`dept_id` AS `Dept` FROM `employees` employees " ++
        "INNER JOIN `offices` offices ON offices.`dept_id` = depts.`id` " ++
        "LEFT JOIN `depts` depts ON employees.`dept_id` = depts.`id` WHERE 1=1" ∧
      Dialect.mysql.readTokens composition.statement.sql = some tokens ∧
      ShowsJoins .offices .mysql (.housed "Dept") tokens.squeezed clauses ∧
      ¬ ScopedBehind ["employees"] clauses := by
  have plain : Catalog.offices.PlainProperties := plainProperties_of_fields (by decide)
  have names : (Operation.list (.housed "Dept")).query.PlainNames :=
    ⟨by decide, by simp [Operation.query, Query.housed]⟩
  have declared : (Query.housed "Dept").DeclaredReachBack .offices := by decide
  have own : (Query.housed "Dept").OwnReachBack .offices := by decide
  have apart : Catalog.offices.DeclaredApart ((Query.housed "Dept").joinedEntities .offices) := by
    decide
  have composed : ((Operation.list (.housed "Dept")).compose .offices .mysql).1 = .ok _ := rfl
  rcases Operation.exists_run_of_compose composed with ⟨built, draft, run, statement⟩
  rcases Operation.exists_showsJoins rfl run with ⟨clauses, shown⟩
  have legible := (sound_build plain names run).1
  refine ⟨declared, own, apart, _, built.sql, clauses, rfl, by decide +kernel, ?_, shown, ?_⟩
  · rw [statement]
    exact Dialect.readTokens_text _ legible
  · intro inScope
    have back := (Query.introduced_own_iff own apart).mp
      ((Query.scopedBehind_joins_iff declared shown.shows).mp inScope)
    exact absurd back (by decide)

end EntitySql
