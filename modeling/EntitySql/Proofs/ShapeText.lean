import EntitySql.Proofs.Column
import EntitySql.Proofs.UniformText

/-! The text of a statement is a matter of the shape of its input. Every operation is
built uniformly from inputs that are alike, so that values get into parameters and
nowhere else. -/

namespace EntitySql

variable {Variant : Type u} {replaced : (Variant → Value) → Prop}

/-- After a result that does not depend on the variant, when there is one. -/
theorem Build.uniform_lift_bind {alike : (Variant → β) → Prop} {result : Except Error α}
    {next : Variant → α → Build β}
    (tail : ∀ value, result = .ok value →
      Uniform replaced alike fun variant => next variant value) :
    Uniform replaced alike fun variant => lift result >>= next variant := by
  cases result with
  | error error => exact uniform_fail error
  | ok value => exact tail value rfl

/-! Joins. -/

/-- A join but for its condition. -/
def Navigation.heading (navigation : Navigation) : String × String × JoinKind × Bool :=
  (navigation.name, navigation.target, navigation.kind, navigation.withFields)

theorem Navigation.alike_same (navigation : Navigation) :
    Alike replaced fun _ => navigation :=
  .intro navigation (Expr.alike_same navigation.condition)

theorem Navigation.Alike.heading {navigation : Variant → Navigation}
    (alike : Alike replaced navigation) : Same fun variant => (navigation variant).heading := by
  cases alike with
  | intro fixed condition => exact ⟨fixed.heading, fun _ => rfl⟩

def Navigation.SameHeadings (joins : Variant → List Navigation) : Prop :=
  Same fun variant => (joins variant).map heading

theorem Navigation.sameHeadings {joins : List (Variant → Navigation)}
    (alike : ∀ join ∈ joins, Alike replaced join) :
    SameHeadings fun variant => joins.map (· variant) := by
  induction joins with
  | nil => exact ⟨[], fun _ => rfl⟩
  | cons join joins induction =>
      rcases (alike join List.mem_cons_self).heading with ⟨first, firsts⟩
      rcases induction fun other listed => alike other (List.mem_cons_of_mem _ listed) with
        ⟨rest, rests⟩
      refine ⟨first :: rest, ?_⟩
      intro variant
      simp only [List.map_cons, firsts, rests]

/-- The joins of an entity, which are those of every variant. -/
def Navigation.inEvery (Variant : Type u) (navigations : List Navigation) :
    List (Variant → Navigation) :=
  navigations.map fun navigation _ => navigation

theorem Navigation.map_append_inEvery (joins : List (Variant → Navigation))
    (navigations : List Navigation) (variant : Variant) :
    joins.map (· variant) ++ navigations =
      (joins ++ inEvery Variant navigations).map (· variant) := by
  simp [inEvery, Function.comp_def]

theorem Navigation.alike_append {joins : List (Variant → Navigation)}
    (alike : ∀ join ∈ joins, Alike replaced join) (navigations : List Navigation) :
    ∀ join ∈ joins ++ inEvery Variant navigations, Alike replaced join := by
  intro join listed
  rcases List.mem_append.mp listed with listed | listed
  · exact alike join listed
  · rcases List.mem_map.mp listed with ⟨navigation, -, rfl⟩
    exact navigation.alike_same

/-! Statements that read. -/

/-- One text, and joins that differ in their conditions only. -/
structure Built.Alike (built : Variant → Built) : Prop where
  sql : Same fun variant => (built variant).sql
  joins : Navigation.SameHeadings fun variant => (built variant).joins

theorem Built.alike_same (sql : Fragment) : Alike fun _ : Variant => { sql } :=
  ⟨⟨sql, fun _ => rfl⟩, ⟨[], fun _ => rfl⟩⟩

def SelectClauses.Alike (clauses : Variant → SelectClauses) : Prop :=
  ∃ (fixed : SelectClauses) (joins : Variant → List Navigation),
    Navigation.SameHeadings joins ∧
      ∀ variant, clauses variant = { fixed with joins := joins variant }

theorem SelectClauses.Alike.built {clauses : Variant → SelectClauses} (alike : Alike clauses) :
    Built.Alike fun variant => ⟨(clauses variant).sql, (clauses variant).joins⟩ := by
  rcases alike with ⟨fixed, joins, headings, same⟩
  simp only [same]
  exact ⟨⟨fixed.sql, fun _ => rfl⟩, headings⟩

def ScalarClauses.Alike (clauses : Variant → ScalarClauses) : Prop :=
  ∃ (fixed : ScalarClauses) (joins : Variant → List Navigation),
    Navigation.SameHeadings joins ∧
      ∀ variant, clauses variant = { fixed with joins := joins variant }

theorem ScalarClauses.Alike.built {clauses : Variant → ScalarClauses} (alike : Alike clauses) :
    Built.Alike fun variant => (clauses variant).built := by
  rcases alike with ⟨fixed, joins, headings, same⟩
  simp only [same]
  exact ⟨⟨fixed.sql, fun _ => rfl⟩, headings⟩

/-- What is made of a text is made of the same text in every variant. -/
theorem Built.Alike.map {built : Variant → Built} (alike : Alike built)
    (change : Fragment → Fragment) :
    Alike fun variant => ⟨change (built variant).sql, (built variant).joins⟩ := by
  rcases alike with ⟨⟨sql, same⟩, joins⟩
  exact ⟨⟨change sql, fun variant => congrArg change (same variant)⟩, joins⟩

theorem SelectClauses.uniform_build (catalog : Catalog) (dialect : Dialect)
    {query : Variant → Query} (top : Option UInt32) (alike : Query.Alike replaced query) :
    Build.Uniform replaced Alike fun variant => build catalog dialect (query variant) top := by
  rcases alike with ⟨fixed, filters, groups, having, select, order, joins, filtersAlike,
    groupsAlike, havingAlike, selectAlike, orderAlike, joinsAlike⟩
  simp only [build]
  apply (Build.steady_lift _).bind
  intro entity
  have joinsToo := Navigation.alike_append joinsAlike entity.navigations
  simp only [Navigation.map_append_inEvery, Option.isNone_map]
  apply (Scope.steady_selectList _ entity selectAlike).bind
  intro selected
  apply (Scope.steady_joinTables _ entity _ joinsToo).bind
  intro tables
  apply (Scope.steady_whereClause _ filtersAlike).bind
  intro conditions
  apply (Scope.steady_groupClause _ groupsAlike).bind
  intro grouping
  apply (Scope.steady_havingClause _ havingAlike).bind
  intro groupConditions
  apply (Scope.steady_orderClause _ orderAlike).bind
  intro ordering
  apply Build.uniform_pure
  exact ⟨⟨entity, _, _, _, _, conditions, grouping, groupConditions, ordering, []⟩, _,
    Navigation.sameHeadings joinsToo, fun _ => rfl⟩

theorem ScalarClauses.uniform_build (catalog : Catalog) (dialect : Dialect)
    {query : Variant → Query} {head : Variant → Scope → Build Fragment}
    (alike : Query.Alike replaced query)
    (steady : ∀ scope, Build.Steady replaced fun variant => head variant scope) :
    Build.Uniform replaced Alike fun variant =>
      build catalog dialect (query variant) (head variant) := by
  rcases alike with ⟨fixed, filters, groups, having, select, order, joins, filtersAlike, -, -, -,
    -, joinsAlike⟩
  simp only [build]
  apply (Build.steady_lift _).bind
  intro entity
  have joinsToo := Navigation.alike_append joinsAlike entity.navigations
  simp only [Navigation.map_append_inEvery]
  apply (steady _).bind
  intro shown
  apply (Scope.steady_joinTables _ entity _ joinsToo).bind
  intro tables
  apply (Scope.steady_whereClause _ filtersAlike).bind
  intro conditions
  apply Build.uniform_pure
  exact ⟨⟨shown, _, _, conditions, []⟩, _, Navigation.sameHeadings joinsToo, fun _ => rfl⟩

/-- The conditions changed in the same way in every variant. -/
theorem ScalarClauses.Alike.conditioned {clauses : Variant → ScalarClauses}
    (alike : Alike clauses) (change : Fragment → Fragment) :
    Alike fun variant =>
      { clauses variant with conditions := change (clauses variant).conditions } := by
  rcases alike with ⟨fixed, joins, headings, same⟩
  simp only [same]
  exact ⟨{ fixed with conditions := change fixed.conditions }, joins, headings, fun _ => rfl⟩

theorem Query.Alike.top {query : Variant → Query} (alike : Alike replaced query) :
    Same fun variant => (query variant).top := by
  cases alike with
  | intro fixed => exact ⟨fixed.top, fun _ => rfl⟩

theorem SelectClauses.same_showsKey {query : Variant → Query}
    (alike : Query.Alike replaced query) (entity : Entity) :
    Same fun variant => showsKey (query variant) entity := by
  cases alike with
  | intro fixed filters groups having select order joins =>
      apply same_of_eq
      intro variant
      simp only [showsKey, List.isEmpty_map, Option.isSome_map]
      rfl

/-- The order that is put in depends on the shape of the query. -/
theorem SelectClauses.uniform_withDefaultOrder (scope : Scope) {query : Variant → Query}
    {clauses : Variant → SelectClauses} (alike : Query.Alike replaced query)
    (given : Alike clauses) :
    Build.Uniform replaced Alike fun variant =>
      Build.lift ((clauses variant).withDefaultOrder scope (query variant)) := by
  rcases given with ⟨fixed, joins, headings, same⟩
  rcases same_showsKey alike fixed.entity with ⟨shown, shows⟩
  simp only [same, withDefaultOrder, shows]
  cases fixed.ordering.isEmpty with
  | false => exact Build.uniform_pure ⟨fixed, joins, headings, fun _ => rfl⟩
  | true =>
      cases shown with
      | false =>
          exact Build.uniform_pure ⟨{ fixed with ordering := noOrder }, joins, headings,
            fun _ => rfl⟩
      | true =>
          cases keyOrder scope fixed.entity with
          | error error => exact Build.uniform_fail error
          | ok ordering =>
              exact Build.uniform_pure ⟨{ fixed with ordering }, joins, headings, fun _ => rfl⟩

namespace Query

section

variable (catalog : Catalog) (dialect : Dialect) {query : Variant → Query}

theorem uniform_buildGet (alike : Query.Alike replaced query) :
    Build.Uniform replaced Built.Alike fun variant =>
      (query variant).buildGet catalog dialect := by
  cases dialect with
  | mysql =>
      apply Build.uniform_bind (SelectClauses.uniform_build catalog .mysql none alike)
      intro clauses given
      exact Build.uniform_pure (given.built.map (·.limit 1))
  | sqlServer =>
      apply Build.uniform_bind (SelectClauses.uniform_build catalog .sqlServer (some 1) alike)
      intro clauses given
      exact Build.uniform_pure given.built
  | oracle =>
      apply Build.uniform_bind (SelectClauses.uniform_build catalog .oracle none alike)
      intro clauses given
      exact Build.uniform_pure (given.built.map (·.firstRows 1))

theorem uniform_buildList (alike : Query.Alike replaced query) :
    Build.Uniform replaced Built.Alike fun variant =>
      (query variant).buildList catalog dialect := by
  rcases alike.top with ⟨top, tops⟩
  simp only [buildList, tops]
  apply Build.uniform_bind (SelectClauses.uniform_build catalog dialect top alike)
  intro clauses given
  cases dialect <;> cases top
  case mysql.some count => exact Build.uniform_pure (given.built.map (·.limit count.toNat))
  case oracle.some count => exact Build.uniform_pure (given.built.map (·.firstRows count.toNat))
  all_goals exact Build.uniform_pure given.built

theorem uniform_buildPage (index size : UInt32) (alike : Query.Alike replaced query) :
    Build.Uniform replaced Built.Alike fun variant =>
      (query variant).buildPage catalog dialect index size := by
  simp only [buildPage]
  apply (Build.steady_lift _).bind
  intro rows
  apply Build.uniform_bind (SelectClauses.uniform_build catalog dialect none alike)
  intro clauses given
  cases dialect with
  | mysql => exact Build.uniform_pure (given.built.map (·.offsetLimit rows))
  | sqlServer =>
      apply Build.uniform_bind
        (SelectClauses.uniform_withDefaultOrder (.aliased catalog) alike given)
      intro ordered given
      exact Build.uniform_pure (given.built.map (·.offsetFetch rows))
  | oracle => exact Build.uniform_pure (given.built.map (·.rowsBetween rows))

theorem uniform_buildAny (alike : Query.Alike replaced query) :
    Build.Uniform replaced Built.Alike fun variant =>
      (query variant).buildAny catalog dialect := by
  unfold buildAny
  apply Build.uniform_bind
    (ScalarClauses.uniform_build catalog dialect alike fun scope => Build.steady_pure _)
  intro clauses given
  cases dialect with
  | mysql => exact Build.uniform_pure (given.built.map (·.limit 1))
  | sqlServer => exact Build.uniform_pure given.built
  | oracle =>
      have conditioned := given.conditioned fun conditions =>
        conditions ++ [.space, .word "AND", .space] ++ Fragment.rowNumberAtMost 1
      exact Build.uniform_pure conditioned.built

theorem uniform_buildCount (alike : Query.Alike replaced query) :
    Build.Uniform replaced Built.Alike fun variant =>
      (query variant).buildCount catalog dialect := by
  simp only [buildCount]
  apply Build.uniform_bind
    (ScalarClauses.uniform_build catalog dialect alike fun scope => Build.steady_pure _)
  intro clauses given
  exact Build.uniform_pure given.built

theorem uniform_buildSummary (summary : Summary) {selector : Option (Variant → Expr)}
    (alike : Query.Alike replaced query)
    (selectorAlike : ∀ expression ∈ selector, Expr.Alike replaced expression) :
    Build.Uniform replaced Built.Alike fun variant =>
      (query variant).buildSummary catalog dialect summary (selector.map (· variant)) := by
  simp only [buildSummary]
  apply Build.uniform_bind (ScalarClauses.uniform_build catalog dialect alike ?_)
  · intro clauses given
    exact Build.uniform_pure given.built
  · intro scope
    apply (scope.steady_summarizedColumn selectorAlike).bind
    intro column
    exact Build.steady_pure _

end

/-! Statements that write. -/

section

variable (catalog : Catalog) {query : Variant → Query}

theorem Alike.entity (alike : Alike replaced query) :
    Same fun variant => (query variant).entity := by
  cases alike with
  | intro fixed => exact ⟨fixed.entity, fun _ => rfl⟩

theorem Alike.hasFilters (alike : Alike replaced query) :
    Same fun variant => (query variant).hasFilters := by
  cases alike with
  | intro fixed filters =>
      apply same_of_eq
      intro variant
      simp only [Query.hasFilters, List.isEmpty_map]
      rfl

theorem Alike.steady_whereClause (alike : Alike replaced query) (scope : Scope) :
    Build.Steady replaced fun variant => scope.whereClause (query variant).filters := by
  rcases alike with ⟨_, _, _, _, _, _, _, filtersAlike, -⟩
  exact scope.steady_whereClause filtersAlike

theorem steady_warnUnfiltered (alike : Alike replaced query) (action : String)
    (entity : Entity) :
    Build.Steady replaced fun variant => (query variant).warnUnfiltered action entity := by
  rcases alike.hasFilters with ⟨filtered, same⟩
  simp only [warnUnfiltered, same]
  cases filtered with
  | true => exact Build.steady_pure ()
  | false => exact Build.steady_warn _

theorem steady_insertClauses {record : Variant → Record} (alike : Alike replaced query)
    (recordAlike : Record.Alike replaced catalog query record) (exclude : List String) :
    Build.Steady replaced fun variant =>
      (query variant).insertClauses catalog (record variant) exclude := by
  rcases alike.entity with ⟨name, same⟩
  simp only [insertClauses, same]
  apply (Build.steady_lift _).bind
  intro entity
  apply (Scope.steady_insertLists _ recordAlike.values entity exclude).bind
  intro lists
  exact Build.steady_pure _

theorem uniform_buildInsert {record : Variant → Record} (alike : Alike replaced query)
    (recordAlike : Record.Alike replaced catalog query record) (exclude : List String) :
    Build.Uniform replaced Built.Alike fun variant =>
      (query variant).buildInsert catalog (record variant) exclude := by
  simp only [buildInsert]
  apply (steady_insertClauses catalog alike recordAlike exclude).bind
  intro clauses
  exact Build.uniform_pure (Built.alike_same _)

theorem uniform_buildInsertIdentity (dialect : Dialect) {record : Variant → Record}
    (alike : Alike replaced query)
    (recordAlike : Record.Alike replaced catalog query record) (exclude : List String) :
    Build.Uniform replaced Built.Alike fun variant =>
      (query variant).buildInsertIdentity catalog dialect (record variant) exclude := by
  simp only [buildInsertIdentity]
  apply (steady_insertClauses catalog alike recordAlike exclude).bind
  intro clauses
  cases clauses.entity.identityOrKey? with
  | none => exact Build.uniform_fail _
  | some property =>
      cases dialect with
      | mysql => exact Build.uniform_pure (Built.alike_same _)
      | sqlServer => exact Build.uniform_pure (Built.alike_same _)
      | oracle =>
          apply (Build.steady_lift _).bind
          intro column
          apply (Build.steady_output _).bind
          intro output
          exact Build.uniform_pure (Built.alike_same _)

theorem steady_updateClauses {updater : Variant → Expr} (alike : Alike replaced query)
    (updaterAlike : Expr.Alike replaced updater) :
    Build.Steady replaced fun variant =>
      (query variant).updateClauses catalog (updater variant) := by
  rcases alike.entity with ⟨name, same⟩
  simp only [updateClauses, same]
  apply (Build.steady_lift _).bind
  intro entity
  apply (Scope.steady_setClause _ updaterAlike).bind
  intro assignments
  apply (alike.steady_whereClause _).bind
  intro conditions
  apply (steady_warnUnfiltered alike "UPDATE" entity).bind
  intro warned
  exact Build.steady_pure _

theorem uniform_buildUpdate {updater : Variant → Expr} (alike : Alike replaced query)
    (updaterAlike : Expr.Alike replaced updater) :
    Build.Uniform replaced Built.Alike fun variant =>
      (query variant).buildUpdate catalog (updater variant) := by
  simp only [buildUpdate]
  apply (steady_updateClauses catalog alike updaterAlike).bind
  intro clauses
  exact Build.uniform_pure (Built.alike_same _)

theorem Alike.same_returnedColumns (alike : Alike replaced query) (scope : Scope)
    (entity : Entity) :
    Same fun variant => scope.returnedColumns entity (query variant).select := by
  rcases alike with ⟨_, _, _, _, _, _, _, -, -, -, selectAlike, -⟩
  exact scope.same_returnedColumns entity selectAlike

theorem uniform_buildUpdateSelect (dialect : Dialect) {updater : Variant → Expr}
    (alike : Alike replaced query) (updaterAlike : Expr.Alike replaced updater) :
    Build.Uniform replaced Built.Alike fun variant =>
      (query variant).buildUpdateSelect catalog dialect (updater variant) := by
  simp only [buildUpdateSelect]
  apply (steady_updateClauses catalog alike updaterAlike).bind
  intro clauses
  rcases alike.same_returnedColumns (.unqualified catalog) clauses.entity with ⟨found, same⟩
  simp only [same]
  apply (Build.steady_lift _).bind
  intro columns
  apply (dialect.steady_returningClause clauses.entity columns).bind
  intro clause
  cases dialect <;> exact Build.uniform_pure (Built.alike_same _)

theorem uniform_buildUpdateRecord {record : Variant → Record} (alike : Alike replaced query)
    (recordAlike : Record.Alike replaced catalog query record) (exclude : List String)
    (everyRow : Bool) :
    Build.Uniform replaced Built.Alike fun variant =>
      (query variant).buildUpdateRecord catalog (record variant) exclude everyRow := by
  rcases alike.entity with ⟨name, same⟩
  rcases alike.hasFilters with ⟨filtered, filters⟩
  simp only [buildUpdateRecord, same, filters]
  apply Build.uniform_lift_bind
  intro entity accepted
  apply (Scope.steady_recordSetClause _ recordAlike.values entity exclude).bind
  intro assignments
  apply (alike.steady_whereClause _).bind
  intro conditions
  have keyed : ∀ key ∈ entity.keys, Same fun variant => ((record variant).value key).isNull := by
    intro key listed
    apply recordAlike.keys key
    intro variant
    rcases Catalog.entity_eq_ok.mp accepted with ⟨-, rfl⟩
    simpa only [Query.keys, same] using listed
  cases filtered with
  | true => exact Build.uniform_pure (Built.alike_same _)
  | false =>
      cases everyRow with
      | true =>
          apply (steady_warnUnfiltered alike _ entity).bind
          intro warned
          exact Build.uniform_pure (Built.alike_same _)
      | false =>
          apply (Scope.steady_keyConditions _ recordAlike.values keyed).bind
          intro keyConditions
          exact Build.uniform_pure (Built.alike_same _)

theorem uniform_buildDelete (alike : Alike replaced query) :
    Build.Uniform replaced Built.Alike fun variant =>
      (query variant).buildDelete catalog := by
  rcases alike.entity with ⟨name, same⟩
  simp only [buildDelete, same]
  apply (Build.steady_lift _).bind
  intro entity
  apply (alike.steady_whereClause _).bind
  intro conditions
  apply (steady_warnUnfiltered alike "DELETE" entity).bind
  intro warned
  exact Build.uniform_pure (Built.alike_same _)

end

end Query

/-! Every operation. -/

theorem Operation.uniform_build (catalog : Catalog) (dialect : Dialect)
    {operation : Variant → Operation} (alike : Alike replaced catalog operation) :
    Build.Uniform replaced Built.Alike fun variant =>
      (operation variant).build catalog dialect := by
  cases alike with
  | get alike => exact Query.uniform_buildGet catalog dialect alike
  | list alike => exact Query.uniform_buildList catalog dialect alike
  | page index size alike => exact Query.uniform_buildPage catalog dialect index size alike
  | any alike => exact Query.uniform_buildAny catalog dialect alike
  | count alike => exact Query.uniform_buildCount catalog dialect alike
  | summarize summary selector alike selectorAlike =>
      exact Query.uniform_buildSummary catalog dialect summary alike selectorAlike
  | insert exclude alike recordAlike =>
      exact Query.uniform_buildInsert catalog alike recordAlike exclude
  | insertIdentity exclude alike recordAlike =>
      exact Query.uniform_buildInsertIdentity catalog dialect alike recordAlike exclude
  | update alike updaterAlike => exact Query.uniform_buildUpdate catalog alike updaterAlike
  | updateSelect alike updaterAlike =>
      exact Query.uniform_buildUpdateSelect catalog dialect alike updaterAlike
  | updateRecord exclude everyRow alike recordAlike =>
      exact Query.uniform_buildUpdateRecord catalog alike recordAlike exclude everyRow
  | delete alike => exact Query.uniform_buildDelete catalog alike

/-- The parameters without their values, which a log line counts. -/
def Sketch.blank (sketch : Sketch replaced) : List Parameter :=
  sketch.slots.map fun slot => ⟨slot.name, .null, slot.direction⟩

/-- The shape of an input settles whether the statement is built and what its text, its
joins and the names and directions of its parameters are. A parameter has the same value
in every variant unless it is bound from a replaced value, and then each variant binds
its own. -/
theorem shape_settles_statement (catalog : Catalog) (dialect : Dialect)
    {operation : Variant → Operation} (alike : Operation.Alike replaced catalog operation) :
    (∃ error log, ∀ variant,
      (operation variant).compose catalog dialect = (.error error, log)) ∨
    ∃ (sql : String) (slots : List (Slot replaced))
      (headings : List (String × String × JoinKind × Bool)) (log : List LogLine),
      ∀ variant, ∃ joins, joins.map Navigation.heading = headings ∧
        (operation variant).compose catalog dialect =
          (.ok ⟨⟨sql, ⟨slots.map (·.parameter variant)⟩⟩, joins⟩, log) := by
  rcases Operation.uniform_build catalog dialect alike {} with
    ⟨later, ⟨error, failed⟩ | ⟨built, ⟨⟨tokens, same⟩, headings, heads⟩, given⟩⟩
  · refine .inl ⟨error, later.log, ?_⟩
    intro variant
    have run : ((operation variant).build catalog dialect).runFrom {} = _ := failed variant
    simp only [Operation.compose, run]
    rfl
  · let sql := tokens.text dialect.lexical
    let line := Operation.builtLine dialect ⟨sql, ⟨later.blank⟩⟩
    have lines : ∀ variant, Operation.builtLine dialect ⟨sql, later.params variant⟩ = line := by
      intro variant
      simp [line, Operation.builtLine, Params.size, Sketch.params, Sketch.blank]
    refine .inr ⟨sql, later.slots, headings, later.log ++ [line], ?_⟩
    intro variant
    refine ⟨(built variant).joins, heads variant, ?_⟩
    have run : ((operation variant).build catalog dialect).runFrom {} = _ := given variant
    simp only [Operation.compose, run, same, Sketch.draft]
    exact congrArg (fun line => (_, later.log ++ [line])) (lines variant)

/-- The people under one age or under another. -/
def Query.under (age : Value) : Query :=
  { Query.minors with
    filters := [.comparison .less (.column "Person" "Age") (.constant age)] }

/-- Two limits: one text, and the same parameters but for the limit. -/
theorem shape_settles_statement_under :
    ∃ first second,
      ((Operation.list (.under (.int 18))).compose .people .sqlServer).1 = .ok first ∧
      ((Operation.list (.under (.int 21))).compose .people .sqlServer).1 = .ok second ∧
      first.statement.sql = second.statement.sql ∧
      first.statement.params.names = second.statement.params.names := by
  let age (grown : Bool) : Value := if grown then .int 21 else .int 18
  have alike : Operation.Alike (· = age) .people fun grown => .list (.under (age grown)) := by
    apply Operation.Alike.list
    apply Query.Alike.intro Query.minors [fun grown => .comparison .less
      (.column "Person" "Age") (.constant (age grown))] [] [] none [] []
    · intro filter listed
      rw [List.mem_singleton.mp listed]
      apply Expr.Alike.comparison .less (Expr.alike_same _)
      refine .replacement rfl ?_
      intro grown
      cases grown <;> rfl
    all_goals simp
  rcases shape_settles_statement .people .sqlServer alike with
    ⟨error, log, failed⟩ | ⟨sql, slots, headings, log, given⟩
  · have built : ((Operation.list (.under (.int 21))).compose .people .sqlServer).1 = .ok _ := rfl
    cases (congrArg Prod.fst (failed true)).symm.trans built
  · rcases given false with ⟨joins, -, first⟩
    rcases given true with ⟨others, -, second⟩
    refine ⟨_, _, congrArg Prod.fst first, congrArg Prod.fst second, rfl, ?_⟩
    simp [Params.names, Slot.parameter]

end EntitySql
