import EntitySql.Proofs.Build

/-! How the clauses of a statement were built, each from the draft that the one before it
left. A query for rows and one for a single value take the same tables, and an update names
the one table that it changes. -/

namespace EntitySql

/-- The clauses of a query for rows, as they were built. -/
inductive SelectClauses.Run (catalog : Catalog) (dialect : Dialect) (query : Query)
    (top : Option UInt32) : Draft → SelectClauses → Draft → Prop
  | clauses (entity : Entity) (selected : Fragment) (tables : List JoinedTable)
      (conditions grouping having ordering : Fragment)
      (accepted : catalog.entity query.entity = .ok entity)
      (select : ((Scope.aliased catalog).selectList entity query.select).runFrom draft =
        (.ok selected, first))
      (joined : ((Scope.aliased catalog).joins entity
        (query.joins ++ entity.navigations)).runFrom first = (.ok tables, second))
      (filters : ((Scope.aliased catalog).whereClause query.filters).runFrom second =
        (.ok conditions, third))
      (groups : ((Scope.aliased catalog).groupClause query.groups).runFrom third =
        (.ok grouping, fourth))
      (kept : ((Scope.aliased catalog).havingClause query.having).runFrom fourth =
        (.ok having, fifth))
      (order : ((Scope.aliased catalog).orderClause query.order).runFrom fifth =
        (.ok ordering, later)) :
      SelectClauses.Run catalog dialect query top draft
        { entity
          keyword := dialect.selectKeyword query.distinct top
          columns :=
            if query.select.isNone then selected ++ JoinedTable.selectedColumns tables
            else selected
          source := dialect.fromClause entity query.noLock
          joined := JoinedTable.joinClauses tables
          conditions
          grouping
          having
          ordering
          joins := query.joins ++ entity.navigations } later

/-- The clauses of a query for a single value, as they were built. -/
inductive ScalarClauses.Run (catalog : Catalog) (dialect : Dialect) (query : Query)
    (head : Scope → Build Fragment) : Draft → ScalarClauses → Draft → Prop
  | clauses (entity : Entity) (shown : Fragment) (tables : List JoinedTable)
      (conditions : Fragment) (accepted : catalog.entity query.entity = .ok entity)
      (headed : (head (.aliased catalog)).runFrom draft = (.ok shown, first))
      (joined : ((Scope.aliased catalog).joins entity
        (query.joins ++ entity.navigations)).runFrom first = (.ok tables, second))
      (filters : ((Scope.aliased catalog).whereClause query.filters).runFrom second =
        (.ok conditions, later)) :
      ScalarClauses.Run catalog dialect query head draft
        { head := shown
          source := dialect.fromClause entity query.noLock
          joined := JoinedTable.joinClauses tables
          conditions
          joins := query.joins ++ entity.navigations } later

/-- The clauses of an update by expressions, as they were built. -/
inductive Query.UpdateClauses.Run (catalog : Catalog) (query : Query) (updater : Expr) :
    Draft → UpdateClauses → Draft → Prop
  | clauses (entity : Entity) (assignments conditions : Fragment)
      (accepted : catalog.entity query.entity = .ok entity)
      (set : ((Scope.unqualified catalog).setClause updater).runFrom draft =
        (.ok assignments, first))
      (filters : ((Scope.unqualified catalog).whereClause query.filters).runFrom first =
        (.ok conditions, second))
      (warned : (query.warnUnfiltered "UPDATE" entity).runFrom second = (.ok (), later)) :
      UpdateClauses.Run catalog query updater draft { entity, assignments, conditions } later

/-- The select list of a projection, as it was built: a member, the values of a record, or a
single value. -/
inductive Scope.ProjectionRun (scope : Scope) (selector : Expr) :
    Draft → Fragment → Draft → Prop
  | member (path : MemberPath) (shape : selector.body = .member path)
      (found : scope.selectedMember path = .ok fragment) :
      ProjectionRun scope selector draft fragment draft
  | record (name : String) (bindings : List (String × Expr)) (fragments : List Fragment)
      (shape : selector.body = .record name bindings) (given : bindings ≠ [])
      (inner : (scope.selectedBindings bindings).runFrom draft = (.ok fragments, later)) :
      ProjectionRun scope selector draft (Fragment.commaSeparated fragments) later
  | scalar (single : ∀ name bindings, selector.body ≠ .record name bindings)
      (inner : (selector.scalar scope Expr.unnamed).runFrom draft = (.ok fragment, later)) :
      ProjectionRun scope selector draft fragment later

variable {catalog : Catalog} {dialect : Dialect} {query : Query} {draft later : Draft}

theorem SelectClauses.run_of_build {top : Option UInt32} {clauses : SelectClauses}
    (run : (build catalog dialect query top).runFrom draft = (.ok clauses, later)) :
    Run catalog dialect query top draft clauses later := by
  simp only [build, Build.runFrom_bind_eq_ok, Build.runFrom_pure_eq_ok,
    Build.runFrom_lift_eq_ok] at run
  rcases run with
    ⟨entity, _, ⟨accepted, rfl⟩, selected, _, select, tables, _, joined, conditions, _, filters,
     grouping, _, groups, having, _, kept, ordering, _, order, rfl, rfl⟩
  exact .clauses entity selected tables conditions grouping having ordering accepted select
    joined filters groups kept order

theorem ScalarClauses.run_of_build {head : Scope → Build Fragment} {clauses : ScalarClauses}
    (run : (build catalog dialect query head).runFrom draft = (.ok clauses, later)) :
    Run catalog dialect query head draft clauses later := by
  simp only [build, Build.runFrom_bind_eq_ok, Build.runFrom_pure_eq_ok,
    Build.runFrom_lift_eq_ok] at run
  rcases run with
    ⟨entity, _, ⟨accepted, rfl⟩, shown, _, headed, tables, _, joined, conditions, _, filters,
     rfl, rfl⟩
  exact .clauses entity shown tables conditions accepted headed joined filters

theorem Query.run_of_updateClauses {updater : Expr} {clauses : UpdateClauses}
    (run : (query.updateClauses catalog updater).runFrom draft = (.ok clauses, later)) :
    UpdateClauses.Run catalog query updater draft clauses later := by
  simp only [updateClauses, Build.runFrom_bind_eq_ok, Build.runFrom_pure_eq_ok,
    Build.runFrom_lift_eq_ok] at run
  rcases run with
    ⟨entity, _, ⟨accepted, rfl⟩, assignments, _, set, conditions, _, filters, _, _, warned, rfl,
     rfl⟩
  exact .clauses entity assignments conditions accepted set filters warned

theorem Scope.projectionRun_of_projection {scope : Scope} {selector : Expr} {fragment : Fragment}
    (run : (scope.projection selector).runFrom draft = (.ok fragment, later)) :
    scope.ProjectionRun selector draft fragment later := by
  unfold projection at run
  split at run
  · next path shape =>
      rw [Build.runFrom_lift_eq_ok] at run
      rcases run with ⟨found, rfl⟩
      exact .member path shape found
  · next name bindings shape =>
      split at run
      · cases run
      · next given =>
          simp only [Build.runFrom_bind_eq_ok, Build.runFrom_pure_eq_ok] at run
          rcases run with ⟨fragments, last, inner, rfl, rfl⟩
          exact .record name bindings fragments shape (by simpa using given) inner
  · next shape => exact .scalar (by simp [shape]) run
  · next shape => exact .scalar (by simp [shape]) run
  · next shape => exact .scalar (by simp [shape]) run
  · next shape => exact .scalar (by simp [shape]) run
  · cases run

/-- An update by expressions assigns by a record of an accepted entity. -/
theorem Scope.setClause_eq_ok {scope : Scope} {updater : Expr} {fragment : Fragment}
    (run : (scope.setClause updater).runFrom draft = (.ok fragment, later)) :
    ∃ name bindings entity assignments, updater.body = .record name bindings ∧ bindings ≠ [] ∧
      scope.catalog.entity name = .ok entity ∧
      (scope.boundAssignments entity bindings).runFrom draft = (.ok assignments, later) ∧
      fragment = setting assignments := by
  unfold setClause at run
  split at run
  · next name bindings shape =>
      split at run
      · cases run
      · next given =>
          simp only [Build.runFrom_bind_eq_ok, Build.runFrom_pure_eq_ok,
            Build.runFrom_lift_eq_ok] at run
          rcases run with ⟨entity, _, ⟨accepted, rfl⟩, assignments, _, inner, rfl, rfl⟩
          exact ⟨name, bindings, entity, assignments, shape, by simpa using given, accepted,
            inner, rfl⟩
  · cases run

end EntitySql
