import EntitySql.Proofs.ReadText
import EntitySql.Sql.Write

/-! The text of statements that write. The values of a record are bound in the order
of its fields, and the key after the filters. What a dialect adds to tell the changed
rows shows no placeholder, but for the outputs of Oracle. -/

namespace EntitySql

theorem Draft.Written.of_params {draft later other : Draft} {fragment : Fragment}
    (written : draft.Written fragment later) (same : later.params = other.params) :
    draft.Written fragment other := by
  have rest : later.Binds .input [] other := Draft.binds_nil .input same
  refine ⟨written.legible, ?_⟩
  simpa using written.binds.trans rest

theorem Query.params_of_warnUnfiltered {query : Query} {action : String} {entity : Entity}
    {draft later : Draft} {result : Unit}
    (run : (query.warnUnfiltered action entity).runFrom draft = (.ok result, later)) :
    draft.params = later.params := by
  unfold warnUnfiltered at run
  split at run <;> cases run <;> rfl

namespace Scope

variable {scope : Scope}

theorem maps_of_column {catalog : Catalog} {name property : String} {entity : Entity}
    {column : Fragment} (accepted : catalog.entity name = .ok entity)
    (found : scope.column entity property = .ok column) : catalog.Maps ⟨name, property⟩ := by
  rcases columnUnder_eq_ok.mp found with ⟨mapped, read, -⟩
  exact ⟨entity, mapped, accepted, read⟩

section

variable (joins : scope.PlainJoin) (plain : scope.catalog.PlainProperties)

include joins plain

theorem writtenAll_boundAssignments {name : String} {entity : Entity}
    (accepted : scope.catalog.entity name = .ok entity) {bindings : List (String × Expr)}
    {draft later : Draft} {fragments : List Fragment}
    (run : (scope.boundAssignments entity bindings).runFrom draft = (.ok fragments, later)) :
    draft.WrittenAll fragments later := by
  induction bindings generalizing draft fragments with
  | nil =>
      rw [boundAssignments, Build.runFrom_pure_eq_ok] at run
      rcases run with ⟨rfl, rfl⟩
      exact draft.writtenAll_nil
  | cons binding bindings induction =>
      rcases binding with ⟨member, expression⟩
      simp only [boundAssignments, Build.runFrom_bind_eq_ok, Build.runFrom_pure_eq_ok,
        Build.runFrom_lift_eq_ok] at run
      rcases run with ⟨column, _, ⟨found, rfl⟩, value, middle, head, rest, last, tail, rfl, rfl⟩
      have bare := bare_column (Catalog.isPlainIdentifier_aliasName accepted) found
      have written := Expr.written_scalar joins (plain.members expression)
        (plain _ (maps_of_column accepted found)) head
      have assigned : draft.Written (Fragment.joined column .equal value) middle := by
        apply written.within
        · intro legible
          exact Fragment.legible_joined.mpr ⟨bare.legible, legible⟩
        · simp [bare.placeholders]
      exact assigned.cons (induction tail)

/-- The assignments come after their keyword. -/
theorem written_setClause {updater : Expr} {draft later : Draft} {fragment : Fragment}
    (run : (scope.setClause updater).runFrom draft = (.ok fragment, later)) :
    draft.Written fragment later ∧ ∃ rest, fragment = .word "SET" :: rest := by
  rcases setClause_eq_ok run with ⟨name, _, entity, fragments, -, -, accepted, inner, rfl⟩
  have keyword : Fragment.Bare [.word "SET"] := Fragment.bare_word (by decide)
  have written := writtenAll_boundAssignments joins plain accepted inner
  exact ⟨written.commaSeparated.after keyword, _, rfl⟩

end

theorem written_boundFields {name : String} {entity : Entity}
    (plain : scope.catalog.PlainProperties)
    (accepted : scope.catalog.entity name = .ok entity) {record : Record} {fields : List Field}
    {draft later : Draft} {bound : List BoundField}
    (run : (scope.boundFields entity record fields).runFrom draft = (.ok bound, later)) :
    draft.WrittenAll (bound.map (·.placeholder)) later ∧ ∀ field ∈ bound, field.column.Bare := by
  induction fields generalizing draft bound with
  | nil =>
      rw [boundFields, Build.runFrom_pure_eq_ok] at run
      rcases run with ⟨rfl, rfl⟩
      exact ⟨draft.writtenAll_nil, by simp⟩
  | cons field fields induction =>
      simp only [boundFields, Build.runFrom_bind_eq_ok, Build.runFrom_pure_eq_ok,
        Build.runFrom_lift_eq_ok] at run
      rcases run with
        ⟨column, _, ⟨found, rfl⟩, placeholder, middle, head, rest, last, tail, rfl, rfl⟩
      have bare := bare_column (Catalog.isPlainIdentifier_aliasName accepted) found
      have written := Build.written_input (plain _ (maps_of_column accepted found)) head
      rcases induction tail with ⟨others, othersBare⟩
      exact ⟨written.cons others, by simpa [bare] using othersBare⟩

/-- Columns in front of their placeholders add none of their own. -/
theorem writtenAll_assigned {draft later : Draft} {bound : List BoundField}
    (written : draft.WrittenAll (bound.map (·.placeholder)) later)
    (bare : ∀ field ∈ bound, field.column.Bare) :
    draft.WrittenAll
      (bound.map fun field => Fragment.joined field.column .equal field.placeholder) later := by
  rcases written with ⟨legible, binds⟩
  refine ⟨?_, ?_⟩
  · intro fragment member
    rcases List.mem_map.mp member with ⟨field, inBound, rfl⟩
    apply Fragment.legible_joined.mpr
    exact ⟨(bare field inBound).legible, legible _ (List.mem_map_of_mem inBound)⟩
  · have same : (bound.map fun field =>
        Fragment.joined field.column .equal field.placeholder).flatMap Fragment.placeholders =
          (bound.map (·.placeholder)).flatMap Fragment.placeholders := by
      rw [List.flatMap_map, List.flatMap_map]
      apply List.flatMap_congr
      intro field inBound
      simp [(bare field inBound).placeholders]
    exact same ▸ binds

section

variable (scope : Scope) {name : String} {entity : Entity} {record : Record}
  {exclude : List String} {draft later : Draft} (plain : scope.catalog.PlainProperties)
  (accepted : scope.catalog.entity name = .ok entity)

include plain accepted

theorem written_recordSetClause {fragment : Fragment}
    (run : (scope.recordSetClause entity record exclude).runFrom draft = (.ok fragment, later)) :
    draft.Written fragment later ∧ ∃ rest, fragment = .word "SET" :: rest := by
  simp only [recordSetClause, Build.runFrom_bind_eq_ok] at run
  rcases run with ⟨bound, middle, inner, rest⟩
  rcases written_boundFields plain accepted inner with ⟨written, bare⟩
  split at rest
  · cases rest
  · rw [Build.runFrom_pure_eq_ok] at rest
    rcases rest with ⟨rfl, rfl⟩
    have keyword : Fragment.Bare [.word "SET"] := Fragment.bare_word (by decide)
    exact ⟨(writtenAll_assigned written bare).commaSeparated.after keyword, _, rfl⟩

theorem written_insertLists {columns values : Fragment}
    (run : (scope.insertLists entity record exclude).runFrom draft =
      (.ok (columns, values), later)) :
    columns.Bare ∧ draft.Written values later := by
  simp only [insertLists, Build.runFrom_bind_eq_ok] at run
  rcases run with ⟨bound, middle, inner, rest⟩
  rcases written_boundFields plain accepted inner with ⟨written, bare⟩
  split at rest
  · cases rest
  · rw [Build.runFrom_pure_eq_ok, Prod.mk.injEq] at rest
    rcases rest with ⟨⟨rfl, rfl⟩, rfl⟩
    refine ⟨Fragment.bare_commaSeparated ?_, written.commaSeparated⟩
    simpa using bare

theorem writtenAll_keyComparisons {keys : List String} {fragments : List Fragment}
    (run : (scope.keyComparisons entity record keys).runFrom draft = (.ok fragments, later)) :
    draft.WrittenAll fragments later := by
  induction keys generalizing draft fragments with
  | nil =>
      rw [keyComparisons, Build.runFrom_pure_eq_ok] at run
      rcases run with ⟨rfl, rfl⟩
      exact draft.writtenAll_nil
  | cons key keys induction =>
      cases absent : (record.value key).isNull with
      | true =>
          rw [keyComparisons] at run
          simp [absent, Build.runFrom_bind_eq_ok] at run
      | false =>
          rw [keyComparisons] at run
          simp only [absent, Bool.false_eq_true, if_false, Build.runFrom_bind_eq_ok,
            Build.runFrom_pure_eq_ok, Build.runFrom_lift_eq_ok] at run
          rcases run with
            ⟨column, _, ⟨found, rfl⟩, bound, middle, head, rest, last, tail, rfl, rfl⟩
          have bare := bare_column (Catalog.isPlainIdentifier_aliasName accepted) found
          have written := Build.written_input (plain _ (maps_of_column accepted found)) head
          have compared : draft.Written (Fragment.joined column .equal bound) middle := by
            apply written.within
            · intro legible
              exact Fragment.legible_joined.mpr ⟨bare.legible, legible⟩
            · simp [bare.placeholders]
          exact compared.cons (induction tail)

/-- The conditions on the key carry on a where clause. -/
theorem written_keyConditions {fragment : Fragment}
    (run : (scope.keyConditions entity record).runFrom draft = (.ok fragment, later)) :
    draft.Written fragment later ∧ fragment.StartsApart := by
  unfold keyConditions at run
  split at run
  · cases run
  · simp only [Build.runFrom_bind_eq_ok, Build.runFrom_pure_eq_ok] at run
    rcases run with ⟨comparisons, last, inner, rfl, rfl⟩
    have written := writtenAll_keyComparisons scope plain accepted inner
    refine ⟨written_added written, ?_⟩
    apply Fragment.startsApart_flatten
    simp only [List.mem_map, forall_exists_index, and_imp, forall_apply_eq_imp_iff₂]
    exact fun comparison _ => Fragment.startsApart_cons rfl

end

end Scope

/-! What tells the changed rows. -/

namespace Scope

variable {scope : Scope}

/-- A returned column is that of a field or that of a member which the selection names. -/
theorem returnedColumn_cases {entity : Entity} {select : Option Expr}
    {returned : List ReturnedColumn}
    (found : scope.returnedColumns entity select = .ok returned) :
    ∀ each ∈ returned,
      scope.column entity each.property = .ok each.column ∨
      ∃ path, scope.member path = .ok each.column ∧
        (each.property = path.member ∨
          ∃ selector ∈ select, each.property ∈ selector.boundNames) := by
  intro each member
  unfold returnedColumns at found
  split at found
  · rcases mem_of_mapM_eq_ok found each member with ⟨field, -, fieldFound⟩
    rcases bind_eq_ok.mp fieldFound with ⟨column, columnFound, shown⟩
    cases shown
    exact .inl columnFound
  · next selector =>
      split at found
      · next path shape =>
          rcases bind_eq_ok.mp found with ⟨column, columnFound, shown⟩
          cases shown
          rw [List.mem_singleton] at member
          subst each
          exact .inr ⟨path, columnFound, .inl rfl⟩
      · next name bindings shape =>
          split at found
          · cases found
          · rcases mem_of_mapM_eq_ok found each member with ⟨binding, inBindings, bindingFound⟩
            unfold returnedBinding at bindingFound
            split at bindingFound
            · next path shape' =>
                rcases bind_eq_ok.mp bindingFound with ⟨column, columnFound, shown⟩
                cases shown
                refine .inr ⟨path, columnFound, .inr ⟨selector, rfl, ?_⟩⟩
                rw [Expr.boundNames, shape]
                exact List.mem_map_of_mem inBindings
            · cases bindingFound
      · cases found

theorem bare_returnedColumns (joins : scope.PlainJoin) {entity : Entity}
    (aliasPlain : isPlainIdentifier entity.aliasName = true) {select : Option Expr}
    {returned : List ReturnedColumn}
    (found : scope.returnedColumns entity select = .ok returned) :
    ∀ each ∈ returned, each.column.Bare := by
  intro each member
  rcases returnedColumn_cases found each member with column | ⟨path, column, -⟩
  · exact bare_column aliasPlain column
  · exact Expr.bare_member joins column

end Scope

/-- Outputs are named after the properties they return, so the properties have to have
names that a placeholder can carry. -/
theorem isPlainIdentifier_outputName {property : String}
    (plain : isPlainIdentifier property = true) :
    isPlainIdentifier (outputName property) = true := by
  have characters : outputName property = "out_" ++ String.ofList property.toList := by
    simp [outputName]
  rw [characters]
  exact isPlainIdentifier_append (by decide) (word_of_isPlainIdentifier plain).2

namespace Scope

theorem plain_of_returnedColumns {catalog : Catalog} (plain : catalog.PlainProperties)
    {query : Query} (names : query.PlainNames) {entity : Entity}
    (accepted : catalog.entity query.entity = .ok entity) {returned : List ReturnedColumn}
    (found : (unqualified catalog).returnedColumns entity query.select = .ok returned) :
    ∀ each ∈ returned, isPlainIdentifier each.property = true := by
  intro each member
  rcases returnedColumn_cases found each member with
    column | ⟨path, column, same | ⟨selector, selected, bound⟩⟩
  · have mapped := maps_of_column accepted column
    exact plain ⟨query.entity, each.property⟩ mapped
  · rcases member_eq_ok.mp column with ⟨reference, resolved, -⟩
    have mapped := maps_of_reference? resolved
    exact same ▸ plain path mapped
  · exact names.select selector selected each.property bound

end Scope

theorem ReturnedColumn.bare_named {returned : ReturnedColumn} (bare : returned.column.Bare)
    (lexical : Lexical) : (returned.named lexical).Bare := by
  unfold named
  split
  · exact bare
  · exact bare.renamed _

namespace Dialect

variable {dialect : Dialect} {entity : Entity} {columns : List ReturnedColumn}

/-- But for Oracle the clause shows no placeholder and binds nothing. -/
theorem bare_returningClause (notOracle : dialect ≠ .oracle)
    (bare : ∀ each ∈ columns, each.column.Bare) {draft later : Draft} {clause : Fragment}
    (run : (dialect.returningClause entity columns).runFrom draft = (.ok clause, later)) :
    clause.Bare ∧ draft = later := by
  have named : ∀ column ∈ columns.map (·.named dialect.lexical), column.Bare := by
    intro column member
    rcases List.mem_map.mp member with ⟨each, inColumns, rfl⟩
    exact ReturnedColumn.bare_named (bare each inColumns) dialect.lexical
  cases dialect with
  | mysql =>
      simp only [returningClause, Build.runFrom_pure_eq_ok] at run
      rcases run with ⟨rfl, rfl⟩
      have select : Fragment.Bare [.word "SELECT"] := Fragment.bare_word (by decide)
      have source : Fragment.Bare [.word "FROM"] := Fragment.bare_word (by decide)
      have table : Fragment.Bare entity.tableName := ⟨Fragment.legible_singleton.mpr trivial, rfl⟩
      have listed := select.append_space (Fragment.bare_commaSeparated named)
      exact ⟨by simpa using (listed.append_space source).append_space table, rfl⟩
  | sqlServer =>
      simp only [returningClause, Build.runFrom_pure_eq_ok] at run
      rcases run with ⟨rfl, rfl⟩
      have output : Fragment.Bare [.word "OUTPUT"] := Fragment.bare_word (by decide)
      refine ⟨?_, rfl⟩
      apply output.append_space
      apply Fragment.bare_commaSeparated
      intro column member
      rcases List.mem_map.mp member with ⟨inner, inNamed, rfl⟩
      have innerBare := named inner inNamed
      exact ⟨(Fragment.legible_cons_cons rfl).mpr ⟨by decide, innerBare.legible⟩,
        by simp [innerBare.placeholders]⟩
  | oracle => exact absurd rfl notOracle

end Dialect

end EntitySql
