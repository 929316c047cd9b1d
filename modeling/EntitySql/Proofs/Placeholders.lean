import EntitySql.Operation
import EntitySql.Proofs.WriteText

/-! Placeholders and parameters. Read left to right, the placeholders of a statement are
the parameters in their order, each once. Two dialects tell the changed rows in a way
of their own: MySQL shows the conditions a second time, and Oracle ends the statement
with parameters that it fills. -/

namespace EntitySql

namespace Query

variable {catalog : Catalog} {dialect : Dialect} {query : Query} {draft later : Draft}
  {built : Built} (plain : catalog.PlainProperties) (names : query.PlainNames)

include plain names

/-! Statements that read. -/

theorem written_buildGet
    (run : (query.buildGet catalog dialect).runFrom draft = (.ok built, later)) :
    draft.Written built.sql later := by
  cases dialect <;> simp only [buildGet, Build.runFrom_bind_eq_ok, Build.runFrom_pure_eq_ok] at run
  case mysql =>
    rcases run with ⟨clauses, last, inner, rfl, rfl⟩
    exact Fragment.written_limit (SelectClauses.written_sql plain names inner) 1
  case sqlServer =>
    rcases run with ⟨clauses, last, inner, rfl, rfl⟩
    exact SelectClauses.written_sql plain names inner
  case oracle =>
    rcases run with ⟨clauses, last, inner, rfl, rfl⟩
    exact Fragment.written_firstRows (SelectClauses.written_sql plain names inner) 1

theorem written_buildList
    (run : (query.buildList catalog dialect).runFrom draft = (.ok built, later)) :
    draft.Written built.sql later := by
  simp only [buildList, Build.runFrom_bind_eq_ok, Build.runFrom_pure_eq_ok] at run
  rcases run with ⟨clauses, last, inner, rfl, rfl⟩
  have written := SelectClauses.written_sql plain names inner
  dsimp only
  split
  · exact Fragment.written_limit written _
  · exact Fragment.written_firstRows written _
  · exact written

theorem written_buildPage {index size : UInt32}
    (run : (query.buildPage catalog dialect index size).runFrom draft = (.ok built, later)) :
    draft.Written built.sql later := by
  simp only [buildPage, Build.runFrom_bind_eq_ok, Build.runFrom_lift_eq_ok] at run
  rcases run with ⟨rows, _, ⟨-, rfl⟩, clauses, middle, inner, rest⟩
  have written := SelectClauses.written_sql plain names inner
  cases dialect <;> simp only [Build.runFrom_bind_eq_ok, Build.runFrom_pure_eq_ok,
    Build.runFrom_lift_eq_ok] at rest
  case mysql =>
    rcases rest with ⟨rfl, rfl⟩
    exact Fragment.written_offsetLimit written rows
  case sqlServer =>
    rcases rest with ⟨ordered, _, ⟨found, rfl⟩, rfl, rfl⟩
    rcases SelectClauses.writtenAll_parts plain names inner with ⟨parts, accepted⟩
    have aliasPlain := Catalog.isPlainIdentifier_aliasName accepted
    exact Fragment.written_offsetFetch
      (SelectClauses.written_withDefaultOrder parts aliasPlain found) rows
  case oracle =>
    rcases rest with ⟨rfl, rfl⟩
    exact Fragment.written_rowsBetween written rows

theorem written_scalar {head : Scope → Build Fragment} {clauses : ScalarClauses}
    (headWritten : ∀ fragment middle,
      (head (.aliased catalog)).runFrom draft = (.ok fragment, middle) →
        draft.Written fragment middle)
    (run : (ScalarClauses.build catalog dialect query head).runFrom draft =
      (.ok clauses, later)) : draft.Written clauses.sql later := by
  have written := ScalarClauses.written_sql plain names headWritten run Fragment.appendable_nil
  simpa using written

theorem written_buildAny
    (run : (query.buildAny catalog dialect).runFrom draft = (.ok built, later)) :
    draft.Written built.sql later := by
  unfold buildAny at run
  simp only [Build.runFrom_bind_eq_ok] at run
  rcases run with ⟨clauses, middle, inner, rest⟩
  have headWritten (words : List String) (proper : ∀ word ∈ words, (Token.word word).Proper) :
      ∀ fragment middle, (pure (Fragment.words words) : Build Fragment).runFrom draft =
        (.ok fragment, middle) → draft.Written fragment middle := by
    intro fragment middle head
    rw [Build.runFrom_pure_eq_ok] at head
    rcases head with ⟨rfl, rfl⟩
    exact Draft.written_bare (Fragment.bare_words _ proper)
  cases dialect <;> rw [Build.runFrom_pure_eq_ok] at rest <;> rcases rest with ⟨rfl, rfl⟩
  case mysql =>
    exact Fragment.written_limit (written_scalar plain names (headWritten _ (by decide)) inner) 1
  case sqlServer =>
    exact written_scalar plain names (headWritten _ (by decide)) inner
  case oracle =>
    have both : Fragment.Bare [.word "AND"] := Fragment.bare_word (by decide)
    have written := ScalarClauses.written_sql plain names (headWritten _ (by decide)) inner
      (Fragment.appendable_space (both.append_space (Fragment.bare_rowNumberAtMost 1)))
    simpa [ScalarClauses.built] using written

theorem written_buildCount
    (run : (query.buildCount catalog dialect).runFrom draft = (.ok built, later)) :
    draft.Written built.sql later := by
  simp only [buildCount, Build.runFrom_bind_eq_ok, Build.runFrom_pure_eq_ok] at run
  rcases run with ⟨clauses, last, inner, rfl, rfl⟩
  apply written_scalar plain names _ inner
  intro fragment middle head
  rw [Build.runFrom_pure_eq_ok] at head
  rcases head with ⟨rfl, rfl⟩
  exact Draft.written_bare ⟨⟨by decide, by decide⟩, rfl⟩

theorem written_buildSummary {summary : Summary} {selector : Option Expr}
    (run : (query.buildSummary catalog dialect summary selector).runFrom draft =
      (.ok built, later)) : draft.Written built.sql later := by
  simp only [buildSummary, Build.runFrom_bind_eq_ok, Build.runFrom_pure_eq_ok] at run
  rcases run with ⟨clauses, last, inner, rfl, rfl⟩
  apply written_scalar plain names _ inner
  intro fragment middle head
  simp only [Summary.buildHead, Build.runFrom_bind_eq_ok, Build.runFrom_pure_eq_ok] at head
  rcases head with ⟨column, _, summarized, rfl, rfl⟩
  rcases Scope.bare_summarizedColumn (Scope.plainJoin_aliased catalog) summarized with
    ⟨bare, rfl⟩
  have select : Fragment.Bare [.word "SELECT"] := Fragment.bare_word (by decide)
  have called : (Fragment.call summary.aggregate.keyword column).Bare :=
    ⟨(Fragment.legible_call (Expr.proper_keyword _)).mpr bare.legible, by simp [bare.placeholders]⟩
  apply Draft.written_bare
  apply select.append_space
  split
  · refine ⟨(Fragment.legible_call (by decide)).mpr ?_, by simp [called.placeholders]⟩
    apply (Fragment.legible_append_cons rfl).mpr
    exact ⟨called.legible, Fragment.legible_singleton.mpr (by decide)⟩
  · exact called

/-! Statements that write. -/

omit names in
theorem written_insertClauses {record : Record} {exclude : List String}
    {clauses : InsertClauses}
    (run : (query.insertClauses catalog record exclude).runFrom draft = (.ok clauses, later)) :
    draft.Written clauses.sql later ∧ catalog.entity query.entity = .ok clauses.entity := by
  simp only [insertClauses, Build.runFrom_bind_eq_ok, Build.runFrom_pure_eq_ok,
    Build.runFrom_lift_eq_ok] at run
  rcases run with ⟨entity, _, ⟨accepted, rfl⟩, ⟨columns, values⟩, last, inner, rfl, rfl⟩
  refine ⟨?_, accepted⟩
  rcases Scope.written_insertLists (.unqualified catalog) plain accepted inner with ⟨bare, written⟩
  have insert := Fragment.bare_words ["INSERT", "INTO"] (by decide)
  have table : Fragment.Bare entity.tableName := ⟨Fragment.legible_singleton.mpr trivial, rfl⟩
  have listed : (Fragment.parenthesized columns).Bare :=
    ⟨Fragment.legible_parenthesized.mpr bare.legible, by simp [bare.placeholders]⟩
  have keyword : Fragment.Bare [.word "VALUES"] := Fragment.bare_word (by decide)
  have head := ((insert.append_space table).append_space listed).append_space keyword
  have enclosed : draft.Written (Fragment.parenthesized values) last := by
    apply written.within
    · exact Fragment.legible_parenthesized.mpr
    · simp
  simpa [InsertClauses.sql] using enclosed.after head

omit names in
theorem written_buildInsert {record : Record} {exclude : List String}
    (run : (query.buildInsert catalog record exclude).runFrom draft = (.ok built, later)) :
    draft.Written built.sql later := by
  simp only [buildInsert, Build.runFrom_bind_eq_ok, Build.runFrom_pure_eq_ok] at run
  rcases run with ⟨clauses, last, inner, rfl, rfl⟩
  exact (written_insertClauses plain inner).1

omit plain names in
theorem written_followedBy {first second : Fragment} (written : draft.Written first later)
    (bare : second.Bare) : draft.Written (followedBy first second) later := by
  apply written.within
  · intro legible
    exact (Fragment.legible_append_cons rfl).mpr ⟨legible, bare.legible⟩
  · simp [followedBy, bare.placeholders]

omit names in
theorem written_buildInsertIdentity (notOracle : dialect ≠ .oracle) {record : Record}
    {exclude : List String}
    (run : (query.buildInsertIdentity catalog dialect record exclude).runFrom draft =
      (.ok built, later)) : draft.Written built.sql later := by
  simp only [buildInsertIdentity, Build.runFrom_bind_eq_ok] at run
  rcases run with ⟨clauses, middle, inner, rest⟩
  have written := (written_insertClauses plain inner).1
  split at rest
  · cases rest
  · cases dialect with
    | mysql =>
        rw [Build.runFrom_pure_eq_ok] at rest
        rcases rest with ⟨rfl, rfl⟩
        exact written_followedBy written ⟨⟨by decide, by decide⟩, rfl⟩
    | sqlServer =>
        rw [Build.runFrom_pure_eq_ok] at rest
        rcases rest with ⟨rfl, rfl⟩
        exact written_followedBy written ⟨⟨by decide, by decide⟩, rfl⟩
    | oracle => exact absurd rfl notOracle

omit names in
theorem written_updateClauses {updater : Expr} {clauses : UpdateClauses}
    (run : (query.updateClauses catalog updater).runFrom draft = (.ok clauses, later)) :
    catalog.entity query.entity = .ok clauses.entity ∧
    (∃ middle, draft.Written clauses.assignments middle ∧
      middle.Written clauses.conditions later) ∧
    (∃ rest, clauses.assignments = .word "SET" :: rest) ∧
    ∃ rest, clauses.conditions = .word "WHERE" :: rest := by
  rcases run_of_updateClauses run with
    ⟨entity, assignments, conditions, accepted, set, filters, warned⟩
  have joins := Scope.plainJoin_unqualified catalog
  rcases Scope.written_setClause joins plain set with ⟨written, starts⟩
  have filtered := Scope.written_whereClause joins (fun _ _ => plain.members _) filters
  refine ⟨accepted, ⟨_, written, ?_⟩, starts, ?_⟩
  · exact filtered.of_params (params_of_warnUnfiltered warned)
  · simp only [Scope.whereClause, Build.runFrom_bind_eq_ok, Build.runFrom_pure_eq_ok] at filters
    rcases filters with ⟨fragments, _, -, rfl, -⟩
    exact ⟨_, rfl⟩

omit plain names in
theorem written_sqlWith {clauses : UpdateClauses} {clause : Fragment} {middle : Draft}
    (assigned : draft.Written clauses.assignments middle) (bare : clause.Bare)
    (filtered : middle.Written clauses.conditions later) :
    draft.Written (clauses.sqlWith clause) later := by
  have update : Fragment.Bare [.word "UPDATE"] := Fragment.bare_word (by decide)
  have table : Fragment.Bare clauses.entity.tableName :=
    ⟨Fragment.legible_singleton.mpr trivial, rfl⟩
  apply Draft.WrittenAll.spaced
  apply (Draft.written_bare (update.append_space table)).cons
  apply assigned.cons
  apply (Draft.written_bare bare).cons
  exact filtered.cons (Draft.writtenAll_nil _)

omit names in
theorem written_buildUpdate {updater : Expr}
    (run : (query.buildUpdate catalog updater).runFrom draft = (.ok built, later)) :
    draft.Written built.sql later := by
  simp only [buildUpdate, Build.runFrom_bind_eq_ok, Build.runFrom_pure_eq_ok] at run
  rcases run with ⟨clauses, last, inner, rfl, rfl⟩
  rcases written_updateClauses plain inner with ⟨-, ⟨middle, assigned, filtered⟩, -⟩
  exact written_sqlWith assigned Fragment.bare_nil filtered

omit names in
theorem written_buildUpdateRecord {record : Record} {exclude : List String} {everyRow : Bool}
    (run : (query.buildUpdateRecord catalog record exclude everyRow).runFrom draft =
      (.ok built, later)) : draft.Written built.sql later := by
  simp only [buildUpdateRecord, Build.runFrom_bind_eq_ok, Build.runFrom_lift_eq_ok] at run
  rcases run with ⟨entity, _, ⟨accepted, rfl⟩, assignments, second, set, conditions, third,
    filters, rest⟩
  have assigned :=
    (Scope.written_recordSetClause (.unqualified catalog) plain accepted set).1
  have joins := Scope.plainJoin_unqualified catalog
  have filtered := Scope.written_whereClause joins (fun _ _ => plain.members _) filters
  split at rest
  · simp only [Build.runFrom_bind_eq_ok, Build.runFrom_pure_eq_ok] at rest
    rcases rest with ⟨_, _, ⟨rfl, rfl⟩, rfl, rfl⟩
    apply written_sqlWith assigned Fragment.bare_nil
    simpa using filtered
  · split at rest
    · simp only [Build.runFrom_bind_eq_ok, Build.runFrom_pure_eq_ok] at rest
      rcases rest with ⟨_, _, warned, _, _, ⟨rfl, rfl⟩, rfl, rfl⟩
      apply written_sqlWith assigned Fragment.bare_nil
      simpa using filtered.of_params (params_of_warnUnfiltered warned)
    · simp only [Build.runFrom_bind_eq_ok, Build.runFrom_pure_eq_ok] at rest
      rcases rest with ⟨keyed, last, keys, rfl, rfl⟩
      rcases Scope.written_keyConditions (.unqualified catalog) plain accepted keys with
        ⟨written, apart⟩
      apply written_sqlWith assigned Fragment.bare_nil
      refine ⟨Fragment.legible_append filtered.legible written.legible apart, ?_⟩
      simpa using filtered.binds.trans written.binds

omit names in
theorem written_buildDelete
    (run : (query.buildDelete catalog).runFrom draft = (.ok built, later)) :
    draft.Written built.sql later := by
  simp only [buildDelete, Build.runFrom_bind_eq_ok, Build.runFrom_pure_eq_ok,
    Build.runFrom_lift_eq_ok] at run
  rcases run with ⟨entity, _, ⟨accepted, rfl⟩, conditions, middle, filters, _, last, warned,
    rfl, rfl⟩
  have joins := Scope.plainJoin_unqualified catalog
  have filtered := (Scope.written_whereClause joins (fun _ _ => plain.members _)
    filters).of_params (params_of_warnUnfiltered warned)
  have delete := Fragment.bare_words ["DELETE", "FROM"] (by decide)
  have table : Fragment.Bare entity.tableName := ⟨Fragment.legible_singleton.mpr trivial, rfl⟩
  simpa using filtered.after (delete.append_space table)

end Query

/-! Outputs. -/

/-- The parameter is filled with the property: it is named after it, with a number
behind the name where an earlier parameter has it. -/
def Parameter.Returns (parameter : Parameter) (property : String) : Prop :=
  parameter.direction = .output ∧
    ∃ taken, parameter.name = freshName taken (outputName property)

namespace Build

/-- What declaring outputs leaves: one parameter for each property, in their order. -/
structure Declares (draft : Draft) (properties : List String) (parameters : List Parameter)
    (later : Draft) : Prop where
  entries : later.params.entries = draft.params.entries ++ parameters
  returns : List.Forall₂ (fun property parameter => parameter.Returns property)
    properties parameters
  plain : ∀ parameter ∈ parameters, isPlainIdentifier parameter.name = true
  distinct : draft.params.Distinct → later.params.Distinct

/-- The placeholders of parameters. -/
def placeholdersOf (parameters : List Parameter) : List Fragment :=
  parameters.map fun parameter => [.placeholder parameter.name]

theorem declares_output {property : String} (plain : isPlainIdentifier property = true)
    {draft later : Draft} {fragment : Fragment}
    (run : (output (outputName property)).runFrom draft = (.ok fragment, later)) :
    ∃ parameter : Parameter, fragment = [.placeholder parameter.name] ∧
      Declares draft [property] [parameter] later := by
  rw [runFrom_output] at run
  cases run
  have outPlain := isPlainIdentifier_outputName plain
  have named : (outputName property).isEmpty = false := by simp [outputName]
  refine ⟨⟨draft.params.nameFor (outputName property), .null, .output⟩, rfl, rfl, ?_, ?_, ?_⟩
  · refine .cons ⟨rfl, draft.params.names, ?_⟩ .nil
    simp [Params.nameFor, named]
  · simpa using draft.params.isPlainIdentifier_nameFor outPlain
  · exact Params.distinct_push (draft.params.contains_nameFor _)

theorem declares_outputs {properties : List String}
    (plain : ∀ property ∈ properties, isPlainIdentifier property = true)
    {draft later : Draft} {fragments : List Fragment}
    (run : (outputs properties).runFrom draft = (.ok fragments, later)) :
    ∃ parameters, fragments = placeholdersOf parameters ∧
      Declares draft properties parameters later := by
  induction properties generalizing draft fragments with
  | nil =>
      rw [outputs, runFrom_pure_eq_ok] at run
      rcases run with ⟨rfl, rfl⟩
      exact ⟨[], rfl, by simp, .nil, by simp, id⟩
  | cons property properties induction =>
      simp only [outputs, runFrom_bind_eq_ok, runFrom_pure_eq_ok] at run
      rcases run with ⟨first, middle, head, rest, last, tail, rfl, rfl⟩
      rcases declares_output (plain property List.mem_cons_self) head with
        ⟨parameter, rfl, declared⟩
      have restPlain := fun other member => plain other (List.mem_cons_of_mem _ member)
      rcases induction restPlain tail with ⟨parameters, rfl, others⟩
      refine ⟨parameter :: parameters, rfl, ?_, ?_, ?_, ?_⟩
      · rw [others.entries, declared.entries, List.append_assoc, List.singleton_append]
      · cases declared.returns with
        | cons returns _ => exact .cons returns others.returns
      · intro other member
        rcases List.mem_cons.mp member with rfl | member
        · exact declared.plain _ List.mem_cons_self
        · exact others.plain other member
      · exact fun clean => others.distinct (declared.distinct clean)

end Build

/-! How the placeholders of a statement and its parameters go together. -/

namespace Fragment

/-- Every placeholder is an input, in the order of the bag. -/
def Shows (tokens : Fragment) (params : Params) : Prop :=
  tokens.placeholders = params.names ∧
    ∀ parameter ∈ params.entries, parameter.direction = .input

/-- Every placeholder is an input, in the order of the bag; a second statement then
shows the conditions of the first once more and nothing else. -/
def ShowsAgain (tokens : Fragment) (params : Params) : Prop :=
  ∃ first conditions second : Fragment, tokens =
      first ++ conditions ++ .symbol .semicolon :: (second ++ .space :: conditions) ∧
    conditions.head? = some (.word "WHERE") ∧
    second.head? = some (.word "SELECT") ∧
    second.placeholders = [] ∧
    Shows (first ++ conditions) params

/-- Every placeholder is a parameter, in the order of the bag: the outputs stand behind
the last keyword, one for each returned column and in the order of these, and everything
before is an input. -/
def ReturnsInto (tokens : Fragment) (returned : List ReturnedColumn) (params : Params) : Prop :=
  tokens.placeholders = params.names ∧
  ∃ (first : Fragment) (inputs outputs : List Parameter), tokens = first ++ .space ::
      returning (returned.map (·.column)) (Build.placeholdersOf outputs) ∧
    (∀ each ∈ returned, each.column.placeholders = []) ∧
    params.entries = inputs ++ outputs ∧
    first.Shows ⟨inputs⟩ ∧
    List.Forall₂ (fun each parameter => parameter.Returns each.property) returned outputs

end Fragment

def Operation.query : Operation → Query
  | .get query | .list query | .page query _ _ | .any query | .count query
  | .summarize _ query _ | .insert query _ _ | .insertIdentity query _ _ | .update query _
  | .updateSelect query _ | .updateRecord query _ _ _ | .delete query => query

/-- What an operation promises of the placeholders in a dialect. -/
def Operation.Corresponds (catalog : Catalog) (dialect : Dialect) (operation : Operation)
    (tokens : Fragment) (params : Params) : Prop :=
  match dialect, operation with
  | .mysql, .updateSelect _ _ => tokens.ShowsAgain params
  | .oracle, .updateSelect query _ =>
      ∃ entity returned, catalog.entity query.entity = .ok entity ∧
        (Scope.unqualified catalog).returnedColumns entity query.select = .ok returned ∧
        tokens.ReturnsInto returned params
  | .oracle, .insertIdentity query _ _ =>
      ∃ entity property column, catalog.entity query.entity = .ok entity ∧
        entity.identityOrKey? = some property ∧
        (Scope.unqualified catalog).column entity property = .ok column ∧
        tokens.ReturnsInto [{ column, property }] params
  | _, _ => tokens.Shows params

/-- Built from nothing, a statement is legible, its parameters do not clash, and its
placeholders go together with them. -/
def Operation.Sound (catalog : Catalog) (dialect : Dialect) (operation : Operation)
    (tokens : Fragment) (params : Params) : Prop :=
  tokens.Legible ∧ params.Distinct ∧ operation.Corresponds catalog dialect tokens params

theorem shows_of_written {fragment : Fragment} {later : Draft}
    (written : Draft.Written {} fragment later) :
    fragment.Shows later.params ∧ later.params.Distinct := by
  rcases written.binds with ⟨added, entries, named, directed, distinct⟩
  have same : later.params.entries = added := entries
  refine ⟨⟨?_, ?_⟩, distinct List.nodup_nil⟩
  · rw [← named, ← same]
    rfl
  · rw [same]
    exact directed

theorem placeholders_placeholdersOf (parameters : List Parameter) :
    (Build.placeholdersOf parameters).flatMap Fragment.placeholders =
      parameters.map (·.name) := by
  induction parameters with
  | nil => rfl
  | cons parameter parameters induction =>
      rw [List.map_cons, ← induction]
      rfl

theorem placeholders_returning {columns : List Fragment}
    (bare : ∀ column ∈ columns, column.Bare) (outputs : List Parameter) :
    (Fragment.returning columns (Build.placeholdersOf outputs)).placeholders =
      outputs.map (·.name) := by
  simp [Fragment.returning, Fragment.placeholders_flatMap_bare bare,
    placeholders_placeholdersOf]

theorem legible_returning {columns : List Fragment} (bare : ∀ column ∈ columns, column.Bare)
    {outputs : List Parameter}
    (plain : ∀ parameter ∈ outputs, isPlainIdentifier parameter.name = true) :
    (Fragment.returning columns (Build.placeholdersOf outputs)).Legible := by
  have shape : Fragment.returning columns (Build.placeholdersOf outputs) =
      .word "RETURNING" :: .space :: (Fragment.commaSeparated columns ++
        .space :: .word "INTO" :: .space ::
          Fragment.commaSeparated (Build.placeholdersOf outputs)) := by
    simp [Fragment.returning]
  rw [shape, Fragment.legible_cons_cons rfl, Fragment.legible_append_cons rfl,
    Fragment.legible_cons_cons rfl]
  refine ⟨by decide, (Fragment.bare_commaSeparated bare).legible, by decide, ?_⟩
  apply Fragment.legible_commaSeparated
  intro fragment member
  rcases List.mem_map.mp member with ⟨parameter, inOutputs, rfl⟩
  exact Fragment.legible_singleton.mpr
    (proper_placeholder_of_isPlainIdentifier (plain parameter inOutputs))

/-- A statement behind which outputs are declared. -/
theorem sound_of_declares {first : Fragment} {middle later : Draft}
    {returned : List ReturnedColumn} {outputs : List Parameter}
    (written : Draft.Written {} first middle)
    (bare : ∀ each ∈ returned, each.column.Bare)
    (declares : Build.Declares middle (returned.map (·.property)) outputs later) :
    (first ++ .space :: Fragment.returning (returned.map (·.column))
      (Build.placeholdersOf outputs)).Legible ∧
    later.params.Distinct ∧
    Fragment.ReturnsInto (first ++ .space :: Fragment.returning (returned.map (·.column))
      (Build.placeholdersOf outputs)) returned later.params := by
  rcases shows_of_written written with ⟨shows, distinct⟩
  have columnsBare : ∀ column ∈ returned.map (·.column), column.Bare := by
    simpa using bare
  refine ⟨?_, declares.distinct distinct, ?_, first, middle.params.entries, outputs, rfl, ?_,
    declares.entries, shows, ?_⟩
  · exact (Fragment.legible_append_cons rfl).mpr
      ⟨written.legible, legible_returning columnsBare declares.plain⟩
  · rw [Params.names, declares.entries, List.map_append, Fragment.placeholders_append, shows.1,
      Fragment.placeholders_space, placeholders_returning columnsBare]
    rfl
  · exact fun each member => (bare each member).placeholders
  · exact List.forall₂_map_left_iff.mp declares.returns

namespace Query

variable {catalog : Catalog} {query : Query} {later : Draft} {built : Built}
  (plain : catalog.PlainProperties)

include plain

theorem sound_buildInsertIdentity (dialect : Dialect) {record : Record} {exclude : List String}
    (run : (query.buildInsertIdentity catalog dialect record exclude).runFrom {} =
      (.ok built, later)) :
    (Operation.insertIdentity query record exclude).Sound catalog dialect built.sql
      later.params := by
  cases dialect with
  | mysql =>
      have written := written_buildInsertIdentity plain (by decide) run
      exact ⟨written.legible, (shows_of_written written).2, (shows_of_written written).1⟩
  | sqlServer =>
      have written := written_buildInsertIdentity plain (by decide) run
      exact ⟨written.legible, (shows_of_written written).2, (shows_of_written written).1⟩
  | oracle =>
      simp only [buildInsertIdentity, Build.runFrom_bind_eq_ok] at run
      rcases run with ⟨clauses, middle, inner, rest⟩
      rcases written_insertClauses plain inner with ⟨written, accepted⟩
      split at rest
      · cases rest
      · next property identified =>
          simp only [Build.runFrom_bind_eq_ok, Build.runFrom_pure_eq_ok,
            Build.runFrom_lift_eq_ok] at rest
          rcases rest with ⟨column, _, ⟨found, rfl⟩, output, last, declared, rfl, rfl⟩
          have bare := Scope.bare_column (Catalog.isPlainIdentifier_aliasName accepted) found
          have mapped := Scope.maps_of_column accepted found
          rcases Build.declares_output (plain ⟨query.entity, property⟩ mapped) declared with
            ⟨parameter, rfl, declares⟩
          have returned : ∀ each ∈ [ReturnedColumn.mk column property], each.column.Bare := by
            simpa using bare
          rcases sound_of_declares written returned declares with ⟨legible, distinct, into⟩
          exact ⟨legible, distinct, clauses.entity, property, column, accepted, identified, found,
            into⟩

omit plain in
/-- Without a clause of a dialect, the conditions end the statement. -/
theorem exists_sql_eq {clauses : UpdateClauses}
    (sets : ∃ rest, clauses.assignments = .word "SET" :: rest)
    (filters : ∃ rest, clauses.conditions = .word "WHERE" :: rest) :
    ∃ first, clauses.sql = first ++ clauses.conditions := by
  rcases sets with ⟨assignments, sets⟩
  rcases filters with ⟨conditions, filters⟩
  refine ⟨.word "UPDATE" :: .space :: clauses.entity.tableName ++ .space ::
    clauses.assignments ++ [.space], ?_⟩
  simp [UpdateClauses.sql, UpdateClauses.sqlWith, Fragment.spaced, sets, filters,
    List.intercalate_cons_cons, List.intercalate_singleton]

/-- Only Oracle names parameters after the columns that are told. -/
theorem sound_buildUpdateSelect (dialect : Dialect)
    (names : dialect = .oracle → query.PlainNames) {updater : Expr}
    (run : (query.buildUpdateSelect catalog dialect updater).runFrom {} = (.ok built, later)) :
    (Operation.updateSelect query updater).Sound catalog dialect built.sql later.params := by
  simp only [buildUpdateSelect, Build.runFrom_bind_eq_ok, Build.runFrom_lift_eq_ok] at run
  rcases run with ⟨clauses, middle, inner, columns, _, ⟨found, rfl⟩, clause, last, returning,
    rest⟩
  rcases written_updateClauses plain inner with
    ⟨accepted, ⟨set, assigned, filtered⟩, sets, filters⟩
  have joins := Scope.plainJoin_unqualified catalog
  have aliasPlain := Catalog.isPlainIdentifier_aliasName accepted
  have bare := Scope.bare_returnedColumns joins aliasPlain found
  have written := written_sqlWith assigned Fragment.bare_nil filtered
  cases dialect with
  | mysql =>
      rw [Build.runFrom_pure_eq_ok] at rest
      rcases rest with ⟨rfl, rfl⟩
      rcases Dialect.bare_returningClause (by decide) bare returning with ⟨clauseBare, rfl⟩
      rcases shows_of_written written with ⟨shows, distinct⟩
      refine ⟨?_, distinct, ?_⟩
      · apply (Fragment.legible_append_cons rfl).mpr
        refine ⟨written.legible, ?_⟩
        exact (Fragment.legible_append_cons rfl).mpr ⟨clauseBare.legible, filtered.legible⟩
      · rcases exists_sql_eq sets filters with ⟨first, sql⟩
        rcases filters with ⟨conditions, filters⟩
        refine ⟨first, clauses.conditions, clause, ?_, by simp [filters], ?_,
          clauseBare.placeholders, ?_⟩
        · rw [← sql]
          rfl
        · simp only [Dialect.returningClause, Build.runFrom_pure_eq_ok] at returning
          rw [← returning.1]
          rfl
        · exact sql ▸ shows
  | sqlServer =>
      rw [Build.runFrom_pure_eq_ok] at rest
      rcases rest with ⟨rfl, rfl⟩
      rcases Dialect.bare_returningClause (by decide) bare returning with ⟨clauseBare, rfl⟩
      have told := written_sqlWith assigned clauseBare filtered
      exact ⟨told.legible, (shows_of_written told).2, (shows_of_written told).1⟩
  | oracle =>
      rw [Build.runFrom_pure_eq_ok] at rest
      rcases rest with ⟨rfl, rfl⟩
      simp only [Dialect.returningClause, Build.runFrom_bind_eq_ok,
        Build.runFrom_pure_eq_ok] at returning
      rcases returning with ⟨outputs, _, declared, rfl, rfl⟩
      have named := Scope.plain_of_returnedColumns plain (names rfl) accepted found
      have propertiesPlain : ∀ property ∈ columns.map (·.property),
          isPlainIdentifier property = true := by
        simpa using named
      rcases Build.declares_outputs propertiesPlain declared with ⟨parameters, rfl, declares⟩
      rcases sound_of_declares written bare declares with ⟨legible, distinct, into⟩
      exact ⟨legible, distinct, clauses.entity, columns, accepted, found, into⟩

end Query

/-- Operations without a way of their own to tell the changed rows. -/
theorem sound_of_written {catalog : Catalog} {dialect : Dialect} {operation : Operation}
    {tokens : Fragment} {later : Draft} (written : Draft.Written {} tokens later)
    (ordinary : operation.Corresponds catalog dialect tokens later.params =
      tokens.Shows later.params) :
    operation.Sound catalog dialect tokens later.params := by
  rcases shows_of_written written with ⟨shows, distinct⟩
  exact ⟨written.legible, distinct, ordinary ▸ shows⟩

theorem sound_build {catalog : Catalog} {dialect : Dialect} {operation : Operation}
    (plain : catalog.PlainProperties) (names : operation.query.PlainNames) {later : Draft}
    {built : Built}
    (run : (operation.build catalog dialect).runFrom {} = (.ok built, later)) :
    operation.Sound catalog dialect built.sql later.params := by
  cases operation with
  | get query =>
      apply sound_of_written (Query.written_buildGet plain names run)
      cases dialect <;> rfl
  | list query =>
      apply sound_of_written (Query.written_buildList plain names run)
      cases dialect <;> rfl
  | page query index size =>
      apply sound_of_written (Query.written_buildPage plain names run)
      cases dialect <;> rfl
  | any query =>
      apply sound_of_written (Query.written_buildAny plain names run)
      cases dialect <;> rfl
  | count query =>
      apply sound_of_written (Query.written_buildCount plain names run)
      cases dialect <;> rfl
  | summarize summary query selector =>
      apply sound_of_written (Query.written_buildSummary plain names run)
      cases dialect <;> rfl
  | insert query record exclude =>
      apply sound_of_written (Query.written_buildInsert plain run)
      cases dialect <;> rfl
  | insertIdentity query record exclude =>
      exact Query.sound_buildInsertIdentity plain dialect run
  | update query updater =>
      apply sound_of_written (Query.written_buildUpdate plain run)
      cases dialect <;> rfl
  | updateSelect query updater =>
      exact Query.sound_buildUpdateSelect plain dialect (fun _ => names) run
  | updateRecord query record exclude everyRow =>
      apply sound_of_written (Query.written_buildUpdateRecord plain run)
      cases dialect <;> rfl
  | delete query =>
      apply sound_of_written (Query.written_buildDelete plain run)
      cases dialect <;> rfl

/-- Whatever the operation, the text of its statement reads back as tokens whose
placeholders go together with the parameters, and no name is bound twice. -/
theorem placeholders_correspond (catalog : Catalog) (dialect : Dialect) (operation : Operation)
    (plain : catalog.PlainProperties) (names : operation.query.PlainNames)
    {composition : Composition} {log : List LogLine}
    (composed : operation.compose catalog dialect = (.ok composition, log)) :
    ∃ tokens, dialect.readTokens composition.statement.sql = some tokens ∧
      composition.statement.params.Distinct ∧
      operation.Corresponds catalog dialect tokens composition.statement.params := by
  unfold Operation.compose at composed
  split at composed
  · next built draft run =>
      cases composed
      have sound := sound_build plain names run
      exact ⟨built.sql, dialect.readTokens_text sound.1, sound.2.1, sound.2.2⟩
  · cases composed

/-- An update that tells its rows, with a filter on the column that it assigns: Oracle
returns into outputs, MySQL shows the filter again. -/
theorem placeholders_correspond_updateSelect :
    ∃ returning rerunning tokens further,
      ((Operation.updateSelect .minors .comeOfAge).compose .people .oracle).1 = .ok returning ∧
      ((Operation.updateSelect .minors .comeOfAge).compose .people .mysql).1 = .ok rerunning ∧
      Dialect.oracle.readTokens returning.statement.sql = some tokens ∧
      Dialect.mysql.readTokens rerunning.statement.sql = some further ∧
      (Operation.updateSelect .minors .comeOfAge).Corresponds .people .oracle tokens
        returning.statement.params ∧
      further.ShowsAgain rerunning.statement.params := by
  have names : Query.minors.PlainNames := ⟨by simp [Query.minors], by simp [Query.minors]⟩
  rcases placeholders_correspond .people .oracle (.updateSelect .minors .comeOfAge)
    plainProperties_people names rfl with ⟨tokens, read, -, corresponds⟩
  rcases placeholders_correspond .people .mysql (.updateSelect .minors .comeOfAge)
    plainProperties_people names rfl with ⟨further, readToo, -, correspondsToo⟩
  exact ⟨_, _, tokens, further, rfl, rfl, read, readToo, corresponds, correspondsToo⟩

end EntitySql
