import EntitySql.Proofs.ClauseRuns
import EntitySql.Proofs.Placeholders
import EntitySql.Proofs.RecordBinding

/-! What all dialects have in common. Every operation is built in steps that know of no
dialect, and is then written down as the dialect wants it. What is left to do then cannot
fail, puts no value in and takes no other joins, so that an operation is refused by all
dialects for one reason or built by all of them with the same inputs. -/

namespace EntitySql

def Params.inputs (params : Params) : List Parameter :=
  params.entries.filter (·.direction = .input)

@[simp] theorem Params.inputs_addOutput (params : Params) (base : String) :
    (params.addOutput base).2.inputs = params.inputs := by
  simp [addOutput, push, inputs]

namespace Build

/-! Ending a build. -/

/-- The build succeeds and puts no value in; its result has the property. -/
def Ends (holds : α → Prop) (build : Build α) : Prop :=
  ∀ draft, ∃ result later, build.runFrom draft = (.ok result, later) ∧ holds result ∧
    later.params.inputs = draft.params.inputs

theorem ends_pure {holds : α → Prop} {result : α} (given : holds result) :
    Ends holds (pure result) :=
  fun draft => ⟨result, draft, rfl, given, rfl⟩

theorem ends_output (base : String) : (output base).Ends fun _ => True :=
  fun draft => ⟨_, _, runFrom_output base draft, trivial, draft.params.inputs_addOutput base⟩

theorem Ends.bind {build : Build α} {next : α → Build β} {first : α → Prop}
    {second : β → Prop} (head : build.Ends first)
    (tail : ∀ value, first value → (next value).Ends second) : (build >>= next).Ends second := by
  intro draft
  rcases head draft with ⟨value, middle, run, given, same⟩
  rcases tail value given middle with ⟨result, later, rest, holds, alike⟩
  exact ⟨result, later, runFrom_bind_eq_ok.mpr ⟨value, middle, run, rest⟩, holds,
    alike.trans same⟩

theorem ends_lift_bind {found : Except Error α} {value : α} {next : α → Build β}
    {holds : β → Prop} (accepted : found = .ok value) (tail : (next value).Ends holds) :
    (Build.lift found >>= next).Ends holds := by
  subst accepted
  exact tail

theorem ends_outputs (properties : List String) : (outputs properties).Ends fun _ => True := by
  induction properties with
  | nil => exact ends_pure trivial
  | cons property properties induction =>
      exact (ends_output _).bind fun _ _ => induction.bind fun _ _ => ends_pure trivial

/-! Completing a build. -/

/-- The build fails where the core does and for the same reason; otherwise it puts in what
the core puts in, and takes the joins that the core's result tells. -/
def Completes (build : Build Built) (core : Build α) (joins : α → List Navigation) : Prop :=
  ∀ draft,
    (∀ error later, core.runFrom draft = (.error error, later) →
      (build.runFrom draft).1 = .error error) ∧
    ∀ result later, core.runFrom draft = (.ok result, later) →
      ∃ built final, build.runFrom draft = (.ok built, final) ∧ built.joins = joins result ∧
        final.params.inputs = later.params.inputs

theorem completes_bind {core : Build α} {joins : α → List Navigation}
    {finish : α → Build Built}
    (ends : core.Gives fun result => (finish result).Ends fun built =>
      built.joins = joins result) :
    (core >>= finish).Completes core joins := by
  intro draft
  refine ⟨?_, ?_⟩
  · intro error later run
    simp only [runFrom_bind, run]
  · intro result later run
    rcases ends draft result later run later with ⟨built, final, rest, taken, same⟩
    exact ⟨built, final, runFrom_bind_eq_ok.mpr ⟨result, later, run, rest⟩, taken, same⟩

theorem Ends.completes {build : Build Built} {joins : α → List Navigation} {result : α}
    (ends : build.Ends fun built => built.joins = joins result) :
    build.Completes (pure result) joins := by
  intro draft
  refine ⟨?_, ?_⟩
  · rintro _ _ ⟨⟩
  · rintro _ _ ⟨⟩
    exact ends draft

theorem completes_fail {joins : α → List Navigation} (error : Error) :
    (fail error).Completes (fail error) joins := by
  intro draft
  refine ⟨?_, ?_⟩
  · rintro _ _ ⟨⟩
    rfl
  · rintro _ _ ⟨⟩

/-- A build that does not depend on the dialect is its own core. -/
theorem completes_self (build : Build Built) : build.Completes build (·.joins) :=
  fun _ => ⟨fun _ _ run => congrArg Prod.fst run, fun _ later run => ⟨_, later, run, rfl, rfl⟩⟩

theorem Completes.after {first : Build γ} {next : γ → Build Built} {core : γ → Build α}
    {joins : α → List Navigation}
    (rest : first.Gives fun value => (next value).Completes (core value) joins) :
    (first >>= next).Completes (first >>= core) joins := by
  intro draft
  rw [runFrom_bind, runFrom_bind]
  rcases run : first.runFrom draft with ⟨error | value, middle⟩
  · refine ⟨?_, ?_⟩
    · rintro other later same
      cases same
      rfl
    · rintro result later impossible
      cases impossible
  · exact rest draft value middle run middle

end Build

/-! Statements that read. -/

namespace Dialect

/-- A table hint goes behind what all dialects write. -/
theorem fromClause_eq (dialect : Dialect) (entity : Entity) (noLock : Bool) :
    dialect.fromClause entity noLock =
      Fragment.spaced [mysql.fromClause entity noLock, dialect.tableHint noLock] := by
  simp [fromClause, tableHint, Fragment.spaced]

end Dialect

/-- The clauses as a dialect writes them. -/
def SelectClauses.inDialect (clauses : SelectClauses) (dialect : Dialect) (query : Query)
    (top : Option UInt32) : SelectClauses :=
  { clauses with
    keyword := dialect.selectKeyword query.distinct top
    source := dialect.fromClause clauses.entity query.noLock }

/-- The clauses without a cap and without a table hint. -/
def Query.rowClauses (catalog : Catalog) (query : Query) : Build SelectClauses :=
  SelectClauses.build catalog .mysql query none

theorem SelectClauses.build_eq (catalog : Catalog) (dialect : Dialect) (query : Query)
    (top : Option UInt32) :
    build catalog dialect query top = do
      let clauses ← query.rowClauses catalog
      return clauses.inDialect dialect query top := by
  simp only [build, Query.rowClauses, bind_assoc, pure_bind, inDialect]

def ScalarClauses.inDialect (clauses : ScalarClauses) (dialect : Dialect) (noLock : Bool)
    (head : Fragment) : ScalarClauses :=
  { clauses with
    head
    source := Fragment.spaced [clauses.source, dialect.tableHint noLock] }

/-- The clauses with the subject of their head alone, and without a table hint. -/
def Query.valueClauses (catalog : Catalog) (query : Query) (subject : Scope → Build Fragment) :
    Build ScalarClauses :=
  ScalarClauses.build catalog .mysql query subject

theorem ScalarClauses.build_eq (catalog : Catalog) (dialect : Dialect) (query : Query)
    (subject : Scope → Build Fragment) (shown : Fragment → Fragment) :
    (build catalog dialect query fun scope => do return shown (← subject scope)) = do
      let clauses ← query.valueClauses catalog subject
      return clauses.inDialect dialect query.noLock (shown clauses.head) := by
  simp only [build, Query.valueClauses, bind_assoc, pure_bind, inDialect,
    dialect.fromClause_eq]

/-- Where the head is the same words whatever the query is. -/
theorem ScalarClauses.build_eq_of_words (catalog : Catalog) (dialect : Dialect) (query : Query)
    (head : Fragment) :
    (build catalog dialect query fun _ => return head) = do
      let clauses ← query.valueClauses catalog fun _ => return []
      return clauses.inDialect dialect query.noLock head :=
  build_eq catalog dialect query (fun _ => return []) fun _ => head

/-- The keys of an accepted entity and its identity have columns. -/
theorem Catalog.exists_column_of_mem {catalog : Catalog} {name property : String}
    {entity : Entity} (accepted : catalog.entity name = .ok entity)
    (listed : property ∈ entity.keys ++ entity.identity?.toList) :
    ∃ column, entity.column property = .ok column := by
  have sound := sound_of_entity accepted
  rcases entity_eq_ok.mp accepted with ⟨passed, rfl⟩
  have mapped := List.find?_eq_none.mp (Descriptor.checked_of_fault?_eq_none passed).keys
    property listed
  have found : ∃ field ∈ (catalog.descriptor name).fields, field.property = property := by
    simpa [Descriptor.maps] using mapped
  rcases found with ⟨field, member, rfl⟩
  exact ⟨field.column, sound.column field member⟩

theorem Entity.mem_of_identityOrKey? {entity : Entity} {property : String}
    (found : entity.identityOrKey? = some property) :
    property ∈ entity.keys ++ entity.identity?.toList := by
  unfold identityOrKey? at found
  cases identity : entity.identity? with
  | some generated => simp_all
  | none =>
      rw [identity] at found
      exact List.mem_append_left _ (List.mem_of_head? found)

theorem exists_mapM_eq_ok {transform : α → Except Error β} {items : List α}
    (each : ∀ item ∈ items, ∃ result, transform item = .ok result) :
    ∃ results, items.mapM transform = .ok results := by
  have related : ∀ item ∈ items, ∃ result, transform item = .ok result ∧ True := by
    simpa using each
  rcases exists_forall₂_of_mapM related with ⟨results, run, -⟩
  exact ⟨results, run⟩

/-- The order by key that SQL Server falls back to is always there. -/
theorem SelectClauses.exists_withDefaultOrder {catalog : Catalog} {name : String}
    (clauses : SelectClauses) (accepted : catalog.entity name = .ok clauses.entity)
    (query : Query) :
    ∃ ordering, clauses.withDefaultOrder (.aliased catalog) query =
      .ok { clauses with ordering } := by
  have columns : ∃ fragments,
      clauses.entity.keys.mapM ((Scope.aliased catalog).column clauses.entity) =
        .ok fragments := by
    apply exists_mapM_eq_ok
    intro key listed
    rcases Catalog.exists_column_of_mem accepted (List.mem_append_left _ listed) with
      ⟨column, found⟩
    exact ⟨_, Scope.columnUnder_eq_ok.mpr ⟨column, found, rfl⟩⟩
  rcases columns with ⟨fragments, keyed⟩
  unfold withDefaultOrder
  split_ifs
  · exact ⟨clauses.ordering, rfl⟩
  · simp only [keyOrder, keyed]
    exact ⟨_, rfl⟩
  · exact ⟨noOrder, rfl⟩

namespace Query

variable (catalog : Catalog) (dialect : Dialect) (query : Query)

theorem completes_buildGet :
    (query.buildGet catalog dialect).Completes (query.rowClauses catalog) (·.joins) := by
  unfold buildGet
  cases dialect <;>
  · simp only [SelectClauses.build_eq, bind_assoc, pure_bind]
    exact Build.completes_bind fun _ clauses _ _ => Build.ends_pure rfl

theorem completes_buildList :
    (query.buildList catalog dialect).Completes (query.rowClauses catalog) (·.joins) := by
  simp only [buildList, SelectClauses.build_eq, bind_assoc, pure_bind]
  exact Build.completes_bind fun _ clauses _ _ => Build.ends_pure rfl

theorem completes_buildPage (index size : UInt32) :
    (query.buildPage catalog dialect index size).Completes
      (Build.lift (RowRange.ofPage index size) >>= fun _ => query.rowClauses catalog)
      (·.joins) := by
  apply Build.Completes.after
  intro _ rows _ _
  simp only [SelectClauses.build_eq, bind_assoc, pure_bind]
  apply Build.completes_bind
  intro draft clauses later run
  cases dialect with
  | mysql | oracle => exact Build.ends_pure rfl
  | sqlServer =>
      have accepted : catalog.entity query.entity = .ok clauses.entity := by
        rcases SelectClauses.run_of_build run with ⟨entity, _, _, _, _, _, _, accepted, -⟩
        exact accepted
      rcases (clauses.inDialect .sqlServer query none).exists_withDefaultOrder accepted query with
        ⟨ordering, ordered⟩
      exact Build.ends_lift_bind ordered (Build.ends_pure rfl)

theorem completes_buildAny :
    (query.buildAny catalog dialect).Completes
      (query.valueClauses catalog fun _ => return []) (·.joins) := by
  simp only [buildAny, ScalarClauses.build_eq_of_words, bind_assoc, pure_bind]
  cases dialect <;> exact Build.completes_bind fun _ clauses _ _ => Build.ends_pure rfl

theorem completes_buildCount :
    (query.buildCount catalog dialect).Completes
      (query.valueClauses catalog fun _ => return []) (·.joins) := by
  simp only [buildCount, ScalarClauses.build_eq_of_words, bind_assoc, pure_bind]
  exact Build.completes_bind fun _ clauses _ _ => Build.ends_pure rfl

theorem completes_buildSummary (summary : Summary) (selector : Option Expr) :
    (query.buildSummary catalog dialect summary selector).Completes
      (query.valueClauses catalog (·.summarizedColumn selector)) (·.joins) := by
  have head : summary.buildHead dialect selector = fun scope => do
      return summary.head dialect (← scope.summarizedColumn selector) := rfl
  simp only [buildSummary, head, ScalarClauses.build_eq, bind_assoc, pure_bind]
  exact Build.completes_bind fun _ clauses _ _ => Build.ends_pure rfl

/-! Statements that write. -/

theorem completes_buildInsertIdentity (record : Record) (exclude : List String) :
    (query.buildInsertIdentity catalog dialect record exclude).Completes
      (do
        let clauses ← query.insertClauses catalog record exclude
        match clauses.entity.identityOrKey? with
        | none => Build.fail (.noPrimaryKey clauses.entity.table)
        | some _ => return)
      fun _ => [] := by
  apply Build.Completes.after
  intro draft clauses later run
  simp only [insertClauses, Build.runFrom_bind_eq_ok, Build.runFrom_lift_eq_ok,
    Build.runFrom_pure_eq_ok] at run
  rcases run with ⟨entity, _, ⟨accepted, -⟩, lists, _, -, rfl, -⟩
  cases found : entity.identityOrKey? with
  | none => exact Build.completes_fail _
  | some property =>
      apply Build.Ends.completes
      cases dialect with
      | mysql | sqlServer => exact Build.ends_pure rfl
      | oracle =>
          rcases Catalog.exists_column_of_mem accepted (Entity.mem_of_identityOrKey? found) with
            ⟨column, mapped⟩
          exact Build.ends_lift_bind (Scope.columnUnder_eq_ok.mpr ⟨column, mapped, rfl⟩)
            ((Build.ends_output _).bind fun _ _ => Build.ends_pure rfl)

theorem Dialect.ends_returningClause (dialect : Dialect) (entity : Entity)
    (columns : List ReturnedColumn) :
    (dialect.returningClause entity columns).Ends fun _ => True := by
  cases dialect with
  | mysql | sqlServer => exact Build.ends_pure trivial
  | oracle => exact (Build.ends_outputs _).bind fun _ _ => Build.ends_pure trivial

theorem completes_buildUpdateSelect (updater : Expr) :
    (query.buildUpdateSelect catalog dialect updater).Completes
      (do
        let clauses ← query.updateClauses catalog updater
        Build.lift ((Scope.unqualified catalog).returnedColumns clauses.entity query.select))
      fun _ => [] := by
  apply Build.Completes.after
  intro draft clauses later run
  apply Build.completes_bind
  intro _ columns _ _
  refine (Dialect.ends_returningClause dialect clauses.entity columns).bind fun clause _ => ?_
  cases dialect <;> exact Build.ends_pure rfl

end Query

/-! Every operation. -/

/-- What all dialects have to give alike: the error, or the inputs and the joins. -/
def Composition.shared (composition : Composition) : List Parameter × List Navigation :=
  (composition.statement.params.inputs, composition.joins)

/-- A build that completes a core gives what that core settles. -/
theorem Operation.shared_of_completes {catalog : Catalog} {dialect : Dialect}
    {operation : Operation} {core : Build α} {joins : α → List Navigation}
    (completes : (operation.build catalog dialect).Completes core joins) :
    (operation.compose catalog dialect).1.map Composition.shared =
      match core.runFrom {} with
      | (.ok result, later) => .ok (later.params.inputs, joins result)
      | (.error error, _) => .error error := by
  rcases run : core.runFrom {} with ⟨error | result, later⟩
  · have failed := (completes {}).1 error later run
    rw [operation.compose_of_runFrom dialect (Prod.ext failed rfl)]
    rfl
  · rcases (completes {}).2 result later run with ⟨built, final, finished, taken, same⟩
    rw [operation.compose_of_runFrom dialect finished]
    simp only [Except.map, Composition.shared, taken, same]

theorem Operation.exists_shared (catalog : Catalog) (operation : Operation) :
    ∃ outcome, ∀ dialect,
      (operation.compose catalog dialect).1.map Composition.shared = outcome := by
  cases operation with
  | get query =>
      exact ⟨_, fun dialect => shared_of_completes (query.completes_buildGet catalog dialect)⟩
  | list query =>
      exact ⟨_, fun dialect => shared_of_completes (query.completes_buildList catalog dialect)⟩
  | page query index size =>
      exact ⟨_, fun dialect =>
        shared_of_completes (query.completes_buildPage catalog dialect index size)⟩
  | any query =>
      exact ⟨_, fun dialect => shared_of_completes (query.completes_buildAny catalog dialect)⟩
  | count query =>
      exact ⟨_, fun dialect => shared_of_completes (query.completes_buildCount catalog dialect)⟩
  | summarize summary query selector =>
      exact ⟨_, fun dialect =>
        shared_of_completes (query.completes_buildSummary catalog dialect summary selector)⟩
  | insertIdentity query record exclude =>
      exact ⟨_, fun dialect =>
        shared_of_completes (query.completes_buildInsertIdentity catalog dialect record exclude)⟩
  | updateSelect query updater =>
      exact ⟨_, fun dialect =>
        shared_of_completes (query.completes_buildUpdateSelect catalog dialect updater)⟩
  | insert query record exclude =>
      exact ⟨_, fun dialect => shared_of_completes
        (Build.completes_self (query.buildInsert catalog record exclude))⟩
  | update query updater =>
      exact ⟨_, fun dialect => shared_of_completes
        (Build.completes_self (query.buildUpdate catalog updater))⟩
  | updateRecord query record exclude everyRow =>
      exact ⟨_, fun dialect => shared_of_completes
        (Build.completes_self (query.buildUpdateRecord catalog record exclude everyRow))⟩
  | delete query =>
      exact ⟨_, fun dialect => shared_of_completes
        (Build.completes_self (query.buildDelete catalog))⟩

/-! Operations that every dialect writes in the same words. -/

/-- Reads of all rows or of one number, without a table hint, and writes that tell nothing
back. A sum is none of them, as only MySQL makes zero of a sum over no rows. -/
def Operation.inCommon : Operation → Bool
  | .list query => query.top.isNone && !query.noLock
  | .count query => !query.noLock
  | .summarize summary query _ => summary ≠ .sum && !query.noLock
  | .insert .. | .update .. | .updateRecord .. | .delete _ => true
  | _ => false

theorem Dialect.fromClause_of_locking (first second : Dialect) (entity : Entity) :
    first.fromClause entity false = second.fromClause entity false := by
  cases first <;> cases second <;> rfl

theorem Dialect.selectKeyword_of_uncapped (first second : Dialect) (distinct : Bool) :
    first.selectKeyword distinct none = second.selectKeyword distinct none := by
  cases first <;> cases second <;> rfl

theorem Operation.build_of_inCommon (catalog : Catalog) {operation : Operation}
    (common : operation.inCommon = true) (first second : Dialect) :
    operation.build catalog first = operation.build catalog second := by
  cases operation with
  | list query =>
      simp only [inCommon, Bool.and_eq_true, Option.isNone_iff_eq_none,
        Bool.not_eq_true'] at common
      rcases common with ⟨uncapped, locking⟩
      simp only [build, Query.buildList, SelectClauses.build, uncapped, locking,
        first.fromClause_of_locking second, first.selectKeyword_of_uncapped second]
  | count query =>
      simp only [inCommon, Bool.not_eq_true'] at common
      simp only [build, Query.buildCount, ScalarClauses.build, common,
        first.fromClause_of_locking second]
  | summarize summary query selector =>
      simp only [inCommon, Bool.and_eq_true, Bool.not_eq_true', decide_eq_true_eq] at common
      rcases common with ⟨single, locking⟩
      have head (column : Fragment) : summary.head first column = summary.head second column := by
        cases summary with
        | sum => exact absurd rfl single
        | min | max => cases first <;> cases second <;> rfl
      simp only [build, Query.buildSummary, ScalarClauses.build, Summary.buildHead, head, locking,
        first.fromClause_of_locking second]
  | insert | update | updateRecord | delete => rfl
  | _ => cases common

/-- All dialects refuse an operation for one reason, or all build it, with the same inputs in
the same order and the same joins. Where nothing in it is peculiar to one of them, the
statements are the same tokens: names and placeholders read back the same, each from the
quotes and the mark of its dialect. -/
theorem dialects_agree (catalog : Catalog) (operation : Operation) :
    (∃ outcome : Except Error (List Parameter × List Navigation), ∀ dialect,
      (operation.compose catalog dialect).1.map Composition.shared = outcome) ∧
    (operation.inCommon = true → catalog.PlainProperties → operation.query.PlainNames →
      ∃ outcome : Except Error Fragment, ∀ dialect,
        (operation.compose catalog dialect).1.map
          (fun composition => dialect.readTokens composition.statement.sql) =
            outcome.map some) := by
  refine ⟨operation.exists_shared catalog, ?_⟩
  intro common plain names
  rcases run : (operation.build catalog .mysql).runFrom {} with ⟨outcome, later⟩
  refine ⟨outcome.map (·.sql), ?_⟩
  intro dialect
  rw [operation.build_of_inCommon catalog common .mysql dialect] at run
  rw [operation.compose_of_runFrom dialect run]
  cases outcome with
  | error error => rfl
  | ok built => simp only [Except.map, dialect.readTokens_text (sound_build plain names run).1]

/-- The people under an age, one of whose columns has a closing bracket in its name. -/
theorem dialects_agree_minors :
    ∃ tokens : Fragment, ∀ dialect, ∃ composition,
      ((Operation.list .minors).compose .people dialect).1 = .ok composition ∧
      composition.statement.params.inputs = [⟨"Age", .int 18, .input⟩] ∧
      dialect.readTokens composition.statement.sql = some tokens := by
  have names : Query.minors.PlainNames := ⟨by simp [Query.minors], by simp [Query.minors]⟩
  rcases dialects_agree .people (.list .minors) with ⟨⟨shared, alike⟩, texts⟩
  rcases texts rfl plainProperties_people names with ⟨outcome, same⟩
  have inputs : shared = .ok ([⟨"Age", .int 18, .input⟩], []) := (alike .mysql).symm
  cases outcome with
  | error error => cases same .mysql
  | ok tokens =>
      refine ⟨tokens, fun dialect => ?_⟩
      have told := alike dialect
      have read := same dialect
      cases composed : ((Operation.list .minors).compose .people dialect).1 with
      | error error => rw [composed, inputs] at told; cases told
      | ok composition =>
          rw [composed, inputs] at told
          rw [composed] at read
          exact ⟨composition, rfl, congrArg Prod.fst (Except.ok.inj told), Except.ok.inj read⟩

end EntitySql
