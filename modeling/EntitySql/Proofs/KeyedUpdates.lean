import EntitySql.Execution.Writer
import EntitySql.Proofs.RecordWrites
import EntitySql.Proofs.Runs

/-! Many records updated in one go, each by a statement of its own. Without filters the
statement of a record picks the row with its key. Filters take the place of the key, so
that every statement then picks the same rows, whatever the record. -/

namespace EntitySql

namespace Query

variable {catalog : Catalog} {query : Query} {record : Record} {exclude : List String}

/-- Under filters, the update of one record is that of all the rows they match. -/
theorem buildUpdateRecord_filtered (filtered : query.filters ≠ []) :
    query.buildUpdateRecord catalog record exclude false =
      query.buildUpdateRecord catalog record exclude true := by
  have has : query.hasFilters = true := by simpa [hasFilters] using filtered
  simp only [buildUpdateRecord, has, if_true]

variable {entity : Entity} {draft later : Draft} {built : Built}
  (accepted : catalog.entity query.entity = .ok entity)

include accepted

theorem updatable_of_buildUpdateRecord
    (run : (query.buildUpdateRecord catalog record exclude false).runFrom draft =
      (.ok built, later)) : entity.updatableFields exclude ≠ [] := by
  intro none
  simp [buildUpdateRecord, accepted, Build.runFrom_bind,
    Scope.runFrom_recordSetClause_of_nil catalog record none] at run

/-- An update that was built without filters names every key, none of which is null. -/
theorem readScript_of_buildUpdateRecord (unfiltered : query.filters = [])
    (run : (query.buildUpdateRecord catalog record exclude false).runFrom draft =
      (.ok built, later)) :
    entity.keys ≠ [] ∧
    (∀ key ∈ entity.keys, (record.value key).isNull = false) ∧
    readScript later.params built.sql.squeezed =
      some ⟨entity.recordUpdate record (entity.updatableFields exclude)
        (Formula.always.andAll (entity.keyFields.map (·.equals record))), none⟩ := by
  have sound := Catalog.sound_of_entity accepted
  have given := updatable_of_buildUpdateRecord accepted run
  have keyed : entity.keys ≠ [] := by
    intro none
    rcases runFrom_buildUpdateRecord_of_keyConditions record accepted unfiltered given
      (fun draft => ⟨draft, Scope.runFrom_keyConditions_of_nil catalog record none draft⟩)
      draft with ⟨_, refused⟩
    rw [refused] at run
    cases run
  have values : ∀ key ∈ entity.keys, (record.value key).isNull = false := by
    by_contra absent
    simp only [not_forall, Bool.not_eq_false, exists_prop] at absent
    rcases runFrom_buildUpdateRecord_of_keyConditions record accepted unfiltered given
      (Scope.runFrom_keyConditions_of_isNull catalog record sound absent) draft with ⟨_, refused⟩
    rw [refused] at run
    cases run
  rcases readScript_buildUpdateRecord record accepted unfiltered given keyed values draft with
    ⟨_, _, again, read⟩
  rw [again] at run
  cases run
  exact ⟨keyed, values, read⟩

/-- An update that was built under filters asks what the filters ask. -/
theorem readScript_of_buildUpdateRecord_filtered (filtered : query.filters ≠ [])
    (plain : ∀ expression ∈ query.filters, expression.PlainMembers catalog)
    (run : (query.buildUpdateRecord catalog record exclude false).runFrom draft =
      (.ok built, later)) :
    ∃ condition : Formula,
      condition.Agrees (Expr.jointTruth? (.unqualified catalog) · · query.filters) ∧
      readScript later.params built.sql.squeezed =
        some ⟨entity.recordUpdate record (entity.updatableFields exclude) condition, none⟩ := by
  have given := updatable_of_buildUpdateRecord accepted run
  have joins := Scope.plainJoin_unqualified catalog
  have has : query.hasFilters = true := by simpa [hasFilters] using filtered
  rcases Scope.runFrom_recordSetClause catalog record (Catalog.sound_of_entity accepted)
    given draft with ⟨assignments, middle, set, assigns⟩
  simp only [buildUpdateRecord, accepted, has, if_true, Build.runFrom_bind_eq_ok,
    Build.runFrom_lift_eq_ok, Build.runFrom_pure_eq_ok] at run
  rcases run with ⟨_, _, ⟨found, rfl⟩, _, _, again, conditions, last, filters, _, _, ⟨rfl, rfl⟩,
    rfl, rfl⟩
  cases found
  rw [set] at again
  cases again
  have kept := (Scope.written_whereClause joins plain filters).binds.extends
  rcases Scope.reads_whereClause joins plain filters last.params.extends_refl with
    ⟨tokens, condition, starts, reads, agrees⟩
  rcases assigns last.params kept with ⟨pieces, some', assigned, shape⟩
  have asks : UpdateClauses.ReadsAs { entity, assignments, conditions := conditions ++ [] }
      last.params (entity.recordUpdate record (entity.updatableFields exclude) condition) :=
    ⟨rfl, ⟨pieces, some', assigned, shape⟩, tokens, reads, by simpa using starts⟩
  exact ⟨condition, agrees, readScript_outputs asks (.inl ⟨rfl, rfl⟩)⟩

end Query

/-- The statement is the text of tokens that read as the update. The tokens are told from
the text alone where the properties of all entities have plain names. -/
def UpdateStatement.IsTextOf (update : UpdateStatement) (database : Database σ)
    (statement : Statement) : Prop :=
  ∃ tokens : Fragment, statement.sql = tokens.text database.dialect.lexical ∧
    (database.catalog.PlainProperties →
      database.dialect.readTokens statement.sql = some tokens) ∧
    readScript statement.params tokens.squeezed = some ⟨update, none⟩

/-- What a statement among many updates: without filters the row with the key of its
record, under filters whatever they match. -/
structure Writer.UpdatesFrom (writer : Writer σ) (item : Json) (statement : Statement)
    (entity : Entity) (record : Record) (update : UpdateStatement) : Prop where
  accepted : writer.database.catalog.entity writer.query.entity = .ok entity
  known : Record.ofJson writer.query.entity item = .ok record
  text : update.IsTextOf writer.database statement
  shape : update =
    entity.recordUpdate record (entity.updatableFields writer.exclude) update.condition
  keyed : writer.query.filters = [] →
    entity.keys ≠ [] ∧ entity.keyFields.map (·.property) = entity.keys ∧
    (∀ key ∈ entity.keys, (record.value key).isNull = false) ∧
    update.condition = Formula.always.andAll (entity.keyFields.map (·.equals record))
  filtered : writer.query.filters ≠ [] →
    update.condition.Agrees
      (Expr.jointTruth? (.unqualified writer.database.catalog) · · writer.query.filters) ∧
    ((Operation.updateRecord writer.query record writer.exclude true).compose
      writer.database.catalog writer.database.dialect).1.map (·.statement) = .ok statement

namespace Writer

variable {writer : Writer σ}

theorem exists_updatesFrom {item : Json} {operation : Operation} {composition : Composition}
    (plain : ∀ expression ∈ writer.query.filters,
      expression.PlainMembers writer.database.catalog)
    (prepared : writer.updating false item = .ok operation)
    (composed : (operation.compose writer.database.catalog writer.database.dialect).1 =
      .ok composition) :
    ∃ entity record update, writer.UpdatesFrom item composition.statement entity record update := by
  rcases bind_eq_ok.mp prepared with ⟨record, known, shown⟩
  cases shown
  rcases Operation.exists_run_of_compose composed with ⟨built, draft, run, statement⟩
  have run : (writer.query.buildUpdateRecord writer.database.catalog record writer.exclude
    false).runFrom {} = (.ok built, draft) := run
  have accepted : ∃ entity, writer.database.catalog.entity writer.query.entity = .ok entity := by
    simp only [Query.buildUpdateRecord, Build.runFrom_bind_eq_ok, Build.runFrom_lift_eq_ok] at run
    rcases run with ⟨entity, _, ⟨accepted, -⟩, -⟩
    exact ⟨entity, accepted⟩
  rcases accepted with ⟨entity, accepted⟩
  have isText : ∀ {update : UpdateStatement},
      readScript draft.params built.sql.squeezed = some ⟨update, none⟩ →
      update.IsTextOf writer.database composition.statement := by
    intro update read
    rw [statement]
    refine ⟨built.sql, rfl, fun plain => ?_, read⟩
    exact writer.database.dialect.readTokens_text
      (Query.written_buildUpdateRecord plain run).legible
  by_cases filters : writer.query.filters = []
  · rcases Query.readScript_of_buildUpdateRecord accepted filters run with ⟨keyed, values, read⟩
    refine ⟨entity, record, _, accepted, known, isText read, rfl, fun _ => ?_, ?_⟩
    · exact ⟨keyed, (Catalog.sound_of_entity accepted).keys, values, rfl⟩
    · exact fun filtered => absurd filters filtered
  · rcases Query.readScript_of_buildUpdateRecord_filtered accepted filters plain run with
      ⟨condition, agrees, read⟩
    refine ⟨entity, record, _, accepted, known, isText read, rfl, ?_, fun _ => ⟨agrees, ?_⟩⟩
    · exact fun unfiltered => absurd unfiltered filters
    · rw [Query.buildUpdateRecord_filtered filters] at run
      have again := (Operation.updateRecord writer.query record writer.exclude
        true).compose_of_runFrom writer.database.dialect run
      rw [again, statement]
      rfl

/-- Only rows with the key of the record are picked, unless the filters say otherwise. -/
theorem UpdatesFrom.picked_iff {item : Json} {statement : Statement} {entity : Entity}
    {record : Record} {update : UpdateStatement}
    (updates : writer.UpdatesFrom item statement entity record update) (server : Server)
    (rows : List TableRow) :
    (∀ row ∈ update.picked server rows, entity.KeyMatches record server row) ↔
      writer.query.filters = [] ∨
      ∀ row ∈ rows, writer.query.holds writer.database.catalog server row = true →
        entity.KeyMatches record server row := by
  simp only [UpdateStatement.picked, List.mem_filter, and_imp]
  by_cases filters : writer.query.filters = []
  · rcases updates.keyed filters with ⟨-, -, -, condition⟩
    refine iff_of_true ?_ (.inl filters)
    intro row _ picks
    rw [condition] at picks
    exact (server.picks_keyFields row entity record).mp picks
  · have holds := Query.picks_eq_holds (updates.filtered filters).1 server
    simp only [holds, filters, false_or]

end Writer

/-- When all statements of an update of many records are built, each of them updates from
the record in its place, and they are executed in their order. Without filters a
statement asks for every key of its record and for nothing else, so that it picks only
rows with that key. Under filters it asks for the filters alone, and picks only rows with
the key of its record exactly if the filters do. -/
theorem many_updated (writer : Writer σ) (items : List Json)
    (plain : ∀ expression ∈ writer.query.filters,
      expression.PlainMembers writer.database.catalog)
    {session later : Session σ} {statements : List Statement}
    (built : (writer.database.statements (items.map (writer.updating false))).runFrom session =
      (.ok statements, later)) :
    List.Forall₂ (fun item statement => ∃ entity record update,
      writer.UpdatesFrom item statement entity record update ∧
      ∀ (server : Server) (rows : List TableRow),
        (∀ row ∈ update.picked server rows, entity.KeyMatches record server row) ↔
          writer.query.filters = [] ∨
          ∀ row ∈ rows, writer.query.holds writer.database.catalog server row = true →
            entity.KeyMatches record server row) items statements ∧
    ∃ executed, executed <+: statements ∧
      ((writer.updateMany items).runFrom session).2.journal =
        later.journal ++ executed.flatMap writer.database.executionEvents ∧
      ∀ affected, ((writer.updateMany items).runFrom session).1 = .ok affected →
        executed = statements := by
  refine ⟨?_, ?_⟩
  · have asked := writer.database.forall₂_statements built
    rw [List.forall₂_map_left_iff] at asked
    refine asked.imp ?_
    rintro item statement ⟨operation, composition, prepared, composed, rfl⟩
    rcases Writer.exists_updatesFrom plain prepared composed with
      ⟨entity, record, update, updates⟩
    exact ⟨entity, record, update, updates, updates.picked_iff⟩
  · have runs : (writer.updateMany items).runFrom session =
        (writer.database.executeAll statements).runFrom later := by
      rw [Writer.updateMany, Run.runFrom_bind, built]
    rw [runs]
    exact writer.database.journal_executeAll statements later

/-! Two people updated in one go, with and without a filter. -/

def Database.people : Database Script :=
  { executor := Script.executor, catalog := .people, dialect := .oracle }

def Json.ann : Json :=
  .object Record.ann.members

def Json.bob : Json :=
  .object [("Age", .integer 20), ("Id", .integer 8), ("Name", .text "Bob")]

theorem many_updated_people :
    ∃ first second later entity record update,
      (Database.people.statements ([Json.ann, .bob].map
        ((Database.people.writer "Person").updating false))).runFrom ⟨{}, []⟩ =
          (.ok [first, second], later) ∧
      (Database.people.writer "Person").UpdatesFrom .bob second entity record update ∧
      update.condition = .logical .and .always
        (.comparison .equal (.column { name := "id" }) (.constant (.int 8))) := by
  have built : (Database.people.statements ([Json.ann, .bob].map
      ((Database.people.writer "Person").updating false))).runFrom ⟨{}, []⟩ =
        (.ok [_, _], _) := rfl
  rcases many_updated (Database.people.writer "Person") [.ann, .bob]
    (fun _ listed => absurd listed List.not_mem_nil) built with ⟨each, -⟩
  cases each with
  | cons first rest =>
      cases rest with
      | cons second rest =>
          rcases second with ⟨entity, record, update, updates, -⟩
          cases rest
          refine ⟨_, _, _, entity, record, update, built, updates, ?_⟩
          rcases updates.keyed rfl with ⟨-, -, -, condition⟩
          cases updates.accepted
          cases updates.known
          exact condition

/-- Updates the people under an age. -/
def Writer.minors : Writer Script :=
  { database := .people, query := .minors }

/-- Under a filter on the age, the update of Ann, whose key is 7, picks a row with the
key 1. -/
theorem others_updated :
    ∃ first second later entity record update,
      (Database.people.statements ([Json.ann, .bob].map (Writer.minors.updating false))).runFrom
        ⟨{}, []⟩ = (.ok [first, second], later) ∧
      Writer.minors.UpdatesFrom .ann first entity record update ∧
      TableRow.person 17 ∈ update.picked .wholeNumbers [.person 17] ∧
      ¬ entity.KeyMatches record .wholeNumbers (.person 17) := by
  have plain : ∀ expression ∈ Writer.minors.query.filters,
      expression.PlainMembers Writer.minors.database.catalog :=
    fun expression _ => plainProperties_people.members expression
  have built : (Database.people.statements ([Json.ann, .bob].map
      (Writer.minors.updating false))).runFrom ⟨{}, []⟩ = (.ok [_, _], _) := rfl
  rcases Database.people.forall₂_statements built with - | ⟨⟨_, composition, prepared, composed,
    first⟩, -⟩
  rcases Writer.exists_updatesFrom plain prepared composed with ⟨entity, record, update, updates⟩
  refine ⟨_, _, _, entity, record, update, built, first ▸ updates, ?_, ?_⟩
  · have filters : Writer.minors.query.filters ≠ [] := List.cons_ne_nil _ _
    have holds := Query.picks_eq_holds (updates.filtered filters).1 .wholeNumbers
    rw [UpdateStatement.picked, holds]
    exact List.mem_singleton_self _
  · cases updates.accepted
    cases updates.known
    decide

end EntitySql
