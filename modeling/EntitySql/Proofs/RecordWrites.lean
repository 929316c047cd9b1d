import EntitySql.Proofs.RecordBinding
import EntitySql.Proofs.UpdatedRows

/-! Records written to tables. An insert gives each of its columns the value that the
record has as the property of that column. An update that nothing else narrows down
assigns the columns besides the key, and picks the rows that have the key of the
record. -/

namespace EntitySql

/-! Inserts, as they read back from their text. -/

structure InsertStatement where
  table : String
  columns : List String
  /-- The names of the placeholders that stand for the values. -/
  placeholders : List String
  deriving DecidableEq, Repr

def Token.identifier? : Token → Option String
  | .identifier name => some name
  | _ => none

/-- Single tokens with commas between them, up to the parenthesis that closes their list. -/
def readEnclosed (item : Token → Option α) : TokenReader (List α)
  | token :: .symbol .closeParen :: rest => do
      let last ← item token
      return ([last], rest)
  | token :: .symbol .comma :: rest => do
      let first ← item token
      let (others, after) ← readEnclosed item rest
      return (first :: others, after)
  | _ => none

/-- The insert that some tokens are, all of them. -/
def readInsert (tokens : List Token) : Option InsertStatement := do
  let rest ← skipToken (.word "INSERT") tokens
  let rest ← skipToken (.word "INTO") rest
  let (table, rest) ← takeIdentifier rest
  let rest ← skipToken (.symbol .openParen) rest
  let (columns, rest) ← readEnclosed Token.identifier? rest
  let rest ← skipToken (.word "VALUES") rest
  let rest ← skipToken (.symbol .openParen) rest
  let (placeholders, rest) ← readEnclosed Token.placeholder? rest
  if rest.isEmpty then return { table, columns, placeholders } else none

def Dialect.insertOf (dialect : Dialect) (text : String) : Option InsertStatement := do
  let fragment ← dialect.readTokens text
  readInsert fragment.squeezed

theorem readEnclosed_intercalate (item : Token → Option α) (token : α → Token)
    (back : ∀ value, item (token value) = some value) {values : List α} (given : values ≠ [])
    (rest : List Token) :
    readEnclosed item ([Token.symbol .comma].intercalate (values.map fun value => [token value]) ++
      .symbol .closeParen :: rest) = some (values, rest) := by
  induction values with
  | nil => exact absurd rfl given
  | cons first values induction =>
      cases values with
      | nil => simp [readEnclosed, back, List.intercalate_singleton]
      | cons second values =>
          have tail := induction (by simp)
          simp only [List.map_cons, List.intercalate_cons_cons, List.cons_append,
            List.nil_append] at tail ⊢
          rw [readEnclosed, back, tail]
          rfl

theorem readInsert_complete {table : String} {columns placeholders : List String}
    (given : columns ≠ []) (filled : placeholders ≠ []) {tokens : List Token}
    (shape : tokens = .word "INSERT" :: .word "INTO" :: .identifier table ::
      .symbol .openParen :: ([Token.symbol .comma].intercalate
        (columns.map fun column => [Token.identifier column]) ++ .symbol .closeParen ::
      .word "VALUES" :: .symbol .openParen :: ([Token.symbol .comma].intercalate
        (placeholders.map fun name => [Token.placeholder name]) ++ [.symbol .closeParen]))) :
    readInsert tokens = some { table, columns, placeholders } := by
  have named := readEnclosed_intercalate Token.identifier? .identifier (fun _ => rfl) given
  have bound := readEnclosed_intercalate Token.placeholder? .placeholder (fun _ => rfl) filled []
  simp [shape, readInsert, takeIdentifier, named, bound]

namespace Scope.BoundField

variable {bag : Params} {record : Record} {bound : List BoundField} {fields : List Field}
  (stores : List.Forall₂ (fun each field => each.Stores bag record field) bound fields)

include stores

theorem columns_of_stores :
    bound.map (·.column) = fields.map fun field => [Token.identifier field.column] := by
  induction stores with
  | nil => rfl
  | cons first _ induction => rw [List.map_cons, List.map_cons, first.column, induction]

theorem placeholders_of_stores :
    ∃ names : List String, bound.map (·.placeholder) = names.map (fun name => [.placeholder name]) ∧
      List.Forall₂ (fun name field => bag.get? name = some (record.value field.property))
        names fields := by
  induction stores with
  | nil => exact ⟨[], rfl, .nil⟩
  | cons first _ induction =>
      rcases first.placeholder with ⟨name, placeholder, value⟩
      rcases induction with ⟨names, placeholders, values⟩
      exact ⟨name :: names, by simp [placeholder, placeholders], .cons value values⟩

/-- Columns that are set to their placeholders are assigned the values of the record. -/
theorem assigns_of_stores :
    List.Forall₂ (Assigns bag)
      (bound.map fun each => (Fragment.joined each.column .equal each.placeholder).squeezed)
      (fields.map fun field => (field.column, .constant (record.value field.property))) := by
  induction stores with
  | nil => exact .nil
  | cons first _ induction =>
      rcases first.placeholder with ⟨name, placeholder, value⟩
      refine .cons ⟨[.placeholder name], ?_, ?_⟩ induction
      · simp [first.column, placeholder]
      · exact reads_sum_of_primary (reads_placeholder value)

end Scope.BoundField

/-! Conditions side by side. -/

namespace Formula

/-- The condition that every row meets. -/
def always : Formula :=
  .comparison .equal (.constant (.int 1)) (.constant (.int 1))

/-- A condition and further ones, grouped from the left. -/
def andAll (first : Formula) (others : List Formula) : Formula :=
  others.foldl (.logical .and) first

end Formula

theorem connected_andAll {bag : Params} {fragments : List Fragment} {formulas : List Formula}
    (reads : List.Forall₂ (fun fragment formula =>
      Reads bag .test (Fragment.squeezed fragment) formula) fragments formulas)
    {tokens : List Token} {first : Formula} (chain : Connected bag .and tokens first) :
    Connected bag .and (tokens ++ Fragment.squeezed (fragments.flatMap Scope.added))
      (first.andAll formulas) := by
  induction reads generalizing tokens first with
  | nil => simpa [Formula.andAll] using chain
  | @cons fragment formula _ _ head _ induction =>
      have combines : Operator.connective .and (.word "AND") = some (.logical .and) := rfl
      have longer := induction (chain.extend combines head)
      simpa [Scope.added, Formula.andAll] using longer

namespace Server

variable (server : Server) (row : TableRow)

theorem picks_always : server.picks .always row = true := by
  simp [picks, Formula.always, Expr.truth?_numbers, Truth.ofBool]

theorem picks_and (left right : Formula) :
    server.picks (.logical .and left right) row =
      (server.picks left row && server.picks right row) := by
  rw [Bool.eq_iff_iff]
  simp only [picks, Formula.truth?, decide_eq_true_eq, Bool.and_eq_true, Option.bind_eq_bind,
    Option.bind_eq_some_iff, Option.pure_def, Option.some.injEq, Connective.combine]
  constructor
  · rintro ⟨first, head, second, tail, both⟩
    cases first <;> cases second <;> cases both
    exact ⟨head, tail⟩
  · rintro ⟨head, tail⟩
    exact ⟨_, head, _, tail, rfl⟩

theorem picks_andAll (first : Formula) (others : List Formula) :
    server.picks (first.andAll others) row =
      (server.picks first row && others.all (server.picks · row)) := by
  induction others generalizing first with
  | nil => simp [Formula.andAll]
  | cons second others induction =>
      have step := induction (.logical .and first second)
      rw [picks_and, Bool.and_assoc] at step
      exact step

theorem picks_equals (record : Record) (field : Field) :
    server.picks (field.equals record) row = true ↔
      server.engine.compared .equal (row field.column) (record.value field.property) = .yes := by
  simp [picks, Field.equals, Formula.truth?, Formula.value?, valuation]

end Server

/-- The row has all the keys of a record. -/
def Entity.KeyMatches (entity : Entity) (record : Record) (server : Server) (row : TableRow) :
    Prop :=
  ∀ field ∈ entity.keyFields,
    server.engine.compared .equal (row field.column) (record.value field.property) = .yes

instance (entity : Entity) (record : Record) (server : Server) (row : TableRow) :
    Decidable (entity.KeyMatches record server row) :=
  inferInstanceAs (Decidable (∀ field ∈ entity.keyFields,
    server.engine.compared .equal (row field.column) (record.value field.property) = .yes))

theorem Server.picks_keyFields (server : Server) (row : TableRow) (entity : Entity)
    (record : Record) :
    server.picks (Formula.always.andAll (entity.keyFields.map (·.equals record))) row = true ↔
      entity.KeyMatches record server row := by
  simp only [picks_andAll, picks_always, Bool.true_and, List.all_map, List.all_eq_true,
    Function.comp_apply, picks_equals, Entity.KeyMatches]

/-! Builds that succeed, and what they read as. -/

namespace Query

variable {catalog : Catalog} {query : Query} {entity : Entity} (record : Record)
  {exclude : List String} (accepted : catalog.entity query.entity = .ok entity)

include accepted

theorem readInsert_buildInsert (given : entity.insertableFields exclude ≠ []) (draft : Draft) :
    ∃ built later statement,
      (query.buildInsert catalog record exclude).runFrom draft = (.ok built, later) ∧
      readInsert built.sql.squeezed = some statement ∧
      statement.table = entity.table ∧
      statement.columns = (entity.insertableFields exclude).map (·.column) ∧
      List.Forall₂ (fun name field => later.params.get? name = some (record.value field.property))
        statement.placeholders (entity.insertableFields exclude) := by
  have listed : entity.insertableFields exclude ⊆ entity.fields := List.filter_subset_self _
  rcases Scope.runFrom_boundFields catalog record (Catalog.sound_of_entity accepted)
    listed draft with ⟨bound, later, run, -, stores⟩
  have stored := stores later.params later.params.extends_refl
  have columns := Scope.BoundField.columns_of_stores stored
  rcases Scope.BoundField.placeholders_of_stores stored with ⟨names, placeholders, values⟩
  have some' : bound.isEmpty = false := by
    rw [Bool.eq_false_iff, ne_eq, List.isEmpty_iff]
    rintro rfl
    exact given (List.map_eq_nil_iff.mp columns.symm)
  let clauses : InsertClauses :=
    { entity
      columns := Fragment.commaSeparated (bound.map (·.column))
      values := Fragment.commaSeparated (bound.map (·.placeholder)) }
  refine ⟨{ sql := clauses.sql }, later,
    ⟨entity.table, (entity.insertableFields exclude).map (·.column), names⟩, ?_, ?_, rfl, rfl,
    values⟩
  · simp only [buildInsert, insertClauses, Scope.insertLists, Build.runFrom_bind_eq_ok,
      Build.runFrom_pure_eq_ok, Build.runFrom_lift_eq_ok]
    refine ⟨clauses, later, ⟨entity, draft, ⟨accepted, rfl⟩, (clauses.columns, clauses.values),
      later, ⟨bound, later, run, ?_⟩, rfl, rfl⟩, rfl, rfl⟩
    simp [some', clauses]
  · apply readInsert_complete
    · simpa using given
    · rintro rfl
      exact given (List.forall₂_nil_left_iff.mp values)
    · simp [InsertClauses.sql, clauses, columns, placeholders, Fragment.squeezed_commaSeparated,
        Fragment.words, Entity.tableName, Function.comp_def]

theorem runFrom_buildInsert_of_nil (none : entity.insertableFields exclude = []) (draft : Draft) :
    (query.buildInsert catalog record exclude).runFrom draft =
      (.error (.missingArgument .insertableField), draft) := by
  simp only [buildInsert, insertClauses, Scope.insertLists, Build.runFrom_bind,
    Build.runFrom_lift, accepted, none, Scope.boundFields, Build.runFrom_pure,
    List.isEmpty_nil, if_true, Build.runFrom_fail]

end Query

/-- The update that assigns fields from a record. -/
def Entity.recordUpdate (entity : Entity) (record : Record) (fields : List Field)
    (condition : Formula) : UpdateStatement :=
  { table := entity.table
    assignments := fields.map fun field => (field.column, .constant (record.value field.property))
    outputs := []
    condition }

namespace Scope

variable (catalog : Catalog) {entity : Entity} (record : Record) {exclude : List String}

theorem runFrom_recordSetClause (sound : entity.Sound)
    (given : entity.updatableFields exclude ≠ []) (draft : Draft) :
    ∃ fragment later,
      ((unqualified catalog).recordSetClause entity record exclude).runFrom draft =
        (.ok fragment, later) ∧
      ∀ bag : Params, bag.Extends later.params → ∃ pieces, pieces ≠ [] ∧
        List.Forall₂ (Assigns bag) pieces ((entity.updatableFields exclude).map fun field =>
          (field.column, .constant (record.value field.property))) ∧
        Fragment.squeezed fragment = .word "SET" :: [Token.symbol .comma].intercalate pieces := by
  have listed : entity.updatableFields exclude ⊆ entity.fields := List.filter_subset_self _
  rcases runFrom_boundFields catalog record sound listed draft with
    ⟨bound, later, run, -, stores⟩
  have columns := BoundField.columns_of_stores (stores later.params later.params.extends_refl)
  have some' : bound ≠ [] := by
    rintro rfl
    exact given (List.map_eq_nil_iff.mp columns.symm)
  refine ⟨setting (bound.map fun each => Fragment.joined each.column .equal each.placeholder),
    later, ?_, ?_⟩
  · simp only [recordSetClause, Build.runFrom_bind_eq_ok]
    exact ⟨bound, later, run, by simp [some']⟩
  · intro bag grown
    refine ⟨_, ?_, BoundField.assigns_of_stores (stores bag grown), ?_⟩
    · simpa using some'
    · simp [setting, Fragment.squeezed_commaSeparated, Function.comp_def]

theorem runFrom_recordSetClause_of_nil (none : entity.updatableFields exclude = [])
    (draft : Draft) :
    ((unqualified catalog).recordSetClause entity record exclude).runFrom draft =
      (.error (.missingArgument .updatableField), draft) := by
  simp only [recordSetClause, Build.runFrom_bind, none, boundFields, Build.runFrom_pure,
    List.isEmpty_nil, if_true, Build.runFrom_fail]

/-- The conditions on the key carry on whatever condition stands before them. -/
theorem runFrom_keyConditions (sound : entity.Sound) (keyed : entity.keys ≠ [])
    (given : ∀ key ∈ entity.keys, (record.value key).isNull = false) (draft : Draft) :
    ∃ fragment later,
      ((unqualified catalog).keyConditions entity record).runFrom draft = (.ok fragment, later) ∧
      later.params.Extends draft.params ∧
      ∀ bag : Params, bag.Extends later.params → ∀ {tokens : List Token} {first : Formula},
        Connected bag .and tokens first →
        Connected bag .and (tokens ++ Fragment.squeezed fragment)
          (first.andAll (entity.keyFields.map (·.equals record))) := by
  have keys := sound.keys
  have values : ∀ field ∈ entity.keyFields, (record.value field.property).isNull = false := by
    intro field listed
    exact given _ (keys ▸ List.mem_map_of_mem listed)
  rcases runFrom_keyComparisons catalog record sound entity.keyFields_subset values draft
    with ⟨fragments, later, run, grown, reads⟩
  rw [keys] at run
  refine ⟨fragments.flatMap added, later, ?_, grown, ?_⟩
  · simp only [keyConditions, List.isEmpty_iff, keyed, if_false, Build.runFrom_bind_eq_ok,
      Build.runFrom_pure_eq_ok]
    exact ⟨fragments, later, run, rfl, rfl⟩
  · intro bag grown tokens first chain
    refine connected_andAll ?_ chain
    exact List.forall₂_map_right_iff.mpr (reads bag grown)

theorem runFrom_keyConditions_of_nil (none : entity.keys = []) (draft : Draft) :
    ((unqualified catalog).keyConditions entity record).runFrom draft =
      (.error (.noPrimaryKey entity.table), draft) := by
  simp [keyConditions, none]

theorem runFrom_keyConditions_of_isNull (sound : entity.Sound)
    (absent : ∃ key ∈ entity.keys, (record.value key).isNull = true) (draft : Draft) :
    ∃ later, ((unqualified catalog).keyConditions entity record).runFrom draft =
      (.error (.missingArgument .primaryKeyValue), later) := by
  rcases absent with ⟨key, listed, null⟩
  have keyed : entity.keys ≠ [] := List.ne_nil_of_mem listed
  have field : ∃ field ∈ entity.keyFields, (record.value field.property).isNull = true := by
    rw [← sound.keys, List.mem_map] at listed
    rcases listed with ⟨field, listed, rfl⟩
    exact ⟨field, listed, null⟩
  rcases runFrom_keyComparisons_of_isNull catalog record sound entity.keyFields_subset
    field draft with ⟨later, run⟩
  rw [sound.keys] at run
  refine ⟨later, ?_⟩
  simp only [keyConditions, List.isEmpty_iff, keyed, if_false, Build.runFrom_bind, run]

end Scope

namespace Query

variable {catalog : Catalog} {query : Query} {entity : Entity} (record : Record)
  {exclude : List String} (accepted : catalog.entity query.entity = .ok entity)
  (unfiltered : query.filters = [])

include accepted unfiltered

/-- The conditions are those on the key alone. -/
theorem runFrom_buildUpdateRecord (draft : Draft) :
    (query.buildUpdateRecord catalog record exclude false).runFrom draft =
      Build.runFrom (do
        let assignments ← (Scope.unqualified catalog).recordSetClause entity record exclude
        let keyed ← (Scope.unqualified catalog).keyConditions entity record
        let clauses : UpdateClauses :=
          { entity, assignments, conditions := [.word "WHERE", .space] ++ Fragment.always ++ keyed }
        return { sql := clauses.sql }) draft := by
  rw [buildUpdateRecord, accepted]
  simp only [unfiltered, hasFilters]
  rfl

theorem readScript_buildUpdateRecord (given : entity.updatableFields exclude ≠ [])
    (keyed : entity.keys ≠ []) (values : ∀ key ∈ entity.keys, (record.value key).isNull = false)
    (draft : Draft) :
    ∃ built later,
      (query.buildUpdateRecord catalog record exclude false).runFrom draft = (.ok built, later) ∧
      readScript later.params built.sql.squeezed =
        some ⟨entity.recordUpdate record (entity.updatableFields exclude)
          (Formula.always.andAll (entity.keyFields.map (·.equals record))), none⟩ := by
  have sound := Catalog.sound_of_entity accepted
  rcases Scope.runFrom_recordSetClause catalog record sound given draft with
    ⟨assignments, middle, set, assigns⟩
  rcases Scope.runFrom_keyConditions catalog record sound keyed values middle with
    ⟨keys, later, run, grown, connects⟩
  rcases assigns later.params grown with ⟨pieces, some', assigned, shape⟩
  have connected := connects later.params later.params.extends_refl
    (.single (Expr.reads_always later.params))
  let conditions : Fragment := [.word "WHERE", .space] ++ Fragment.always
  let clauses : UpdateClauses := { entity, assignments, conditions := conditions ++ keys }
  refine ⟨{ sql := clauses.sql }, later, ?_, ?_⟩
  · simp only [runFrom_buildUpdateRecord record accepted unfiltered, Build.runFrom_bind_eq_ok,
      Build.runFrom_pure_eq_ok]
    exact ⟨assignments, middle, set, keys, later, run, rfl, rfl⟩
  · have reads : clauses.ReadsAs later.params (entity.recordUpdate record
        (entity.updatableFields exclude)
        (Formula.always.andAll (entity.keyFields.map (·.equals record)))) :=
      ⟨rfl, ⟨pieces, some', assigned, shape⟩, _, reads_connected connected,
        by simp [clauses, conditions]⟩
    exact readScript_outputs reads (.inl ⟨rfl, rfl⟩)

theorem runFrom_buildUpdateRecord_of_nil (none : entity.updatableFields exclude = [])
    (draft : Draft) :
    (query.buildUpdateRecord catalog record exclude false).runFrom draft =
      (.error (.missingArgument .updatableField), draft) := by
  simp only [runFrom_buildUpdateRecord record accepted unfiltered, Build.runFrom_bind,
    Scope.runFrom_recordSetClause_of_nil catalog record none]

/-- Whatever is wrong with the key is wrong with the update. -/
theorem runFrom_buildUpdateRecord_of_keyConditions (given : entity.updatableFields exclude ≠ [])
    {error : Error} (refused : ∀ draft, ∃ later,
      ((Scope.unqualified catalog).keyConditions entity record).runFrom draft =
        (.error error, later)) (draft : Draft) :
    ∃ later, (query.buildUpdateRecord catalog record exclude false).runFrom draft =
      (.error error, later) := by
  rcases Scope.runFrom_recordSetClause catalog record (Catalog.sound_of_entity accepted)
    given draft with ⟨assignments, middle, set, -⟩
  rcases refused middle with ⟨later, keys⟩
  refine ⟨later, ?_⟩
  simp only [runFrom_buildUpdateRecord record accepted unfiltered, Build.runFrom_bind, set, keys]

end Query

/-! Writing a record looks at one entity only, so that its text reads back whatever the
other entities of the catalog are like. -/

def Entity.PlainProperties (entity : Entity) : Prop :=
  ∀ field ∈ entity.fields, isPlainIdentifier field.property = true

instance (entity : Entity) : Decidable entity.PlainProperties :=
  inferInstanceAs (Decidable (∀ field ∈ entity.fields, isPlainIdentifier field.property = true))

namespace Catalog

/-- The catalog of one of its entities alone. -/
def only (catalog : Catalog) (name : String) : Catalog :=
  { descriptors := [(name, catalog.descriptor name)] }

theorem entity_only (catalog : Catalog) (name : String) :
    (catalog.only name).entity name = catalog.entity name := by
  simp [only, entity, descriptor]

theorem plainProperties_only {catalog : Catalog} {name : String} {entity : Entity}
    (accepted : catalog.entity name = .ok entity) (plain : entity.PlainProperties) :
    (catalog.only name).PlainProperties := by
  rcases entity_eq_ok.mp accepted with ⟨-, rfl⟩
  apply plainProperties_of_fields
  intro described listed field inFields
  cases List.mem_singleton.mp listed
  exact plain field inFields

end Catalog

namespace Scope

variable (catalog other : Catalog) (entity : Entity) (record : Record)

theorem boundFields_congr (fields : List Field) :
    (unqualified catalog).boundFields entity record fields =
      (unqualified other).boundFields entity record fields := by
  induction fields with
  | nil => rfl
  | cons field fields induction =>
      rw [boundFields, boundFields, induction]
      rfl

theorem keyComparisons_congr (keys : List String) :
    (unqualified catalog).keyComparisons entity record keys =
      (unqualified other).keyComparisons entity record keys := by
  induction keys with
  | nil => rfl
  | cons key keys induction =>
      rw [keyComparisons, keyComparisons, induction]
      rfl

end Scope

namespace Query

variable (catalog : Catalog) (query : Query) (record : Record) (exclude : List String)

theorem buildInsert_only :
    query.buildInsert (catalog.only query.entity) record exclude =
      query.buildInsert catalog record exclude := by
  simp only [buildInsert, insertClauses, Scope.insertLists, catalog.entity_only,
    Scope.boundFields_congr (catalog.only query.entity) catalog]

theorem buildUpdateRecord_only (unfiltered : query.filters = []) :
    query.buildUpdateRecord (catalog.only query.entity) record exclude false =
      query.buildUpdateRecord catalog record exclude false := by
  simp only [buildUpdateRecord, Scope.recordSetClause, Scope.keyConditions, catalog.entity_only,
    Scope.boundFields_congr (catalog.only query.entity) catalog,
    Scope.keyComparisons_congr (catalog.only query.entity) catalog, unfiltered]
  rfl

end Query

namespace Entity

theorem insertableFields_eq (entity : Entity) (exclude : List String) :
    entity.insertableFields exclude = entity.fields.filter fun field =>
      entity.identity? ≠ some field.property ∧ field.property ∉ exclude := by
  apply List.filter_congr
  intro field _
  simp [isIdentity, Bool.beq_eq_decide_eq]

theorem updatableFields_eq (entity : Entity) (exclude : List String) :
    entity.updatableFields exclude = entity.fields.filter fun field =>
      field.property ∉ entity.keys ∧ entity.identity? ≠ some field.property ∧
        field.property ∉ exclude := by
  apply List.filter_congr
  intro field _
  simp [isKey, isIdentity, Bool.beq_eq_decide_eq, Bool.and_assoc]

end Entity

/-- An insert of a record fills the fields besides the identity and those left out, each
column with the value of its own property; without such fields it is refused. An update
by a record assigns the fields besides the key, the identity and those left out, and
picks the rows that have all the keys of the record; it is refused where there is
nothing to assign, no key, or a key without a value. -/
theorem record_written (catalog : Catalog) (dialect : Dialect) (query : Query) {entity : Entity}
    (accepted : catalog.entity query.entity = .ok entity) (plain : entity.PlainProperties)
    (record : Record) (exclude : List String) :
    let filled := entity.fields.filter fun field =>
      entity.identity? ≠ some field.property ∧ field.property ∉ exclude
    let assigned := entity.fields.filter fun field =>
      field.property ∉ entity.keys ∧ entity.identity? ≠ some field.property ∧
        field.property ∉ exclude
    let insert := ((Operation.insert query record exclude).compose catalog dialect).1
    let update := ((Operation.updateRecord query record exclude false).compose catalog dialect).1
    (filled = [] → insert = .error (.missingArgument .insertableField)) ∧
    (filled ≠ [] → ∃ composition statement, insert = .ok composition ∧
      dialect.insertOf composition.statement.sql = some statement ∧
      statement.table = entity.table ∧
      statement.columns = filled.map (·.column) ∧
      List.Forall₂ (fun placeholder field =>
        composition.statement.params.get? placeholder = some (record.value field.property))
        statement.placeholders filled) ∧
    (query.filters = [] →
      (assigned = [] → update = .error (.missingArgument .updatableField)) ∧
      (assigned ≠ [] → entity.keys = [] → update = .error (.noPrimaryKey entity.table)) ∧
      (assigned ≠ [] → (∃ key ∈ entity.keys, (record.value key).isNull = true) →
        update = .error (.missingArgument .primaryKeyValue)) ∧
      (assigned ≠ [] → entity.keys ≠ [] →
        (∀ key ∈ entity.keys, (record.value key).isNull = false) →
        ∃ composition statement, update = .ok composition ∧
          dialect.scriptOf composition.statement = some ⟨statement, none⟩ ∧
          statement.table = entity.table ∧
          statement.assignments = assigned.map (fun field =>
            (field.column, .constant (record.value field.property))) ∧
          statement.outputs = [] ∧
          statement.condition = Formula.always.andAll
            (entity.keyFields.map (·.equals record)) ∧
          entity.keyFields.map (·.property) = entity.keys ∧
          entity.keyFields ⊆ entity.fields ∧
          ∀ (server : Server) (row : TableRow), server.picks statement.condition row = true ↔
            entity.KeyMatches record server row)) := by
  intro filled assigned insert update
  have sound := Catalog.sound_of_entity accepted
  have narrow := Catalog.plainProperties_only accepted plain
  have fillable : entity.insertableFields exclude = filled := entity.insertableFields_eq exclude
  have assignable : entity.updatableFields exclude = assigned := entity.updatableFields_eq exclude
  refine ⟨?_, ?_, fun unfiltered => ⟨?_, ?_, ?_, ?_⟩⟩
  · intro none
    exact (Operation.insert query record exclude).compose_of_runFrom dialect
      (Query.runFrom_buildInsert_of_nil record accepted (fillable.trans none) {})
  · intro given
    rcases Query.readInsert_buildInsert record accepted
      (fun none => given (fillable.symm.trans none)) {} with
      ⟨built, later, statement, run, read, table, columns, values⟩
    rw [fillable] at columns values
    have legible := (Query.written_buildInsert narrow
      (query.buildInsert_only catalog record exclude ▸ run)).legible
    have composed := (Operation.insert query record exclude).compose_of_runFrom dialect run
    refine ⟨_, statement, composed, ?_, table, columns, values⟩
    rw [Dialect.insertOf, dialect.readTokens_text legible]
    exact read
  · intro none
    have refused := Query.runFrom_buildUpdateRecord_of_nil record accepted unfiltered
      (assignable.trans none) {}
    exact (Operation.updateRecord query record exclude false).compose_of_runFrom dialect refused
  · intro given unkeyed
    rcases Query.runFrom_buildUpdateRecord_of_keyConditions record accepted unfiltered
      (fun none => given (assignable.symm.trans none))
      (fun draft => ⟨draft, Scope.runFrom_keyConditions_of_nil catalog record unkeyed draft⟩) {} with
      ⟨later, refused⟩
    exact (Operation.updateRecord query record exclude false).compose_of_runFrom dialect refused
  · intro given absent
    rcases Query.runFrom_buildUpdateRecord_of_keyConditions record accepted unfiltered
      (fun none => given (assignable.symm.trans none))
      (Scope.runFrom_keyConditions_of_isNull catalog record sound absent) {} with ⟨later, refused⟩
    exact (Operation.updateRecord query record exclude false).compose_of_runFrom dialect refused
  · intro given keyed values
    rcases Query.readScript_buildUpdateRecord record accepted unfiltered
      (fun none => given (assignable.symm.trans none)) keyed values {} with
      ⟨built, later, run, read⟩
    rw [assignable] at read
    have legible := (Query.written_buildUpdateRecord narrow
      (query.buildUpdateRecord_only catalog record exclude unfiltered ▸ run)).legible
    have composed :=
      (Operation.updateRecord query record exclude false).compose_of_runFrom dialect run
    refine ⟨_, _, composed, (dialect.scriptOf_text legible later.params).trans read,
      rfl, rfl, rfl, rfl,
      sound.keys, entity.keyFields_subset, ?_⟩
    exact fun server row => server.picks_keyFields row entity record

/-- Someone who is in the table already, or is to be. -/
def Record.ann : Record :=
  { entity := "Person"
    members := [("Age", .integer 30), ("Id", .integer 7), ("Name", .text "Ann")] }

theorem record_written_ann :
    ∃ (inserted updated : Composition) (insert : InsertStatement) (update : UpdateStatement),
      ((Operation.insert { entity := "Person" } .ann ["Name"]).compose .people .oracle).1 =
        .ok inserted ∧
      Dialect.oracle.insertOf inserted.statement.sql = some insert ∧
      insert.columns = ["id", "Age"] ∧
      ((Operation.updateRecord { entity := "Person" } .ann ["Name"] false).compose .people
        .oracle).1 = .ok updated ∧
      Dialect.oracle.scriptOf updated.statement = some ⟨update, none⟩ ∧
      update.assignments = [("Age", .constant (.int 30))] ∧
      update.condition = .logical .and .always
        (.comparison .equal (.column { name := "id" }) (.constant (.int 7))) := by
  rcases record_written .people .oracle { entity := "Person" } rfl (by decide) .ann ["Name"] with
    ⟨-, fills, updates⟩
  rcases fills (by decide) with ⟨inserted, insert, composed, read, -, columns, -⟩
  rcases updates rfl with ⟨-, -, -, assigns⟩
  rcases assigns (by decide) (by decide) (by decide) with
    ⟨updated, update, updateComposed, updateRead, -, assignments, -, condition, -⟩
  exact ⟨inserted, updated, insert, update, composed, read, columns, updateComposed, updateRead,
    assignments, condition⟩

end EntitySql
