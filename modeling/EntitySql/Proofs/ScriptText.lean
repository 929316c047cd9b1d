import EntitySql.Proofs.ConditionMeaning
import EntitySql.Proofs.Placeholders
import EntitySql.Proofs.UpdateScript

/-! Updates that tell their rows read back as scripts. What the script assigns and what
it asks of a row is what the updater and the filters say. -/

namespace EntitySql

/-! Lists. An item ends where a comma or the next clause starts. -/

def Token.delimits (token : Token) : Bool :=
  token ∈ [.symbol .comma, .word "OUTPUT", .word "WHERE", .word "FROM", .word "HAVING",
    .word "ORDER", .word "LIMIT"]

def Ends (tokens : List Token) : Prop :=
  ∀ token ∈ tokens.head?, token.delimits = true

theorem ends_cons {token : Token} {rest : List Token} (delimits : token.delimits = true) :
    Ends (token :: rest) := by
  intro first head
  exact Option.some.inj head ▸ delimits

theorem Ends.stops {tokens : List Token} (ends : Ends tokens) : Stops 1 tokens := by
  intro token head
  have delimits := ends token head
  simp only [Token.delimits, decide_eq_true_eq, List.mem_cons, List.not_mem_nil, or_false]
    at delimits
  rcases delimits with rfl | rfl | rfl | rfl | rfl | rfl | rfl <;> decide

theorem Ends.skipToken {tokens : List Token} (ends : Ends tokens) {expected : Token}
    (other : expected.delimits = false) : skipToken expected tokens = none := by
  cases tokens with
  | nil => rfl
  | cons token rest =>
      have different : token ≠ expected := by
        rintro rfl
        rw [ends token rfl] at other
        cases other
      simp [EntitySql.skipToken, different]

@[simp] theorem skipToken_self (token : Token) (rest : List Token) :
    skipToken token (token :: rest) = some rest := by
  simp [skipToken]

/-- The item takes these tokens, of which there are some, for the value, and nothing
more. -/
structure TokenReader.Takes (item : TokenReader α) (tokens : List Token) (value : α) : Prop where
  some : tokens ≠ []
  reads : ∀ rest, Ends rest → item (tokens ++ rest) = Option.some (value, rest)

theorem readList_intercalate {item : TokenReader α} {pieces : List (List Token)}
    {values : List α} (takes : List.Forall₂ item.Takes pieces values) (given : pieces ≠ [])
    {limit : Nat} (enough : ([Token.symbol .comma].intercalate pieces).length ≤ limit)
    {rest : List Token} (ends : Ends rest) (last : rest.head? ≠ some (.symbol .comma)) :
    readList item limit ([Token.symbol .comma].intercalate pieces ++ rest) =
      some (values, rest) := by
  induction takes generalizing limit with
  | nil => exact absurd rfl given
  | @cons piece value pieces values first others induction =>
      have long := List.length_pos_of_ne_nil first.some
      cases others with
      | nil =>
          rw [List.intercalate_singleton] at enough ⊢
          rcases Nat.exists_eq_add_of_le' (Nat.lt_of_lt_of_le long enough) with ⟨fewer, rfl⟩
          simp only [readList, first.reads rest ends, Option.bind_eq_bind, Option.bind_some]
          cases rest with
          | nil => rfl
          | cons token rest =>
              split
              · next equal => exact absurd (congrArg List.head? equal) last
              · rfl
      | @cons second other pieces values head tail =>
          rw [List.intercalate_cons_cons] at enough ⊢
          simp only [List.length_append, List.length_cons, List.length_nil] at enough
          rcases Nat.exists_eq_add_of_le' (Nat.lt_of_lt_of_le long (by omega : _ ≤ limit)) with
            ⟨fewer, rfl⟩
          have more := @induction (List.cons_ne_nil _ _) fewer (by omega)
          have comma : Ends (.symbol .comma ::
              ([Token.symbol .comma].intercalate (second :: pieces) ++ rest)) := ends_cons rfl
          rw [List.append_assoc, List.append_assoc, List.singleton_append]
          simp only [readList, first.reads _ comma, Option.bind_eq_bind, Option.bind_some, more]
          rfl

/-! Assignments and columns. -/

/-- The tokens assign the value that the formula reads as. -/
def Assigns (bag : Params) (tokens : List Token) (assignment : String × Formula) : Prop :=
  ∃ value, tokens = .identifier assignment.1 :: .symbol .equal :: value ∧
    Reads bag .sum value assignment.2

theorem takes_assignment {bag : Params} {size : Nat} {tokens : List Token}
    {assignment : String × Formula} (assigns : Assigns bag tokens assignment)
    (fits : tokens.length ≤ size) : (readAssignment bag size).Takes tokens assignment := by
  rcases assigns with ⟨value, rfl, reads⟩
  refine ⟨List.cons_ne_nil _ _, ?_⟩
  intro rest ends
  simp only [List.length_cons] at fits
  have read : FormulaReader.sum bag (readFormula bag size) (value ++ rest) =
      some (assignment.2, rest) := reads size rest (by omega) (ends.stops.weaken (by decide))
  simp [readAssignment, takeIdentifier, read]

/-- The tokens of a column that is shown under its own name or under another. -/
def Shows (tokens : List Token) (shown : ShownColumn) : Prop :=
  tokens = [.identifier shown.column] ∧ shown.label = shown.column ∨
    tokens = [.identifier shown.column, .word "AS", .identifier shown.label]

theorem takes_shownColumn {tokens : List Token} {shown : ShownColumn}
    (shows : Shows tokens shown) : TokenReader.Takes readShownColumn tokens shown := by
  rcases shown with ⟨column, label⟩
  rcases shows with ⟨rfl, same⟩ | rfl
  · refine ⟨List.cons_ne_nil _ _, ?_⟩
    intro rest ends
    have plain := ends.skipToken (show (Token.word "AS").delimits = false by decide)
    simp [readShownColumn, plain, show label = column from same]
  · refine ⟨List.cons_ne_nil _ _, ?_⟩
    intro rest ends
    simp [readShownColumn, takeIdentifier]

theorem takes_insertedColumn {tokens : List Token} {shown : ShownColumn}
    (shows : Shows tokens shown) :
    TokenReader.Takes readInsertedColumn (.word "INSERTED" :: .symbol .dot :: tokens) shown := by
  refine ⟨List.cons_ne_nil _ _, ?_⟩
  intro rest ends
  simpa [readInsertedColumn] using (takes_shownColumn shows).reads rest ends

/-! Statements. -/

section

variable {bag : Params} {size : Nat}

theorem readFormula_of_reads {tokens rest : List Token} {formula : Formula}
    (reads : Reads bag .disjunction tokens formula) (fits : tokens.length ≤ size)
    (stops : Stops 1 rest) :
    readFormula bag (size + 1) (tokens ++ rest) = some (formula, rest) :=
  reads size rest fits stops

/-- What the tokens after the assignments output. -/
def Outputs (tokens : List Token) (outputs : List ShownColumn) : Prop :=
  tokens = [] ∧ outputs = [] ∨
    ∃ pieces, pieces ≠ [] ∧ List.Forall₂ Shows pieces outputs ∧
      tokens = .word "OUTPUT" :: [Token.symbol .comma].intercalate
        (pieces.map fun piece => .word "INSERTED" :: .symbol .dot :: piece)

theorem readOutputs_complete {tokens : List Token} {outputs : List ShownColumn}
    (shown : Outputs tokens outputs) (fits : tokens.length ≤ size) (rest : List Token) :
    readOutputs size (tokens ++ .word "WHERE" :: rest) = some (outputs, .word "WHERE" :: rest) := by
  rcases shown with ⟨rfl, rfl⟩ | ⟨pieces, given, shows, rfl⟩
  · simp [readOutputs, skipToken]
  · have takes : List.Forall₂ (TokenReader.Takes readInsertedColumn)
        (pieces.map fun piece => .word "INSERTED" :: .symbol .dot :: piece) outputs := by
      rw [List.forall₂_map_left_iff]
      exact shows.imp fun _ _ => takes_insertedColumn
    have some' : (pieces.map fun piece =>
        Token.word "INSERTED" :: .symbol .dot :: piece) ≠ [] := by simpa using given
    rw [List.length_cons] at fits
    have ends : Ends (.word "WHERE" :: rest) := ends_cons (by decide)
    have read := readList_intercalate takes some' (Nat.le_of_succ_le fits) ends (by simp)
    simp only [readOutputs, List.cons_append, skipToken_self, read]

theorem length_le_length_intercalate {between : List Token} {pieces : List (List Token)} :
    ∀ piece ∈ pieces, piece.length ≤ (between.intercalate pieces).length := by
  induction pieces with
  | nil => simp
  | cons first rest induction =>
      intro piece listed
      cases rest with
      | nil => simp_all [List.intercalate_singleton]
      | cons second rest =>
          rw [List.intercalate_cons_cons, List.length_append, List.length_append]
          rcases List.mem_cons.mp listed with rfl | listed
          · omega
          · have fits := induction piece listed
            omega

theorem readUpdate_complete {table : String} {pieces : List (List Token)}
    {assignments : List (String × Formula)}
    (assigns : List.Forall₂ (Assigns bag) pieces assignments) (given : pieces ≠ [])
    {outputTokens : List Token} {outputs : List ShownColumn}
    (shown : Outputs outputTokens outputs) {conditionTokens : List Token} {condition : Formula}
    (reads : Reads bag .disjunction conditionTokens condition) {tokens : List Token}
    (shape : tokens = .word "UPDATE" :: .identifier table :: .word "SET" ::
      ([Token.symbol .comma].intercalate pieces ++ (outputTokens ++
        .word "WHERE" :: conditionTokens)))
    (fits : tokens.length ≤ size) {rest : List Token} (stops : Stops 1 rest) :
    readUpdate bag size (tokens ++ rest) =
      some ({ table, assignments, outputs, condition }, rest) := by
  subst shape
  simp only [List.length_cons, List.length_append] at fits
  have takes : List.Forall₂ (readAssignment bag size).Takes pieces assignments := by
    have short : ∀ piece ∈ pieces, piece.length ≤ size := by
      intro piece listed
      have within : piece.length ≤ ([Token.symbol .comma].intercalate pieces).length :=
        length_le_length_intercalate piece listed
      omega
    apply ((List.forall₂_and_left _ _).mpr ⟨short, assigns⟩).imp
    intro piece assignment both
    exact takes_assignment both.2 both.1
  have afterwards : Ends (outputTokens ++ .word "WHERE" :: (conditionTokens ++ rest)) ∧
      (outputTokens ++ .word "WHERE" :: (conditionTokens ++ rest)).head? ≠
        some (.symbol .comma) := by
    rcases shown with ⟨rfl, -⟩ | ⟨_, -, -, rfl⟩
    · exact ⟨ends_cons (by decide), by simp⟩
    · exact ⟨ends_cons (by decide), by simp⟩
  have listed := readList_intercalate takes given (by omega : _ ≤ size) afterwards.1 afterwards.2
  have told := readOutputs_complete shown (by omega : _ ≤ size) (conditionTokens ++ rest)
  have asked := readFormula_of_reads reads (by omega : _ ≤ size) stops
  simp only [List.cons_append, List.append_assoc] at *
  simp [readUpdate, takeIdentifier, listed, told, asked]

theorem readSelect_complete {table : String} {pieces : List (List Token)}
    {columns : List ShownColumn} (shows : List.Forall₂ Shows pieces columns)
    (given : pieces ≠ []) {conditionTokens : List Token} {condition : Formula}
    (reads : Reads bag .disjunction conditionTokens condition) {tokens : List Token}
    (shape : tokens = .word "SELECT" :: ([Token.symbol .comma].intercalate pieces ++
      .word "FROM" :: .identifier table :: .word "WHERE" :: conditionTokens))
    (fits : tokens.length ≤ size) :
    readSelect bag size tokens = some ({ columns, table, condition }, []) := by
  subst shape
  simp only [List.length_cons, List.length_append] at fits
  have takes : List.Forall₂ (TokenReader.Takes readShownColumn) pieces columns :=
    shows.imp fun _ _ => takes_shownColumn
  have ends : Ends (.word "FROM" :: .identifier table :: .word "WHERE" :: conditionTokens) :=
    ends_cons (by decide)
  have listed := readList_intercalate takes given (by omega : _ ≤ size) ends (by simp)
  have asked := readFormula_of_reads reads (by omega : _ ≤ size) (stops_nil 1)
  rw [List.append_nil] at asked
  simp [readSelect, takeIdentifier, listed, asked]

end

/-! The tokens of the pieces that an update is built of. -/

theorem Query.squeezed_sqlWith (clauses : UpdateClauses) (clause : Fragment) :
    (clauses.sqlWith clause).squeezed =
      .word "UPDATE" :: .identifier clauses.entity.table ::
        (clauses.assignments.squeezed ++ (clause.squeezed ++ clauses.conditions.squeezed)) := by
  simp [UpdateClauses.sqlWith, Fragment.squeezed_spaced, Entity.tableName]

/-! The columns that are told. -/

/-- Without qualifiers, a returned column is a quoted name, which is shown under the
property. -/
structure ReturnedColumn.ShownAs (returned : ReturnedColumn) (shown : ShownColumn) : Prop where
  column : returned.column = [.identifier shown.column]
  label : shown.label = returned.property

/-- The text of a column is the quoted name only if the column is that name, since quotes tell
all names apart. -/
theorem ReturnedColumn.column_eq_of_text_eq {returned : ReturnedColumn} {dialect : Dialect}
    (legible : returned.column.Legible)
    (same : returned.column.text dialect.lexical =
      Fragment.text dialect.lexical [.identifier returned.property]) :
    returned.column = [.identifier returned.property] := by
  have named : Fragment.Legible [.identifier returned.property] :=
    Fragment.legible_singleton.mpr trivial
  have read := congrArg dialect.readTokens same
  rw [dialect.readTokens_text legible, dialect.readTokens_text named] at read
  exact Option.some.inj read

/-- A column goes without a new name only where it has that name already. -/
theorem shows_named (dialect : Dialect) {returned : ReturnedColumn} {shown : ShownColumn}
    (shownAs : returned.ShownAs shown) :
    Shows (returned.named dialect.lexical).squeezed shown := by
  rcases shownAs with ⟨column, label⟩
  unfold ReturnedColumn.named
  split
  · next same =>
      have legible : returned.column.Legible :=
        column ▸ Fragment.legible_singleton.mpr trivial
      have alone := ReturnedColumn.column_eq_of_text_eq legible same
      have named : shown.column = returned.property := by simpa [column] using alone
      exact .inl ⟨by rw [column]; rfl, label.trans named.symm⟩
  · exact .inr (by rw [column, label]; rfl)

theorem shows_namedColumns (dialect : Dialect) {returned : List ReturnedColumn}
    {columns : List ShownColumn}
    (shownAs : List.Forall₂ ReturnedColumn.ShownAs returned columns) :
    List.Forall₂ Shows ((returned.map (·.named dialect.lexical)).map Fragment.squeezed)
      columns := by
  rw [List.map_map, List.forall₂_map_left_iff]
  exact shownAs.imp fun _ _ each => shows_named dialect each

theorem exists_forall₂ {relation : α → β → Prop} {items : List α}
    (each : ∀ item ∈ items, ∃ other, relation item other) :
    ∃ others, List.Forall₂ relation items others := by
  induction items with
  | nil => exact ⟨[], .nil⟩
  | cons first rest induction =>
      rcases each first List.mem_cons_self with ⟨other, head⟩
      rcases induction (fun item listed => each item (List.mem_cons_of_mem _ listed)) with
        ⟨others, tail⟩
      exact ⟨other :: others, .cons head tail⟩

namespace Scope

theorem plain_of_member {catalog : Catalog} {path : MemberPath} {column : Fragment}
    (found : (unqualified catalog).member path = .ok column) :
    ∃ name, column = [.identifier name] := by
  rcases member_eq_ok.mp found with ⟨reference, resolved, rfl⟩
  unfold reference? at resolved
  split at resolved
  · rcases Option.map_eq_some_iff.mp resolved with ⟨name, -, rfl⟩
    exact ⟨name, rfl⟩
  · cases resolved

theorem plain_of_column {catalog : Catalog} {entity : Entity} {property : String}
    {column : Fragment} (found : (unqualified catalog).column entity property = .ok column) :
    ∃ name, entity.column property = .ok name ∧ column = [.identifier name] := by
  rcases columnUnder_eq_ok.mp found with ⟨name, mapped, rfl⟩
  exact ⟨name, mapped, rfl⟩

theorem exists_shownAs {catalog : Catalog} {entity : Entity} {select : Option Expr}
    {returned : List ReturnedColumn}
    (found : (unqualified catalog).returnedColumns entity select = .ok returned) :
    ∃ columns, List.Forall₂ ReturnedColumn.ShownAs returned columns := by
  apply exists_forall₂
  intro each listed
  rcases returnedColumn_cases found each listed with column | ⟨path, column, -⟩
  · rcases plain_of_column column with ⟨name, -, column⟩
    exact ⟨⟨name, each.property⟩, column, rfl⟩
  · rcases plain_of_member column with ⟨name, column⟩
    exact ⟨⟨name, each.property⟩, column, rfl⟩

theorem ne_nil_of_mapM_eq_ok {transform : α → Except Error β} {items : List α}
    {results : List β} (given : items ≠ []) (run : items.mapM transform = .ok results) :
    results ≠ [] := by
  rintro rfl
  cases forall₂_of_mapM_eq_ok run
  exact given rfl

/-- An entity that passed its checks has fields, so some column is always returned. -/
theorem ne_nil_of_returnedColumns {catalog : Catalog} {name : String} {entity : Entity}
    (accepted : catalog.entity name = .ok entity) {select : Option Expr}
    {returned : List ReturnedColumn}
    (found : (unqualified catalog).returnedColumns entity select = .ok returned) :
    returned ≠ [] := by
  unfold returnedColumns at found
  split at found
  · exact ne_nil_of_mapM_eq_ok (Catalog.fields_ne_nil_of_entity accepted) found
  · split at found
    · rcases bind_eq_ok.mp found with ⟨column, -, shown⟩
      cases shown
      exact List.cons_ne_nil _ _
    · next name bindings shape =>
        split at found
        · cases found
        · next given =>
            apply ne_nil_of_mapM_eq_ok _ found
            simpa using given
    · cases found

/-! Assignments and conditions. -/

theorem reads_boundAssignments {catalog : Catalog} (plain : catalog.PlainProperties)
    {name : String} {entity : Entity} (accepted : catalog.entity name = .ok entity)
    {bindings : List (String × Expr)} {draft later : Draft} {fragments : List Fragment}
    (run : ((unqualified catalog).boundAssignments entity bindings).runFrom draft =
      (.ok fragments, later)) :
    ∃ assignments,
      List.Forall₂ (fun binding assignment => entity.column binding.1 = .ok assignment.1 ∧
        binding.2.term? (unqualified catalog) = some assignment.2) bindings assignments ∧
      ∀ bag : Params, bag.Extends later.params →
        List.Forall₂ (Assigns bag) (fragments.map Fragment.squeezed) assignments := by
  have joins := plainJoin_unqualified catalog
  induction bindings generalizing draft fragments with
  | nil =>
      rw [boundAssignments, Build.runFrom_pure_eq_ok] at run
      rcases run with ⟨rfl, rfl⟩
      exact ⟨[], .nil, fun _ _ => .nil⟩
  | cons binding bindings induction =>
      rcases binding with ⟨member, expression⟩
      simp only [boundAssignments, Build.runFrom_bind_eq_ok, Build.runFrom_pure_eq_ok,
        Build.runFrom_lift_eq_ok] at run
      rcases run with ⟨column, _, ⟨found, rfl⟩, value, middle, head, rest, last, tail, rfl, rfl⟩
      have hinted : isPlainIdentifier member = true :=
        plain ⟨name, member⟩ (maps_of_column accepted found)
      rcases plain_of_column found with ⟨assigned, mapped, rfl⟩
      rcases Expr.reads_scalar head with
        ⟨term, same, reads⟩
      rcases induction tail with ⟨others, means, assigns⟩
      have kept := (writtenAll_boundAssignments joins plain accepted tail).binds.extends
      refine ⟨(assigned, term) :: others, .cons ⟨mapped, same⟩ means, ?_⟩
      intro bag grown
      refine .cons ⟨value.squeezed, by simp, ?_⟩ (assigns bag grown)
      exact reads_sum_of_primary (reads bag (grown.trans kept))

end Scope

/-- The update that a query and an updater ask for: it assigns the values of the updater's
bindings to the rows for which the filters hold. -/
structure UpdateStatement.Means (update : UpdateStatement) (catalog : Catalog) (query : Query)
    (updater : Expr) : Prop where
  table : ∃ entity, catalog.entity query.entity = .ok entity ∧ update.table = entity.table
  assignments : ∃ name bindings entity,
    updater.body = .record name bindings ∧ catalog.entity name = .ok entity ∧
      List.Forall₂ (fun binding assignment => entity.column binding.1 = .ok assignment.1 ∧
        binding.2.term? (.unqualified catalog) = some assignment.2) bindings update.assignments
  condition : update.condition.Agrees
    (Expr.jointTruth? (.unqualified catalog) · · query.filters)

namespace Query

/-- The columns in which a query tells changed rows. -/
def Tells (query : Query) (catalog : Catalog) (columns : List ShownColumn) : Prop :=
  ∃ entity returned, catalog.entity query.entity = .ok entity ∧
    (Scope.unqualified catalog).returnedColumns entity query.select = .ok returned ∧
    List.Forall₂ ReturnedColumn.ShownAs returned columns

/-- The tokens of the clauses read as the parts of the update. -/
structure UpdateClauses.ReadsAs (clauses : UpdateClauses) (bag : Params)
    (update : UpdateStatement) : Prop where
  table : update.table = clauses.entity.table
  assignments : ∃ pieces, pieces ≠ [] ∧ List.Forall₂ (Assigns bag) pieces update.assignments ∧
    clauses.assignments.squeezed = .word "SET" :: [Token.symbol .comma].intercalate pieces
  condition : ∃ tokens, Reads bag .disjunction tokens update.condition ∧
    clauses.conditions.squeezed = .word "WHERE" :: tokens

theorem reads_updateClauses {catalog : Catalog} (plain : catalog.PlainProperties)
    {query : Query} {updater : Expr} {draft later : Draft} {clauses : UpdateClauses}
    (run : (query.updateClauses catalog updater).runFrom draft = (.ok clauses, later)) :
    ∃ update, update.Means catalog query updater ∧ clauses.ReadsAs later.params update := by
  rcases run_of_updateClauses run with
    ⟨entity, assignments, conditions, accepted, set, filters, warned⟩
  have joins := Scope.plainJoin_unqualified catalog
  have membersPlain : ∀ expression ∈ query.filters, expression.PlainMembers catalog :=
    fun expression _ => plain.members expression
  have kept := (Scope.written_whereClause joins membersPlain filters).binds.extends
  have same := params_of_warnUnfiltered warned
  rcases Scope.reads_whereClause joins membersPlain filters (Params.extends_refl _) with
    ⟨tokens, condition, starts, reads, agrees⟩
  rcases Scope.setClause_eq_ok set with
    ⟨name, bindings, assigned, fragments, shape, given, known, inner, rfl⟩
  rcases Scope.reads_boundAssignments plain known inner with ⟨pairs, means, assigns⟩
  have assigning := assigns _ kept
  refine ⟨⟨entity.table, pairs, [], condition⟩, ⟨⟨entity, accepted, rfl⟩,
    ⟨name, bindings, assigned, shape, known, means⟩, agrees⟩, rfl, ?_, ?_⟩
  · refine ⟨fragments.map Fragment.squeezed, ?_, same ▸ assigning, ?_⟩
    · intro none
      rw [none] at assigning
      cases assigning
      cases means
      exact given rfl
    · rw [← Fragment.squeezed_commaSeparated]
      rfl
  · exact ⟨tokens, same ▸ reads, starts⟩

section

variable {bag : Params} {clauses : UpdateClauses} {update : UpdateStatement}
  (reads : clauses.ReadsAs bag update)

include reads

/-- The update with its outputs, in front of whatever cannot carry on a condition. -/
theorem readUpdate_sqlWith {clause : Fragment} {shown : List ShownColumn}
    (outputs : Outputs clause.squeezed shown) {size : Nat} {rest : List Token}
    (fits : (clauses.sqlWith clause).squeezed.length ≤ size) (stops : Stops 1 rest) :
    readUpdate bag size ((clauses.sqlWith clause).squeezed ++ rest) =
      some ({ update with outputs := shown }, rest) := by
  rcases reads with ⟨table, ⟨pieces, some', assigns, set⟩, tokens, condition, filters⟩
  have shape := squeezed_sqlWith clauses clause
  rw [set, filters] at shape
  rw [readUpdate_complete assigns some' outputs condition shape fits stops, ← table]

theorem readScript_outputs {clause : Fragment} {shown : List ShownColumn}
    (outputs : Outputs clause.squeezed shown) :
    readScript bag (clauses.sqlWith clause).squeezed =
      some ⟨{ update with outputs := shown }, none⟩ := by
  have read := readUpdate_sqlWith reads outputs (Nat.le_refl _) (stops_nil 1)
  rw [List.append_nil] at read
  simp [readScript, read]

/-- The update before a query for the same table under the same condition. -/
theorem readScript_followedBy {clause : Fragment} {pieces : List (List Token)}
    {shown : List ShownColumn} (shows : List.Forall₂ Shows pieces shown) (some' : pieces ≠ [])
    (select : clause.squeezed = .word "SELECT" :: ([Token.symbol .comma].intercalate pieces ++
      [.word "FROM", .identifier clauses.entity.table])) :
    readScript bag (followedBy clauses.sql (clause ++ .space :: clauses.conditions)).squeezed =
      some ⟨{ update with outputs := [] }, some ⟨shown, update.table, update.condition⟩⟩ := by
  have tokens : (followedBy clauses.sql (clause ++ .space :: clauses.conditions)).squeezed =
      (clauses.sqlWith []).squeezed ++
        .symbol .semicolon :: (clause.squeezed ++ clauses.conditions.squeezed) := by
    simp [followedBy, UpdateClauses.sql]
  rw [tokens, readScript]
  generalize size : List.length _ = total
  rw [List.length_append, List.length_cons] at size
  have fits : (clauses.sqlWith []).squeezed.length ≤ total := by omega
  have stops : Stops 1 (.symbol .semicolon ::
      (clause.squeezed ++ clauses.conditions.squeezed)) := stops_cons (by decide)
  have first := readUpdate_sqlWith reads (.inl ⟨rfl, rfl⟩) fits stops
  rcases reads with ⟨table, -, conditionTokens, condition, filters⟩
  have shape : clause.squeezed ++ clauses.conditions.squeezed =
      .word "SELECT" :: ([Token.symbol .comma].intercalate pieces ++
        .word "FROM" :: .identifier clauses.entity.table :: .word "WHERE" :: conditionTokens) := by
    simp [select, filters]
  have second := readSelect_complete shows some' condition shape (by omega : _ ≤ total)
  simp [first, second, table]

end

/-! The script of each dialect. -/

variable {catalog : Catalog} {query : Query} {updater : Expr} {draft later : Draft}
  {built : Built}

theorem readScript_buildUpdateSelect (plain : catalog.PlainProperties)
    (run : (query.buildUpdateSelect catalog .mysql updater).runFrom draft = (.ok built, later)) :
    ∃ (update : UpdateStatement) (columns : List ShownColumn),
      update.Means catalog query updater ∧
      query.Tells catalog columns ∧
      readScript later.params built.sql.squeezed =
        some ⟨{ update with outputs := [] },
          some ⟨columns, update.table, update.condition⟩⟩ ∧
      ∃ other, (query.buildUpdateSelect catalog .sqlServer updater).runFrom draft =
          (.ok other, later) ∧
        readScript later.params other.sql.squeezed =
          some ⟨{ update with outputs := columns }, none⟩ := by
  simp only [buildUpdateSelect, Build.runFrom_bind_eq_ok, Build.runFrom_lift_eq_ok,
    Build.runFrom_pure_eq_ok, Dialect.returningClause] at run
  rcases run with ⟨clauses, _, inner, returned, _, ⟨found, rfl⟩, clause, _, ⟨rfl, rfl⟩, rfl, rfl⟩
  rcases reads_updateClauses plain inner with ⟨update, means, reads⟩
  have accepted := (written_updateClauses plain inner).1
  rcases Scope.exists_shownAs found with ⟨columns, shownAs⟩
  have given := Scope.ne_nil_of_returnedColumns accepted found
  let output : Fragment := [.word "OUTPUT", .space] ++ Fragment.commaSeparated
    ((returned.map (·.named Dialect.sqlServer.lexical)).map
      ([.word "INSERTED", .symbol .dot] ++ ·))
  refine ⟨update, columns, means, ⟨_, returned, accepted, found, shownAs⟩, ?_,
    { sql := clauses.sqlWith output }, ?_, ?_⟩
  · apply readScript_followedBy reads (shows_namedColumns .mysql shownAs) (by simpa using given)
    simp [Fragment.squeezed_commaSeparated, Entity.tableName]
  · simp only [buildUpdateSelect, Build.runFrom_bind_eq_ok, Build.runFrom_lift_eq_ok,
      Build.runFrom_pure_eq_ok, Dialect.returningClause]
    exact ⟨clauses, _, inner, returned, _, ⟨found, rfl⟩, output, _, ⟨rfl, rfl⟩, rfl, rfl⟩
  · apply readScript_outputs reads
    refine .inr ⟨_, ?_, shows_namedColumns .sqlServer shownAs, ?_⟩
    · simpa using given
    · simp [output, Fragment.squeezed_commaSeparated, Function.comp_def]

end Query

end EntitySql
