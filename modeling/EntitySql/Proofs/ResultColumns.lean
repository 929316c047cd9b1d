import EntitySql.Proofs.AcceptedConditions
import EntitySql.Proofs.RecordBinding
import EntitySql.Proofs.RowQueryText

/-! What the columns of a result are called. A column goes by the name behind `AS`, and by the
name that it has in its table where it stands alone. A name is given only where the column does
not have it already; since quoting tells all names apart, every column comes back under the name
of its property, whatever the names are. Only parameters go without quotes, and the values of a
record may hold some. -/

namespace EntitySql

/-- A column of a result: what it is called, unless that is left open, and what it shows. -/
structure ResultColumn where
  name? : Option String
  value : Formula
  deriving DecidableEq, Repr

/-- What a value is called that is given no name. -/
def Formula.ownName? : Formula → Option String
  | .column reference => some reference.name
  | _ => none

/-- The column goes by the name of a binding and shows its value. -/
def ResultColumn.Shows (scope : Scope) (column : ResultColumn) (binding : String × Expr) : Prop :=
  column.name? = some binding.1 ∧ binding.2.term? scope = some column.value

theorem ResultColumn.names_of_shows {scope : Scope} {columns : List ResultColumn}
    {bindings : List (String × Expr)}
    (shows : List.Forall₂ (ResultColumn.Shows scope) columns bindings) :
    columns.map (·.name?) = bindings.map (some ·.1) := by
  rw [← List.forall₂_eq_eq_eq, List.forall₂_map_left_iff, List.forall₂_map_right_iff]
  exact shows.imp fun _ _ each => each.1

/-! Reading. -/

section

variable (bag : Params) (size : Nat)

def readResultColumn : TokenReader ResultColumn := fun tokens => do
  let (value, rest) ← readScalar bag size tokens
  match skipToken (.word "AS") rest with
  | some renamed => do
      let (name, after) ← takeIdentifier renamed
      return (⟨some name, value⟩, after)
  | none => return (⟨value.ownName?, value⟩, rest)

/-- A column as it is after an update. -/
def readOutputColumn : TokenReader ResultColumn := fun tokens => do
  let rest ← skipToken (.word "INSERTED") tokens
  let rest ← skipToken (.symbol .dot) rest
  readResultColumn bag size rest

end

namespace Dialect

/-- The columns of a select list, with the values that the parameters in it hold. -/
def resultColumns? (dialect : Dialect) (bag : Params) (text : String) :
    Option (List ResultColumn) := do
  let fragment ← dialect.readTokens text
  let tokens := fragment.squeezed
  let (columns, rest) ← readList (readResultColumn bag tokens.length) tokens.length tokens
  if rest.isEmpty then return columns else none

/-- The columns that an update tells in the clause it has for that. Oracle returns them into
parameters, which no name of a column has to do with. -/
def returnedColumns? (dialect : Dialect) (bag : Params) (text : String) :
    Option (List ResultColumn) := do
  let fragment ← dialect.readTokens text
  let tokens := fragment.squeezed
  match dialect with
  | .mysql => do
      let rest ← skipToken (.word "SELECT") tokens
      let (columns, rest) ← readList (readResultColumn bag tokens.length) tokens.length rest
      let rest ← skipToken (.word "FROM") rest
      let (_, rest) ← takeIdentifier rest
      if rest.isEmpty then return columns else none
  | .sqlServer => do
      let rest ← skipToken (.word "OUTPUT") tokens
      let (columns, rest) ← readList (readOutputColumn bag tokens.length) tokens.length rest
      if rest.isEmpty then return columns else none
  | .oracle => none

end Dialect

/-! Tokens that read as a column. -/

section

variable {bag : Params} {size : Nat}

def ColumnReads (bag : Params) (tokens : List Token) (column : ResultColumn) : Prop :=
  Reads bag .sum tokens column.value ∧ column.name? = column.value.ownName? ∨
    ∃ value name, Reads bag .sum value column.value ∧
      tokens = value ++ [.word "AS", .identifier name] ∧ column.name? = some name

theorem takes_resultColumn {tokens : List Token} {column : ResultColumn}
    (reads : ColumnReads bag tokens column) (fits : tokens.length ≤ size) :
    (readResultColumn bag size).Takes tokens column := by
  rcases column with ⟨name?, formula⟩
  rcases reads with ⟨reads, own⟩ | ⟨value, name, reads, rfl, rfl⟩
  · refine ⟨reads.ne_nil, ?_⟩
    intro rest ends
    have read := readScalar_of_reads reads fits (ends.stops.weaken (by decide))
    have plain := ends.skipToken (show (Token.word "AS").delimits = false by decide)
    simp [readResultColumn, read, plain, show name? = formula.ownName? from own]
  · refine ⟨by simp, ?_⟩
    intro rest ends
    rw [List.length_append] at fits
    have stops : Stops 4 (.word "AS" :: .identifier name :: rest) := stops_cons (by decide)
    have read := readScalar_of_reads reads (by omega : _ ≤ size) stops
    simp [readResultColumn, read, takeIdentifier]

def OutputReads (bag : Params) (tokens : List Token) (column : ResultColumn) : Prop :=
  ∃ shown, ColumnReads bag shown column ∧ tokens = [.word "INSERTED", .symbol .dot] ++ shown

theorem takes_outputColumn {tokens : List Token} {column : ResultColumn}
    (reads : OutputReads bag tokens column) (fits : tokens.length ≤ size) :
    (readOutputColumn bag size).Takes tokens column := by
  rcases reads with ⟨shown, reads, rfl⟩
  have short : shown.length ≤ size := by
    rw [List.length_append] at fits
    omega
  refine ⟨by simp, ?_⟩
  intro rest ends
  simpa [readOutputColumn] using (takes_resultColumn reads short).reads rest ends

theorem columnReads_own (bag : Params) (reference : ColumnReference) :
    ColumnReads bag reference.fragment.squeezed ⟨some reference.name, .column reference⟩ :=
  .inl ⟨reads_columnFragment bag reference, rfl⟩

theorem columnReads_renamed {value : Fragment} {formula : Formula}
    (reads : Reads bag .sum value.squeezed formula) (name : String) :
    ColumnReads bag (Fragment.renamed value name).squeezed ⟨some name, formula⟩ :=
  .inr ⟨value.squeezed, name, reads, by simp [Fragment.renamed], rfl⟩

end

namespace ColumnReference

/-- The column under a name, which is written only where it is not its own. -/
def shownAs (reference : ColumnReference) (name : String) : Fragment :=
  if reference.name = name then reference.fragment else reference.fragment.renamed name

theorem columnReads_shownAs (bag : Params) (reference : ColumnReference) (name : String) :
    ColumnReads bag (reference.shownAs name).squeezed ⟨some name, .column reference⟩ := by
  unfold shownAs
  split
  · next same => exact same ▸ columnReads_own bag reference
  · exact columnReads_renamed (reads_columnFragment bag reference) name

theorem legible_shownAs {reference : ColumnReference}
    (plain : ∀ aliasName ∈ reference.qualifier?, isPlainIdentifier aliasName = true)
    (name : String) : (reference.shownAs name).Legible := by
  unfold shownAs
  split
  · exact legible_fragment plain
  · exact Fragment.legible_renamed.mpr (legible_fragment plain)

end ColumnReference

theorem resultColumns?_text (dialect : Dialect) {bag : Params} {fragments : List Fragment}
    {columns : List ResultColumn} (legible : ∀ fragment ∈ fragments, fragment.Legible)
    (reads : List.Forall₂ (fun fragment => ColumnReads bag (Fragment.squeezed fragment))
      fragments columns) (given : fragments ≠ []) :
    dialect.resultColumns? bag ((Fragment.commaSeparated fragments).text dialect.lexical) =
      some columns := by
  have pieces : List.Forall₂ (ColumnReads bag) (fragments.map Fragment.squeezed) columns :=
    List.forall₂_map_left_iff.mpr reads
  have some' : fragments.map Fragment.squeezed ≠ [] := by simpa using given
  have ends : Ends [] := fun _ head => absurd head (Option.not_mem_none _)
  have listed := readList_of_takes (fun _ _ => takes_resultColumn) pieces some' (Nat.le_refl _)
    ends (by simp)
  rw [List.append_nil] at listed
  simp [Dialect.resultColumns?, dialect.readTokens_text (Fragment.legible_commaSeparated legible),
    Fragment.squeezed_commaSeparated, listed]

/-! Select lists. -/

namespace Scope

/-- Where a field is read, in the table of its entity. -/
def fieldReference (scope : Scope) (entity : Entity) (field : Field) : ColumnReference :=
  ⟨scope.qualifierUnder entity.aliasName, field.column⟩

/-- A field under the name of its property. -/
def fieldColumn (scope : Scope) (entity : Entity) (field : Field) : ResultColumn :=
  ⟨some field.property, .column (scope.fieldReference entity field)⟩

theorem plain_qualifierUnder (scope : Scope) {aliasName : String}
    (plain : isPlainIdentifier aliasName = true) :
    ∀ qualifier ∈ scope.qualifierUnder aliasName, isPlainIdentifier qualifier = true := by
  intro qualifier qualifies
  rcases Option.ite_none_right_eq_some.mp qualifies with ⟨-, written⟩
  exact Option.some.inj written ▸ plain

variable {catalog : Catalog} {name : String} {entity : Entity}

theorem column_of_mem (scope : Scope) (accepted : catalog.entity name = .ok entity)
    {field : Field} (listed : field ∈ entity.fields) :
    scope.column entity field.property = .ok (scope.fieldReference entity field).fragment :=
  columnUnder_eq_ok.mpr ⟨_, (Catalog.sound_of_entity accepted).column field listed, rfl⟩

theorem resultColumns?_fieldList (scope : Scope) (accepted : catalog.entity name = .ok entity)
    (dialect : Dialect) :
    ∃ columns, scope.fieldList entity = .ok columns ∧
      ∀ bag, dialect.resultColumns? bag (columns.text dialect.lexical) =
        some (entity.fields.map (scope.fieldColumn entity)) := by
  have plain := scope.plain_qualifierUnder (Catalog.isPlainIdentifier_aliasName accepted)
  have each : ∀ field ∈ entity.fields, ∃ fragment,
      scope.selectedField entity field = .ok fragment ∧
        fragment = (scope.fieldReference entity field).shownAs field.property := by
    intro field listed
    rw [selectedField, scope.column_of_mem accepted listed]
    exact ⟨_, rfl, rfl⟩
  rcases exists_forall₂_of_mapM each with ⟨fragments, selected, shown⟩
  refine ⟨Fragment.commaSeparated fragments, by rw [fieldList, selected]; rfl, fun bag => ?_⟩
  refine resultColumns?_text dialect ?_ ?_ ?_
  · intro fragment listed
    rcases exists_mem_of_forall₂ shown fragment listed with ⟨field, -, rfl⟩
    exact ColumnReference.legible_shownAs plain _
  · rw [List.forall₂_map_right_iff]
    exact shown.imp fun _ _ same => same ▸ ColumnReference.columnReads_shownAs bag _ _
  · rintro rfl
    exact Catalog.fields_ne_nil_of_entity accepted (List.forall₂_nil_left_iff.mp shown)

/-! Projections. -/

/-- Outside of joins a member is a column of its own entity. -/
theorem reference?_eq_some {scope : Scope} (alone : scope.join? = none) {path : MemberPath}
    {reference : ColumnReference} :
    scope.reference? path = some reference ↔
      ∃ entity column, scope.catalog.entity path.entity = .ok entity ∧
        entity.column path.member = .ok column ∧
        reference = ⟨scope.qualifierUnder entity.aliasName, column⟩ := by
  cases accepted : scope.catalog.entity path.entity with
  | error error => simp [reference?, accepted]
  | ok entity =>
      cases mapped : entity.column path.member with
      | error error => simp [reference?, accepted, mapped, Except.toOption]
      | ok column =>
          simp [reference?, accepted, mapped, Except.toOption, joinedAlias?, alone, eq_comm]

theorem plainJoin_of_eq_none {scope : Scope} (alone : scope.join? = none) : scope.PlainJoin :=
  fun join joined => absurd (alone ▸ joined) (Option.not_mem_none join)

theorem exists_reference? {scope : Scope} {path : MemberPath} (mapped : scope.catalog.Maps path) :
    ∃ reference, scope.reference? path = some reference := by
  rcases exists_member_iff.mpr mapped with ⟨column, reached⟩
  rcases member_eq_ok.mp reached with ⟨reference, found, -⟩
  exact ⟨reference, found⟩

theorem selectedMember_eq_ok {scope : Scope} (alone : scope.join? = none) {path : MemberPath}
    {reference : ColumnReference} (found : scope.reference? path = some reference) :
    scope.selectedMember path = .ok (reference.shownAs path.member) := by
  rcases (reference?_eq_some alone).mp found with ⟨entity, column, accepted, mapped, rfl⟩
  have reached : scope.column entity path.member = .ok (ColumnReference.fragment _) :=
    columnUnder_eq_ok.mpr ⟨column, mapped, rfl⟩
  exact bind_eq_ok.mpr ⟨entity, accepted, bind_eq_ok.mpr ⟨_, reached,
    bind_eq_ok.mpr ⟨column, mapped, rfl⟩⟩⟩

theorem resultColumns?_member {scope : Scope} (alone : scope.join? = none) {path : MemberPath}
    {reference : ColumnReference} (found : scope.reference? path = some reference)
    (dialect : Dialect) (bag : Params) :
    dialect.resultColumns? bag ((reference.shownAs path.member).text dialect.lexical) =
      some [⟨some path.member, .column reference⟩] := by
  have listed : reference.shownAs path.member =
      Fragment.commaSeparated [reference.shownAs path.member] :=
    (List.intercalate_singleton ..).symm
  rw [listed]
  refine resultColumns?_text dialect ?_ (.cons ?_ .nil) (List.cons_ne_nil _ _)
  · intro fragment single
    rw [List.mem_singleton.mp single]
    exact ColumnReference.legible_shownAs
      (plain_of_reference? (plainJoin_of_eq_none alone) found) _
  · exact ColumnReference.columnReads_shownAs bag _ _

end Scope

namespace Expr

/-- A scalar is legible as soon as its placeholders are. -/
theorem ScalarRun.legible {scope : Scope} (joins : scope.PlainJoin) {hint : String}
    {expression : Expr} {draft later : Draft} {fragment : Fragment}
    (steps : ScalarRun scope hint expression draft fragment later)
    (proper : ∀ name ∈ fragment.placeholders, (Token.placeholder name).Proper) :
    fragment.Legible := by
  induction steps with
  | member path found => exact (bare_member joins found).legible
  | constant value bound =>
      rw [Build.runFrom_input] at bound
      cases bound
      exact Fragment.legible_singleton.mpr (proper _ (List.mem_singleton_self _))
  | arithmetic operator _ _ head tail =>
      simp only [Fragment.placeholders_parenthesized, Fragment.placeholders_joined,
        List.forall_mem_append] at proper
      simp [head proper.1, tail proper.2]
  | aggregate function _ inner =>
      rw [Fragment.placeholders_call] at proper
      exact (Fragment.legible_call (proper_keyword function)).mpr (inner proper)
  | count =>
      exact (Fragment.legible_call (by decide)).mpr (Fragment.legible_singleton.mpr (by decide))
  | lambda _ inner => exact inner proper

end Expr

namespace Scope

open EntitySql.Expr Build

variable {scope : Scope}

theorem succeeds_selectedBindings {bindings : List (String × Expr)}
    (proper : ∀ binding ∈ bindings, Expr.ProperScalar scope.catalog binding.2) :
    (scope.selectedBindings bindings).Succeeds := by
  induction bindings with
  | nil => exact succeeds_pure []
  | cons binding bindings induction =>
      have others := induction fun other listed => proper other (List.mem_cons_of_mem _ listed)
      exact (succeeds_scalar (proper binding List.mem_cons_self)).bind fun _ =>
        others.bind fun _ => succeeds_pure _

theorem projection_eq_of_record {selector : Expr} {name : String}
    {bindings : List (String × Expr)} (shape : selector.body = .record name bindings)
    (given : bindings ≠ []) :
    scope.projection selector = do
      return Fragment.commaSeparated (← scope.selectedBindings bindings) := by
  have some' : bindings.isEmpty = false := by simpa using given
  simp only [projection, shape, some', Bool.false_eq_true, if_false]

theorem fragments_of_record {selector : Expr} {name : String} {bindings : List (String × Expr)}
    (shape : selector.body = .record name bindings) {draft later : Draft} {columns : Fragment}
    (run : (scope.projection selector).runFrom draft = (.ok columns, later)) :
    bindings ≠ [] ∧ ∃ fragments, columns = Fragment.commaSeparated fragments ∧
      List.Forall₂ (fun fragment binding => ∃ before value after,
        ScalarRun scope (Prod.fst binding) (Prod.snd binding) before value after ∧
          later.params.Extends after.params ∧ fragment = Fragment.renamed value (Prod.fst binding))
        fragments bindings := by
  cases projectionRun_of_projection run with
  | member path other _ => cases other.symm.trans shape
  | scalar other _ => exact absurd shape (other name bindings)
  | record _ _ fragments other given inner =>
      cases other.symm.trans shape
      exact ⟨given, fragments, rfl, steps_of_selectedBindings inner⟩

/-- A projection to a record is built if it has values, all of them scalars of mapped members. -/
theorem projection_record_accepted_iff {selector : Expr} {name : String}
    {bindings : List (String × Expr)} (shape : selector.body = .record name bindings)
    (draft : Draft) :
    (∃ fragment later, (scope.projection selector).runFrom draft = (.ok fragment, later)) ↔
      bindings ≠ [] ∧ ∀ binding ∈ bindings, Expr.ProperScalar scope.catalog binding.2 := by
  constructor
  · rintro ⟨fragment, later, run⟩
    rcases fragments_of_record shape run with ⟨given, _, -, steps⟩
    refine ⟨given, fun binding listed => ?_⟩
    rcases exists_mem_of_forall₂ steps.flip binding listed with ⟨_, -, _, _, _, inner, -⟩
    exact inner.proper
  · rintro ⟨given, proper⟩
    rw [projection_eq_of_record shape given]
    exact (succeeds_selectedBindings proper).bind (fun _ => succeeds_pure _) draft

/-- A list of values can be read as soon as its parameters can, and the columns are the
values, called as the record calls them. -/
theorem resultColumns?_record {selector : Expr} (joins : scope.PlainJoin) {name : String}
    {bindings : List (String × Expr)} (shape : selector.body = .record name bindings)
    {draft later : Draft} {columns : Fragment}
    (run : (scope.projection selector).runFrom draft = (.ok columns, later))
    (proper : ∀ parameter ∈ columns.placeholders, (Token.placeholder parameter).Proper)
    (dialect : Dialect) :
    ∃ shown, dialect.resultColumns? later.params (columns.text dialect.lexical) = some shown ∧
      List.Forall₂ (ResultColumn.Shows scope) shown bindings := by
  rcases fragments_of_record shape run with ⟨given, fragments, rfl, steps⟩
  rw [Fragment.placeholders_commaSeparated] at proper
  have readable : ∀ fragment ∈ fragments, Fragment.Legible fragment := by
    intro fragment listed
    rcases exists_mem_of_forall₂ steps fragment listed with
      ⟨binding, -, _, value, _, inner, -, rfl⟩
    rw [Fragment.legible_renamed]
    refine inner.legible joins fun parameter shown => proper parameter ?_
    exact List.mem_flatMap.mpr ⟨_, listed, by rwa [Fragment.placeholders_renamed]⟩
  have reads : List.Forall₂ (fun fragment binding => ∃ column : ResultColumn,
      column.Shows scope binding ∧ ColumnReads later.params (Fragment.squeezed fragment) column)
      fragments bindings := by
    refine steps.imp ?_
    rintro fragment binding ⟨before, value, after, inner, kept, rfl⟩
    rcases inner.reads with ⟨formula, told, read⟩
    exact ⟨⟨some binding.1, formula⟩, ⟨rfl, told⟩,
      columnReads_renamed (reads_sum_of_primary (read later.params kept)) binding.1⟩
  rcases exists_between reads with ⟨shown, shows, read⟩
  refine ⟨shown, resultColumns?_text dialect readable read ?_, shows⟩
  rintro rfl
  exact given (List.forall₂_nil_left_iff.mp steps)

/-- The parameters can be read where the names that they are given are plain identifiers, be it
from a column of the record or from a member that its values mention. -/
theorem proper_placeholders_of_record {selector : Expr} (joins : scope.PlainJoin) {name : String}
    {bindings : List (String × Expr)} (shape : selector.body = .record name bindings)
    {draft later : Draft} {columns : Fragment}
    (run : (scope.projection selector).runFrom draft = (.ok columns, later))
    (plain : ∀ binding ∈ bindings,
      isPlainIdentifier binding.1 = true ∧ binding.2.PlainMembers scope.catalog) :
    ∀ parameter ∈ columns.placeholders, (Token.placeholder parameter).Proper := by
  rcases fragments_of_record shape run with ⟨-, fragments, rfl, steps⟩
  intro parameter shown
  rw [Fragment.placeholders_commaSeparated] at shown
  rcases List.mem_flatMap.mp shown with ⟨fragment, listed, shown⟩
  rcases exists_mem_of_forall₂ steps fragment listed with
    ⟨binding, bound, _, value, _, inner, -, rfl⟩
  rw [Fragment.placeholders_renamed] at shown
  have ⟨named, members⟩ := plain binding bound
  exact (inner.written joins members named).legible.proper_placeholder shown

end Scope

/-! Columns that an update tells. -/

theorem Expr.body_of_asMember? {expression : Expr} {path : MemberPath}
    (reads : expression.asMember? = some path) : expression.body = .member path := by
  unfold asMember? at reads
  split at reads
  · next shape => rw [shape, Option.some.inj reads]
  · cases reads

/-- The column of a table that is returned, under the name of the property. -/
def ReturnedColumn.Presents (returned : ReturnedColumn) (column : ResultColumn) : Prop :=
  ∃ reference : ColumnReference, returned.column = reference.fragment ∧
    (∀ aliasName ∈ reference.qualifier?, isPlainIdentifier aliasName = true) ∧
    column = ⟨some returned.property, .column reference⟩

namespace ReturnedColumn

variable {returned : ReturnedColumn} {column : ResultColumn}

theorem Presents.bare (presents : returned.Presents column) : returned.column.Bare := by
  rcases presents with ⟨reference, shown, plain, -⟩
  exact shown ▸ reference.bare_fragment plain

theorem Presents.columnReads (presents : returned.Presents column) (dialect : Dialect)
    (bag : Params) : ColumnReads bag (returned.named dialect.lexical).squeezed column := by
  have legible := presents.bare.legible
  rcases presents with ⟨reference, shown, -, rfl⟩
  unfold named
  split
  · next same =>
      have alone := shown.symm.trans (column_eq_of_text_eq legible same)
      have own : reference = ⟨none, returned.property⟩ := by
        rcases reference with ⟨_ | aliasName, name⟩ <;> simp_all [ColumnReference.fragment]
      rw [shown, own]
      exact columnReads_own bag _
  · rw [shown]
    exact columnReads_renamed (reads_columnFragment bag reference) _

end ReturnedColumn

namespace Dialect

section

variable {bag : Params} {clause : Fragment} {pieces : List (List Token)}
  {columns : List ResultColumn}

theorem returnedColumns?_selected (reads : List.Forall₂ (ColumnReads bag) pieces columns)
    (given : pieces ≠ []) (legible : clause.Legible) (table : String)
    (shape : clause.squeezed = .word "SELECT" ::
      ([Token.symbol .comma].intercalate pieces ++ [.word "FROM", .identifier table])) :
    returnedColumns? .mysql bag (clause.text (lexical .mysql)) = some columns := by
  have fits : ([Token.symbol .comma].intercalate pieces).length ≤ clause.squeezed.length := by
    rw [shape, List.length_cons, List.length_append]
    omega
  have ends : Ends [.word "FROM", .identifier table] := ends_cons (by decide)
  have listed := readList_of_takes (fun _ _ => takes_resultColumn) reads given fits ends (by simp)
  simp only [returnedColumns?, readTokens_text _ legible, Option.bind_eq_bind, Option.bind_some]
  generalize clause.squeezed.length = size at listed ⊢
  simp [shape, listed, takeIdentifier]

theorem returnedColumns?_output (reads : List.Forall₂ (OutputReads bag) pieces columns)
    (given : pieces ≠ []) (legible : clause.Legible)
    (shape : clause.squeezed = .word "OUTPUT" :: [Token.symbol .comma].intercalate pieces) :
    returnedColumns? .sqlServer bag (clause.text (lexical .sqlServer)) = some columns := by
  have fits : ([Token.symbol .comma].intercalate pieces).length ≤ clause.squeezed.length := by
    simp [shape]
  have ends : Ends [] := fun _ head => absurd head (Option.not_mem_none _)
  have listed := readList_of_takes (fun _ _ => takes_outputColumn) reads given fits ends (by simp)
  simp only [returnedColumns?, readTokens_text _ legible, Option.bind_eq_bind, Option.bind_some]
  generalize clause.squeezed.length = size at listed ⊢
  rw [List.append_nil] at listed
  simp [shape, listed]

end

/-- The clause reads back as the columns that it is built for. -/
theorem returnedColumns?_returningClause {dialect : Dialect} (notOracle : dialect ≠ .oracle)
    (entity : Entity) {returned : List ReturnedColumn} {columns : List ResultColumn}
    (presents : List.Forall₂ ReturnedColumn.Presents returned columns) (given : returned ≠ [])
    (bag : Params) (draft : Draft) :
    ∃ clause, (dialect.returningClause entity returned).runFrom draft = (.ok clause, draft) ∧
      dialect.returnedColumns? bag (clause.text dialect.lexical) = some columns := by
  have bare : ∀ each ∈ returned, each.column.Bare := by
    intro each listed
    rcases exists_mem_of_forall₂ presents each listed with ⟨column, -, shown⟩
    exact shown.bare
  have reads := presents.imp fun _ _ shown => shown.columnReads dialect bag
  cases dialect with
  | mysql =>
      have run : (returningClause .mysql entity returned).runFrom draft = (.ok _, draft) := rfl
      have legible := (bare_returningClause notOracle bare run).1.legible
      refine ⟨_, run, returnedColumns?_selected (List.forall₂_map_left_iff.mpr reads)
        (by simpa using given) legible entity.table ?_⟩
      simp [Fragment.squeezed_commaSeparated, Entity.tableName, Function.comp_def]
  | sqlServer =>
      have run : (returningClause .sqlServer entity returned).runFrom draft = (.ok _, draft) := rfl
      have legible := (bare_returningClause notOracle bare run).1.legible
      have outputs := reads.imp fun _ _ shown => (⟨_, shown, rfl⟩ : OutputReads bag _ _)
      refine ⟨_, run, returnedColumns?_output (List.forall₂_map_left_iff.mpr outputs)
        (by simpa using given) legible ?_⟩
      simp [Fragment.squeezed_commaSeparated, Function.comp_def]
  | oracle => exact absurd rfl notOracle

end Dialect

namespace Scope

variable {scope : Scope} {dialect : Dialect}

/-- An update of the entity tells these columns. -/
def Returns (scope : Scope) (dialect : Dialect) (entity : Entity) (select : Option Expr)
    (columns : List ResultColumn) : Prop :=
  ∃ returned, scope.returnedColumns entity select = .ok returned ∧
    ∀ bag draft, ∃ clause,
      (dialect.returningClause entity returned).runFrom draft = (.ok clause, draft) ∧
      dialect.returnedColumns? bag (clause.text dialect.lexical) = some columns

theorem returns_fields (notOracle : dialect ≠ .oracle) {name : String} {entity : Entity}
    (accepted : scope.catalog.entity name = .ok entity) :
    scope.Returns dialect entity none (entity.fields.map (scope.fieldColumn entity)) := by
  have plain := scope.plain_qualifierUnder (Catalog.isPlainIdentifier_aliasName accepted)
  have each : ∀ field ∈ entity.fields, ∃ returned,
      scope.returnedField entity field = .ok returned ∧
        returned.Presents (scope.fieldColumn entity field) := by
    intro field listed
    rw [returnedField, scope.column_of_mem accepted listed]
    exact ⟨_, rfl, _, rfl, plain, rfl⟩
  rcases exists_forall₂_of_mapM each with ⟨returned, told, presents⟩
  refine ⟨returned, told, Dialect.returnedColumns?_returningClause notOracle entity
    (List.forall₂_map_right_iff.mpr presents) ?_⟩
  rintro rfl
  exact Catalog.fields_ne_nil_of_entity accepted (List.forall₂_nil_left_iff.mp presents)

theorem returns_member (joins : scope.PlainJoin) (notOracle : dialect ≠ .oracle) (entity : Entity)
    {selector : Expr} {path : MemberPath} (shape : selector.body = .member path)
    {reference : ColumnReference} (found : scope.reference? path = some reference) :
    scope.Returns dialect entity (some selector) [⟨some path.member, .column reference⟩] := by
  have reached := member_eq_ok.mpr ⟨reference, found, rfl⟩
  refine ⟨[⟨reference.fragment, path.member⟩], ?_, ?_⟩
  · simp only [returnedColumns, shape, reached]
    rfl
  · exact Dialect.returnedColumns?_returningClause notOracle entity
      (.cons ⟨reference, rfl, plain_of_reference? joins found, rfl⟩ .nil) (List.cons_ne_nil _ _)

theorem returns_record (joins : scope.PlainJoin) (notOracle : dialect ≠ .oracle) (entity : Entity)
    {selector : Expr} {name : String} {bindings : List (String × Expr)}
    (shape : selector.body = .record name bindings) (given : bindings ≠ [])
    (members : ∀ binding ∈ bindings, ∃ path,
      binding.2.asMember? = some path ∧ scope.catalog.Maps path) :
    ∃ columns, scope.Returns dialect entity (some selector) columns ∧
      List.Forall₂ (ResultColumn.Shows scope) columns bindings := by
  have each : ∀ binding ∈ bindings, ∃ returned, scope.returnedBinding binding = .ok returned ∧
      ∃ column : ResultColumn, column.Shows scope binding ∧ returned.Presents column := by
    intro binding listed
    rcases members binding listed with ⟨path, reads, mapped⟩
    rcases exists_reference? mapped with ⟨reference, found⟩
    have reached := member_eq_ok.mpr ⟨reference, found, rfl⟩
    refine ⟨⟨reference.fragment, binding.1⟩, ?_, ⟨some binding.1, .column reference⟩, ⟨rfl, ?_⟩,
      reference, rfl, plain_of_reference? joins found, rfl⟩
    · simp only [returnedBinding, reads, reached]
      rfl
    · rw [← Expr.term?_body, Expr.body_of_asMember? reads, Expr.term?, found]
      rfl
  rcases exists_forall₂_of_mapM each with ⟨returned, told, related⟩
  rcases exists_between related with ⟨columns, shows, presents⟩
  have some' : bindings.isEmpty = false := by simpa using given
  refine ⟨columns, ⟨returned, ?_, ?_⟩, shows⟩
  · simpa only [returnedColumns, shape, some', Bool.false_eq_true, if_false] using told
  · refine Dialect.returnedColumns?_returningClause notOracle entity presents ?_
    rintro rfl
    exact given (List.forall₂_nil_left_iff.mp related)

end Scope

open Scope in
/-- Columns come back under the names of properties. Outside of joins, a list of all fields has
the properties of the entity for names, a member its own name, and a record the names of its
bindings, as long as the parameters in the list can be read, which they can where no name that
they are given has to be quoted. The columns that an update tells are named alike, whatever the
names are. -/
theorem result_columns_named (dialect : Dialect) (scope : Scope) (alone : scope.join? = none) :
    (∀ name entity, scope.catalog.entity name = .ok entity →
      ∃ columns, scope.fieldList entity = .ok columns ∧
        ∀ bag, dialect.resultColumns? bag (columns.text dialect.lexical) =
          some (entity.fields.map (scope.fieldColumn entity))) ∧
    (∀ selector path, selector.body = .member path → scope.catalog.Maps path →
      ∃ reference columns, scope.reference? path = some reference ∧
        (∀ draft, (scope.projection selector).runFrom draft = (.ok columns, draft)) ∧
        ∀ bag, dialect.resultColumns? bag (columns.text dialect.lexical) =
          some [⟨some path.member, .column reference⟩]) ∧
    (∀ selector name bindings draft, selector.body = .record name bindings →
      ((∃ columns later, (scope.projection selector).runFrom draft = (.ok columns, later)) ↔
        bindings ≠ [] ∧ ∀ binding ∈ bindings, binding.2.ProperScalar scope.catalog) ∧
      ∀ columns later, (scope.projection selector).runFrom draft = (.ok columns, later) →
        ((∀ binding ∈ bindings,
            isPlainIdentifier binding.1 = true ∧ binding.2.PlainMembers scope.catalog) →
          ∀ parameter ∈ columns.placeholders, (Token.placeholder parameter).Proper) ∧
        ((∀ parameter ∈ columns.placeholders, (Token.placeholder parameter).Proper) →
          ∃ shown,
            dialect.resultColumns? later.params (columns.text dialect.lexical) = some shown ∧
            List.Forall₂ (ResultColumn.Shows scope) shown bindings)) ∧
    (dialect ≠ .oracle →
      (∀ name entity, scope.catalog.entity name = .ok entity →
        scope.Returns dialect entity none (entity.fields.map (scope.fieldColumn entity))) ∧
      (∀ entity selector path, selector.body = .member path → scope.catalog.Maps path →
        ∃ reference, scope.reference? path = some reference ∧
          scope.Returns dialect entity (some selector)
            [⟨some path.member, .column reference⟩]) ∧
      ∀ entity selector name bindings, selector.body = .record name bindings → bindings ≠ [] →
        (∀ binding ∈ bindings, ∃ path,
          binding.2.asMember? = some path ∧ scope.catalog.Maps path) →
        ∃ columns, scope.Returns dialect entity (some selector) columns ∧
          List.Forall₂ (ResultColumn.Shows scope) columns bindings) := by
  have joins := plainJoin_of_eq_none alone
  refine ⟨?fields, ?member, ?record, fun notOracle => ⟨?toldFields, ?toldMember, ?toldRecord⟩⟩
  case fields => exact fun name entity accepted => scope.resultColumns?_fieldList accepted dialect
  case member =>
    intro selector path shape mapped
    rcases exists_reference? mapped with ⟨reference, found⟩
    refine ⟨reference, reference.shownAs path.member, found, ?_,
      resultColumns?_member alone found dialect⟩
    intro draft
    simp only [projection, shape]
    exact Build.runFrom_lift_eq_ok.mpr ⟨selectedMember_eq_ok alone found, rfl⟩
  case record =>
    intro selector name bindings draft shape
    refine ⟨projection_record_accepted_iff shape draft, fun columns later run => ⟨?_, ?_⟩⟩
    · exact proper_placeholders_of_record joins shape run
    · exact fun proper => resultColumns?_record joins shape run proper dialect
  case toldFields => exact fun name entity accepted => returns_fields notOracle accepted
  case toldMember =>
    intro entity selector path shape mapped
    rcases exists_reference? mapped with ⟨reference, found⟩
    exact ⟨reference, found, returns_member joins notOracle entity shape found⟩
  case toldRecord =>
    intro entity selector name bindings shape given members
    exact returns_record joins notOracle entity shape given members

/-- A person's next age, and what the person is called. -/
def Expr.nextAge : List (String × Expr) :=
  [("Next", .arithmetic .add (.column "Person" "Age") (.constant (.int 1))),
   ("Called", .column "Person" "Name")]

/-- The first name is that of the column, the second one that of another column. -/
def Expr.crossNamed : List (String × Expr) :=
  [("full]name", .column "Person" "Name"), ("Age", .column "Person" "Id")]

/-- People come back under the names of their properties, one of which is no column's. -/
theorem result_columns_named_people :
    (∃ entity columns, Catalog.people.entity "Person" = .ok entity ∧
      (Scope.aliased .people).fieldList entity = .ok columns ∧
      Dialect.sqlServer.resultColumns? {} (columns.text (Dialect.lexical .sqlServer)) =
        some [⟨some "Id", .column ⟨some "people", "id"⟩⟩,
          ⟨some "Name", .column ⟨some "people", "full]name"⟩⟩,
          ⟨some "Age", .column ⟨some "people", "Age"⟩⟩]) ∧
    (∃ columns, ((Scope.aliased .people).projection (.column "Person" "Name")).runFrom {} =
        (.ok columns, {}) ∧
      Dialect.sqlServer.resultColumns? {} (columns.text (Dialect.lexical .sqlServer)) =
        some [⟨some "Name", .column ⟨some "people", "full]name"⟩⟩]) ∧
    (∃ columns later shown,
      ((Scope.aliased .people).projection (.record "Person" Expr.nextAge)).runFrom {} =
        (.ok columns, later) ∧
      Dialect.sqlServer.resultColumns? later.params
        (columns.text (Dialect.lexical .sqlServer)) = some shown ∧
      shown.map (·.name?) = [some "Next", some "Called"]) ∧
    ∃ entity columns, Catalog.people.entity "Person" = .ok entity ∧
      (Scope.unqualified .people).Returns .mysql entity
        (some (.record "Person" Expr.crossNamed)) columns ∧
      columns.map (·.name?) = [some "full]name", some "Age"] := by
  rcases result_columns_named .sqlServer (.aliased .people) rfl with ⟨fields, member, record, -⟩
  rcases (result_columns_named .mysql (.unqualified .people) rfl).2.2.2 (by decide) with
    ⟨-, -, returns⟩
  have name : Catalog.people.Maps ⟨"Person", "Name"⟩ := ⟨_, _, rfl, rfl⟩
  have age : Catalog.people.Maps ⟨"Person", "Age"⟩ := ⟨_, _, rfl, rfl⟩
  have number : Catalog.people.Maps ⟨"Person", "Id"⟩ := ⟨_, _, rfl, rfl⟩
  refine ⟨?_, ?_, ?_, ?_⟩
  · rcases fields "Person" _ rfl with ⟨columns, listed, shown⟩
    exact ⟨_, columns, rfl, listed, shown {}⟩
  · have reads : (Scope.aliased .people).reference? ⟨"Person", "Name"⟩ =
        some ⟨some "people", "full]name"⟩ := rfl
    rcases member (.column "Person" "Name") _ rfl name with
      ⟨reference, columns, found, run, shown⟩
    cases found.symm.trans reads
    exact ⟨columns, run {}, shown {}⟩
  · have plain : ∀ binding ∈ Expr.nextAge, isPlainIdentifier binding.1 = true ∧
        ∀ path ∈ binding.2.members, isPlainIdentifier path.member = true := by decide
    have proper : ∀ binding ∈ Expr.nextAge, binding.2.ProperScalar .people := by
      simp only [Expr.nextAge, List.forall_mem_cons, Expr.properScalar_arithmetic]
      exact ⟨⟨Expr.properScalar_member.mpr age, rfl, fun _ none => absurd none List.not_mem_nil⟩,
        Expr.properScalar_member.mpr name, fun _ none => absurd none List.not_mem_nil⟩
    rcases record (.record "Person" Expr.nextAge) _ _ {} rfl with ⟨accepted, readable⟩
    rcases accepted.mpr ⟨by decide, proper⟩ with ⟨columns, later, run⟩
    rcases readable columns later run with ⟨parameters, shows⟩
    rcases shows (parameters fun binding listed =>
      ⟨(plain binding listed).1, fun path named _ => (plain binding listed).2 path named⟩) with
      ⟨shown, read, each⟩
    exact ⟨columns, later, shown, run, read, ResultColumn.names_of_shows each⟩
  · have members : ∀ binding ∈ Expr.crossNamed, ∃ path,
        binding.2.asMember? = some path ∧ Catalog.people.Maps path := by
      simp only [Expr.crossNamed, List.forall_mem_cons]
      exact ⟨⟨_, rfl, name⟩, ⟨_, rfl, number⟩, fun _ none => absurd none List.not_mem_nil⟩
    rcases returns _ (.record "Person" Expr.crossNamed) _ _ rfl (by decide) members with
      ⟨columns, told, each⟩
    exact ⟨_, columns, rfl, told, ResultColumn.names_of_shows each⟩

/-- A thing whose price goes by the name of a property that cuts a list where it names a
parameter. -/
def Catalog.priced : Catalog :=
  { descriptors := [("Item", { table := "items", fields := [⟨"p) AS `x`, (1", "price"⟩] })] }

def Expr.total : List (String × Expr) :=
  [("p", .constant (.int 1)),
   ("total", .arithmetic .add (.column "Item" "p) AS `x`, (1") (.constant (.int 2)))]

/-- The second parameter is named after the member that it is added to, so that a record of two
bindings comes back as three columns. -/
theorem record_cut_at_parameter :
    ∃ columns later,
      ((Scope.aliased .priced).projection (.record "Item" Expr.total)).runFrom {} =
        (.ok columns, later) ∧
      (∀ binding ∈ Expr.total, isPlainIdentifier binding.1 = true) ∧
      columns.text (Dialect.lexical .mysql) =
        "@p AS `p`, (items.`price` + @p) AS `x`, (1) AS `total`" ∧
      (Dialect.mysql.resultColumns? later.params
        (columns.text (Dialect.lexical .mysql))).map (List.map ResultColumn.name?) =
        some [some "p", some "x", some "total"] := by
  refine ⟨_, _, rfl, by decide, by decide +kernel, by decide +kernel⟩

end EntitySql
