import EntitySql.Composer
import EntitySql.Proofs.Aliases
import EntitySql.Proofs.ShownMembers

/-! The names in the text of an update or a delete. Such a statement is about one table and
qualifies no column, so that its text tells a column by its name only: the column of a
member is the one that the entity of the member maps it to, whether or not that entity has
the table of the statement. -/

namespace EntitySql

/-! Names, as the tokens show them. -/

inductive NamePart where
  | name (text : String)
  /-- What comes before the dot qualifies the name after it. -/
  | dot
  deriving DecidableEq, Repr

def Token.namePart? : Token → Option NamePart
  | .identifier text => some (.name text)
  | .symbol .dot => some .dot
  | _ => none

namespace Fragment

/-- The quoted names and the dots in front of them, from left to right. -/
def nameParts (fragment : Fragment) : List NamePart :=
  fragment.filterMap Token.namePart?

@[simp] theorem nameParts_nil : nameParts [] = [] :=
  rfl

@[simp] theorem nameParts_append (left right : Fragment) :
    nameParts (left ++ right) = left.nameParts ++ right.nameParts :=
  List.filterMap_append

@[simp] theorem nameParts_identifier (text : String) (rest : Fragment) :
    nameParts (.identifier text :: rest) = .name text :: nameParts rest :=
  rfl

@[simp] theorem nameParts_dot (rest : Fragment) :
    nameParts (.symbol .dot :: rest) = .dot :: nameParts rest :=
  rfl

@[simp] theorem nameParts_word (text : String) (rest : Fragment) :
    nameParts (.word text :: rest) = nameParts rest :=
  rfl

@[simp] theorem nameParts_space (rest : Fragment) :
    nameParts (.space :: rest) = nameParts rest :=
  rfl

@[simp] theorem nameParts_placeholder (name : String) (rest : Fragment) :
    nameParts (.placeholder name :: rest) = nameParts rest :=
  rfl

@[simp] theorem nameParts_systemVariable (name : String) (rest : Fragment) :
    nameParts (.systemVariable name :: rest) = nameParts rest :=
  rfl

theorem nameParts_symbol {glyph : Symbol} (other : glyph ≠ .dot) (rest : Fragment) :
    nameParts (.symbol glyph :: rest) = nameParts rest := by
  cases glyph <;> first | rfl | exact absurd rfl other

@[simp] theorem nameParts_words (texts : List String) : (words texts).nameParts = [] := by
  induction texts with
  | nil => rfl
  | cons first rest induction =>
      cases rest with
      | nil => rfl
      | cons second rest => exact induction

@[simp] theorem nameParts_parenthesized (fragment : Fragment) :
    (parenthesized fragment).nameParts = fragment.nameParts := by
  simp [parenthesized, nameParts_symbol]

@[simp] theorem nameParts_call (function : String) (argument : Fragment) :
    (call function argument).nameParts = argument.nameParts := by
  simp [call]

theorem nameParts_joined {glyph : Symbol} (other : glyph ≠ .dot) (left right : Fragment) :
    (joined left glyph right).nameParts = left.nameParts ++ right.nameParts := by
  simp [joined, nameParts_symbol other]

@[simp] theorem nameParts_connected (left right : Fragment) (connective : Connective) :
    (connected left connective right).nameParts = left.nameParts ++ right.nameParts := by
  simp [connected]

@[simp] theorem nameParts_nullTest (operand : Fragment) (negated : Bool) :
    (nullTest operand negated).nameParts = operand.nameParts := by
  simp [nullTest]

@[simp] theorem nameParts_operatorWord (word : String) (negated : Bool) :
    (operatorWord word negated).nameParts = [] := by
  simp [operatorWord]

@[simp] theorem nameParts_renamed (column : Fragment) (name : String) :
    (renamed column name).nameParts = column.nameParts ++ [.name name] := by
  simp [renamed]

theorem nameParts_flatMap (items : List α) (fragment : α → Fragment) :
    nameParts (items.flatMap fragment) = items.flatMap fun item => (fragment item).nameParts :=
  List.filterMap_flatMap

theorem nameParts_intercalate {between : Fragment} (bare : between.nameParts = [])
    (fragments : List Fragment) :
    nameParts (between.intercalate fragments) = fragments.flatMap nameParts := by
  induction fragments with
  | nil => rfl
  | cons first rest induction =>
      cases rest with
      | nil => simp [List.intercalate_singleton]
      | cons second rest =>
          rw [List.intercalate_cons_cons, nameParts_append, nameParts_append, induction, bare,
            List.append_nil, ← List.flatMap_cons]

@[simp] theorem nameParts_commaSeparated (fragments : List Fragment) :
    (commaSeparated fragments).nameParts = fragments.flatMap nameParts :=
  nameParts_intercalate rfl fragments

@[simp] theorem nameParts_spaced (fragments : List Fragment) :
    (spaced fragments).nameParts = fragments.flatMap nameParts := by
  rw [spaced, nameParts_intercalate rfl]
  induction fragments with
  | nil => rfl
  | cons first rest induction => cases first <;> simp [induction]

end Fragment

/-! Names, as an operation asks for them. -/

inductive Written where
  | table (entity : String)
  | column (path : MemberPath)
  /-- What a column is shown as. -/
  | label (text : String)
  | dot
  deriving DecidableEq, Repr

/-- A column is written by the name that its entity maps the member to. -/
def Written.part? (catalog : Catalog) : Written → Option NamePart
  | .table entity => some (.name (catalog.tableName entity))
  | .column path => (catalog.columnName? path).map .name
  | .label text => some (.name text)
  | .dot => some .dot

/-- The names of the fragment are these, in the same order, and there are no others. -/
def Fragment.Writes (fragment : Fragment) (catalog : Catalog) (written : List Written) : Prop :=
  fragment.nameParts.map some = written.map (Written.part? catalog)

theorem Catalog.columnName?_of_entity {catalog : Catalog} {path : MemberPath} {entity : Entity}
    {name : String} (accepted : catalog.entity path.entity = .ok entity)
    (mapped : entity.column path.member = .ok name) : catalog.columnName? path = some name := by
  simp [columnName?, accepted, mapped, Except.toOption]

theorem Catalog.maps_of_columnName? {catalog : Catalog} {path : MemberPath} {name : String}
    (found : catalog.columnName? path = some name) : catalog.Maps path := by
  unfold columnName? at found
  cases accepted : catalog.entity path.entity with
  | error error => simp [accepted, Except.toOption] at found
  | ok entity =>
      cases mapped : entity.column path.member with
      | error error => simp [accepted, mapped, Except.toOption] at found
      | ok column => exact ⟨entity, column, accepted, mapped⟩

/-- Whatever column a fragment writes, its entity maps. -/
theorem Fragment.Writes.maps {fragment : Fragment} {catalog : Catalog} {written : List Written}
    (writes : fragment.Writes catalog written) {path : MemberPath}
    (listed : .column path ∈ written) : catalog.Maps path := by
  have known := List.mem_map_of_mem (f := Written.part? catalog) listed
  rw [← writes, List.mem_map] at known
  rcases known with ⟨part, -, same⟩
  rcases Option.map_eq_some_iff.mp same.symm with ⟨name, found, -⟩
  exact Catalog.maps_of_columnName? found

namespace Fragment.Writes

variable {catalog : Catalog}

theorem nil : Writes [] catalog [] :=
  rfl

theorem append {left right : Fragment} {first second : List Written}
    (head : left.Writes catalog first) (tail : right.Writes catalog second) :
    Writes (left ++ right) catalog (first ++ second) := by
  simpa [Writes] using congrArg₂ (· ++ ·) head tail

theorem flatMap {fragments : List Fragment} {items : List α} {written : α → List Written}
    (each : List.Forall₂ (fun fragment item => Writes fragment catalog (written item))
      fragments items) :
    (fragments.flatMap nameParts).map some = (items.flatMap written).map (Written.part? catalog) := by
  induction each with
  | nil => rfl
  | cons first _ induction => simpa using congrArg₂ (· ++ ·) first induction

theorem commaSeparated {fragments : List Fragment} {items : List α} {written : α → List Written}
    (each : List.Forall₂ (fun fragment item => Writes fragment catalog (written item))
      fragments items) :
    (Fragment.commaSeparated fragments).Writes catalog (items.flatMap written) := by
  rw [Writes, nameParts_commaSeparated]
  exact flatMap each

theorem of_nameParts {fragment other : Fragment} {written : List Written}
    (writes : other.Writes catalog written) (same : fragment.nameParts = other.nameParts) :
    fragment.Writes catalog written := by
  rwa [Writes, same]

end Fragment.Writes

/-! Expressions. -/

namespace Scope

/-- Columns, as they stand in a scope: behind a dot each where the scope qualifies them. -/
def spelled (scope : Scope) (columns : List Written) : List Written :=
  if scope.qualified then columns.flatMap fun column => [.dot, column] else columns

@[simp] theorem spelled_nil (scope : Scope) : scope.spelled [] = [] := by
  simp [spelled]

@[simp] theorem spelled_append (scope : Scope) (left right : List Written) :
    scope.spelled (left ++ right) = scope.spelled left ++ scope.spelled right := by
  unfold spelled
  split <;> simp

theorem spelled_of_unqualified {scope : Scope} (unqualified : scope.qualified = false) :
    scope.spelled = id := by
  funext columns
  simp [spelled, unqualified]

variable {scope : Scope}

theorem writes_columnUnder {name aliasName property : String} {entity : Entity}
    {column : Fragment} (accepted : scope.catalog.entity name = .ok entity)
    (found : scope.columnUnder aliasName entity property = .ok column) :
    column.Writes scope.catalog (scope.spelled [.column ⟨name, property⟩]) := by
  rcases columnUnder_eq_ok.mp found with ⟨shown, mapped, rfl⟩
  have owned : scope.catalog.columnName? ⟨name, property⟩ = some shown :=
    Catalog.columnName?_of_entity accepted mapped
  cases qualified : scope.qualified <;>
    simp [Fragment.Writes, ColumnReference.fragment, qualifierUnder, spelled, qualified,
      Written.part?, owned]

theorem writes_member {path : MemberPath} {column : Fragment}
    (found : scope.member path = .ok column) :
    column.Writes scope.catalog (scope.spelled [.column path]) := by
  rcases bind_eq_ok.mp found with ⟨entity, accepted, found⟩
  split at found
  · exact writes_columnUnder accepted found
  · exact writes_columnUnder accepted found

end Scope

/-- The columns of the members that an expression shows. -/
def Expr.written (expression : Expr) : List Written :=
  expression.shown.map Written.column

theorem nameParts_input {base : String} {value : Value} {draft later : Draft}
    {fragment : Fragment} (run : (Build.input base value).runFrom draft = (.ok fragment, later)) :
    fragment.nameParts = [] := by
  rw [Build.runFrom_input] at run
  cases run
  rfl

theorem nameParts_inputs {base : String} {values : List Value} {draft later : Draft}
    {fragments : List Fragment}
    (run : (Build.inputs base values).runFrom draft = (.ok fragments, later)) :
    fragments.flatMap Fragment.nameParts = [] := by
  rw [List.flatMap_eq_nil_iff]
  intro fragment listed
  rcases exists_mem_of_forall₂ (Build.placeholders_of_inputs run) fragment listed with
    ⟨_, -, name, rfl⟩
  rfl

namespace Expr

variable {scope : Scope}

theorem ScalarRun.writes {expression : Expr} {hint : String} {draft later : Draft}
    {fragment : Fragment} (steps : ScalarRun scope hint expression draft fragment later) :
    fragment.Writes scope.catalog (scope.spelled expression.written) := by
  induction steps with
  | member path found => exact Scope.writes_member found
  | constant value bound =>
      exact scope.spelled_nil ▸ Fragment.Writes.nil.of_nameParts (nameParts_input bound)
  | arithmetic operator _ _ head tail =>
      have plain : operator.symbol ≠ .dot := by cases operator <;> decide
      rw [Expr.written, shown, List.map_append, Scope.spelled_append]
      exact (head.append tail).of_nameParts (by simp [Fragment.nameParts_joined plain])
  | aggregate function _ inner => exact inner.of_nameParts (by simp)
  | count => exact scope.spelled_nil ▸ Fragment.Writes.nil
  | lambda _ inner => exact inner

theorem CompareRun.writes {operator : Comparison} {left right : Expr} {draft later : Draft}
    {fragment : Fragment} (steps : CompareRun scope operator left right draft fragment later) :
    fragment.Writes scope.catalog
      (scope.spelled (Expr.comparison operator left right).written) := by
  rw [Expr.written, shown]
  cases steps with
  | nullOnRight null _ inner =>
      rw [shown_of_isNullConstant null, List.append_nil]
      exact inner.writes.of_nameParts (by simp)
  | nullOnLeft _ null _ inner =>
      rw [shown_of_isNullConstant null, List.nil_append]
      exact inner.writes.of_nameParts (by simp)
  | sides _ _ head tail =>
      have plain : operator.symbol ≠ .dot := by cases operator <;> decide
      rw [List.map_append, Scope.spelled_append]
      exact (head.writes.append tail.writes).of_nameParts
        (by simp [Fragment.nameParts_joined plain])

theorem nameParts_bracketed (bracket : Bool) (fragment : Fragment) :
    Fragment.nameParts (if bracket then Fragment.parenthesized fragment else fragment) =
      fragment.nameParts := by
  cases bracket <;> simp

theorem PredicateRun.writes {expression : Expr} {draft later : Draft} {fragment : Fragment}
    (steps : PredicateRun scope expression draft fragment later) :
    fragment.Writes scope.catalog (scope.spelled expression.written) := by
  induction steps with
  | member path found bound =>
      refine (Scope.writes_member found).of_nameParts ?_
      rw [Fragment.nameParts_joined (by decide), nameParts_input bound, List.append_nil]
  | always | never => exact scope.spelled_nil ▸ Fragment.Writes.nil
  | comparison sides => exact sides.writes
  | logical connective left right _ _ head tail =>
      rw [Expr.written, shown, List.map_append, Scope.spelled_append]
      exact (head.append tail).of_nameParts (by simp [nameParts_bracketed])
  | negation operand _ inner => exact inner.of_nameParts (by simp)
  | nullTest negated inner => exact inner.writes.of_nameParts (by simp)
  | emptyList negated =>
      cases negated <;> exact scope.spelled_nil ▸ Fragment.Writes.nil
  | inList item items negated inner binding =>
      refine inner.writes.of_nameParts ?_
      simp [nameParts_inputs binding]
  | like pattern anchor negated inner binding =>
      refine inner.writes.of_nameParts ?_
      simp [nameParts_input binding]
  | between low high inner lower upper =>
      refine inner.writes.of_nameParts ?_
      simp [nameParts_input lower, nameParts_input upper]
  | lambda _ inner => exact inner

end Expr

/-! Clauses. -/

namespace Scope

variable {scope : Scope}

theorem writes_conjuncts {expressions : List Expr} {draft later : Draft}
    {fragments : List Fragment}
    (run : (scope.conjuncts expressions).runFrom draft = (.ok fragments, later)) :
    List.Forall₂ (fun fragment expression =>
      Fragment.Writes fragment scope.catalog (scope.spelled (Expr.written expression)))
      fragments expressions := by
  refine (runs_of_conjuncts run).imp ?_
  rintro _ expression ⟨before, condition, after, steps, rfl⟩
  exact steps.writes.of_nameParts (Expr.nameParts_bracketed _ _)

theorem writes_whereClause {filters : List Expr} {draft later : Draft} {fragment : Fragment}
    (run : (scope.whereClause filters).runFrom draft = (.ok fragment, later)) :
    fragment.Writes scope.catalog
      (filters.flatMap fun filter => scope.spelled filter.written) := by
  simp only [whereClause, Build.runFrom_bind_eq_ok, Build.runFrom_pure_eq_ok] at run
  rcases run with ⟨fragments, last, inner, rfl, rfl⟩
  have conditions := Fragment.Writes.flatMap (writes_conjuncts inner)
  simpa [Fragment.Writes, Fragment.always, Fragment.nameParts_symbol, Fragment.nameParts_flatMap]
    using conditions

variable (unqualified : scope.qualified = false)

include unqualified

theorem writes_unqualified_whereClause {filters : List Expr} {draft later : Draft}
    {fragment : Fragment}
    (run : (scope.whereClause filters).runFrom draft = (.ok fragment, later)) :
    fragment.Writes scope.catalog (filters.flatMap Expr.written) := by
  simpa [spelled_of_unqualified unqualified] using writes_whereClause run

theorem writes_boundAssignments {name : String} {entity : Entity}
    (accepted : scope.catalog.entity name = .ok entity) {bindings : List (String × Expr)}
    {draft later : Draft} {fragments : List Fragment}
    (run : (scope.boundAssignments entity bindings).runFrom draft = (.ok fragments, later)) :
    List.Forall₂ (fun fragment binding => Fragment.Writes fragment scope.catalog
      (.column ⟨name, binding.1⟩ :: Expr.written binding.2)) fragments bindings := by
  refine (runs_of_boundAssignments run).imp ?_
  rintro _ binding ⟨column, before, value, after, found, steps, rfl⟩
  have assigned := (writes_columnUnder accepted found).append steps.writes
  rw [spelled_of_unqualified unqualified] at assigned
  exact assigned.of_nameParts (by simp [Fragment.nameParts_joined])

end Scope

/-- The updater assigns to members of an accepted entity. -/
def Expr.Updates (catalog : Catalog) (updater : Expr) : Prop :=
  ∃ name bindings entity, updater.body = .record name bindings ∧ bindings ≠ [] ∧
    catalog.entity name = .ok entity

/-- Each member that an updater assigns to, before those that its value shows. -/
def Expr.assigned (updater : Expr) : List Written :=
  match updater.body with
  | .record name bindings =>
      bindings.flatMap fun binding => .column ⟨name, binding.1⟩ :: binding.2.written
  | _ => []

theorem Scope.writes_setClause {scope : Scope} (unqualified : scope.qualified = false)
    {updater : Expr} {draft later : Draft} {fragment : Fragment}
    (run : (scope.setClause updater).runFrom draft = (.ok fragment, later)) :
    updater.Updates scope.catalog ∧ fragment.Writes scope.catalog updater.assigned := by
  rcases setClause_eq_ok run with
    ⟨name, bindings, entity, fragments, shape, given, accepted, inner, rfl⟩
  refine ⟨⟨name, bindings, entity, shape, given, accepted⟩, ?_⟩
  rw [Expr.assigned, shape]
  exact (Fragment.Writes.commaSeparated
    (writes_boundAssignments unqualified accepted inner)).of_nameParts rfl

/-! Columns that an update tells. -/

/-- The members whose columns an update tells, and the names that it tells them by. -/
def Query.told (catalog : Catalog) (query : Query) : List (MemberPath × String) :=
  match query.select with
  | none => (catalog.descriptor query.entity).fields.map fun field =>
      (⟨query.entity, field.property⟩, field.property)
  | some selector =>
      match selector.body with
      | .member path => [(path, path.member)]
      | .record _ bindings =>
          bindings.filterMap fun binding => binding.2.asMember?.map (·, binding.1)
      | _ => []

/-- A column goes without a new name only where it has that name already. -/
def Catalog.toldAs (catalog : Catalog) (told : MemberPath × String) : List Written :=
  if catalog.columnName? told.1 = some told.2 then [.column told.1]
  else [.column told.1, .label told.2]

/-- The returned column is that of a member, under its name. -/
structure ReturnedColumn.Tells (returned : ReturnedColumn) (catalog : Catalog)
    (told : MemberPath × String) : Prop where
  column : ∃ name, catalog.columnName? told.1 = some name ∧ returned.column = [.identifier name]
  label : returned.property = told.2

theorem Dialect.text_identifier_injective (dialect : Dialect) {first second : String}
    (same : Fragment.text dialect.lexical [.identifier first] =
      Fragment.text dialect.lexical [.identifier second]) : first = second := by
  have legible : ∀ name, Fragment.Legible [.identifier name] :=
    fun name => Fragment.legible_singleton.mpr trivial
  have read := congrArg dialect.readTokens same
  rw [dialect.readTokens_text (legible first), dialect.readTokens_text (legible second)] at read
  simpa using read

namespace ReturnedColumn.Tells

variable {catalog : Catalog} {returned : ReturnedColumn} {told : MemberPath × String}
  (tells : returned.Tells catalog told)

include tells

theorem writes : returned.column.Writes catalog [.column told.1] := by
  rcases tells.column with ⟨name, found, column⟩
  simp [Fragment.Writes, Written.part?, found, column]

theorem writes_named (dialect : Dialect) :
    Fragment.Writes (returned.named dialect.lexical) catalog (catalog.toldAs told) := by
  rcases tells with ⟨⟨name, found, column⟩, label⟩
  have owned : Written.part? catalog (.column told.1) = some (.name name) := by
    rw [Written.part?, found]
    rfl
  unfold ReturnedColumn.named Catalog.toldAs
  rw [found, column, label]
  by_cases own : name = told.2
  · rw [if_pos (congrArg some own), if_pos (by rw [own])]
    simp [Fragment.Writes, owned]
  · rw [if_neg (mt Option.some.inj own),
      if_neg fun same => own (dialect.text_identifier_injective same)]
    simp [Fragment.Writes, Written.part?, found]

end ReturnedColumn.Tells

namespace Scope

variable {catalog : Catalog}

theorem tells_of_member {path : MemberPath} {column : Fragment} {label : String}
    (found : (unqualified catalog).member path = .ok column) :
    ReturnedColumn.Tells { column, property := label } catalog (path, label) := by
  rcases bind_eq_ok.mp found with ⟨entity, accepted, found⟩
  rcases columnUnder_eq_ok.mp found with ⟨name, mapped, rfl⟩
  exact ⟨⟨name, Catalog.columnName?_of_entity accepted mapped, rfl⟩, rfl⟩

theorem tells_of_returnedBindings {bindings : List (String × Expr)}
    {returned : List ReturnedColumn}
    (found : bindings.mapM (unqualified catalog).returnedBinding = .ok returned) :
    List.Forall₂ (ReturnedColumn.Tells · catalog ·) returned
      (bindings.filterMap fun binding => binding.2.asMember?.map (·, binding.1)) := by
  have each := forall₂_of_mapM_eq_ok found
  clear found
  induction each with
  | nil => exact .nil
  | @cons column binding _ _ first _ induction =>
      unfold returnedBinding at first
      split at first
      · next path shape =>
          rcases bind_eq_ok.mp first with ⟨fragment, reached, shown⟩
          cases shown
          rw [List.filterMap_cons_some (by rw [shape]; rfl)]
          exact .cons (tells_of_member reached) induction
      · cases first

theorem tells_of_returnedColumns {query : Query} {entity : Entity}
    (accepted : catalog.entity query.entity = .ok entity) {returned : List ReturnedColumn}
    (found : (unqualified catalog).returnedColumns entity query.select = .ok returned) :
    List.Forall₂ (ReturnedColumn.Tells · catalog ·) returned (query.told catalog) := by
  cases shape : query.select with
  | none =>
      rw [shape] at found
      simp only [Query.told, shape]
      rw [← Catalog.fields_of_entity accepted, List.forall₂_map_right_iff]
      refine (forall₂_of_mapM_eq_ok found).imp fun column field reached => ?_
      rcases bind_eq_ok.mp reached with ⟨fragment, reached, shown⟩
      rcases columnUnder_eq_ok.mp reached with ⟨name, mapped, rfl⟩
      cases shown
      exact ⟨⟨name, Catalog.columnName?_of_entity accepted mapped, rfl⟩, rfl⟩
  | some selector =>
      rw [shape] at found
      unfold returnedColumns at found
      dsimp only at found
      split at found
      · next path body =>
          rcases bind_eq_ok.mp found with ⟨column, reached, shown⟩
          cases shown
          simp only [Query.told, shape, body]
          exact .cons (tells_of_member reached) .nil
      · next name bindings body =>
          split at found
          · cases found
          · simp only [Query.told, shape, body]
            exact tells_of_returnedBindings found
      · cases found

end Scope

/-! Statements. -/

namespace Query

def filtersWritten (query : Query) : List Written :=
  query.filters.flatMap Expr.written

/-- The names of the clause that tells the changed rows. -/
def toldWritten (catalog : Catalog) (dialect : Dialect) (query : Query) : List Written :=
  match dialect with
  | .mysql => (query.told catalog).flatMap catalog.toldAs ++ [.table query.entity]
  | .sqlServer => (query.told catalog).flatMap fun told => .dot :: catalog.toldAs told
  | .oracle => (query.told catalog).flatMap fun told => [.column told.1]

end Query

theorem Build.nameParts_outputs {properties : List String} {draft later : Draft}
    {fragments : List Fragment}
    (run : (Build.outputs properties).runFrom draft = (.ok fragments, later)) :
    fragments.flatMap Fragment.nameParts = [] := by
  induction properties generalizing draft fragments with
  | nil =>
      rw [Build.outputs, Build.runFrom_pure_eq_ok] at run
      rcases run with ⟨rfl, rfl⟩
      rfl
  | cons property properties induction =>
      simp only [Build.outputs, Build.runFrom_bind_eq_ok, Build.runFrom_pure_eq_ok] at run
      rcases run with ⟨first, middle, head, rest, last, tail, rfl, rfl⟩
      rw [Build.runFrom_output] at head
      cases head
      simp [induction tail]

theorem Dialect.writes_returningClause {dialect : Dialect} {catalog : Catalog} {query : Query}
    {entity : Entity} (accepted : catalog.entity query.entity = .ok entity)
    {columns : List ReturnedColumn}
    (tells : List.Forall₂ (ReturnedColumn.Tells · catalog ·) columns (query.told catalog))
    {draft later : Draft} {clause : Fragment}
    (run : (dialect.returningClause entity columns).runFrom draft = (.ok clause, later)) :
    clause.Writes catalog (query.toldWritten catalog dialect) := by
  have column : ∀ returned told, ReturnedColumn.Tells returned catalog told →
      Fragment.Writes (returned.named dialect.lexical) catalog (catalog.toldAs told) :=
    fun _ _ each => each.writes_named dialect
  cases dialect with
  | mysql =>
      simp only [returningClause, Build.runFrom_pure_eq_ok] at run
      rcases run with ⟨rfl, rfl⟩
      have table : entity.tableName.Writes catalog [.table query.entity] := by
        rcases Catalog.entity_eq_ok.mp accepted with ⟨-, rfl⟩
        rfl
      have listed := Fragment.Writes.commaSeparated
        (List.forall₂_map_left_iff.mpr (tells.imp column))
      exact (listed.append table).of_nameParts (by simp)
  | sqlServer =>
      simp only [returningClause, Build.runFrom_pure_eq_ok] at run
      rcases run with ⟨rfl, rfl⟩
      have inserted : ∀ returned told, ReturnedColumn.Tells returned catalog told →
          Fragment.Writes ([.word "INSERTED", .symbol .dot] ++ returned.named sqlServer.lexical)
            catalog (.dot :: catalog.toldAs told) := fun returned told each =>
        have dot : Fragment.Writes [.word "INSERTED", .symbol .dot] catalog [.dot] := rfl
        dot.append (column returned told each)
      rw [List.map_map]
      exact (Fragment.Writes.commaSeparated
        (List.forall₂_map_left_iff.mpr (tells.imp inserted))).of_nameParts rfl
  | oracle =>
      simp only [returningClause, Build.runFrom_bind_eq_ok, Build.runFrom_pure_eq_ok] at run
      rcases run with ⟨outputs, last, bound, rfl, rfl⟩
      have listed := Fragment.Writes.commaSeparated
        (List.forall₂_map_left_iff.mpr (tells.imp fun _ _ each => each.writes))
      refine listed.of_nameParts ?_
      simp [Fragment.returning, Build.nameParts_outputs bound]

namespace Query

variable {catalog : Catalog} {dialect : Dialect} {query : Query} {updater : Expr}
  {draft later : Draft} {built : Built}

/-- What the clauses of an update write. -/
structure UpdateClauses.Writes (clauses : UpdateClauses) (catalog : Catalog) (query : Query)
    (updater : Expr) : Prop where
  accepted : catalog.entity query.entity = .ok clauses.entity
  updates : updater.Updates catalog
  assignments : clauses.assignments.Writes catalog updater.assigned
  conditions : clauses.conditions.Writes catalog query.filtersWritten

theorem writes_updateClauses {clauses : UpdateClauses}
    (run : (query.updateClauses catalog updater).runFrom draft = (.ok clauses, later)) :
    clauses.Writes catalog query updater := by
  rcases run_of_updateClauses run with
    ⟨entity, assignments, conditions, accepted, set, filters, -⟩
  rcases Scope.writes_setClause rfl set with ⟨updates, assigned⟩
  exact ⟨accepted, updates, assigned, Scope.writes_unqualified_whereClause rfl filters⟩

theorem writes_tableName {entity : Entity} (accepted : catalog.entity query.entity = .ok entity) :
    entity.tableName.Writes catalog [.table query.entity] := by
  rcases Catalog.entity_eq_ok.mp accepted with ⟨-, rfl⟩
  rfl

theorem UpdateClauses.Writes.sqlWith {clauses : UpdateClauses}
    (writes : clauses.Writes catalog query updater) {clause : Fragment} {told : List Written}
    (tells : clause.Writes catalog told) :
    (clauses.sqlWith clause).Writes catalog
      ([.table query.entity] ++ updater.assigned ++ told ++ query.filtersWritten) := by
  have table := writes_tableName writes.accepted
  refine (((table.append writes.assignments).append tells).append writes.conditions).of_nameParts ?_
  simp [UpdateClauses.sqlWith]

theorem UpdateClauses.Writes.sql {clauses : UpdateClauses}
    (writes : clauses.Writes catalog query updater) :
    clauses.sql.Writes catalog ([.table query.entity] ++ updater.assigned ++ query.filtersWritten) := by
  have whole := writes.sqlWith Fragment.Writes.nil
  rw [List.append_nil] at whole
  exact whole

end Query

/-! Operations. -/

namespace Operation

/-- The names that a statement writes which changes rows by conditions. -/
def written (catalog : Catalog) (dialect : Dialect) : Operation → List Written
  | .update query updater => [.table query.entity] ++ updater.assigned ++ query.filtersWritten
  | .updateSelect query updater =>
      match dialect with
      | .sqlServer => [.table query.entity] ++ updater.assigned ++
          query.toldWritten catalog dialect ++ query.filtersWritten
      | .oracle => [.table query.entity] ++ updater.assigned ++ query.filtersWritten ++
          query.toldWritten catalog dialect
      | .mysql => [.table query.entity] ++ updater.assigned ++ query.filtersWritten ++
          query.toldWritten catalog dialect ++ query.filtersWritten
  | .delete query => [.table query.entity] ++ query.filtersWritten
  | _ => []

def changesRows : Operation → Bool
  | .update .. | .updateSelect .. | .delete _ => true
  | _ => false

def updater? : Operation → Option Expr
  | .update _ updater | .updateSelect _ updater => some updater
  | _ => none

/-- The operation is about an accepted entity, and its updater assigns to members of one. -/
structure Accepted (operation : Operation) (catalog : Catalog) : Prop where
  entity : ∃ entity, catalog.entity operation.query.entity = .ok entity
  updater : ∀ updater ∈ operation.updater?, updater.Updates catalog

end Operation

section Statements

variable {catalog : Catalog} {dialect : Dialect} {query : Query} {updater : Expr}
  {draft later : Draft} {built : Built}

theorem writes_buildUpdate
    (run : (query.buildUpdate catalog updater).runFrom draft = (.ok built, later)) :
    (Operation.update query updater).Accepted catalog ∧
      built.sql.Writes catalog ((Operation.update query updater).written catalog dialect) := by
  simp only [Query.buildUpdate, Build.runFrom_bind_eq_ok, Build.runFrom_pure_eq_ok] at run
  rcases run with ⟨clauses, last, inner, rfl, rfl⟩
  have writes := Query.writes_updateClauses inner
  refine ⟨⟨⟨_, writes.accepted⟩, ?_⟩, writes.sql⟩
  rintro _ ⟨⟩
  exact writes.updates

theorem writes_buildUpdateSelect
    (run : (query.buildUpdateSelect catalog dialect updater).runFrom draft = (.ok built, later)) :
    (Operation.updateSelect query updater).Accepted catalog ∧
      built.sql.Writes catalog
        ((Operation.updateSelect query updater).written catalog dialect) := by
  simp only [Query.buildUpdateSelect, Build.runFrom_bind_eq_ok, Build.runFrom_lift_eq_ok] at run
  rcases run with ⟨clauses, _, inner, columns, _, ⟨found, rfl⟩, clause, _, returning, rest⟩
  have writes := Query.writes_updateClauses inner
  have tells := Dialect.writes_returningClause writes.accepted
    (Scope.tells_of_returnedColumns writes.accepted found) returning
  refine ⟨⟨⟨_, writes.accepted⟩, ?_⟩, ?_⟩
  · rintro _ ⟨⟩
    exact writes.updates
  · cases dialect <;> simp only [Build.runFrom_pure_eq_ok] at rest <;> rcases rest with ⟨rfl, rfl⟩
    case mysql =>
      refine ((writes.sql.append tells).append writes.conditions).of_nameParts ?_
      simp [Query.followedBy, Fragment.nameParts_symbol]
    case sqlServer => exact writes.sqlWith tells
    case oracle => exact (writes.sql.append tells).of_nameParts (by simp)

theorem writes_buildDelete
    (run : (query.buildDelete catalog).runFrom draft = (.ok built, later)) :
    (Operation.delete query).Accepted catalog ∧
      built.sql.Writes catalog ((Operation.delete query).written catalog dialect) := by
  simp only [Query.buildDelete, Build.runFrom_bind_eq_ok, Build.runFrom_pure_eq_ok,
    Build.runFrom_lift_eq_ok] at run
  rcases run with ⟨entity, _, ⟨accepted, rfl⟩, conditions, last, filters, _, _, -, rfl, rfl⟩
  refine ⟨⟨⟨entity, accepted⟩, fun _ none => absurd none (Option.not_mem_none _)⟩, ?_⟩
  have conditions := Scope.writes_unqualified_whereClause rfl filters
  exact ((Query.writes_tableName accepted).append conditions).of_nameParts (by simp)

theorem Operation.writes_build {operation : Operation} (changes : operation.changesRows = true)
    (run : (operation.build catalog dialect).runFrom draft = (.ok built, later)) :
    operation.Accepted catalog ∧ built.sql.Writes catalog (operation.written catalog dialect) := by
  cases operation <;> cases changes
  case update => exact writes_buildUpdate run
  case updateSelect => exact writes_buildUpdateSelect run
  case delete => exact writes_buildDelete run

end Statements

namespace Composer

variable {composer : Composer} {catalog : Catalog} {operation : Operation}

/-- The composer after an operation: the one before it where the operation fails. -/
def after (composer : Composer) (catalog : Catalog) (operation : Operation) : Composer :=
  (composer.run catalog operation).1.toOption.getD composer

theorem run_eq_ok {next : Composer} (ran : (composer.run catalog operation).1 = .ok next) :
    ∃ built draft, (operation.build catalog composer.dialect).runFrom {} = (.ok built, draft) ∧
      next.statement = ⟨built.sql.text composer.dialect.lexical, draft.params⟩ := by
  have mapped : (operation.compose catalog composer.dialect).1.map composer.hold = .ok next := ran
  cases composed : (operation.compose catalog composer.dialect).1 with
  | error error =>
      rw [composed] at mapped
      cases mapped
  | ok composition =>
      rw [composed] at mapped
      cases mapped
      exact Operation.exists_run_of_compose composed

end Composer

/-- The members that an update or a delete shows are resolved through their own entities: the
statement is built only where each is mapped by its entity, whichever that is, and its names
are those of the table and of the columns that the members are mapped to, none of them
qualified but for the rows that SQL Server tells. Where one is not mapped the operation fails
and leaves the composer as it was. -/
theorem written_members_mapped (catalog : Catalog) (composer : Composer) (operation : Operation)
    (changes : operation.changesRows = true) :
    (∀ next, (composer.run catalog operation).1 = .ok next →
      operation.Accepted catalog ∧
      (∀ path, .column path ∈ operation.written catalog composer.dialect → catalog.Maps path) ∧
      ∃ tokens : Fragment,
        next.statement.sql = tokens.text composer.dialect.lexical ∧
        (catalog.PlainProperties → operation.query.PlainNames →
          composer.dialect.readTokens next.statement.sql = some tokens) ∧
        tokens.Writes catalog (operation.written catalog composer.dialect)) ∧
    ∀ path, .column path ∈ operation.written catalog composer.dialect → ¬ catalog.Maps path →
      (∃ error, (composer.run catalog operation).1 = .error error) ∧
      composer.after catalog operation = composer := by
  have success : ∀ next, (composer.run catalog operation).1 = .ok next →
      ∃ built draft, (operation.build catalog composer.dialect).runFrom {} = (.ok built, draft) ∧
        next.statement.sql = built.sql.text composer.dialect.lexical ∧
        operation.Accepted catalog ∧
        built.sql.Writes catalog (operation.written catalog composer.dialect) := by
    intro next ran
    rcases Composer.run_eq_ok ran with ⟨built, draft, run, statement⟩
    rcases Operation.writes_build changes run with ⟨accepted, writes⟩
    exact ⟨built, draft, run, by rw [statement], accepted, writes⟩
  constructor
  · intro next ran
    rcases success next ran with ⟨built, draft, run, sql, accepted, writes⟩
    refine ⟨accepted, fun path listed => writes.maps listed, built.sql, sql, ?_, writes⟩
    intro plain names
    rw [sql]
    exact Dialect.readTokens_text _ (sound_build plain names run).1
  · intro path listed unmapped
    cases ran : (composer.run catalog operation).1 with
    | error error => exact ⟨⟨error, rfl⟩, by rw [Composer.after, ran]; rfl⟩
    | ok next =>
        rcases success next ran with ⟨built, draft, -, -, -, writes⟩
        exact absurd (writes.maps listed) unmapped

/-- The orders under a number of an entity. -/
def Query.numbered (entity : String) : Query :=
  { entity := "Order"
    filters := [.comparison .equal (.column entity "Id") (.constant (.int 7))] }

/-- One order goes to another archive, and a number that no entity has is refused. -/
theorem written_members_mapped_orders :
    (∃ next tokens,
      ((Composer.fresh .sqlServer).run .shop (.updateSelect (.numbered "Order")
        (.record "Order" [("Archive", .constant (.int 3))]))).1 = .ok next ∧
      Dialect.sqlServer.readTokens next.statement.sql = some tokens ∧
      tokens.Writes .shop
        [.table "Order", .column ⟨"Order", "Archive"⟩, .dot, .column ⟨"Order", "Id"⟩, .label "Id",
          .dot, .column ⟨"Order", "Archive"⟩, .label "Archive", .column ⟨"Order", "Id"⟩]) ∧
    ∀ held, Composer.after held .shop (.delete (.numbered "Nothing")) = held := by
  have plain : Catalog.shop.PlainProperties := plainProperties_of_fields (by decide)
  have names : (Query.numbered "Order").PlainNames := ⟨by decide, by simp [Query.numbered]⟩
  constructor
  · have told := written_members_mapped .shop (.fresh .sqlServer) (.updateSelect
      (.numbered "Order") (.record "Order" [("Archive", .constant (.int 3))])) rfl
    rcases told.1 _ rfl with ⟨-, -, tokens, -, read, writes⟩
    exact ⟨_, tokens, rfl, read plain names, writes⟩
  · intro held
    have refused := (written_members_mapped .shop held (.delete (.numbered "Nothing")) rfl).2
      ⟨"Nothing", "Id"⟩ (by simp [Operation.written, Query.filtersWritten, Query.numbered,
        Expr.written, Expr.shown, Expr.column])
    exact (refused (by rintro ⟨entity, column, accepted, -⟩; cases accepted)).2

/-- A member of another entity picks the orders to delete, and another entity's updater
assigns to a column that orders do not have. -/
theorem written_members_of_other_entity :
    (∃ next path, ((Composer.fresh .mysql).run .shop (.delete (.numbered "Archive"))).1 = .ok next ∧
      next.statement.sql = "DELETE FROM `shop.orders` WHERE 1=1 AND `id` = @Id" ∧
      .column path ∈ (Operation.delete (.numbered "Archive")).written .shop .mysql ∧
      path.entity ≠ (Query.numbered "Archive").entity) ∧
    ∃ next path, ((Composer.fresh .mysql).run .shop (.update (.numbered "Order")
        (.record "Archive" [("Closed", .constant (.boolean true))]))).1 = .ok next ∧
      next.statement.sql =
        "UPDATE `shop.orders` SET `closed` = @Closed WHERE 1=1 AND `id` = @Id" ∧
      .column path ∈ (Operation.update (.numbered "Order")
        (.record "Archive" [("Closed", .constant (.boolean true))])).written .shop .mysql ∧
      path.entity ≠ (Query.numbered "Order").entity := by
  refine ⟨⟨_, ⟨"Archive", "Id"⟩, rfl, by decide +kernel, by decide, by decide⟩,
    _, ⟨"Archive", "Closed"⟩, rfl, by decide +kernel, by decide, by decide⟩

end EntitySql
