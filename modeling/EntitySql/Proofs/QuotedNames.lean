import EntitySql.Proofs.JoinAliases
import EntitySql.Proofs.TokenSegments
import EntitySql.Proofs.WrittenMembers

/-! The names that a statement quotes. A quoted name ends at the one quote that was put behind
it, whatever the name consists of and whatever stands behind, unless that is another closing
quote. Which names are quoted follows from what is asked for: the columns of members, in the
order of the text, and what columns are shown as. -/

namespace EntitySql

/-! Quoting. -/

namespace Dialect

/-- A name in quotes at the start of a text, and the text after it. -/
def readIdentifier (dialect : Dialect) : List Char → Option (String × List Char)
  | [] => none
  | first :: text =>
      if first = dialect.openQuote then
        (readQuoted dialect.closeQuote text).map fun (name, rest) => (String.ofList name, rest)
      else none

/-- A name is read back as it was quoted. -/
theorem readIdentifier_quote (dialect : Dialect) (name : String) {rest : List Char}
    (ends : ∀ next ∈ rest.head?, next ≠ dialect.closeQuote) :
    dialect.readIdentifier (dialect.lexical.quote name ++ rest) = some (name, rest) := by
  have shape : dialect.lexical.quote name ++ rest =
      dialect.openQuote ::
        (doubleQuotes [dialect.closeQuote] 0 name.toList ++ dialect.closeQuote :: rest) := by
    simp [Lexical.quote]
  rw [shape, readIdentifier, if_pos rfl, readQuoted_doubleQuotes _ _ _ ends]
  simp

theorem quote_injective (dialect : Dialect) : Function.Injective dialect.lexical.quote := by
  intro first second same
  have read : ∀ name, dialect.readIdentifier (dialect.lexical.quote name ++ []) = some (name, []) :=
    fun name => dialect.readIdentifier_quote name (by simp)
  have both := read first
  rw [same, read second] at both
  exact (Prod.mk.inj (Option.some.inj both)).1.symm

/-- Names that abut their quotes: a closing quote alone, two of them, and one at either end. -/
example : sqlServer.readIdentifier "[]]] AS []]]]],[]]a]]]".toList =
    some ("]", " AS []]]]],[]]a]]]".toList) ∧
    sqlServer.readIdentifier "[]]]]],[]]a]]]".toList = some ("]]", ",[]]a]]]".toList) ∧
    sqlServer.readIdentifier "[]]a]]]".toList = some ("]a]", []) := by
  decide +kernel

end Dialect

/-! Names without the dots in front of them. -/

def NamePart.name? : NamePart → Option String
  | .name text => some text
  | .dot => none

namespace Written

def name? (catalog : Catalog) : Written → Option String
  | .table entity => some (catalog.tableName entity)
  | .column path => catalog.columnName? path
  | .label text => some text
  | .dot => none

def isName : Written → Bool
  | .table _ | .column _ | .label _ => true
  | .dot => false

end Written

theorem Fragment.quoted_eq (fragment : Fragment) :
    fragment.quoted = fragment.nameParts.filterMap NamePart.name? := by
  rw [quoted, nameParts, List.filterMap_filterMap]
  congr
  funext token
  cases token with
  | symbol glyph => cases glyph <;> rfl
  | _ => rfl

/-- The fragment quotes the names of these, in the same order, and no others. -/
def Fragment.Quotes (fragment : Fragment) (catalog : Catalog) (written : List Written) : Prop :=
  fragment.quoted.map some = written.map (Written.name? catalog)

theorem Written.map_name?_filter {catalog : Catalog} {parts : List NamePart}
    {written : List Written} (same : parts.map some = written.map (part? catalog)) :
    (parts.filterMap NamePart.name?).map some =
      (written.filter isName).map (name? catalog) := by
  induction written generalizing parts with
  | nil => simp_all
  | cons first written induction =>
      rcases List.map_eq_cons_iff.mp same with ⟨part, rest, rfl, own, others⟩
      have later := induction others
      cases first with
      | dot =>
          cases own
          exact later
      | table entity =>
          cases own
          exact congrArg (some (catalog.tableName entity) :: ·) later
      | label text =>
          cases own
          exact congrArg (some text :: ·) later
      | column path =>
          rcases Option.map_eq_some_iff.mp own.symm with ⟨name, found, rfl⟩
          rw [List.filter_cons_of_pos rfl, List.map_cons, name?, found]
          exact congrArg (some name :: ·) later

theorem Fragment.Writes.quotes {fragment : Fragment} {catalog : Catalog} {written : List Written}
    (writes : fragment.Writes catalog written) :
    fragment.Quotes catalog (written.filter Written.isName) := by
  rw [Quotes, quoted_eq]
  exact Written.map_name?_filter writes

namespace Fragment.Quotes

variable {catalog : Catalog}

theorem nil : Quotes [] catalog [] :=
  rfl

theorem append {left right : Fragment} {first second : List Written}
    (head : left.Quotes catalog first) (tail : right.Quotes catalog second) :
    Quotes (left ++ right) catalog (first ++ second) := by
  rw [Quotes, quoted, List.filterMap_append, List.map_append, List.map_append]
  exact congrArg₂ (· ++ ·) head tail

theorem of_quoted {fragment other : Fragment} {written : List Written}
    (quotes : other.Quotes catalog written) (same : fragment.quoted = other.quoted) :
    fragment.Quotes catalog written := by
  rwa [Quotes, same]

theorem of_nameParts {fragment other : Fragment} {written : List Written}
    (quotes : other.Quotes catalog written) (same : fragment.nameParts = other.nameParts) :
    fragment.Quotes catalog written :=
  quotes.of_quoted (by rw [quoted_eq, quoted_eq, same])

theorem comparedTo {column value : Fragment} {written : List Written}
    (quotes : column.Quotes catalog written) (silent : value.nameParts = []) :
    (Fragment.joined column .equal value).Quotes catalog written :=
  quotes.of_nameParts (by rw [nameParts_joined (by decide), silent, List.append_nil])

theorem flatten {fragments : List Fragment} {items : List α} {written : α → List Written}
    (each : List.Forall₂ (fun fragment item => Quotes fragment catalog (written item))
      fragments items) :
    Quotes fragments.flatten catalog (items.flatMap written) := by
  induction each with
  | nil => exact nil
  | cons first _ induction => exact first.append induction

theorem commaSeparated {fragments : List Fragment} {items : List α} {written : α → List Written}
    (each : List.Forall₂ (fun fragment item => Quotes fragment catalog (written item))
      fragments items) :
    (Fragment.commaSeparated fragments).Quotes catalog (items.flatMap written) :=
  (flatten each).of_nameParts (by
    rw [nameParts_commaSeparated, ← List.flatMap_id, nameParts_flatMap]
    rfl)

theorem commaSeparated_map {fragments : List Fragment} {items : List α} {written : α → Written}
    (each : List.Forall₂ (fun fragment item => Quotes fragment catalog [written item])
      fragments items) :
    (Fragment.commaSeparated fragments).Quotes catalog (items.map written) := by
  rw [List.map_eq_flatMap]
  exact commaSeparated each

end Fragment.Quotes

/-! Expressions, wherever they stand. -/

@[simp] theorem Scope.filter_isName_spelled (scope : Scope) (columns : List Written) :
    (scope.spelled columns).filter Written.isName = columns.filter Written.isName := by
  unfold spelled
  split
  · induction columns with
    | nil => rfl
    | cons column columns induction =>
        rw [List.flatMap_cons, List.filter_append, induction, ← List.filter_append]
        cases column <;> rfl
  · rfl

@[simp] theorem Expr.filter_isName_written (expression : Expr) :
    expression.written.filter Written.isName = expression.written := by
  simp [written, Written.isName]

namespace Expr

variable {scope : Scope}

theorem ScalarRun.quotes {expression : Expr} {hint : String} {draft later : Draft}
    {fragment : Fragment} (steps : ScalarRun scope hint expression draft fragment later) :
    fragment.Quotes scope.catalog expression.written := by
  simpa using steps.writes.quotes

theorem PredicateRun.quotes {expression : Expr} {draft later : Draft} {fragment : Fragment}
    (steps : PredicateRun scope expression draft fragment later) :
    fragment.Quotes scope.catalog expression.written := by
  simpa using steps.writes.quotes

end Expr

/-! Clauses. -/

namespace Scope

variable (scope : Scope)

theorem quotes_columnUnder {name aliasName property : String} {entity : Entity}
    {column : Fragment} (accepted : scope.catalog.entity name = .ok entity)
    (found : scope.columnUnder aliasName entity property = .ok column) :
    column.Quotes scope.catalog [.column ⟨name, property⟩] := by
  have quotes := (writes_columnUnder accepted found).quotes
  rwa [filter_isName_spelled] at quotes

theorem quotes_member {path : MemberPath} {column : Fragment}
    (found : scope.member path = .ok column) :
    column.Quotes scope.catalog [.column path] := by
  have quotes := (writes_member found).quotes
  rwa [filter_isName_spelled] at quotes

theorem quotes_whereClause {filters : List Expr} {draft later : Draft} {fragment : Fragment}
    (run : (scope.whereClause filters).runFrom draft = (.ok fragment, later)) :
    fragment.Quotes scope.catalog (filters.flatMap Expr.written) := by
  simpa [List.filter_flatMap] using (writes_whereClause run).quotes

theorem quotes_conjuncts {expressions : List Expr} {draft later : Draft}
    {fragments : List Fragment}
    (run : (scope.conjuncts expressions).runFrom draft = (.ok fragments, later)) :
    List.Forall₂ (fun fragment expression =>
      Fragment.Quotes fragment scope.catalog (Expr.written expression)) fragments expressions :=
  (writes_conjuncts run).imp fun _ _ writes => by simpa using writes.quotes

theorem quotes_groupClause {keys : List Expr} {draft later : Draft} {fragment : Fragment}
    (run : (scope.groupClause keys).runFrom draft = (.ok fragment, later)) :
    fragment.Quotes scope.catalog (keys.flatMap Expr.written) := by
  rcases scope.groupClause_cases run with ⟨rfl, rfl, -⟩ | ⟨-, fragments, inner, rfl⟩
  · exact .nil
  · have each : List.Forall₂ (fun fragment key =>
        Fragment.Quotes fragment scope.catalog (Expr.written key)) fragments keys :=
      (runs_of_scalars inner).imp fun _ _ ⟨_, _, steps⟩ => steps.quotes
    exact (Fragment.Quotes.commaSeparated each).of_nameParts (by simp)

theorem quotes_havingClause {conditions : List Expr} {draft later : Draft} {fragment : Fragment}
    (run : (scope.havingClause conditions).runFrom draft = (.ok fragment, later)) :
    fragment.Quotes scope.catalog (conditions.flatMap Expr.written) := by
  rcases scope.havingClause_cases run with ⟨rfl, rfl, -⟩ | ⟨-, fragments, inner, rfl⟩
  · exact .nil
  · refine (Fragment.Quotes.commaSeparated (scope.quotes_conjuncts inner)).of_nameParts ?_
    rw [Fragment.nameParts_commaSeparated, Fragment.nameParts_append,
      Fragment.nameParts_intercalate rfl]
    rfl

theorem quotes_orderClause {items : List SortKey} {draft later : Draft} {fragment : Fragment}
    (run : (scope.orderClause items).runFrom draft = (.ok fragment, later)) :
    fragment.Quotes scope.catalog (items.flatMap fun item => item.expression.written) := by
  rcases scope.orderClause_cases run with ⟨rfl, rfl, -⟩ | ⟨-, fragments, inner, rfl⟩
  · exact .nil
  · have each : List.Forall₂ (fun fragment item =>
        Fragment.Quotes fragment scope.catalog (SortKey.expression item).written)
        fragments items := by
      refine (runs_of_sortKeys inner).imp ?_
      rintro _ item ⟨before, key, after, direction, -, steps, rfl⟩
      exact steps.quotes.of_nameParts (by simp)
    exact (Fragment.Quotes.commaSeparated each).of_nameParts (by simp)

end Scope

/-! Select lists. -/

/-- What the columns of an entity are selected as: one of another name than its property is
shown as the property. -/
def Catalog.fieldsWritten (catalog : Catalog) (entity : String) : List Written :=
  (catalog.descriptor entity).fields.flatMap fun field =>
    .column ⟨entity, field.property⟩ ::
      if field.column = field.property then [] else [.label field.property]

/-- What a projection shows: a member as its property where the column has another name, and
the values of a record each as its member of the record. -/
def Expr.projectionWritten (catalog : Catalog) (selector : Expr) : List Written :=
  match selector.body with
  | .member path => catalog.toldAs (path, path.member)
  | .record _ bindings => bindings.flatMap fun binding => binding.2.written ++ [.label binding.1]
  | _ => selector.written

namespace Scope

variable (scope : Scope)

theorem quotes_renamed {column : Fragment} {written : List Written}
    (quotes : column.Quotes scope.catalog written) (name : String) :
    (Fragment.renamed column name).Quotes scope.catalog (written ++ [.label name]) := by
  have label : Fragment.Quotes [.identifier name] scope.catalog [.label name] := rfl
  exact (quotes.append label).of_nameParts (by simp)

theorem quotes_fieldList {name : String} {entity : Entity} {columns : Fragment}
    (accepted : scope.catalog.entity name = .ok entity)
    (found : scope.fieldList entity = .ok columns) :
    columns.Quotes scope.catalog (scope.catalog.fieldsWritten name) := by
  rcases bind_eq_ok.mp found with ⟨fragments, each, shown⟩
  cases shown
  rw [Catalog.fieldsWritten, ← Catalog.fields_of_entity accepted]
  refine Fragment.Quotes.commaSeparated ((forall₂_of_mapM_eq_ok each).imp ?_)
  intro fragment field selected
  rcases bind_eq_ok.mp selected with ⟨column, reached, shown⟩
  cases shown
  have quotes := scope.quotes_columnUnder accepted reached
  split
  · exact quotes
  · exact scope.quotes_renamed quotes field.property

theorem quotes_selectedMember {path : MemberPath} {fragment : Fragment}
    (found : scope.selectedMember path = .ok fragment) :
    fragment.Quotes scope.catalog (scope.catalog.toldAs (path, path.member)) := by
  rcases bind_eq_ok.mp found with ⟨entity, accepted, found⟩
  rcases bind_eq_ok.mp found with ⟨column, reached, named⟩
  rcases bind_eq_ok.mp named with ⟨name, mapped, shown⟩
  cases shown
  have quotes : column.Quotes scope.catalog [.column path] :=
    scope.quotes_columnUnder accepted reached
  have owned : scope.catalog.columnName? path = some name :=
    Catalog.columnName?_of_entity accepted mapped
  simp only [Catalog.toldAs, owned, Option.some.injEq]
  split
  · exact quotes
  · exact scope.quotes_renamed quotes path.member

theorem quotes_projection {selector : Expr} {draft later : Draft} {fragment : Fragment}
    (run : (scope.projection selector).runFrom draft = (.ok fragment, later)) :
    fragment.Quotes scope.catalog (selector.projectionWritten scope.catalog) := by
  cases projectionRun_of_projection run with
  | member path shape found =>
      rw [Expr.projectionWritten, shape]
      exact scope.quotes_selectedMember found
  | record name bindings fragments shape given inner =>
      rw [Expr.projectionWritten, shape]
      refine Fragment.Quotes.commaSeparated ((runs_of_selectedBindings inner).imp ?_)
      rintro _ binding ⟨before, value, after, steps, rfl⟩
      exact scope.quotes_renamed steps.quotes binding.1
  | scalar single inner =>
      have quotes := (Expr.scalarRun_of_scalar inner).quotes
      unfold Expr.projectionWritten
      split
      · next path shape =>
          simp only [projection, shape, Build.runFrom_lift_eq_ok] at run
          exact scope.quotes_selectedMember run.1
      · next name bindings shape => exact absurd shape (single name bindings)
      · exact quotes

end Scope

/-! Joined tables. -/

/-- The name of the table that is joined, and the columns of the condition. -/
def Navigation.written (navigation : Navigation) : List Written :=
  .table navigation.target :: navigation.condition.written

/-- The columns that a join adds to a select list, each under the name of the navigation and that
of the property. -/
def Catalog.joinedWritten (catalog : Catalog) (navigation : Navigation) : List Written :=
  if navigation.withFields then
    (catalog.descriptor navigation.target).fields.flatMap fun field =>
      [.column ⟨navigation.target, field.property⟩,
        .label (joinedColumnName navigation.name field.property)]
  else []

/-- What the parts of a joined table quote. -/
structure JoinedTable.Quotes (table : JoinedTable) (catalog : Catalog) (navigation : Navigation) :
    Prop where
  clause : table.clause.Quotes catalog navigation.written
  columns : table.columns.Quotes catalog (catalog.joinedWritten navigation)

theorem Entity.quotes_tableName {catalog : Catalog} {name : String} {entity : Entity}
    (accepted : catalog.entity name = .ok entity) :
    entity.tableName.Quotes catalog [.table name] := by
  rcases Catalog.entity_eq_ok.mp accepted with ⟨-, rfl⟩
  rfl

namespace Scope

variable (scope : Scope)

theorem quotes_joinedColumns {aliasName : String} {navigation : Navigation} {target : Entity}
    {columns : Fragment} (accepted : scope.catalog.entity navigation.target = .ok target)
    (found : scope.joinedColumns aliasName navigation target = .ok columns) :
    columns.Quotes scope.catalog (scope.catalog.joinedWritten navigation) := by
  rw [Catalog.joinedWritten, ← Catalog.fields_of_entity accepted]
  rcases joinedColumns_cases found with ⟨none, rfl⟩ | ⟨given, fragments, rfl, each⟩
  · rw [if_neg (by simp [none])]
    exact .nil
  · rw [if_pos given]
    refine Fragment.Quotes.flatten (each.imp ?_)
    rintro _ field ⟨column, reached, rfl⟩
    exact (scope.quotes_renamed (scope.quotes_columnUnder accepted reached) _).of_nameParts
      (by simp [Fragment.nameParts_symbol])

theorem quotes_joinTable {root : Entity} {taken : List String} {navigation : Navigation}
    {draft later : Draft} {table : JoinedTable}
    (run : (scope.joinTable root taken navigation).runFrom draft = (.ok table, later)) :
    table.Quotes scope.catalog navigation := by
  rcases joinTable_eq_ok run with ⟨target, condition, accepted, -, on, clause, joined⟩
  refine ⟨?_, scope.quotes_joinedColumns accepted joined⟩
  have conditions := (Expr.predicateRun_of_predicate on).quotes
  refine ((Entity.quotes_tableName accepted).append conditions).of_nameParts ?_
  simp [clause]

theorem quotes_joins {root : Entity} {navigations : List Navigation} {draft later : Draft}
    {tables : List JoinedTable}
    (run : (scope.joins root navigations).runFrom draft = (.ok tables, later)) :
    List.Forall₂ (fun table navigation => JoinedTable.Quotes table scope.catalog navigation)
      tables navigations := by
  rw [← navigations_joinViews scope.catalog root.name [root.aliasName] navigations,
    List.forall₂_map_right_iff]
  refine (runs_of_joinTables run).imp ?_
  rintro table _ ⟨navigation, before, known, after, own, rfl⟩
  exact scope.quotes_joinTable own

end Scope

namespace JoinedTable

variable {catalog : Catalog} {tables : List JoinedTable} {navigations : List Navigation}
  (quotes : List.Forall₂ (fun table navigation => Quotes table catalog navigation)
    tables navigations)

include quotes

theorem quotes_joinClauses :
    (joinClauses tables).Quotes catalog (navigations.flatMap Navigation.written) := by
  have each : List.Forall₂ (fun fragment navigation =>
      Fragment.Quotes fragment catalog (Navigation.written navigation))
      (tables.map (·.clause)) navigations :=
    List.forall₂_map_left_iff.mpr (quotes.imp fun _ _ own => own.clause)
  refine (Fragment.Quotes.commaSeparated each).of_nameParts ?_
  rw [joinClauses, Fragment.nameParts_intercalate rfl, Fragment.nameParts_commaSeparated]

theorem quotes_selectedColumns :
    (selectedColumns tables).Quotes catalog (navigations.flatMap catalog.joinedWritten) := by
  rw [selectedColumns, List.flatMap_def]
  exact .flatten (List.forall₂_map_left_iff.mpr (quotes.imp fun _ _ own => own.columns))

end JoinedTable

end EntitySql
