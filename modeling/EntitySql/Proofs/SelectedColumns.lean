import EntitySql.Proofs.RecordBinding
import EntitySql.Proofs.RowShapes

/-! The names under which the columns of a select list come back, and the rows that are
folded from them. -/

namespace EntitySql

namespace Fragment

/-- The name that an item of a select list is shown under: its last one. -/
def shownName? (item : Fragment) : Option String :=
  match item.getLast? with
  | some (.identifier name) => some name
  | _ => none

/-- The names of the columns of a select list. -/
def columnNames (columns : Fragment) : List String :=
  (columns.splitOn (.symbol .comma)).filterMap shownName?

structure ShownAs (item : Fragment) (name : String) : Prop where
  whole : .symbol .comma ∉ item
  last : item.getLast? = some (.identifier name)

theorem ShownAs.spaced {item : Fragment} {name : String} (shown : item.ShownAs name) :
    ShownAs (.space :: item) name := by
  rcases List.getLast?_eq_some_iff.mp shown.last with ⟨front, rfl⟩
  refine ⟨by simpa using shown.whole, ?_⟩
  rw [← List.cons_append, List.getLast?_concat]

theorem shownAs_renamed {column : Fragment} (whole : .symbol .comma ∉ column) (name : String) :
    (renamed column name).ShownAs name := by
  refine ⟨by simp [renamed, whole], ?_⟩
  have shape : renamed column name =
      column ++ [.space, .word "AS", .space] ++ [.identifier name] := by
    simp [renamed]
  rw [shape, List.getLast?_concat]

theorem columnNames_of_shownAs {item : Fragment} {name : String} (shown : item.ShownAs name) :
    columnNames item = [name] := by
  rw [columnNames, List.splitOn_eq_singleton shown.whole]
  simp [shownName?, shown.last]

theorem columnNames_append {item : Fragment} {name : String} (shown : item.ShownAs name)
    (rest : Fragment) : columnNames (item ++ .symbol .comma :: rest) = name :: columnNames rest := by
  rw [columnNames, List.splitOn_append_cons_self, List.filterMap_append]
  exact congrArg (· ++ columnNames rest) (columnNames_of_shownAs shown)

/-- Items that are added each behind a comma. -/
def further (items : List Fragment) : Fragment :=
  items.flatMap fun item => [.symbol .comma, .space] ++ item

theorem further_append (items others : List Fragment) :
    further (items ++ others) = further items ++ further others :=
  List.flatMap_append

theorem commaSeparated_cons (item : Fragment) (items : List Fragment) :
    commaSeparated (item :: items) = item ++ further items := by
  induction items generalizing item with
  | nil => simp [commaSeparated, further, List.intercalate_singleton]
  | cons second items induction =>
      have tail := induction second
      rw [commaSeparated] at tail ⊢
      rw [List.intercalate_cons_cons, tail]
      simp [further]

theorem columnNames_further {item : Fragment} {name : String} (shown : item.ShownAs name)
    {items : List Fragment} {names : List String} (each : List.Forall₂ ShownAs items names) :
    columnNames (item ++ further items) = name :: names := by
  induction each generalizing item name with
  | nil => simpa [further] using columnNames_of_shownAs shown
  | @cons second other items names first _ induction =>
      have shape : item ++ further (second :: items) =
          item ++ .symbol .comma :: ((.space :: second) ++ further items) := by
        simp [further]
      rw [shape, columnNames_append shown, induction first.spaced]

end Fragment

/-! Select lists without a projection. -/

namespace Scope

variable {scope : Scope}

theorem columnUnder_whole {aliasName property : String} {entity : Entity} {column : Fragment}
    (found : scope.columnUnder aliasName entity property = .ok column) :
    .symbol .comma ∉ column := by
  rcases columnUnder_eq_ok.mp found with ⟨name, -, rfl⟩
  cases scope.qualifierUnder aliasName <;> simp [ColumnReference.fragment]

theorem shownAs_column {entity : Entity} {field : Field} {column : Fragment}
    (mapped : entity.column field.property = .ok field.column)
    (same : field.column = field.property)
    (reached : scope.column entity field.property = .ok column) :
    column.ShownAs field.property := by
  have whole := columnUnder_whole reached
  rcases columnUnder_eq_ok.mp reached with ⟨name, own, rfl⟩
  have named : name = field.property := same ▸ (Except.ok.inj (mapped.symm.trans own)).symm
  refine ⟨whole, ?_⟩
  cases scope.qualifierUnder entity.aliasName <;> simp [ColumnReference.fragment, named]

/-- The columns of the root come back under the names of its properties. -/
theorem shownAs_fieldList (scope : Scope) {name : String} {entity : Entity} {columns : Fragment}
    (accepted : scope.catalog.entity name = .ok entity)
    (found : scope.fieldList entity = .ok columns) :
    ∃ items, columns = Fragment.commaSeparated items ∧
      List.Forall₂ Fragment.ShownAs items (entity.fields.map (·.property)) := by
  rcases fieldList_cases found with ⟨items, rfl, each⟩
  refine ⟨items, rfl, List.forall₂_map_right_iff.mpr ?_⟩
  have mapped := (Catalog.sound_of_entity accepted).column
  have both := (List.forall₂_and_left (p := fun field =>
    entity.column field.property = .ok field.column) _ _).mpr ⟨mapped, each.flip⟩
  refine (both.imp ?_).flip
  rintro field item ⟨mapped, column, reached, ⟨same, rfl⟩ | rfl⟩
  · exact shownAs_column mapped same reached
  · exact Fragment.shownAs_renamed (columnUnder_whole reached) _

/-- The names of the columns that a navigation adds. -/
def joinedNames (scope : Scope) (navigation : Navigation) : List String :=
  ((scope.catalog.descriptor navigation.target).fields.map (·.property)).map
    (joinedColumnName navigation.name)

theorem shownAs_joinTable {root : Entity} {taken : List String} {navigation : Navigation}
    {draft later : Draft} {table : JoinedTable}
    (run : (scope.joinTable root taken navigation).runFrom draft = (.ok table, later)) :
    (scope.catalog.descriptor navigation.target).fields ≠ [] ∧
    ∃ items, table.columns = Fragment.further items ∧ List.Forall₂ Fragment.ShownAs items
      (if navigation.withFields then scope.joinedNames navigation else []) := by
  rcases joinTable_eq_ok run with ⟨target, condition, accepted, -, -, -, found⟩
  have sound := (Catalog.entity_eq_ok.mp accepted).1
  refine ⟨(Descriptor.checked_of_fault?_eq_none sound).fields, ?_⟩
  rcases joinedColumns_cases found with ⟨bare, none⟩ | ⟨given, fragments, shown, each⟩
  · exact ⟨[], none, by simp [bare]⟩
  · rw [if_pos given, shown]
    rw [joinedNames, ← Catalog.fields_of_entity accepted, List.map_map]
    clear shown found
    generalize target.fields = fields at each ⊢
    induction each with
    | nil => exact ⟨[], rfl, .nil⟩
    | cons first _ induction =>
        rcases first with ⟨column, reached, rfl⟩
        rcases induction with ⟨items, shown, names⟩
        refine ⟨_ :: items, ?_, .cons (Fragment.shownAs_renamed (columnUnder_whole reached) _)
          names⟩
        rw [List.flatten_cons, shown]
        rfl

theorem shownAs_joinTables {root : Entity} {taken : List String} {navigations : List Navigation}
    {draft later : Draft} {tables : List JoinedTable}
    (run : (scope.joinTables root taken navigations).runFrom draft = (.ok tables, later)) :
    (∀ navigation ∈ navigations, (scope.catalog.descriptor navigation.target).fields ≠ []) ∧
    ∃ items, JoinedTable.selectedColumns tables = Fragment.further items ∧
      List.Forall₂ Fragment.ShownAs items
        ((navigations.filter (·.withFields)).flatMap scope.joinedNames) := by
  induction navigations generalizing taken draft tables with
  | nil =>
      rw [joinTables, Build.runFrom_pure_eq_ok] at run
      rcases run with ⟨rfl, rfl⟩
      exact ⟨by simp, [], rfl, .nil⟩
  | cons navigation navigations induction =>
      simp only [joinTables, Build.runFrom_bind_eq_ok, Build.runFrom_pure_eq_ok] at run
      rcases run with ⟨first, middle, head, rest, last, tail, rfl, rfl⟩
      rcases shownAs_joinTable head with ⟨given, items, shown, names⟩
      rcases induction tail with ⟨givenToo, others, othersShown, othersNames⟩
      refine ⟨List.forall_mem_cons.mpr ⟨given, givenToo⟩, items ++ others, ?_, ?_⟩
      · rw [Fragment.further_append, ← shown, ← othersShown]
        rfl
      · have all : ((navigation :: navigations).filter (·.withFields)).flatMap scope.joinedNames =
            (if navigation.withFields then scope.joinedNames navigation else []) ++
              (navigations.filter (·.withFields)).flatMap scope.joinedNames := by
          cases given : navigation.withFields <;> simp [given]
        rw [all]
        exact List.rel_append names othersNames

end Scope

/-- The shape of the rows of an entity with the fields of what is joined to it. -/
def Catalog.rowShape (catalog : Catalog) (entity : Entity) (joins : List Navigation) : RowShape where
  own := entity.fields.map (·.property)
  joined := (joins.filter (·.withFields)).map fun navigation =>
    { name := navigation.name
      properties := (catalog.descriptor navigation.target).fields.map (·.property) }

theorem Catalog.columns_rowShape (catalog : Catalog) (entity : Entity)
    (joins : List Navigation) :
    (catalog.rowShape entity joins).columns = entity.fields.map (·.property) ++
      (joins.filter (·.withFields)).flatMap (Scope.aliased catalog).joinedNames := by
  rw [RowShape.columns, rowShape, List.flatMap_map]
  rfl

namespace SelectClauses

variable {catalog : Catalog} {dialect : Dialect} {query : Query} {top : Option UInt32}
  {draft later : Draft} {clauses : SelectClauses}

/-- The columns of a select list come back in the shape of the entity and its joins. -/
theorem columnNames_build (full : query.select = none)
    (run : (build catalog dialect query top).runFrom draft = (.ok clauses, later)) :
    clauses.columns.columnNames = (catalog.rowShape clauses.entity clauses.joins).columns ∧
    (∀ navigation ∈ clauses.joins, (catalog.descriptor navigation.target).fields ≠ []) ∧
    (clauses.entity.fields.map (·.property)).Nodup := by
  rcases run_of_build run with
    ⟨entity, selected, tables, _, _, _, _, accepted, select, joined, -, -, -, -⟩
  rw [full, Scope.selectList, Build.runFrom_lift_eq_ok] at select
  rcases select with ⟨listed, rfl⟩
  rcases Scope.shownAs_fieldList (.aliased catalog) accepted listed with ⟨items, rfl, own⟩
  rcases Scope.shownAs_joinTables joined with ⟨given, others, shown, names⟩
  have sound := (Catalog.entity_eq_ok.mp accepted).1
  have fields := Catalog.fields_of_entity accepted
  refine ⟨?_, given, fields ▸ Descriptor.nodup_of_fault?_eq_none sound⟩
  rw [Catalog.columns_rowShape]
  simp only [full, Option.isNone_none, if_true, shown]
  rcases List.exists_cons_of_ne_nil (Catalog.fields_ne_nil_of_entity accepted) with ⟨first, rest, split⟩
  rw [split] at own ⊢
  rcases List.forall₂_cons_right_iff.mp own with ⟨item, others', head, tail, rfl⟩
  rw [Fragment.commaSeparated_cons, List.append_assoc, ← Fragment.further_append,
    Fragment.columnNames_further head (List.rel_append tail names)]
  rfl

end SelectClauses

theorem Catalog.sound_rowShape {catalog : Catalog} {entity : Entity} {joins : List Navigation}
    (own : (entity.fields.map (·.property)).Nodup)
    (given : ∀ navigation ∈ joins, (catalog.descriptor navigation.target).fields ≠ [])
    (distinct : (joins.map (·.name)).Nodup) : (catalog.rowShape entity joins).Sound := by
  refine ⟨own, ?_, ?_⟩
  · have names : (catalog.rowShape entity joins).joined.map (·.name) =
        (joins.filter (·.withFields)).map (·.name) := by
      simp [rowShape, Function.comp_def]
    rw [names]
    exact distinct.sublist (List.filter_sublist.map _)
  · intro table inShape
    rcases List.mem_map.mp inShape with ⟨navigation, listed, rfl⟩
    simpa using given navigation (List.mem_filter.mp listed).1

/-- Without a projection, the columns of a query are those of the shape of its rows; whatever
scalars they hold, a row of them folds back just if their names can be told apart. -/
theorem rows_fold_back_iff (catalog : Catalog) (dialect : Dialect) (query : Query)
    (top : Option UInt32) (full : query.select = none) {draft later : Draft}
    {clauses : SelectClauses}
    (run : (SelectClauses.build catalog dialect query top).runFrom draft = (.ok clauses, later))
    (distinct : (clauses.joins.map (·.name)).Nodup) :
    (∀ values, ((catalog.rowShape clauses.entity clauses.joins).cells values).map (·.1) =
      clauses.columns.columnNames) ∧
    ((∀ values : ColumnValues, values.Scalar →
        (catalog.rowShape clauses.entity clauses.joins).FoldsBack values) ↔
      (catalog.rowShape clauses.entity clauses.joins).Decodable) := by
  rcases SelectClauses.columnNames_build full run with ⟨names, given, own⟩
  refine ⟨fun values => (RowShape.names_cells _ values).trans names.symm, ?_⟩
  exact RowShape.foldsBack_iff (Catalog.sound_rowShape own given distinct)

/-- Workers with the department that they belong to. -/
def Catalog.staff : Catalog :=
  { descriptors :=
      [("Worker",
        { table := "workers"
          fields := [⟨"Id", "id"⟩, ⟨"Head", "head"⟩]
          keys := ["Id"]
          navigations :=
            [{ name := "Dept"
               target := "Department"
               kind := .left
               condition :=
                 .comparison .equal (.column "Worker" "Head") (.column "Department" "Id") }] }),
       ("Department", { table := "departments", fields := [⟨"Id", "id"⟩, ⟨"_Id", "code"⟩] })] }

/-- Workers with a further department under a name. -/
def Query.workersWith (name : String) : Query :=
  { entity := "Worker"
    joins :=
      [{ name
         target := "Department"
         kind := .left
         condition := .comparison .equal (.column "Worker" "Id") (.column "Department" "Id") }] }

theorem rows_fold_back_workers :
    ∃ clauses draft,
      (SelectClauses.build .staff .mysql (.workersWith "Led") none).runFrom {} =
        (.ok clauses, draft) ∧
      (clauses.joins.map (·.name)).Nodup ∧
      clauses.columns.columnNames =
        ["Id", "Head", "Led__Id", "Led___Id", "Dept__Id", "Dept___Id"] ∧
      ∀ values : ColumnValues, values.Scalar →
        (Catalog.staff.rowShape clauses.entity clauses.joins).FoldsBack values := by
  have run : (SelectClauses.build .staff .mysql (.workersWith "Led") none).runFrom {} =
    (.ok _, _) := rfl
  have folds := rows_fold_back_iff .staff .mysql (.workersWith "Led") none rfl run (by decide)
  refine ⟨_, _, run, by decide, by decide, folds.2.mpr ⟨?_, ?_, ?_⟩⟩
  all_goals decide

/-- A navigation whose name ends in an underscore is found under another name, and one that
is called as a property takes its place. -/
theorem rows_not_folded_back :
    (∃ clauses draft,
      (SelectClauses.build .staff .mysql (.workersWith "Led_") none).runFrom {} =
        (.ok clauses, draft) ∧
      (clauses.joins.map (·.name)).Nodup ∧
      ((Catalog.staff.rowShape clauses.entity clauses.joins).row .ones).fold =
        .object
          [("Dept", .object [("Id", .integer 1), ("_Id", .integer 1)]), ("Head", .integer 1),
           ("Id", .integer 1), ("Led", .object [("_Id", .integer 1), ("__Id", .integer 1)])] ∧
      ¬ (Catalog.staff.rowShape clauses.entity clauses.joins).FoldsBack .ones) ∧
    ∃ clauses draft,
      (SelectClauses.build .staff .mysql (.workersWith "Head") none).runFrom {} =
        (.ok clauses, draft) ∧
      (clauses.joins.map (·.name)).Nodup ∧
      ((Catalog.staff.rowShape clauses.entity clauses.joins).row .ones).fold =
        .object
          [("Dept", .object [("Id", .integer 1), ("_Id", .integer 1)]),
           ("Head", .object [("Id", .integer 1), ("_Id", .integer 1)]), ("Id", .integer 1)] ∧
      ¬ (Catalog.staff.rowShape clauses.entity clauses.joins).FoldsBack .ones := by
  constructor
  · refine ⟨_, _, rfl, by decide, rfl, ?_⟩
    intro folds
    have decodable := RowShape.decodable_of_foldsBack folds
      (Catalog.sound_rowShape (by decide) (by decide) (by decide))
    exact absurd (decodable.joined ⟨"Led_", ["Id", "_Id"]⟩ (by decide)) (by decide)
  · refine ⟨_, _, rfl, by decide, rfl, ?_⟩
    intro folds
    have decodable := RowShape.decodable_of_foldsBack folds
      (Catalog.sound_rowShape (by decide) (by decide) (by decide))
    exact absurd (decodable.apart ⟨"Head", ["Id", "_Id"]⟩ (by decide)) (by decide)

end EntitySql
