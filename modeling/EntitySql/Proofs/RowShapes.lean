import EntitySql.Proofs.RowFolding

/-! Rows of a select list without a projection. The columns are the properties of the root
and, under the names of the navigations, those of the joined entities; a row folds back into
an object of the same shape where the names of its columns can be told apart again. -/

namespace EntitySql

def Json.isScalar : Json → Bool
  | .array _ | .object _ => false
  | _ => true

/-- The columns of one navigation. -/
structure JoinedShape where
  name : String
  properties : List String
  deriving DecidableEq, Repr

structure RowShape where
  own : List String
  joined : List JoinedShape
  deriving DecidableEq, Repr

/-- A value for each property of the root and of every navigation. -/
structure ColumnValues where
  own : String → Json
  joined : (navigation property : String) → Json

structure ColumnValues.Scalar (values : ColumnValues) : Prop where
  own : ∀ property, (values.own property).isScalar = true
  joined : ∀ navigation property, (values.joined navigation property).isScalar = true

/-- Every column holds the same whole number. -/
def ColumnValues.ones : ColumnValues where
  own _ := .integer 1
  joined _ _ := .integer 1

namespace JoinedShape

def columns (shape : JoinedShape) : List String :=
  shape.properties.map (joinedColumnName shape.name)

def members (shape : JoinedShape) (values : ColumnValues) : List (String × Json) :=
  shape.properties.map fun property => (property, values.joined shape.name property)

/-- What the navigation holds: nothing if no row was joined. -/
def value (shape : JoinedShape) (values : ColumnValues) : Json :=
  if (shape.members values).all (·.2.isNull) then .null
  else .object (Members.ofList (shape.members values))

def cells (shape : JoinedShape) (values : ColumnValues) : List (String × Json) :=
  shape.properties.map fun property =>
    (joinedColumnName shape.name property, values.joined shape.name property)

end JoinedShape

namespace RowShape

def columns (shape : RowShape) : List String :=
  shape.own ++ shape.joined.flatMap (·.columns)

def ownEntries (shape : RowShape) (values : ColumnValues) : List (String × Json) :=
  shape.own.map fun property => (property, values.own property)

/-- The columns with their values, in their order. -/
def cells (shape : RowShape) (values : ColumnValues) : List (String × Json) :=
  shape.ownEntries values ++ shape.joined.flatMap (·.cells values)

/-- The row as it is read: of columns of one name the last counts. -/
def row (shape : RowShape) (values : ColumnValues) : Row :=
  Members.ofList (shape.cells values)

/-- The properties and the navigations with what they hold. -/
def entries (shape : RowShape) (values : ColumnValues) : List (String × Json) :=
  shape.ownEntries values ++ shape.joined.map fun table => (table.name, table.value values)

/-- The folded row is the object of just these entries. -/
def FoldsBack (shape : RowShape) (values : ColumnValues) : Prop :=
  ∃ held : Members, (shape.row values).fold = .object held ∧ held.Perm (shape.entries values)

/-- No property is named twice, nor a navigation. -/
structure Sound (shape : RowShape) : Prop where
  own : shape.own.Nodup
  navigations : (shape.joined.map (·.name)).Nodup
  properties : ∀ table ∈ shape.joined, table.properties ≠ []

/-- The names of the columns tell what they are columns of. -/
structure Decodable (shape : RowShape) : Prop where
  own : ∀ property ∈ shape.own, splitColumnName? property = none
  joined : ∀ table ∈ shape.joined, Parted table.name
  apart : ∀ table ∈ shape.joined, table.name ∉ shape.own

variable {shape : RowShape} {values : ColumnValues}

theorem names_cells (shape : RowShape) (values : ColumnValues) :
    (shape.cells values).map (·.1) = shape.columns := by
  simp [cells, ownEntries, columns, JoinedShape.cells, JoinedShape.columns, List.map_flatMap,
    Function.comp_def]

theorem ordered_row (shape : RowShape) (values : ColumnValues) :
    Members.Ordered (shape.row values) :=
  Members.ordered_ofList _

theorem mem_ownEntries {name : String} {value : Json} :
    (name, value) ∈ shape.ownEntries values ↔ name ∈ shape.own ∧ value = values.own name := by
  rw [ownEntries, List.mem_map]
  constructor
  · rintro ⟨property, listed, same⟩
    cases same
    exact ⟨listed, rfl⟩
  · rintro ⟨listed, rfl⟩
    exact ⟨name, listed, rfl⟩

theorem mem_cells {name : String} {value : Json} :
    (name, value) ∈ shape.cells values ↔
      (name ∈ shape.own ∧ value = values.own name) ∨
      ∃ table ∈ shape.joined, ∃ property ∈ table.properties,
        name = joinedColumnName table.name property ∧
          value = values.joined table.name property := by
  rw [cells, List.mem_append, mem_ownEntries, List.mem_flatMap]
  simp only [JoinedShape.cells, List.mem_map, Prod.mk.injEq, eq_comm]

/-! A decodable shape. -/

section

variable (decodable : shape.Decodable)

include decodable

theorem Decodable.joinedColumnName_not_mem {table : JoinedShape} (inShape : table ∈ shape.joined)
    (property : String) : joinedColumnName table.name property ∉ shape.own := by
  intro own
  have none := decodable.own _ own
  rw [(decodable.joined table inShape).split] at none
  cases none

theorem Decodable.coherent_cells : Members.Coherent (shape.cells values) := by
  rintro ⟨name, value⟩ listed ⟨other, held⟩ among same
  cases (same : name = other)
  rcases mem_cells.mp listed with ⟨own, rfl⟩ | ⟨table, inShape, property, inTable, rfl, rfl⟩
  · rcases mem_cells.mp among with ⟨-, rfl⟩ | ⟨twin, inShape, property, -, rfl, -⟩
    · rfl
    · exact absurd own (decodable.joinedColumnName_not_mem inShape property)
  · rcases mem_cells.mp among with ⟨own, -⟩ | ⟨twin, twinInShape, further, -, equal, rfl⟩
    · exact absurd own (decodable.joinedColumnName_not_mem inShape property)
    · rcases (decodable.joined table inShape).joinedColumnName_inj
        (decodable.joined twin twinInShape) equal with ⟨named, rfl⟩
      rw [named]

theorem Decodable.mem_row {entry : String × Json} :
    entry ∈ shape.row values ↔ entry ∈ shape.cells values :=
  Members.mem_ofList decodable.coherent_cells

theorem Decodable.mem_plainColumns {name : String} {value : Json} :
    (name, value) ∈ (shape.row values).plainColumns ↔
      name ∈ shape.own ∧ value = values.own name := by
  rw [Row.mem_plainColumns, decodable.mem_row, mem_cells]
  constructor
  · rintro ⟨own | ⟨table, inShape, property, -, rfl, -⟩, none⟩
    · exact own
    · rw [(decodable.joined table inShape).split] at none
      cases none
  · exact fun own => ⟨.inl own, decodable.own _ own.1⟩

/-- The cells of a navigation are told by its name. -/
theorem Decodable.mem_joined (sound : shape.Sound) {table : JoinedShape}
    (inShape : table ∈ shape.joined) {property : String} {value : Json} :
    (joinedColumnName table.name property, value) ∈ shape.row values ↔
      (property, value) ∈ table.members values := by
  rw [decodable.mem_row, mem_cells, JoinedShape.members, List.mem_map]
  constructor
  · rintro (⟨own, -⟩ | ⟨twin, twinInShape, further, listed, equal, rfl⟩)
    · exact absurd own (decodable.joinedColumnName_not_mem inShape property)
    · rcases (decodable.joined table inShape).joinedColumnName_inj
        (decodable.joined twin twinInShape) equal with ⟨named, rfl⟩
      cases List.inj_on_of_nodup_map sound.navigations inShape twinInShape named
      exact ⟨_, listed, rfl⟩
  · rintro ⟨further, listed, same⟩
    cases same
    exact .inr ⟨table, inShape, _, listed, rfl, rfl⟩

theorem Decodable.mem_navigations (sound : shape.Sound) {navigation : String} :
    navigation ∈ (shape.row values).navigations ↔
      ∃ table ∈ shape.joined, table.name = navigation := by
  rw [Row.mem_navigations]
  constructor
  · rintro ⟨parted, property, value, listed⟩
    rw [decodable.mem_row, mem_cells] at listed
    rcases listed with ⟨own, -⟩ | ⟨table, inShape, further, -, equal, -⟩
    · have none := decodable.own _ own
      rw [parted.split] at none
      cases none
    · exact ⟨table, inShape,
        (parted.joinedColumnName_inj (decodable.joined table inShape) equal).1.symm⟩
  · rintro ⟨table, inShape, rfl⟩
    rcases List.exists_mem_of_ne_nil _ (sound.properties table inShape) with ⟨property, listed⟩
    exact ⟨decodable.joined table inShape, property, _,
      (decodable.mem_joined sound inShape).mpr (List.mem_map_of_mem listed)⟩

theorem Decodable.joinedValue (sound : shape.Sound) {table : JoinedShape}
    (inShape : table ∈ shape.joined) :
    (shape.row values).joinedValue table.name = table.value values := by
  have same : ∀ entry, entry ∈ (shape.row values).joinedColumns table.name ↔
      entry ∈ table.members values := fun entry =>
    (Row.mem_joinedColumns (shape.ordered_row values) (decodable.joined table inShape)).trans
      (decodable.mem_joined sound inShape)
  have coherent : Members.Coherent (table.members values) :=
    Members.coherent_map table.properties (values.joined table.name)
  have gathered : (shape.row values).joinedColumns table.name =
      Members.ofList (table.members values) :=
    Members.Ordered.eq (Members.ordered_ofList _) (Members.ordered_ofList _) fun entry =>
      (same entry).trans (Members.mem_ofList coherent).symm
  have null : (Members.ofList (table.members values)).all (·.2.isNull) =
      (table.members values).all (·.2.isNull) := by
    rw [Bool.eq_iff_iff, List.all_eq_true, List.all_eq_true]
    simp only [Members.mem_ofList coherent]
  simp only [Row.joinedValue, JoinedShape.value, gathered, null]

theorem Decodable.foldsBack (sound : shape.Sound) (values : ColumnValues) :
    shape.FoldsBack values := by
  rcases Row.fold_eq (shape.ordered_row values) with
    ⟨held, folded, ordered, holds⟩
  refine ⟨held, folded, ordered.perm ?_ ?_⟩
  · have names : (shape.entries values).map (·.1) = shape.own ++ shape.joined.map (·.name) := by
      simp [entries, ownEntries, Function.comp_def]
    rw [names, List.nodup_append]
    refine ⟨sound.own, sound.navigations, ?_⟩
    rintro property own navigation named rfl
    rcases List.mem_map.mp named with ⟨table, inShape, rfl⟩
    exact decodable.apart table inShape own
  · rintro ⟨name, value⟩
    rw [holds, decodable.mem_navigations sound, decodable.mem_plainColumns, entries,
      List.mem_append, mem_ownEntries, List.mem_map]
    constructor
    · rintro (⟨⟨table, inShape, rfl⟩, rfl⟩ | ⟨-, own⟩)
      · exact .inr ⟨table, inShape, by rw [decodable.joinedValue sound inShape]⟩
      · exact .inl own
    · rintro (own | ⟨table, inShape, same⟩)
      · refine .inr ⟨?_, own⟩
        rintro ⟨table, inShape, rfl⟩
        exact decodable.apart table inShape own.1
      · cases same
        exact .inl ⟨⟨table, inShape, rfl⟩, (decodable.joinedValue sound inShape).symm⟩

end

/-! A shape whose rows fold back. -/

section

variable (foldsBack : shape.FoldsBack ColumnValues.ones)

include foldsBack

/-- An entry comes from the columns of a navigation, or from a column of its own. -/
theorem cases_of_foldsBack {name : String} {value : Json}
    (listed : (name, value) ∈ shape.entries .ones) :
    (Parted name ∧ value = (shape.row .ones).joinedValue name) ∨
      (splitColumnName? name = none ∧ value = .integer 1) := by
  rcases Row.fold_eq (shape.ordered_row .ones) with ⟨held, folded, ordered, holds⟩
  rcases foldsBack with ⟨twin, twinFolded, perm⟩
  cases Json.object.inj (twinFolded.symm.trans folded)
  rcases (holds name value).mp (perm.mem_iff.mpr listed) with ⟨navigation, shown⟩ | ⟨-, plain⟩
  · exact .inl ⟨(Row.mem_navigations.mp navigation).1, shown⟩
  · rcases Row.mem_plainColumns.mp plain with ⟨inRow, none⟩
    refine .inr ⟨none, ?_⟩
    rcases mem_cells.mp (Members.mem_of_mem_ofList inRow) with ⟨-, shown⟩ | ⟨_, -, _, -, -, shown⟩
    · exact shown
    · exact shown

theorem nodup_of_foldsBack : (shape.own ++ shape.joined.map (·.name)).Nodup := by
  rcases Row.fold_eq (shape.ordered_row .ones) with ⟨held, folded, ordered, -⟩
  rcases foldsBack with ⟨twin, twinFolded, perm⟩
  cases Json.object.inj (twinFolded.symm.trans folded)
  have names := (perm.map (·.1)).nodup_iff.mp ordered.nodup_names
  simpa [entries, ownEntries, Function.comp_def] using names

theorem decodable_of_foldsBack (sound : shape.Sound) : shape.Decodable := by
  constructor
  · intro property own
    have among : (property, ColumnValues.ones.own property) ∈ shape.entries .ones :=
      List.mem_append_left _ (mem_ownEntries.mpr ⟨own, rfl⟩)
    rcases cases_of_foldsBack foldsBack among with ⟨parted, -⟩ | ⟨none, -⟩
    · exact parted.splitColumnName?_eq_none
    · exact none
  · intro table inShape
    have among : (table.name, table.value .ones) ∈ shape.entries .ones :=
      List.mem_append_right _ (List.mem_map_of_mem inShape)
    rcases cases_of_foldsBack foldsBack among with ⟨parted, -⟩ | ⟨-, number⟩
    · exact parted
    · exfalso
      rcases List.exists_cons_of_ne_nil (sound.properties table inShape) with
        ⟨property, others, properties⟩
      have some' : (table.members .ones).all (·.2.isNull) = false := by
        simp [JoinedShape.members, properties, ColumnValues.ones, Json.isNull]
      rw [JoinedShape.value, if_neg (by simp [some'])] at number
      cases number
  · intro table inShape own
    have distinct := List.nodup_append.mp (nodup_of_foldsBack foldsBack)
    exact distinct.2.2 _ own _ (List.mem_map_of_mem inShape) rfl

end

theorem foldsBack_iff (sound : shape.Sound) :
    (∀ values : ColumnValues, values.Scalar → shape.FoldsBack values) ↔ shape.Decodable :=
  ⟨fun foldsBack => decodable_of_foldsBack (foldsBack .ones ⟨fun _ => rfl, fun _ _ => rfl⟩) sound,
    fun decodable values _ => decodable.foldsBack sound values⟩

end RowShape

end EntitySql
