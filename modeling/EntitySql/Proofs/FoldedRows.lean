import EntitySql.Proofs.RowFolding

/-! Folding a row one column after the other. The columns without a separator are set in one
object and those with one in an object of their navigation; these objects are then set over
the first. Whatever the order in which the columns come, the outcome holds each navigation and
each column without a separator, and leaves out no more than a column that shares its name with
a navigation and the nulls of a navigation that has nothing else. -/

namespace EntitySql

/-! The first separator in a name. -/

/-- There are two underscores in a row in the name. -/
def HasSeparator (name : String) : Prop :=
  ∃ before after, name = before ++ "__" ++ after

/-- What stands before the first separator of a name, and what stands after it. -/
structure FirstSplit (name navigation field : String) : Prop where
  shape : name = navigation ++ "__" ++ field
  first : ∀ before after, name = before ++ "__" ++ after → navigation.length ≤ before.length

/-- A separator is found, if not a later one. -/
theorem exists_splitAtSeparator? (before after : List Char) :
    ∃ navigation field,
      splitAtSeparator? (before ++ '_' :: '_' :: after) = some (navigation, field) ∧
        navigation.length ≤ before.length := by
  induction before with
  | nil => exact ⟨[], after, rfl, Nat.le_refl _⟩
  | cons character before induction =>
      by_cases here : character = '_' ∧ (before ++ '_' :: '_' :: after).head? = some '_'
      · rcases here with ⟨rfl, head⟩
        rcases List.head?_eq_some_iff.mp head with ⟨rest, shape⟩
        exact ⟨[], rest, by rw [List.cons_append, shape, splitAtSeparator?], Nat.zero_le _⟩
      · rcases induction with ⟨navigation, field, found, shorter⟩
        refine ⟨character :: navigation, field, ?_, Nat.succ_le_succ shorter⟩
        rw [List.cons_append, splitAtSeparator?_cons here, found]
        rfl

theorem exists_splitColumnName? (before after : String) :
    ∃ navigation field, splitColumnName? (before ++ "__" ++ after) = some (navigation, field) ∧
      navigation.length ≤ before.length := by
  rcases exists_splitAtSeparator? before.toList after.toList with
    ⟨navigation, field, found, shorter⟩
  refine ⟨String.ofList navigation, String.ofList field, ?_, ?_⟩
  · have shape : (before ++ "__" ++ after).toList =
        before.toList ++ '_' :: '_' :: after.toList := by
      simp
    rw [splitColumnName?, shape, found]
    rfl
  · rwa [String.length_ofList, ← String.length_toList]

theorem splitColumnName?_eq_none_iff {name : String} :
    splitColumnName? name = none ↔ ¬ HasSeparator name := by
  constructor
  · rintro whole ⟨before, after, rfl⟩
    rcases exists_splitColumnName? before after with ⟨navigation, field, found, -⟩
    rw [whole] at found
    cases found
  · intro whole
    cases found : splitColumnName? name with
    | none => rfl
    | some parts => exact absurd ⟨_, _, (splitColumnName?_eq_some.mp found).1⟩ whole

theorem splitColumnName?_eq_some_iff {name navigation field : String} :
    splitColumnName? name = some (navigation, field) ↔ FirstSplit name navigation field := by
  constructor
  · intro found
    refine ⟨(splitColumnName?_eq_some.mp found).1, ?_⟩
    rintro before after rfl
    rcases exists_splitColumnName? before after with ⟨own, rest, split, shorter⟩
    rw [found] at split
    cases split
    exact shorter
  · rintro ⟨shape, first⟩
    rcases exists_splitColumnName? navigation field with ⟨own, rest, split, shorter⟩
    rw [← shape] at split
    have found := (splitColumnName?_eq_some.mp split).1
    have longer := first own rest found
    have same : own.toList ++ ("__" ++ rest).toList =
        navigation.toList ++ ("__" ++ field).toList := by
      rw [← String.toList_append, ← String.toList_append, ← String.append_assoc,
        ← String.append_assoc, ← shape]
      exact congrArg String.toList found.symm
    have long : own.toList.length = navigation.toList.length := by
      rw [String.length_toList, String.length_toList]
      exact Nat.le_antisymm shorter longer
    rcases List.append_inj same long with ⟨owner, behind⟩
    have property := String.append_right_inj "__" |>.mp (String.toList_inj.mp behind)
    rw [split, String.toList_inj.mp owner, property]

theorem exists_firstSplit {name : String} (parts : HasSeparator name) :
    ∃ navigation field, FirstSplit name navigation field := by
  cases found : splitColumnName? name with
  | none => exact absurd parts (splitColumnName?_eq_none_iff.mp found)
  | some split => exact ⟨split.1, split.2, splitColumnName?_eq_some_iff.mp found⟩

/-! The loop. -/

/-- The value of a navigation with these columns. -/
def foldedValue (fields : Members) : Json :=
  if fields.all (·.2.isNull) then .null else .object fields

/-- Sets a field of a navigation, which is put behind the others where it is new. -/
def setField (navigation field : String) (value : Json) :
    List (String × Members) → List (String × Members)
  | [] => [(navigation, Members.insert [] field value)]
  | (other, fields) :: rest =>
      if other = navigation then (other, fields.insert field value) :: rest
      else (other, fields) :: setField navigation field value rest

/-- The fields that are set of a navigation. -/
def fieldsOf (navigation : String) : List (String × Members) → Members
  | [] => []
  | (other, fields) :: rest => if other = navigation then fields else fieldsOf navigation rest

/-- What has been made of the columns so far. -/
structure Folding where
  plain : Members
  joined : List (String × Members)

namespace Folding

def visit (folding : Folding) (column : String × Json) : Folding :=
  match splitColumnName? column.1 with
  | some (navigation, field) =>
      { folding with joined := setField navigation field column.2 folding.joined }
  | none => { folding with plain := folding.plain.insert column.1 column.2 }

def merged (folding : Folding) : Members :=
  folding.joined.foldl (fun members table => members.insert table.1 (foldedValue table.2))
    folding.plain

def names (folding : Folding) : List String :=
  folding.joined.map (·.1)

end Folding

def foldVisiting (visited : List (String × Json)) : Json :=
  .object (visited.foldl Folding.visit ⟨[], []⟩).merged

/-! One navigation among others. -/

theorem names_setField (navigation field : String) (value : Json)
    (joined : List (String × Members)) :
    (setField navigation field value joined).map (·.1) =
      if navigation ∈ joined.map (·.1) then joined.map (·.1)
      else joined.map (·.1) ++ [navigation] := by
  induction joined with
  | nil => rfl
  | cons table joined induction =>
      by_cases same : table.1 = navigation
      · simp [setField, same]
      · by_cases listed : navigation ∈ joined.map (·.1)
        · rw [if_pos listed] at induction
          rw [setField, if_neg same, List.map_cons, induction, List.map_cons,
            if_pos (List.mem_cons_of_mem _ listed)]
        · rw [if_neg listed] at induction
          rw [setField, if_neg same, List.map_cons, induction, List.map_cons,
            if_neg (by simpa [Ne.symm same] using listed), List.cons_append]

theorem mem_names_setField {navigation field : String} {value : Json}
    {joined : List (String × Members)} {other : String} :
    other ∈ (setField navigation field value joined).map (·.1) ↔
      other = navigation ∨ other ∈ joined.map (·.1) := by
  rw [names_setField]
  split_ifs with listed
  · exact ⟨.inr, fun either => either.elim (fun same => same ▸ listed) id⟩
  · rw [List.mem_append, List.mem_singleton, or_comm]

theorem nodup_names_setField {joined : List (String × Members)}
    (distinct : (joined.map (·.1)).Nodup) (navigation field : String) (value : Json) :
    ((setField navigation field value joined).map (·.1)).Nodup := by
  rw [names_setField]
  split_ifs with listed
  · exact distinct
  · exact distinct.append (List.nodup_singleton navigation)
      (List.disjoint_singleton.mpr listed)

theorem fieldsOf_setField (navigation field : String) (value : Json)
    (joined : List (String × Members)) (other : String) :
    fieldsOf other (setField navigation field value joined) =
      if other = navigation then (fieldsOf other joined).insert field value
      else fieldsOf other joined := by
  induction joined with
  | nil =>
      rw [setField, fieldsOf, fieldsOf]
      exact if_congr eq_comm rfl rfl
  | cons table joined induction =>
      by_cases same : table.1 = navigation
      · by_cases asked : other = navigation
        · simp [setField, fieldsOf, same, asked]
        · simp [setField, fieldsOf, same, asked, Ne.symm asked]
      · by_cases here : table.1 = other
        · subst here
          simp [setField, fieldsOf, same]
        · simp [setField, fieldsOf, same, here, induction]

/-! What has been made of the columns. -/

/-- The loop has come past these columns. -/
structure Folding.Covers (folding : Folding) (visited : List (String × Json)) : Prop where
  plainOrdered : folding.plain.Ordered
  plain : ∀ column, column ∈ folding.plain ↔ column ∈ visited ∧ splitColumnName? column.1 = none
  distinct : folding.names.Nodup
  names : ∀ navigation, navigation ∈ folding.names ↔
    Parted navigation ∧ ∃ field value, (joinedColumnName navigation field, value) ∈ visited
  ordered : ∀ navigation, (fieldsOf navigation folding.joined).Ordered
  fields : ∀ navigation, Parted navigation → ∀ field value,
    (field, value) ∈ fieldsOf navigation folding.joined ↔
      (joinedColumnName navigation field, value) ∈ visited

namespace Folding

variable {folding : Folding} {visited : List (String × Json)}

theorem covers_nil : Covers ⟨[], []⟩ [] where
  plainOrdered := .nil
  plain := by simp
  distinct := .nil
  names := by simp [names]
  ordered _ := .nil
  fields := by simp [fieldsOf]

theorem Covers.visit_plain (covers : folding.Covers visited) {name : String}
    (fresh : name ∉ visited.map (·.1)) (whole : splitColumnName? name = none) (value : Json) :
    (folding.visit (name, value)).Covers (visited ++ [(name, value)]) := by
  have other : ∀ navigation, Parted navigation → ∀ field,
      joinedColumnName navigation field ≠ name := by
    rintro navigation parted field rfl
    rw [parted.split] at whole
    cases whole
  have shape : folding.visit (name, value) =
      { folding with plain := folding.plain.insert name value } := by
    rw [Folding.visit, whole]
  rw [shape]
  exact
    { plainOrdered := Members.ordered_insert covers.plainOrdered name value
      plain := by
        intro column
        rw [Members.mem_insert covers.plainOrdered, covers.plain, List.mem_append,
          List.mem_singleton]
        constructor
        · rintro (rfl | ⟨⟨listed, own⟩, -⟩)
          · exact ⟨.inr rfl, whole⟩
          · exact ⟨.inl listed, own⟩
        · rintro ⟨listed | rfl, own⟩
          · exact .inr ⟨⟨listed, own⟩, fun same => fresh (List.mem_map.mpr ⟨column, listed, same⟩)⟩
          · exact .inl rfl
      distinct := covers.distinct
      names := by
        intro navigation
        refine (covers.names navigation).trans (and_congr_right fun parted => ?_)
        simp [other navigation parted]
      ordered := covers.ordered
      fields := by
        intro navigation parted field held
        refine (covers.fields navigation parted field held).trans ?_
        simp [other navigation parted] }

theorem Covers.visit_joined (covers : folding.Covers visited) {owner property : String}
    (fresh : joinedColumnName owner property ∉ visited.map (·.1)) (parted : Parted owner)
    (value : Json) :
    (folding.visit (joinedColumnName owner property, value)).Covers
      (visited ++ [(joinedColumnName owner property, value)]) := by
  have shape : folding.visit (joinedColumnName owner property, value) =
      { folding with joined := setField owner property value folding.joined } := by
    rw [Folding.visit, parted.split]
  rw [shape]
  exact
    { plainOrdered := covers.plainOrdered
      plain := by
        intro column
        rw [covers.plain, List.mem_append, List.mem_singleton]
        refine and_congr_left fun whole => ?_
        have other : column ≠ (joinedColumnName owner property, value) := by
          rintro rfl
          rw [parted.split] at whole
          cases whole
        simp [other]
      distinct := nodup_names_setField covers.distinct owner property value
      names := by
        intro navigation
        refine mem_names_setField.trans ?_
        rw [show navigation ∈ folding.joined.map (·.1) ↔ _ from covers.names navigation]
        simp only [List.mem_append, List.mem_singleton, Prod.mk.injEq]
        constructor
        · rintro (rfl | ⟨own, field, held, listed⟩)
          · exact ⟨parted, property, value, .inr ⟨rfl, rfl⟩⟩
          · exact ⟨own, field, held, .inl listed⟩
        · rintro ⟨own, field, held, listed | ⟨same, -⟩⟩
          · exact .inr ⟨own, field, held, listed⟩
          · exact .inl (own.joinedColumnName_inj parted same).1
      ordered := by
        intro navigation
        rw [fieldsOf_setField]
        split_ifs
        · exact Members.ordered_insert (covers.ordered navigation) property value
        · exact covers.ordered navigation
      fields := by
        intro navigation own field held
        rw [fieldsOf_setField, List.mem_append, List.mem_singleton, Prod.mk.injEq,
          ← covers.fields navigation own]
        split_ifs with same
        · subst same
          have later : ∀ held, (property, held) ∉ fieldsOf navigation folding.joined := by
            intro held listed
            have among := (covers.fields navigation own property held).mp listed
            exact fresh (List.mem_map.mpr ⟨_, among, rfl⟩)
          rw [Members.mem_insert (covers.ordered navigation), Prod.mk.injEq, or_comm]
          refine or_congr ⟨And.left, fun listed => ⟨listed, ?_⟩⟩ (and_congr_left fun _ => ?_)
          · rintro rfl
            exact later held listed
          · exact ⟨fun equal => by rw [equal], fun equal => (own.joinedColumnName_inj own equal).2⟩
        · have apart : joinedColumnName navigation field ≠ joinedColumnName owner property :=
            fun equal => same (own.joinedColumnName_inj parted equal).1
          simp [apart] }

theorem Covers.visit (covers : folding.Covers visited) {column : String × Json}
    (fresh : column.1 ∉ visited.map (·.1)) :
    (folding.visit column).Covers (visited ++ [column]) := by
  rcases column with ⟨name, value⟩
  cases split : splitColumnName? name with
  | none => exact covers.visit_plain fresh split value
  | some parts =>
      rcases splitColumnName?_eq_some.mp split with ⟨rfl, parted⟩
      exact covers.visit_joined fresh parted value

theorem Covers.foldl (covers : folding.Covers visited) {rest : List (String × Json)}
    (distinct : ((visited ++ rest).map (·.1)).Nodup) :
    (rest.foldl Folding.visit folding).Covers (visited ++ rest) := by
  induction rest generalizing folding visited with
  | nil => simpa using covers
  | cons column rest induction =>
      have fresh : column.1 ∉ visited.map (·.1) := by
        rw [List.map_append, List.map_cons, List.nodup_middle, List.nodup_cons] at distinct
        exact fun listed => distinct.1 (List.mem_append_left _ listed)
      rw [← List.singleton_append, ← List.append_assoc] at distinct ⊢
      exact induction (covers.visit fresh) distinct

theorem covers_of_perm {row : Row} (ordered : Members.Ordered row)
    {visited : List (String × Json)} (order : visited.Perm row) :
    (visited.foldl Folding.visit ⟨[], []⟩).Covers visited := by
  have distinct : (visited.map (·.1)).Nodup := (order.map _).nodup_iff.mpr ordered.nodup_names
  simpa using covers_nil.foldl distinct

/-! The navigations are set over the columns without a separator. -/

theorem fieldsOf_of_mem {joined : List (String × Members)}
    (distinct : (joined.map (·.1)).Nodup) {table : String × Members} (listed : table ∈ joined) :
    fieldsOf table.1 joined = table.2 := by
  induction joined with
  | nil => cases listed
  | cons first joined induction =>
      rw [List.map_cons, List.nodup_cons] at distinct
      rcases List.mem_cons.mp listed with rfl | later
      · simp [fieldsOf]
      · have other : first.1 ≠ table.1 := fun same =>
          distinct.1 (same ▸ List.mem_map_of_mem later)
        rw [fieldsOf, if_neg other, induction distinct.2 later]

theorem merged_eq (folding : Folding) :
    folding.merged = folding.plain.insertAll
      (folding.joined.map fun table => (table.1, foldedValue table.2)) := by
  rw [merged, Members.insertAll, List.foldl_map]

theorem Covers.ordered_merged (covers : folding.Covers visited) : folding.merged.Ordered := by
  rw [merged_eq]
  exact Members.ordered_insertAll covers.plainOrdered _

theorem Covers.mem_merged (covers : folding.Covers visited) {name : String} {value : Json} :
    (name, value) ∈ folding.merged ↔
      (name ∈ folding.names ∧ value = foldedValue (fieldsOf name folding.joined)) ∨
      (name ∉ folding.names ∧ (name, value) ∈ folding.plain) := by
  have named : (folding.joined.map fun table => (table.1, foldedValue table.2)).map (·.1) =
      folding.names := by
    rw [List.map_map]
    rfl
  have coherent := Members.coherent_of_nodup (named.symm ▸ covers.distinct)
  rw [merged_eq, Members.mem_insertAll covers.plainOrdered coherent, named, and_comm (b := _ ∉ _)]
  refine or_congr_left ?_
  rw [List.mem_map]
  constructor
  · rintro ⟨table, listed, same⟩
    cases same
    exact ⟨List.mem_map_of_mem listed, by rw [fieldsOf_of_mem covers.distinct listed]⟩
  · rintro ⟨listed, rfl⟩
    rcases List.mem_map.mp listed with ⟨table, among, rfl⟩
    exact ⟨table, among, by rw [fieldsOf_of_mem covers.distinct among]⟩

end Folding

/-! The row as a whole. -/

namespace Row

variable {row : Row}

theorem joinedValue_eq (row : Row) (navigation : String) :
    row.joinedValue navigation = foldedValue (row.joinedColumns navigation) :=
  rfl

/-- Whatever the order of the columns, folding them one after the other folds the row. -/
theorem foldVisiting_eq_fold (ordered : Members.Ordered row) {visited : List (String × Json)}
    (order : visited.Perm row) : foldVisiting visited = row.fold := by
  have covers := Folding.covers_of_perm ordered order
  rcases fold_eq ordered with ⟨held, shape, heldOrdered, holds⟩
  rw [shape, foldVisiting]
  refine congrArg Json.object (covers.ordered_merged.eq heldOrdered ?_)
  rintro ⟨name, value⟩
  generalize visited.foldl Folding.visit ⟨[], []⟩ = folding at covers ⊢
  have named : name ∈ folding.names ↔ name ∈ row.navigations := by
    rw [covers.names, mem_navigations]
    simp only [order.mem_iff]
  rw [covers.mem_merged, holds, named, covers.plain, mem_plainColumns, order.mem_iff]
  refine or_congr_left (and_congr_right fun listed => ?_)
  have parted := (mem_navigations.mp listed).1
  have same : fieldsOf name folding.joined = row.joinedColumns name := by
    refine (covers.ordered name).eq (Members.ordered_ofList _) ?_
    rintro ⟨field, held⟩
    rw [covers.fields name parted, mem_joinedColumns ordered parted, order.mem_iff]
  rw [same, joinedValue_eq]

/-- A column of the row belongs to the navigation. -/
def Joins (row : Row) (navigation : String) : Prop :=
  ∃ column ∈ row, ∃ field, FirstSplit column.1 navigation field

/-- All columns of the navigation are null. -/
def Unmatched (row : Row) (navigation : String) : Prop :=
  ∀ field value, (navigation ++ "__" ++ field, value) ∈ row → value = .null

/-- The value of a column is among these members, or among those of its navigation. -/
inductive Shown (held : Members) (name : String) (value : Json) : Prop where
  | plain (whole : ¬ HasSeparator name) (listed : (name, value) ∈ held)
  | joined {navigation field : String} {fields : Members}
      (split : FirstSplit name navigation field) (set : (navigation, .object fields) ∈ held)
      (listed : (field, value) ∈ fields)

/-- The members are those that the row is to be folded to. -/
structure FoldsTo (row : Row) (held : Members) : Prop where
  ordered : held.Ordered
  names : ∀ name, name ∈ held.map (·.1) ↔
    (name ∈ row.map (·.1) ∧ ¬ HasSeparator name) ∨ row.Joins name
  unmatched : ∀ navigation, row.Joins navigation → row.Unmatched navigation →
    (navigation, .null) ∈ held
  matched : ∀ navigation, row.Joins navigation → ¬ row.Unmatched navigation →
    ∃ fields : Members, (navigation, .object fields) ∈ held ∧ fields.Ordered ∧
      ∀ field value, (field, value) ∈ fields ↔ (navigation ++ "__" ++ field, value) ∈ row
  plain : ∀ name value, ¬ row.Joins name →
    ((name, value) ∈ held ↔ (name, value) ∈ row ∧ ¬ HasSeparator name)
  lost : ∀ name value, (name, value) ∈ row → ¬ Shown held name value →
    (¬ HasSeparator name ∧ row.Joins name) ∨
    (value = .null ∧ ∃ navigation field, FirstSplit name navigation field ∧
      row.Unmatched navigation)

theorem joins_iff {navigation : String} : row.Joins navigation ↔ navigation ∈ row.navigations := by
  rw [mem_navigations]
  constructor
  · rintro ⟨⟨name, value⟩, listed, field, split⟩
    rcases splitColumnName?_eq_some.mp (splitColumnName?_eq_some_iff.mpr split) with ⟨rfl, parted⟩
    exact ⟨parted, field, value, listed⟩
  · rintro ⟨parted, field, value, listed⟩
    exact ⟨_, listed, field, splitColumnName?_eq_some_iff.mp (parted.split field)⟩

theorem joinedValue_of_unmatched (ordered : Members.Ordered row) {navigation : String}
    (joins : row.Joins navigation) (unmatched : row.Unmatched navigation) :
    row.joinedValue navigation = .null := by
  have parted := (mem_navigations.mp (joins_iff.mp joins)).1
  refine if_pos (List.all_eq_true.mpr ?_)
  rintro ⟨field, value⟩ listed
  cases unmatched field value ((mem_joinedColumns ordered parted).mp listed)
  rfl

theorem joinedValue_of_matched (ordered : Members.Ordered row) {navigation : String}
    (joins : row.Joins navigation) (matched : ¬ row.Unmatched navigation) :
    row.joinedValue navigation = .object (row.joinedColumns navigation) := by
  have parted := (mem_navigations.mp (joins_iff.mp joins)).1
  refine if_neg fun nulls => matched fun field value listed => ?_
  have null := List.all_eq_true.mp nulls _ ((mem_joinedColumns ordered parted).mpr listed)
  cases value <;> first | rfl | cases null

theorem foldsTo (ordered : Members.Ordered row) {held : Members} (heldOrdered : held.Ordered)
    (holds : ∀ name value, (name, value) ∈ held ↔
      (name ∈ row.navigations ∧ value = row.joinedValue name) ∨
      (name ∉ row.navigations ∧ (name, value) ∈ row.plainColumns)) :
    row.FoldsTo held := by
  have set : ∀ navigation, row.Joins navigation →
      (navigation, row.joinedValue navigation) ∈ held := fun navigation joins =>
    (holds _ _).mpr (.inl ⟨joins_iff.mp joins, rfl⟩)
  have plain : ∀ name value, ¬ row.Joins name →
      ((name, value) ∈ held ↔ (name, value) ∈ row ∧ ¬ HasSeparator name) := by
    intro name value alone
    rw [joins_iff] at alone
    rw [holds, mem_plainColumns, splitColumnName?_eq_none_iff]
    simp [alone]
  have matched : ∀ navigation, row.Joins navigation → ¬ row.Unmatched navigation →
      ∃ fields : Members, (navigation, .object fields) ∈ held ∧ fields.Ordered ∧
        ∀ field value, (field, value) ∈ fields ↔ (navigation ++ "__" ++ field, value) ∈ row := by
    intro navigation joins matched
    have parted := (mem_navigations.mp (joins_iff.mp joins)).1
    refine ⟨row.joinedColumns navigation, ?_, Members.ordered_ofList _, fun field value =>
      mem_joinedColumns ordered parted⟩
    exact joinedValue_of_matched ordered joins matched ▸ set navigation joins
  exact
    { ordered := heldOrdered
      names := by
        intro name
        by_cases joins : row.Joins name
        · simpa [joins] using ⟨_, set name joins⟩
        · simp [joins, plain]
      unmatched := fun navigation joins unmatched =>
        joinedValue_of_unmatched ordered joins unmatched ▸ set navigation joins
      matched := matched
      plain := plain
      lost := by
        intro name value listed hidden
        by_cases whole : HasSeparator name
        · rcases exists_firstSplit whole with ⟨navigation, field, split⟩
          have joins : row.Joins navigation := ⟨_, listed, field, split⟩
          rw [split.shape] at listed
          by_cases unmatched : row.Unmatched navigation
          · exact .inr ⟨unmatched field value listed, navigation, field, split, unmatched⟩
          · rcases matched navigation joins unmatched with ⟨fields, own, -, all⟩
            exact absurd (.joined split own ((all field value).mpr listed)) hidden
        · refine .inl ⟨whole, ?_⟩
          by_contra alone
          exact hidden (.plain whole ((plain name value alone).mpr ⟨listed, whole⟩)) }

/-- A row folds exactly, and in whatever order its columns are visited. -/
theorem fold_exact_in_any_order {row : Row} (ordered : Members.Ordered row) :
    ∃ held : Members, row.fold = .object held ∧ row.FoldsTo held ∧
      ∀ visited : List (String × Json), visited.Perm row → foldVisiting visited = row.fold := by
  rcases fold_eq ordered with ⟨held, shape, heldOrdered, holds⟩
  exact ⟨held, shape, foldsTo ordered heldOrdered holds, fun visited order =>
    foldVisiting_eq_fold ordered order⟩

/-- Names that start and end with underscores or hold several separators, columns that share
their names with navigations, and a navigation of nulls. -/
theorem fold_exact_in_any_order_of_eight :
    ∃ row : Row, row.map (·.1) = ["", "___a", "a", "a__", "a___b", "a__b__c", "b__c", "d"] ∧
      Members.Ordered row ∧ ∃ held : Members, row.fold = .object held ∧ row.FoldsTo held ∧
        ∀ visited : List (String × Json), visited.Perm row → foldVisiting visited = row.fold := by
  refine ⟨[("", .text "own"), ("___a", .integer 1), ("a", .text "own"), ("a__", .integer 2),
    ("a___b", .null), ("a__b__c", .integer 3), ("b__c", .null), ("d", .boolean true)], rfl, ?_, ?_⟩
  · rw [Members.Ordered]
    decide
  · exact fold_exact_in_any_order (by rw [Members.Ordered]; decide)

example : Row.fold [("", .text "own"), ("___a", .integer 1), ("a", .text "own"),
    ("a__", .integer 2), ("a___b", .null), ("a__b__c", .integer 3), ("b__c", .null),
    ("d", .boolean true)] =
    .object [("", .object [("_a", .integer 1)]),
      ("a", .object [("", .integer 2), ("_b", .null), ("b__c", .integer 3)]), ("b", .null),
      ("d", .boolean true)] := by
  rfl

end Row

end EntitySql
