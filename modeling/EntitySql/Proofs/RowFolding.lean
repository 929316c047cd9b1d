import EntitySql.Execution.Row
import EntitySql.Proofs.Members

/-! Folding a row. A column name is parted at the first separator in it, so that what stands
before never reaches into one; a folded row holds the columns that are not parted and, over
them, what the others are parted to. -/

namespace EntitySql

/-! Parting a column name. -/

theorem splitAtSeparator?_cons {character : Char} {text : List Char}
    (further : ¬ (character = '_' ∧ text.head? = some '_')) :
    splitAtSeparator? (character :: text) =
      (splitAtSeparator? text).map fun parts => (character :: parts.1, parts.2) := by
  rw [splitAtSeparator?]
  rintro rest rfl rfl
  exact further ⟨rfl, rfl⟩

theorem no_separator_of_eq_none {character : Char} {text : List Char}
    (none' : splitAtSeparator? (character :: text) = none) :
    ¬ (character = '_' ∧ text.head? = some '_') := by
  rintro ⟨rfl, head⟩
  rcases List.head?_eq_some_iff.mp head with ⟨rest, rfl⟩
  rw [splitAtSeparator?] at none'
  cases none'

theorem head?_append_underscore (before rest : List Char) :
    (before ++ '_' :: rest).head? = (before ++ ['_']).head? := by
  cases before <;> rfl

theorem splitAtSeparator?_append {before : List Char}
    (clear : splitAtSeparator? (before ++ ['_']) = none) (after : List Char) :
    splitAtSeparator? (before ++ '_' :: '_' :: after) = some (before, after) := by
  induction before with
  | nil => rfl
  | cons character before induction =>
      rw [List.cons_append] at clear
      have further := no_separator_of_eq_none clear
      rw [splitAtSeparator?_cons further, Option.map_eq_none_iff] at clear
      rw [List.cons_append, splitAtSeparator?_cons, induction clear]
      · rfl
      · rwa [head?_append_underscore]

theorem shape_of_splitAtSeparator? {text before after : List Char}
    (parted : splitAtSeparator? text = some (before, after)) :
    text = before ++ '_' :: '_' :: after ∧ splitAtSeparator? (before ++ ['_']) = none := by
  induction text generalizing before with
  | nil => cases parted
  | cons character text induction =>
      by_cases here : character = '_' ∧ text.head? = some '_'
      · rcases here with ⟨rfl, head⟩
        rcases List.head?_eq_some_iff.mp head with ⟨rest, rfl⟩
        rw [splitAtSeparator?] at parted
        cases parted
        exact ⟨rfl, rfl⟩
      · rw [splitAtSeparator?_cons here] at parted
        rcases Option.map_eq_some_iff.mp parted with ⟨⟨inner, rest⟩, found, same⟩
        cases same
        rcases induction found with ⟨rfl, clear⟩
        rw [head?_append_underscore] at here
        exact ⟨rfl, by rw [List.cons_append, splitAtSeparator?_cons here, clear]; rfl⟩

/-- The name of a navigation that is found again in the names of its columns. -/
def Parted (navigation : String) : Prop :=
  splitColumnName? (navigation ++ "_") = none

instance (navigation : String) : Decidable (Parted navigation) :=
  inferInstanceAs (Decidable (_ = none))

theorem splitColumnName?_eq_some {name navigation property : String} :
    splitColumnName? name = some (navigation, property) ↔
      name = joinedColumnName navigation property ∧ Parted navigation := by
  rw [splitColumnName?, Option.map_eq_some_iff, Parted, splitColumnName?, Option.map_eq_none_iff,
    String.toList_append]
  constructor
  · rintro ⟨⟨before, after⟩, found, same⟩
    cases same
    rcases shape_of_splitAtSeparator? found with ⟨shape, clear⟩
    refine ⟨?_, by simpa using clear⟩
    rw [← String.toList_inj, shape]
    simp [joinedColumnName, navigationSeparator]
  · rintro ⟨rfl, clear⟩
    refine ⟨(navigation.toList, property.toList), ?_, by simp⟩
    simpa [joinedColumnName, navigationSeparator] using
      splitAtSeparator?_append clear property.toList

theorem Parted.split {navigation : String} (parted : Parted navigation) (property : String) :
    splitColumnName? (joinedColumnName navigation property) = some (navigation, property) :=
  splitColumnName?_eq_some.mpr ⟨rfl, parted⟩

/-- Such names tell their columns apart. -/
theorem Parted.joinedColumnName_inj {navigation other property further : String}
    (parted : Parted navigation) (otherParted : Parted other)
    (same : joinedColumnName navigation property = joinedColumnName other further) :
    navigation = other ∧ property = further := by
  have split := parted.split property
  rw [same, otherParted.split] at split
  exact ⟨(Prod.mk.inj (Option.some.inj split)).1.symm, (Prod.mk.inj (Option.some.inj split)).2.symm⟩

/-- Such a name holds no separator of its own. -/
theorem Parted.splitColumnName?_eq_none {navigation : String} (parted : Parted navigation) :
    splitColumnName? navigation = none := by
  cases found : splitColumnName? navigation with
  | none => rfl
  | some parts =>
      rcases splitColumnName?_eq_some.mp found with ⟨shape, owner⟩
      have further : navigation ++ "_" = joinedColumnName parts.1 (parts.2 ++ "_") := by
        rw [joinedColumnName, ← String.append_assoc]
        exact congrArg (· ++ "_") shape
      rw [Parted, further, Parted.split owner] at parted
      cases parted

namespace Row

variable {row : Row}

theorem mem_navigations {navigation : String} :
    navigation ∈ row.navigations ↔
      Parted navigation ∧
        ∃ property value, (joinedColumnName navigation property, value) ∈ row := by
  rw [navigations, List.mem_eraseDups, List.mem_filterMap]
  constructor
  · rintro ⟨⟨name, value⟩, listed, found⟩
    rcases Option.map_eq_some_iff.mp found with ⟨⟨owner, property⟩, split, rfl⟩
    rcases splitColumnName?_eq_some.mp split with ⟨rfl, parted⟩
    exact ⟨parted, property, value, listed⟩
  · rintro ⟨parted, property, value, listed⟩
    exact ⟨_, listed, by simp [parted.split property]⟩

theorem mem_plainColumns {entry : String × Json} :
    entry ∈ row.plainColumns ↔ entry ∈ row ∧ splitColumnName? entry.1 = none := by
  rw [plainColumns, List.mem_filter, Option.isNone_iff_eq_none]

theorem ordered_plainColumns (ordered : Members.Ordered row) :
    Members.Ordered row.plainColumns :=
  List.Pairwise.filter _ ordered

theorem mem_joinedColumns (ordered : Members.Ordered row) {navigation : String}
    (parted : Parted navigation) {property : String} {value : Json} :
    (property, value) ∈ row.joinedColumns navigation ↔
      (joinedColumnName navigation property, value) ∈ row := by
  rw [joinedColumns]
  generalize shown : List.filterMap _ row = columns
  have gathered : ∀ entry : String × Json,
      entry ∈ columns ↔ (joinedColumnName navigation entry.1, entry.2) ∈ row := by
    rintro ⟨property, value⟩
    rw [← shown, List.mem_filterMap]
    constructor
    · rintro ⟨⟨name, value⟩, listed, found⟩
      dsimp only at found
      split at found
      · next owner property split =>
          split_ifs at found with same
          cases found
          rw [← same, ← (splitColumnName?_eq_some.mp split).1]
          exact listed
      · cases found
    · exact fun listed => ⟨_, listed, by simp [parted.split property]⟩
  rw [Members.mem_ofList, gathered]
  rintro ⟨first, held⟩ listed ⟨second, other⟩ among same
  cases same
  have equal := Members.coherent_of_nodup ordered.nodup_names _ ((gathered _).mp listed) _
    ((gathered _).mp among) rfl
  cases equal
  rfl

/-- What a folded row holds. -/
theorem fold_eq (ordered : Members.Ordered row) :
    ∃ held : Members, row.fold = .object held ∧ held.Ordered ∧
      ∀ name value, (name, value) ∈ held ↔
        (name ∈ row.navigations ∧ value = row.joinedValue name) ∨
        (name ∉ row.navigations ∧ (name, value) ∈ row.plainColumns) := by
  have shape : row.fold = .object (Members.insertAll row.plainColumns
      (row.navigations.map fun navigation => (navigation, row.joinedValue navigation))) := by
    rw [fold, Members.insertAll, List.foldl_map]
  have coherent := Members.coherent_map row.navigations row.joinedValue
  refine ⟨_, shape, Members.ordered_insertAll (ordered_plainColumns ordered) _, ?_⟩
  intro name value
  rw [Members.mem_insertAll (ordered_plainColumns ordered) coherent, List.map_map]
  refine or_congr ?_ ?_
  · rw [List.mem_map]
    constructor
    · rintro ⟨navigation, listed, same⟩
      cases same
      exact ⟨listed, rfl⟩
    · rintro ⟨listed, rfl⟩
      exact ⟨name, listed, rfl⟩
  · simp [Function.comp_def, and_comm]

end Row

end EntitySql
