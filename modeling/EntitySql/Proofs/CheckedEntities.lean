import EntitySql.Proofs.DialectAgreement
import EntitySql.Proofs.Success

/-! What the checks of a descriptor are good for. A descriptor is accepted if and only if it
keeps to a few rules. An entity that came out of it has an alias that needs no quotes, each of
its properties has one column, and so have its keys and its identity; whatever is built from
nothing but those never asks for a member that is not there. -/

namespace EntitySql

namespace Descriptor

/-- The rules that a descriptor has to keep to. -/
structure Valid (descriptor : Descriptor) : Prop where
  named : ∃ character ∈ descriptor.table.toList, isBlank character = false
  mapped : descriptor.fields ≠ []
  distinct : (descriptor.fields.map (·.property)).Nodup
  keys : ∀ property ∈ descriptor.keys ++ descriptor.identity?.toList,
    property ∈ descriptor.fields.map (·.property)
  aliasName : ∀ aliasName ∈ descriptor.aliasName?, isPlainIdentifier aliasName = true
  navigations : ∀ navigation ∈ descriptor.navigations, isPlainIdentifier navigation.name = true

theorem maps_iff {descriptor : Descriptor} {property : String} :
    descriptor.maps property = true ↔ property ∈ descriptor.fields.map (·.property) := by
  simp [maps]

theorem valid_of_fault?_eq_none {descriptor : Descriptor} (sound : descriptor.fault? = none) :
    descriptor.Valid where
  named := by simpa using (checked_of_fault?_eq_none sound).table
  mapped := (checked_of_fault?_eq_none sound).fields
  distinct := nodup_of_fault?_eq_none sound
  keys := by
    intro property listed
    have mapped := List.find?_eq_none.mp (checked_of_fault?_eq_none sound).keys property listed
    exact maps_iff.mp (by simpa using mapped)
  aliasName := fun _ declared => isPlainIdentifier_of_aliasName? sound declared
  navigations := isPlainIdentifier_navigation sound

theorem repeatedProperty?_eq_none {seen : List String} {fields : List Field}
    (apart : ∀ field ∈ fields, field.property ∉ seen)
    (distinct : (fields.map (·.property)).Nodup) : repeatedProperty? seen fields = none := by
  induction fields generalizing seen with
  | nil => rfl
  | cons field fields induction =>
      rcases List.nodup_cons.mp distinct with ⟨fresh, others⟩
      have unseen : ¬ seen.contains field.property = true := by
        simpa using apart field List.mem_cons_self
      rw [repeatedProperty?, if_neg unseen]
      refine induction (fun other listed again => ?_) others
      rcases List.mem_cons.mp again with same | again
      · exact fresh (List.mem_map.mpr ⟨other, listed, same⟩)
      · exact apart other (List.mem_cons_of_mem _ listed) again

theorem Valid.fault?_eq_none {descriptor : Descriptor} (valid : descriptor.Valid) :
    descriptor.fault? = none := by
  have named : ¬ descriptor.table.toList.all isBlank = true := by simpa using valid.named
  have mapped : ¬ descriptor.fields.isEmpty = true := by simpa using valid.mapped
  have unrepeated : repeatedProperty? [] descriptor.fields = none :=
    repeatedProperty?_eq_none (fun _ _ => List.not_mem_nil) valid.distinct
  have keys : descriptor.keyProperties.find? (!descriptor.maps ·) = none :=
    List.find?_eq_none.mpr fun property listed => by
      simpa using maps_iff.mpr (valid.keys property listed)
  have aliasName : descriptor.aliasName?.filter (!isPlainIdentifier ·) = none := by
    simpa [Option.filter_eq_none_iff] using valid.aliasName
  have navigations : descriptor.navigations.find? (!isPlainIdentifier ·.name) = none :=
    List.find?_eq_none.mpr fun navigation listed => by
      simpa using valid.navigations navigation listed
  simp only [fault?, named, mapped, unrepeated, keys, aliasName, navigations]
  rfl

variable {descriptor : Descriptor} {name : String}

theorem exists_build_iff :
    (∃ entity, descriptor.build name = .ok entity) ↔ descriptor.Valid := by
  unfold build
  constructor
  · rintro ⟨entity, built⟩
    split at built
    · cases built
    · next sound => exact valid_of_fault?_eq_none sound
  · intro valid
    rw [valid.fault?_eq_none]
    exact ⟨_, rfl⟩

/-- A descriptor by itself is a catalog. -/
theorem entity_singleton : (Catalog.mk [(name, descriptor)]).entity name = descriptor.build name := by
  simp [Catalog.entity, Catalog.descriptor]

end Descriptor

namespace Entity

/-- A property has the column of the one field that maps it. -/
theorem column_eq_ok_iff_count {entity : Entity}
    (distinct : (entity.fields.map (·.property)).Nodup) {property column : String} :
    entity.column property = .ok column ↔ entity.fields.count ⟨property, column⟩ = 1 := by
  have once : entity.fields.count ⟨property, column⟩ = 1 ↔
      ⟨property, column⟩ ∈ entity.fields := by
    constructor
    · intro counted
      exact List.count_pos_iff.mp (by omega)
    · exact fun listed => List.count_eq_one_of_mem (.of_map _ distinct) listed
  rw [once, Entity.column]
  constructor
  · intro found
    split at found
    · next field first =>
        cases found
        have same : field.property = property := by simpa using List.find?_some first
        exact same ▸ List.mem_of_find?_eq_some first
    · cases found
  · intro listed
    simp only [find?_property_of_mem distinct listed]

end Entity

namespace Build

theorem succeeds_output (base : String) : (output base).Succeeds :=
  fun draft => ⟨_, _, runFrom_output base draft⟩

/-- The build fails with such errors only. -/
def FailsAs (allowed : Error → Prop) (build : Build α) : Prop :=
  ∀ draft error later, build.runFrom draft = (.error error, later) → allowed error

variable {allowed : Error → Prop}

theorem failsAs_fail {error : Error} (given : allowed error) :
    (fail error : Build α).FailsAs allowed := by
  intro draft other later run
  cases run
  exact given

theorem Succeeds.failsAs {build : Build α} (succeeds : build.Succeeds) :
    build.FailsAs allowed := by
  intro draft error later run
  rcases succeeds draft with ⟨result, final, other⟩
  rw [run] at other
  cases other

theorem failsAs_pure (result : α) : (pure result : Build α).FailsAs allowed :=
  (succeeds_pure result).failsAs

theorem FailsAs.mono {narrow : Error → Prop} {build : Build α} (fails : build.FailsAs narrow)
    (wider : ∀ error, narrow error → allowed error) : build.FailsAs allowed :=
  fun draft error later run => wider error (fails draft error later run)

theorem FailsAs.bind {build : Build α} {next : α → Build β} (head : build.FailsAs allowed)
    (tail : ∀ value, (next value).FailsAs allowed) : (build >>= next).FailsAs allowed := by
  intro draft error later run
  rw [runFrom_bind] at run
  cases outcome : build.runFrom draft with
  | mk first middle =>
      rw [outcome] at run
      cases first with
      | error failed =>
          cases run
          exact head draft error later outcome
      | ok value => exact tail value middle error later run

theorem failsAs_lift_bind {found : Except Error α} {value : α} {next : α → Build β}
    (accepted : found = .ok value) (tail : (next value).FailsAs allowed) :
    (Build.lift found >>= next).FailsAs allowed := by
  subst accepted
  exact tail

end Build

/-! What is written from the properties of an entity alone. -/

namespace Entity

/-- Every property that the entity names itself, among its fields, as a key or as its identity,
has a column. -/
structure Closed (entity : Entity) : Prop where
  fields : ∀ field ∈ entity.fields, ∃ column, entity.column field.property = .ok column
  keys : ∀ property ∈ entity.keys ++ entity.identity?.toList,
    ∃ column, entity.column property = .ok column

theorem Closed.identityOrKey? {entity : Entity} (closed : entity.Closed) {property : String}
    (found : entity.identityOrKey? = some property) :
    ∃ column, entity.column property = .ok column :=
  closed.keys property (mem_of_identityOrKey? found)

end Entity

theorem Catalog.closed_of_entity {catalog : Catalog} {name : String} {entity : Entity}
    (accepted : catalog.entity name = .ok entity) : entity.Closed where
  fields := fun field listed => ⟨field.column, (sound_of_entity accepted).column field listed⟩
  keys := fun _ listed => exists_column_of_mem accepted listed

namespace Scope

open Build

variable (scope : Scope) {entity : Entity} (record : Record) (exclude : List String)

theorem exists_column {property : String}
    (mapped : ∃ column, entity.column property = .ok column) :
    ∃ fragment, scope.column entity property = .ok fragment := by
  rcases mapped with ⟨column, found⟩
  exact ⟨_, columnUnder_eq_ok.mpr ⟨column, found, rfl⟩⟩

theorem exists_fieldList (closed : entity.Closed) :
    ∃ columns, scope.fieldList entity = .ok columns := by
  have listed : ∃ columns, entity.fields.mapM (scope.selectedField entity) = .ok columns := by
    apply exists_mapM_eq_ok
    intro field listed
    rcases scope.exists_column (closed.fields field listed) with ⟨column, found⟩
    rw [selectedField, found]
    exact ⟨_, rfl⟩
  rcases listed with ⟨columns, selected⟩
  rw [fieldList, selected]
  exact ⟨_, rfl⟩

theorem succeeds_boundFields {fields : List Field}
    (mapped : ∀ field ∈ fields, ∃ column, entity.column field.property = .ok column) :
    (scope.boundFields entity record fields).Succeeds := by
  induction fields with
  | nil => exact succeeds_pure []
  | cons field fields induction =>
      rcases scope.exists_column (mapped field List.mem_cons_self) with ⟨column, found⟩
      have others := induction fun other listed => mapped other (List.mem_cons_of_mem _ listed)
      exact succeeds_lift_bind found ((succeeds_input _ _).bind fun _ =>
        others.bind fun _ => succeeds_pure _)

theorem failsAs_insertLists (closed : entity.Closed) :
    (scope.insertLists entity record exclude).FailsAs
      (· = .missingArgument .insertableField) := by
  have bound := scope.succeeds_boundFields record
    fun field (listed : field ∈ entity.insertableFields exclude) =>
      closed.fields field (List.mem_of_mem_filter listed)
  refine bound.failsAs.bind fun bound => ?_
  split
  · exact failsAs_fail rfl
  · exact failsAs_pure _

theorem failsAs_recordSetClause (closed : entity.Closed) :
    (scope.recordSetClause entity record exclude).FailsAs
      (· = .missingArgument .updatableField) := by
  have bound := scope.succeeds_boundFields record
    fun field (listed : field ∈ entity.updatableFields exclude) =>
      closed.fields field (List.mem_of_mem_filter listed)
  refine bound.failsAs.bind fun bound => ?_
  split
  · exact failsAs_fail rfl
  · exact failsAs_pure _

theorem failsAs_keyComparisons {keys : List String}
    (mapped : ∀ key ∈ keys, ∃ column, entity.column key = .ok column) :
    (scope.keyComparisons entity record keys).FailsAs
      (· = .missingArgument .primaryKeyValue) := by
  induction keys with
  | nil => exact failsAs_pure []
  | cons key keys induction =>
      rcases scope.exists_column (mapped key List.mem_cons_self) with ⟨column, found⟩
      have others := induction fun other listed => mapped other (List.mem_cons_of_mem _ listed)
      unfold keyComparisons
      dsimp only
      split
      · exact failsAs_fail rfl
      · exact failsAs_lift_bind found ((succeeds_input _ _).failsAs.bind fun _ =>
          others.bind fun _ => failsAs_pure _)

theorem failsAs_keyConditions (closed : entity.Closed) :
    (scope.keyConditions entity record).FailsAs
      fun error => error = .noPrimaryKey entity.table ∨
        error = .missingArgument .primaryKeyValue := by
  unfold keyConditions
  split
  · exact failsAs_fail (.inl rfl)
  · have compared := scope.failsAs_keyComparisons record fun key listed =>
      closed.keys key (List.mem_append_left _ listed)
    exact (compared.mono fun _ => .inr).bind fun _ => failsAs_pure _

end Scope

/-- An insert that tells the generated key fails for want of a field to fill or of a key. -/
theorem Query.failsAs_buildInsertIdentity {catalog : Catalog} {query : Query} {entity : Entity}
    (accepted : catalog.entity query.entity = .ok entity) (dialect : Dialect) (record : Record)
    (exclude : List String) :
    (query.buildInsertIdentity catalog dialect record exclude).FailsAs
      fun error => error = .missingArgument .insertableField ∨
        error = .noPrimaryKey entity.table := by
  have closed := Catalog.closed_of_entity accepted
  have lists := (Scope.unqualified catalog).failsAs_insertLists record exclude closed
  unfold buildInsertIdentity insertClauses
  simp only [bind_assoc, pure_bind]
  refine Build.failsAs_lift_bind accepted ((lists.mono fun _ => .inl).bind fun lists => ?_)
  cases found : entity.identityOrKey? with
  | none => exact Build.failsAs_fail (.inr rfl)
  | some property =>
      cases dialect with
      | mysql | sqlServer => exact Build.failsAs_pure _
      | oracle =>
          rcases (Scope.unqualified catalog).exists_column (closed.identityOrKey? found) with
            ⟨column, mapped⟩
          exact Build.failsAs_lift_bind mapped
            ((Build.succeeds_output _).failsAs.bind fun _ => Build.failsAs_pure _)

/-- A descriptor is accepted if and only if it is valid. The entity has a plain alias then, a
property has a column if and only if one field maps it there, and what is written from the
properties of the entity alone fails only where there is nothing to write: the list of its
fields and the order by its key never, an insert without a field to fill, an update without a
field to set, a condition without a key or without a value for one. -/
theorem Descriptor.build_establishes (descriptor : Descriptor) (name : String) :
    ((∃ entity, descriptor.build name = .ok entity) ↔ descriptor.Valid) ∧
    ∀ entity, descriptor.build name = .ok entity →
      isPlainIdentifier entity.aliasName = true ∧
      entity.fields = descriptor.fields ∧
      (∀ property column,
        entity.column property = .ok column ↔ entity.fields.count ⟨property, column⟩ = 1) ∧
      (∀ scope : Scope,
        (∃ columns, scope.fieldList entity = .ok columns) ∧
        ∀ record exclude,
          (scope.insertLists entity record exclude).FailsAs
            (· = .missingArgument .insertableField) ∧
          (scope.recordSetClause entity record exclude).FailsAs
            (· = .missingArgument .updatableField) ∧
          (scope.keyConditions entity record).FailsAs fun error =>
            error = .noPrimaryKey entity.table ∨ error = .missingArgument .primaryKeyValue) ∧
      ∀ (catalog : Catalog) (query : Query), catalog.entity query.entity = .ok entity →
        (∀ clauses : SelectClauses, clauses.entity = entity →
          ∃ ordering, clauses.withDefaultOrder (.aliased catalog) query =
            .ok { clauses with ordering }) ∧
        ∀ dialect record exclude,
          (query.buildInsertIdentity catalog dialect record exclude).FailsAs fun error =>
            error = .missingArgument .insertableField ∨ error = .noPrimaryKey entity.table := by
  refine ⟨exists_build_iff, ?_⟩
  intro entity built
  have accepted : (Catalog.mk [(name, descriptor)]).entity name = .ok entity :=
    entity_singleton.trans built
  have closed := Catalog.closed_of_entity accepted
  have valid : descriptor.Valid := exists_build_iff.mp ⟨entity, built⟩
  have fields : entity.fields = descriptor.fields := by
    simpa [Catalog.descriptor] using Catalog.fields_of_entity accepted
  refine ⟨Catalog.isPlainIdentifier_aliasName accepted, fields, ?_, ?_, ?_⟩
  · exact fun _ _ => Entity.column_eq_ok_iff_count (fields ▸ valid.distinct)
  · exact fun scope => ⟨scope.exists_fieldList closed, fun record exclude =>
      ⟨scope.failsAs_insertLists record exclude closed,
        scope.failsAs_recordSetClause record exclude closed,
        scope.failsAs_keyConditions record closed⟩⟩
  · intro catalog query listed
    refine ⟨?_, fun dialect record exclude =>
      query.failsAs_buildInsertIdentity listed dialect record exclude⟩
    rintro clauses rfl
    exact clauses.exists_withDefaultOrder listed query

/-- A table whose name holds letters that an alias cannot. -/
def Descriptor.streets : Descriptor :=
  { table := "Straßen 7"
    fields := [⟨"Id", "id"⟩, ⟨"Name", "name"⟩]
    keys := ["Id"]
    identity? := some "Id" }

theorem Descriptor.build_establishes_streets :
    ∃ entity, streets.build "Street" = .ok entity ∧ streets.Valid ∧
      entity.aliasName = "Stra_en_7" ∧ isPlainIdentifier entity.aliasName = true ∧
      (entity.column "Name" = .ok "name" ↔ entity.fields.count ⟨"Name", "name"⟩ = 1) ∧
      ∃ columns, (Scope.aliased ⟨[("Street", streets)]⟩).fieldList entity = .ok columns := by
  rcases streets.build_establishes "Street" with ⟨valid, established⟩
  rcases established _ rfl with ⟨plain, -, column, written, -⟩
  exact ⟨_, rfl, valid.mp ⟨_, rfl⟩, rfl, plain, column "Name" "name", (written _).1⟩

end EntitySql
