import EntitySql.Proofs.ScriptText

/-! Records as statements bind them. Every field of an entity that passed its checks has
a column of its own, and the value of its property is bound right when the column is
written, so that the two stay together whatever names the parameters get. -/

namespace EntitySql

/-! Entities that passed their checks. -/

namespace Descriptor

theorem nodup_of_repeatedProperty?_eq_none {seen : List String} {fields : List Field}
    (none : repeatedProperty? seen fields = none) :
    (∀ field ∈ fields, field.property ∉ seen) ∧ (fields.map (·.property)).Nodup := by
  induction fields generalizing seen with
  | nil => simp
  | cons field fields induction =>
      rw [repeatedProperty?] at none
      split at none
      · cases none
      · next fresh =>
          rcases induction none with ⟨others, nodup⟩
          simp only [List.mem_cons, not_or] at others
          refine ⟨?_, ?_⟩
          · intro other listed
            rcases List.mem_cons.mp listed with rfl | listed
            · simpa using fresh
            · exact (others other listed).2
          · refine List.nodup_cons.mpr ⟨?_, nodup⟩
            intro twice
            rcases List.mem_map.mp twice with ⟨other, listed, same⟩
            exact (others other listed).1 same

theorem nodup_of_fault?_eq_none {descriptor : Descriptor} (sound : descriptor.fault? = none) :
    (descriptor.fields.map (·.property)).Nodup :=
  (nodup_of_repeatedProperty?_eq_none (checked_of_fault?_eq_none sound).unrepeated).2

theorem maps_of_mem_keys {descriptor : Descriptor} (sound : descriptor.fault? = none) :
    ∀ key ∈ descriptor.keys, ∃ field ∈ descriptor.fields, field.property = key := by
  intro key listed
  have mapped := List.find?_eq_none.mp (checked_of_fault?_eq_none sound).keys key
    (List.mem_append_left _ listed)
  simpa [maps] using mapped

end Descriptor

/-- Of fields with different properties, each is the one that its property finds. -/
theorem find?_property_of_mem {fields : List Field} (nodup : (fields.map (·.property)).Nodup)
    {field : Field} (listed : field ∈ fields) :
    fields.find? (·.property == field.property) = some field := by
  induction fields with
  | nil => cases listed
  | cons first rest induction =>
      rw [List.map_cons, List.nodup_cons] at nodup
      rcases List.mem_cons.mp listed with rfl | listed
      · simp
      · have different : first.property ≠ field.property := by
          intro same
          exact nodup.1 (same ▸ List.mem_map_of_mem listed)
        rw [List.find?_cons_of_neg (by simpa using different)]
        exact induction nodup.2 listed

namespace Entity

/-- The fields of the keys, in the order of the keys. -/
def keyFields (entity : Entity) : List Field :=
  entity.keys.filterMap fun key => entity.fields.find? (·.property == key)

/-- The entity maps each property to one column, and its keys among them. -/
structure Sound (entity : Entity) : Prop where
  column : ∀ field ∈ entity.fields, entity.column field.property = .ok field.column
  keys : entity.keyFields.map (·.property) = entity.keys

theorem keyFields_subset (entity : Entity) : entity.keyFields ⊆ entity.fields := by
  intro field listed
  rcases List.mem_filterMap.mp listed with ⟨key, -, found⟩
  exact List.mem_of_find?_eq_some found

theorem map_property_filterMap_find? {fields : List Field} {keys : List String}
    (mapped : ∀ key ∈ keys, ∃ field ∈ fields, field.property = key) :
    (keys.filterMap fun key => fields.find? (·.property == key)).map (·.property) = keys := by
  induction keys with
  | nil => rfl
  | cons key keys induction =>
      have others := induction fun other listed => mapped other (List.mem_cons_of_mem _ listed)
      rcases mapped key List.mem_cons_self with ⟨field, listed, named⟩
      have some' : (fields.find? (·.property == key)).isSome := by
        rw [List.find?_isSome]
        exact ⟨field, listed, by simpa using named⟩
      rcases Option.isSome_iff_exists.mp some' with ⟨found, isFound⟩
      have same : found.property = key := by simpa using List.find?_some isFound
      simp [isFound, same, others]

end Entity

theorem Catalog.sound_of_entity {catalog : Catalog} {name : String} {entity : Entity}
    (accepted : catalog.entity name = .ok entity) : entity.Sound := by
  rcases entity_eq_ok.mp accepted with ⟨sound, rfl⟩
  refine ⟨?_, ?_⟩
  · intro field listed
    have found := find?_property_of_mem (Descriptor.nodup_of_fault?_eq_none sound) listed
    simp only [Entity.column, found]
  · exact Entity.map_property_filterMap_find? (Descriptor.maps_of_mem_keys sound)

/-! What a build for a record leaves. -/

theorem Params.extends_add (params : Params) (base : String) (value : Value) :
    (params.add base value).2.Extends params :=
  List.prefix_append _ _

/-- The column is that of the field, and the placeholder stands for what the record has
as the property of the field. -/
structure Scope.BoundField.Stores (bound : BoundField) (bag : Params) (record : Record)
    (field : Field) : Prop where
  column : bound.column = [.identifier field.column]
  placeholder : ∃ name, bound.placeholder = [.placeholder name] ∧
    bag.get? name = some (record.value field.property)

/-- The condition that the column of a field holds the value of a record. -/
def Field.equals (record : Record) (field : Field) : Formula :=
  .comparison .equal (.column { name := field.column })
    (.constant (record.value field.property))

namespace Scope

variable (catalog : Catalog) {entity : Entity} (record : Record) (sound : entity.Sound)

include sound

theorem runFrom_boundFields {fields : List Field} (listed : fields ⊆ entity.fields)
    (draft : Draft) :
    ∃ bound later,
      ((unqualified catalog).boundFields entity record fields).runFrom draft =
        (.ok bound, later) ∧
      later.params.Extends draft.params ∧
      ∀ bag : Params, bag.Extends later.params →
        List.Forall₂ (fun each field => each.Stores bag record field) bound fields := by
  induction fields generalizing draft with
  | nil => exact ⟨[], draft, rfl, draft.params.extends_refl, fun _ _ => .nil⟩
  | cons field fields induction =>
      have column := sound.column field (listed List.mem_cons_self)
      let base := field.property
      let value := record.value field.property
      let next : Draft := { draft with params := (draft.params.add base value).2 }
      rcases induction (fun _ other => listed (List.mem_cons_of_mem _ other)) next with
        ⟨bound, later, run, grown, stores⟩
      refine ⟨⟨[.identifier field.column], [.placeholder (draft.params.nameFor base)]⟩ :: bound,
        later, ?_, grown.trans (draft.params.extends_add base value), ?_⟩
      · simp only [boundFields, Build.runFrom_bind_eq_ok, Build.runFrom_pure_eq_ok,
          Build.runFrom_lift_eq_ok]
        refine ⟨_, draft, ⟨?_, rfl⟩, _, next, rfl, bound, later, run, rfl, rfl⟩
        exact columnUnder_eq_ok.mpr ⟨field.column, column, rfl⟩
      · intro bag further
        refine .cons ⟨rfl, _, rfl, ?_⟩ (stores bag further)
        exact Params.get?_of_extends_add (further.trans grown)

theorem runFrom_keyComparisons {fields : List Field} (listed : fields ⊆ entity.fields)
    (given : ∀ field ∈ fields, (record.value field.property).isNull = false) (draft : Draft) :
    ∃ fragments later,
      ((unqualified catalog).keyComparisons entity record (fields.map (·.property))).runFrom
        draft = (.ok fragments, later) ∧
      later.params.Extends draft.params ∧
      ∀ bag : Params, bag.Extends later.params →
        List.Forall₂ (fun fragment field =>
          Reads bag .test (Fragment.squeezed fragment) (field.equals record))
          fragments fields := by
  induction fields generalizing draft with
  | nil => exact ⟨[], draft, rfl, draft.params.extends_refl, fun _ _ => .nil⟩
  | cons field fields induction =>
      have column := sound.column field (listed List.mem_cons_self)
      have some' := given field List.mem_cons_self
      let base := field.property
      let value := record.value field.property
      let next : Draft := { draft with params := (draft.params.add base value).2 }
      rcases induction (fun _ other => listed (List.mem_cons_of_mem _ other))
        (fun other rest => given other (List.mem_cons_of_mem _ rest)) next with
        ⟨fragments, later, run, grown, reads⟩
      let placeholder : Fragment := [.placeholder (draft.params.nameFor base)]
      refine ⟨Fragment.joined [.identifier field.column] .equal placeholder :: fragments,
        later, ?_, grown.trans (draft.params.extends_add base value), ?_⟩
      · simp only [List.map_cons, keyComparisons, some', Bool.false_eq_true, if_false,
          Build.runFrom_bind_eq_ok, Build.runFrom_pure_eq_ok, Build.runFrom_lift_eq_ok]
        refine ⟨_, draft, ⟨?_, rfl⟩, placeholder, next, rfl, fragments, later, run, rfl, rfl⟩
        exact columnUnder_eq_ok.mpr ⟨field.column, column, rfl⟩
      · intro bag further
        refine .cons ?_ (reads bag further)
        have bound := Params.get?_of_extends_add (further.trans grown)
        rw [Fragment.squeezed_joined]
        exact reads_comparison .equal
          (reads_sum_of_primary (reads_column bag { name := field.column }))
          (reads_sum_of_primary (reads_placeholder bound))

/-- A key without a value is refused wherever it stands. -/
theorem runFrom_keyComparisons_of_isNull {fields : List Field}
    (listed : fields ⊆ entity.fields)
    (absent : ∃ field ∈ fields, (record.value field.property).isNull = true) (draft : Draft) :
    ∃ later,
      ((unqualified catalog).keyComparisons entity record (fields.map (·.property))).runFrom
        draft = (.error (.missingArgument .primaryKeyValue), later) := by
  induction fields generalizing draft with
  | nil => simp at absent
  | cons field fields induction =>
      rw [List.map_cons, keyComparisons]
      cases null : (record.value field.property).isNull with
      | true => exact ⟨draft, by simp [Build.runFrom_bind]⟩
      | false =>
          have rest : ∃ other ∈ fields, (record.value other.property).isNull = true := by
            simpa [null] using absent
          have column : (unqualified catalog).column entity field.property =
              .ok [.identifier field.column] :=
            columnUnder_eq_ok.mpr
              ⟨field.column, sound.column field (listed List.mem_cons_self), rfl⟩
          rcases induction (fun _ other => listed (List.mem_cons_of_mem _ other)) rest
            { draft with
              params := (draft.params.add field.property (record.value field.property)).2 } with
            ⟨later, run⟩
          refine ⟨later, ?_⟩
          simp only [Bool.false_eq_true, if_false, Build.runFrom_bind, Build.runFrom_lift,
            column, Build.runFrom_input, run]

end Scope

end EntitySql
