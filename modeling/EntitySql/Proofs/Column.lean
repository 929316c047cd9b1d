import EntitySql.Proofs.FreshName
import EntitySql.Proofs.Legible
import EntitySql.Query
import EntitySql.Sql.Scope

/-! Columns as a statement names them: the quoted name of the column, after the
unquoted alias of its table where columns are qualified. The alias of an entity
that passed its checks is a plain identifier, so that it needs no quotes. -/

namespace EntitySql

structure ColumnReference where
  qualifier? : Option String := none
  name : String
  deriving DecidableEq, Repr

namespace ColumnReference

def fragment (reference : ColumnReference) : Fragment :=
  match reference.qualifier? with
  | some aliasName => [.word aliasName, .symbol .dot, .identifier reference.name]
  | none => [.identifier reference.name]

@[simp] theorem placeholders_fragment (reference : ColumnReference) :
    reference.fragment.placeholders = [] := by
  rcases reference with ⟨_ | aliasName, name⟩ <;> rfl

theorem legible_fragment {reference : ColumnReference}
    (plain : ∀ aliasName ∈ reference.qualifier?, isPlainIdentifier aliasName = true) :
    reference.fragment.Legible := by
  rcases reference with ⟨_ | aliasName, name⟩
  · exact Fragment.legible_singleton.mpr trivial
  · exact (Fragment.legible_cons_cons rfl).mpr
      ⟨proper_word_of_isPlainIdentifier (plain aliasName rfl),
        Fragment.legible_singleton.mpr trivial⟩

theorem bare_fragment {reference : ColumnReference}
    (plain : ∀ aliasName ∈ reference.qualifier?, isPlainIdentifier aliasName = true) :
    reference.fragment.Bare :=
  ⟨legible_fragment plain, reference.placeholders_fragment⟩

end ColumnReference

/-- A catalog of one entity, to show statements at work. -/
def Catalog.people : Catalog :=
  { descriptors :=
      [("Person",
        { table := "people"
          fields := [⟨"Id", "id"⟩, ⟨"Name", "full]name"⟩, ⟨"Age", "Age"⟩]
          keys := ["Id"] })] }

/-- The people under an age, and an update that puts them past it. -/
def Query.minors : Query :=
  { entity := "Person"
    filters := [.comparison .less (.column "Person" "Age") (.constant (.int 18))] }

def Expr.comeOfAge : Expr :=
  .record "Person" [("Age", .constant (.int 18))]

/-! Entities that passed their checks. -/

namespace Descriptor

/-- What the checks of an entity ask for, one after the other. -/
structure Checked (descriptor : Descriptor) : Prop where
  table : descriptor.table.toList.all isBlank = false
  fields : descriptor.fields ≠ []
  unrepeated : repeatedProperty? [] descriptor.fields = none
  keys : descriptor.keyProperties.find? (!descriptor.maps ·) = none
  aliasName : descriptor.aliasName?.filter (!isPlainIdentifier ·) = none
  navigations : descriptor.navigations.find? (!isPlainIdentifier ·.name) = none

theorem checked_of_fault?_eq_none {descriptor : Descriptor} (sound : descriptor.fault? = none) :
    descriptor.Checked := by
  unfold fault? at sound
  split_ifs at sound with blank bare
  split at sound
  · cases sound
  · next unrepeated =>
      split at sound
      · cases sound
      · next keys =>
          split at sound
          · cases sound
          · next aliasName =>
              exact
                { table := by simpa using blank
                  fields := by simpa using bare
                  unrepeated := Option.eq_none_iff_forall_ne_some.mpr unrepeated
                  keys := Option.eq_none_iff_forall_ne_some.mpr keys
                  aliasName := Option.eq_none_iff_forall_ne_some.mpr aliasName
                  navigations := Option.map_eq_none_iff.mp sound }

/-- Only a blank table name has no character to make an alias of. -/
theorem named_of_fault?_eq_none {descriptor : Descriptor} (sound : descriptor.fault? = none) :
    descriptor.table.toList ≠ [] := by
  intro empty
  have named := (checked_of_fault?_eq_none sound).table
  simp [empty] at named

theorem isPlainIdentifier_of_aliasName? {descriptor : Descriptor} {aliasName : String}
    (sound : descriptor.fault? = none) (declared : descriptor.aliasName? = some aliasName) :
    isPlainIdentifier aliasName = true := by
  have proper := (checked_of_fault?_eq_none sound).aliasName
  simpa [declared] using proper

theorem isPlainIdentifier_aliasName {descriptor : Descriptor}
    (sound : descriptor.fault? = none) : isPlainIdentifier descriptor.aliasName = true := by
  cases declared : descriptor.aliasName? with
  | some aliasName =>
      rw [Descriptor.aliasName, declared]
      exact isPlainIdentifier_of_aliasName? sound declared
  | none =>
      rw [Descriptor.aliasName, declared]
      exact isPlainIdentifier_aliasOfTable (named_of_fault?_eq_none sound)

theorem isPlainIdentifier_navigation {descriptor : Descriptor}
    (sound : descriptor.fault? = none) :
    ∀ navigation ∈ descriptor.navigations, isPlainIdentifier navigation.name = true := by
  simpa using (checked_of_fault?_eq_none sound).navigations

end Descriptor

namespace Catalog

/-- An accepted entity is what its descriptor says, and that has no fault. -/
theorem entity_eq_ok {catalog : Catalog} {name : String} {entity : Entity} :
    catalog.entity name = .ok entity ↔
      (catalog.descriptor name).fault? = none ∧
      entity =
        { name
          table := (catalog.descriptor name).table
          aliasName := (catalog.descriptor name).aliasName
          fields := (catalog.descriptor name).fields
          keys := (catalog.descriptor name).keys
          identity? := (catalog.descriptor name).identity?
          navigations := (catalog.descriptor name).navigations } := by
  unfold Catalog.entity Descriptor.build
  split
  · next fault found => simp [found]
  · next sound => simp [sound, eq_comm]

theorem fields_of_entity {catalog : Catalog} {name : String} {entity : Entity}
    (accepted : catalog.entity name = .ok entity) :
    entity.fields = (catalog.descriptor name).fields := by
  rcases entity_eq_ok.mp accepted with ⟨-, rfl⟩
  rfl

theorem fields_ne_nil_of_entity {catalog : Catalog} {name : String} {entity : Entity}
    (accepted : catalog.entity name = .ok entity) : entity.fields ≠ [] := by
  rcases entity_eq_ok.mp accepted with ⟨sound, rfl⟩
  exact (Descriptor.checked_of_fault?_eq_none sound).fields

theorem isPlainIdentifier_aliasName {catalog : Catalog} {name : String} {entity : Entity}
    (accepted : catalog.entity name = .ok entity) :
    isPlainIdentifier entity.aliasName = true := by
  rcases entity_eq_ok.mp accepted with ⟨sound, rfl⟩
  exact Descriptor.isPlainIdentifier_aliasName sound

def Maps (catalog : Catalog) (path : MemberPath) : Prop :=
  ∃ entity column, catalog.entity path.entity = .ok entity ∧
    entity.column path.member = .ok column

end Catalog

namespace Scope

/-- Aliases that joins lend are plain identifiers here. -/
def PlainJoin (scope : Scope) : Prop :=
  ∀ join ∈ scope.join?, isPlainIdentifier join.aliasName = true

theorem plainJoin_aliased (catalog : Catalog) : (aliased catalog).PlainJoin :=
  fun _ member => absurd member (Option.not_mem_none _)

theorem plainJoin_unqualified (catalog : Catalog) : (unqualified catalog).PlainJoin :=
  fun _ member => absurd member (Option.not_mem_none _)

theorem plainJoin_ofJoin (catalog : Catalog) {join : JoinView}
    (plain : isPlainIdentifier join.aliasName = true) : (ofJoin catalog join).PlainJoin := by
  intro other member
  cases Option.some.inj member
  exact plain

def qualifierUnder (scope : Scope) (aliasName : String) : Option String :=
  if scope.qualified then some aliasName else none

theorem columnUnder_eq_ok {scope : Scope} {aliasName property : String} {entity : Entity}
    {column : Fragment} :
    scope.columnUnder aliasName entity property = .ok column ↔
      ∃ name, entity.column property = .ok name ∧
        column = ColumnReference.fragment ⟨scope.qualifierUnder aliasName, name⟩ := by
  unfold columnUnder qualifierUnder
  cases entity.column property with
  | error error => simp [bind, Except.bind]
  | ok name =>
      cases scope.qualified <;>
        simp [bind, Except.bind, pure, Except.pure, ColumnReference.fragment, eq_comm]

/-- What a member reads as here. -/
def reference? (scope : Scope) (path : MemberPath) : Option ColumnReference :=
  match scope.catalog.entity path.entity with
  | .ok entity =>
      (entity.column path.member).toOption.map fun name =>
        { qualifier? := scope.qualifierUnder
            ((scope.joinedAlias? path.entity).getD entity.aliasName)
          name }
  | .error _ => none

theorem member_eq_ok {scope : Scope} {path : MemberPath} {column : Fragment} :
    scope.member path = .ok column ↔
      ∃ reference, scope.reference? path = some reference ∧ column = reference.fragment := by
  unfold member reference?
  cases scope.catalog.entity path.entity with
  | error error => simp [bind, Except.bind]
  | ok entity =>
      have under : ∀ aliasName, scope.columnUnder aliasName entity path.member = .ok column ↔
          ∃ reference, ((entity.column path.member).toOption.map fun name =>
            ColumnReference.mk (scope.qualifierUnder aliasName) name) = some reference ∧
              column = reference.fragment := by
        intro aliasName
        rw [columnUnder_eq_ok]
        cases entity.column path.member <;> simp [Except.toOption]
      cases scope.joinedAlias? path.entity with
      | some aliasName => exact under aliasName
      | none => exact under entity.aliasName

theorem maps_of_reference? {scope : Scope} {path : MemberPath} {reference : ColumnReference}
    (found : scope.reference? path = some reference) : scope.catalog.Maps path := by
  unfold reference? at found
  split at found
  · next entity accepted =>
      cases column : entity.column path.member with
      | error error => simp [column, Except.toOption] at found
      | ok name => exact ⟨entity, name, accepted, column⟩
  · cases found

theorem plain_of_reference? {scope : Scope} (joins : scope.PlainJoin) {path : MemberPath}
    {reference : ColumnReference} (found : scope.reference? path = some reference) :
    ∀ aliasName ∈ reference.qualifier?, isPlainIdentifier aliasName = true := by
  unfold reference? at found
  split at found
  · next entity accepted =>
      rcases Option.map_eq_some_iff.mp found with ⟨name, -, rfl⟩
      intro aliasName qualifies
      rcases Option.ite_none_right_eq_some.mp qualifies with ⟨-, written⟩
      cases Option.some.inj written
      cases joined : scope.joinedAlias? path.entity with
      | none => exact Catalog.isPlainIdentifier_aliasName accepted
      | some lent =>
          unfold joinedAlias? at joined
          split at joined
          · next join inScope =>
              rcases Option.ite_none_right_eq_some.mp joined with ⟨-, lends⟩
              exact Option.some.inj lends ▸ joins join inScope
          · cases joined
  · cases found

end Scope

end EntitySql
