import EntitySql.Error
import EntitySql.Text.Blank
import EntitySql.Text.Identifier

/-! Mappings of entities to tables. A descriptor is a mapping as it is written
down; an entity is a descriptor that passed every check, with its alias settled.
A catalog holds the descriptors by entity name. -/

namespace EntitySql

inductive JoinKind where
  | inner
  | left
  | right
  deriving DecidableEq, Repr

/-- A join to another entity, and whether the joined columns are selected too. -/
structure Navigation where
  name : String
  target : String
  kind : JoinKind
  condition : Expr
  withFields : Bool := true

structure Field where
  property : String
  column : String
  deriving DecidableEq, Repr

structure Descriptor where
  table : String := ""
  aliasName? : Option String := none
  fields : List Field := []
  keys : List String := []
  identity? : Option String := none
  navigations : List Navigation := []

structure Entity where
  name : String
  table : String
  aliasName : String
  fields : List Field
  keys : List String
  identity? : Option String
  navigations : List Navigation

namespace Descriptor

/-- The first property that is mapped a second time. -/
def repeatedProperty? : (seen : List String) → List Field → Option String
  | _, [] => none
  | seen, field :: rest =>
      if seen.contains field.property then
        some field.property
      else
        repeatedProperty? (field.property :: seen) rest

def maps (descriptor : Descriptor) (property : String) : Bool :=
  descriptor.fields.any (·.property == property)

/-- The keys and then the identity. -/
def keyProperties (descriptor : Descriptor) : List String :=
  descriptor.keys ++ descriptor.identity?.toList

def fault? (descriptor : Descriptor) : Option MappingFault :=
  if descriptor.table.toList.all isBlank then
    some .noTable
  else if descriptor.fields.isEmpty then
    some .noFields
  else if let some property := repeatedProperty? [] descriptor.fields then
    some (.repeatedField property)
  else if let some property := descriptor.keyProperties.find? (!descriptor.maps ·) then
    some (.unmappedKey property)
  else if let some aliasName := descriptor.aliasName?.filter (!isPlainIdentifier ·) then
    some (.improperAlias aliasName)
  else
    (descriptor.navigations.find? (!isPlainIdentifier ·.name)).map
      (.improperNavigation ·.name)

def aliasName (descriptor : Descriptor) : String :=
  descriptor.aliasName?.getD (aliasOfTable descriptor.table)

/-- The entity described, under the name it is referred to by. -/
def build (descriptor : Descriptor) (name : String) : Except Error Entity :=
  match descriptor.fault? with
  | some fault => .error (.noMapping name fault)
  | none =>
      .ok
        { name
          table := descriptor.table
          aliasName := descriptor.aliasName
          fields := descriptor.fields
          keys := descriptor.keys
          identity? := descriptor.identity?
          navigations := descriptor.navigations }

end Descriptor

namespace Entity

def hasField (entity : Entity) (property : String) : Bool :=
  entity.fields.any (·.property == property)

def column (entity : Entity) (property : String) : Except Error String :=
  match entity.fields.find? (·.property == property) with
  | some field => .ok field.column
  | none => .error (.unknownMember entity.table property)

def isKey (entity : Entity) (property : String) : Bool :=
  entity.keys.contains property

def isIdentity (entity : Entity) (property : String) : Bool :=
  entity.identity? == some property

/-- The property whose generated value an insert can return. -/
def identityOrKey? (entity : Entity) : Option String :=
  entity.identity? <|> entity.keys.head?

end Entity

/-! Looking an entity up builds it anew; a name without a descriptor has the
empty one, which maps nothing. -/

structure Catalog where
  descriptors : List (String × Descriptor)

namespace Catalog

def descriptor (catalog : Catalog) (name : String) : Descriptor :=
  ((catalog.descriptors.find? (·.1 == name)).map (·.2)).getD {}

def entity (catalog : Catalog) (name : String) : Except Error Entity :=
  (catalog.descriptor name).build name

end Catalog

end EntitySql
