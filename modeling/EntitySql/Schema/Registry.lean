import EntitySql.Schema.Entity

/-! Entities that were looked up before. A registry has a cell for each name that was looked
up, in the order of the first lookup. A cell holds its entity once it was built; a failed lookup
leaves the cell empty, to be tried again the next time. -/

namespace EntitySql

structure Registry where
  cells : List (String × Option Entity) := []
  distinct : (cells.map (·.1)).Nodup := by decide

namespace Registry

def empty : Registry := {}

/-- How many entities are remembered; empty cells do not count. -/
def size (registry : Registry) : Nat :=
  (registry.cells.filter (·.2.isSome)).length

def isEmpty (registry : Registry) : Bool :=
  registry.size == 0

def find? (registry : Registry) (name : String) : Option Entity :=
  (registry.cells.find? (·.1 == name)).bind (·.2)

/-- Sees to it that a name has a cell. -/
def reserve (registry : Registry) (name : String) : Registry :=
  if fresh : name ∉ registry.cells.map (·.1) then
    { cells := registry.cells ++ [(name, none)]
      distinct := by
        have apart : ∀ other ∈ registry.cells.map (·.1), other ≠ name :=
          fun other taken same => fresh (same ▸ taken)
        rw [List.map_append, List.nodup_append]
        exact ⟨registry.distinct, by simp, by simpa using apart⟩ }
  else
    registry

/-- Puts an entity into the cell of a name. -/
def fill (registry : Registry) (name : String) (entity : Entity) : Registry where
  cells := registry.cells.map fun cell =>
    (cell.1, if cell.1 == name then some entity else cell.2)
  distinct := by simpa [Function.comp_def] using registry.distinct

/-- Looks an entity up, building it only where its cell is empty. -/
def lookUp [Monad m] (registry : Registry) (name : String) (build : m (Except Error Entity)) :
    m (Except Error Entity × Registry) := do
  let reserved := registry.reserve name
  match reserved.find? name with
  | some entity => return (.ok entity, reserved)
  | none =>
      match ← build with
      | .ok entity => return (.ok entity, reserved.fill name entity)
      | .error error => return (.error error, reserved)

/-- A lookup whose builder is the catalog. -/
def query (registry : Registry) (catalog : Catalog) (name : String) :
    Except Error Entity × Registry :=
  Id.run (registry.lookUp name (pure (catalog.entity name)))

end Registry

end EntitySql
