import Mathlib.Data.Finset.Card
import Mathlib.Data.List.Nodup
import EntitySql.Schema.Registry

/-! Lookups in any order against a registry that starts out empty. A lookup comes to what
building the entity comes to, whatever was looked up before; and where building it again would
come to something else, the entity that was built first stays. -/

namespace EntitySql

namespace Registry

variable (registry : Registry) (name other : String)

/-! One lookup, by what the registry finds before it and after it. -/

theorem find?_empty : empty.find? name = none := rfl

theorem find?_reserve : (registry.reserve name).find? other = registry.find? other := by
  unfold reserve find?
  split
  · rw [List.find?_append]
    cases registry.cells.find? (·.1 == other) with
    | some _ => rfl
    | none =>
        rw [Option.none_or, List.find?_singleton]
        split <;> rfl
  · rfl

theorem exists_cell_reserve : ∃ cell ∈ (registry.reserve name).cells, cell.1 = name := by
  unfold reserve
  split
  · exact ⟨(name, none), by simp, rfl⟩
  · next taken => simpa using taken

theorem find?_fill (entity : Entity) (reserved : ∃ cell ∈ registry.cells, cell.1 = name) :
    (registry.fill name entity).find? other =
      if name = other then some entity else registry.find? other := by
  have found : (registry.fill name entity).find? other =
      (registry.cells.find? (·.1 == other)).bind
        fun cell => if cell.1 == name then some entity else cell.2 := by
    simp only [find?, fill, List.find?_map, Function.comp_def, Option.bind_map]
  rw [found, find?]
  cases first : registry.cells.find? (·.1 == other) with
  | none =>
      have apart : name ≠ other := by
        rcases reserved with ⟨taken, member, rfl⟩
        simpa using List.find?_eq_none.mp first taken member
      rw [if_neg apart, Option.bind_none, Option.bind_none]
  | some cell =>
      have same : cell.1 = other := by simpa using List.find?_some first
      simp only [Option.bind_some, same, beq_iff_eq, @eq_comm _ other]

/-- A name is found in one of the cells, since no other cell is its. -/
theorem isSome_find?_iff :
    (registry.find? name).isSome ↔ ∃ cell ∈ registry.cells, cell.1 = name ∧ cell.2.isSome := by
  unfold find?
  constructor
  · intro found
    rcases Option.isSome_iff_exists.mp found with ⟨entity, held⟩
    rcases Option.bind_eq_some_iff.mp held with ⟨cell, first, content⟩
    exact ⟨cell, List.mem_of_find?_eq_some first, by simpa using List.find?_some first,
      by rw [content]; rfl⟩
  · rintro ⟨cell, member, named, filled⟩
    cases first : registry.cells.find? (·.1 == name) with
    | none => exact absurd named (by simpa using List.find?_eq_none.mp first cell member)
    | some found =>
        have same : found = cell :=
          List.inj_on_of_nodup_map registry.distinct (List.mem_of_find?_eq_some first) member
            (by simpa [named] using List.find?_some first)
        rwa [Option.bind_some, same]

/-- The remembered entities are as many as the names that are found. -/
theorem size_eq_card {names : Finset String}
    (found : ∀ name, name ∈ names ↔ (registry.find? name).isSome) :
    registry.size = names.card := by
  have distinct : ((registry.cells.filter (·.2.isSome)).map (·.1)).Nodup :=
    registry.distinct.sublist (List.filter_sublist.map _)
  have filled : ((registry.cells.filter (·.2.isSome)).map (·.1)).toFinset = names := by
    ext name
    rw [found, isSome_find?_iff, List.mem_toFinset, List.mem_map]
    exact exists_congr fun cell => by rw [List.mem_filter, and_assoc, and_comm (b := cell.1 = name)]
  rw [← filled, List.toFinset_card_of_nodup distinct, List.length_map, size]

end Registry

/-- A lookup of a name, and what building its entity would come to at that time. -/
structure Lookup where
  name : String
  outcome : Except Error Entity

namespace Lookup

/-- Building the entity, which is written down. -/
def build (lookup : Lookup) : StateM (List Lookup) (Except Error Entity) := do
  modify (· ++ [lookup])
  return lookup.outcome

/-- The entity of the first lookup of a name whose build would succeed. -/
def firstBuilt? (lookups : List Lookup) (name : String) : Option Entity :=
  lookups.findSome? fun lookup => if lookup.name = name then lookup.outcome.toOption else none

theorem firstBuilt?_concat (lookups : List Lookup) (lookup : Lookup) (name : String) :
    firstBuilt? (lookups ++ [lookup]) name =
      (firstBuilt? lookups name).or
        (if lookup.name = name then lookup.outcome.toOption else none) := by
  rw [firstBuilt?, List.findSome?_append, List.findSome?_singleton, firstBuilt?]

end Lookup

/-- What lookups leave behind: their answers, the builds that were made for them, and the
registry. -/
structure Trace where
  answers : List (Except Error Entity) := []
  builds : List Lookup := []
  registry : Registry := .empty

namespace Trace

def next (trace : Trace) (lookup : Lookup) : Trace :=
  let ((answer, registry), builds) :=
    (trace.registry.lookUp lookup.name lookup.build).run trace.builds
  ⟨trace.answers ++ [answer], builds, registry⟩

/-- Lookups one after another, none of them remembered at first. -/
def of (lookups : List Lookup) : Trace :=
  lookups.foldl next {}

theorem of_concat (lookups : List Lookup) (lookup : Lookup) :
    of (lookups ++ [lookup]) = (of lookups).next lookup :=
  List.foldl_concat ..

/-! The three ways a lookup can go. -/

section

variable {trace : Trace} {lookup : Lookup} {entity : Entity} {error : Error}

theorem next_of_found (found : trace.registry.find? lookup.name = some entity) :
    trace.next lookup =
      ⟨trace.answers ++ [.ok entity], trace.builds, trace.registry.reserve lookup.name⟩ := by
  simp only [next, Registry.lookUp, Registry.find?_reserve, found]
  rfl

theorem next_of_failed (missing : trace.registry.find? lookup.name = none)
    (failed : lookup.outcome = .error error) :
    trace.next lookup =
      ⟨trace.answers ++ [.error error], trace.builds ++ [lookup],
        trace.registry.reserve lookup.name⟩ := by
  simp only [next, Registry.lookUp, Registry.find?_reserve, missing, Lookup.build, failed]
  rfl

theorem next_of_built (missing : trace.registry.find? lookup.name = none)
    (built : lookup.outcome = .ok entity) :
    trace.next lookup =
      ⟨trace.answers ++ [.ok entity], trace.builds ++ [lookup],
        (trace.registry.reserve lookup.name).fill lookup.name entity⟩ := by
  simp only [next, Registry.lookUp, Registry.find?_reserve, missing, Lookup.build, built]
  rfl

end

variable (trace : Trace) (lookup : Lookup) (name : String)

theorem answers_next :
    (trace.next lookup).answers =
      trace.answers ++ [(trace.registry.find? lookup.name).elim lookup.outcome .ok] := by
  cases found : trace.registry.find? lookup.name with
  | some entity => rw [next_of_found found, Option.elim_some]
  | none =>
      cases outcome : lookup.outcome with
      | error error => rw [next_of_failed found outcome, Option.elim_none]
      | ok entity => rw [next_of_built found outcome, Option.elim_none]

theorem builds_next :
    (trace.next lookup).builds =
      trace.builds ++ if (trace.registry.find? lookup.name).isSome then [] else [lookup] := by
  cases found : trace.registry.find? lookup.name with
  | some entity => simp [next_of_found found]
  | none =>
      cases outcome : lookup.outcome with
      | error error => simp [next_of_failed found outcome]
      | ok entity => simp [next_of_built found outcome]

theorem find?_next :
    (trace.next lookup).registry.find? name =
      (trace.registry.find? name).or
        (if lookup.name = name then lookup.outcome.toOption else none) := by
  cases found : trace.registry.find? lookup.name with
  | some entity =>
      rw [next_of_found found, Registry.find?_reserve]
      split
      · next same => rw [← same, found, Option.some_or]
      · rw [Option.or_none]
  | none =>
      cases outcome : lookup.outcome with
      | error error =>
          rw [next_of_failed found outcome, Registry.find?_reserve]
          simp [Except.toOption]
      | ok entity =>
          rw [next_of_built found outcome,
            Registry.find?_fill _ _ _ _ (Registry.exists_cell_reserve ..), Registry.find?_reserve]
          split
          · next same => rw [← same, found]; rfl
          · rw [Option.or_none]

/-! Whole sequences, by induction on the lookups made so far. -/

theorem find?_of (lookups : List Lookup) :
    (of lookups).registry.find? name = Lookup.firstBuilt? lookups name := by
  induction lookups using List.reverseRecOn with
  | nil => rfl
  | append_singleton lookups lookup earlier =>
      rw [of_concat, find?_next, earlier, Lookup.firstBuilt?_concat]

theorem answers_of_concat (earlier : List Lookup) :
    (of (earlier ++ [lookup])).answers =
      (of earlier).answers ++
        [(Lookup.firstBuilt? earlier lookup.name).elim lookup.outcome .ok] := by
  rw [of_concat, answers_next, find?_of]

theorem builds_of_concat (earlier : List Lookup) :
    (of (earlier ++ [lookup])).builds =
      (of earlier).builds ++
        if (Lookup.firstBuilt? earlier lookup.name).isSome then [] else [lookup] := by
  rw [of_concat, builds_next, find?_of]

end Trace

/-! Lookups of names whose mappings stay as they are. -/

namespace Catalog

/-- A lookup that builds by the mapping in the catalog. -/
def lookup (catalog : Catalog) (name : String) : Lookup :=
  ⟨name, catalog.entity name⟩

variable (catalog : Catalog)

theorem firstBuilt?_map_lookup (names : List String) (name : String) :
    Lookup.firstBuilt? (names.map catalog.lookup) name =
      if name ∈ names then (catalog.entity name).toOption else none := by
  induction names using List.reverseRecOn with
  | nil => rfl
  | append_singleton names last earlier =>
      rw [List.map_append, List.map_singleton, Lookup.firstBuilt?_concat, earlier]
      by_cases same : last = name
      · subst same
        by_cases seen : last ∈ names <;> simp [seen, lookup]
      · have apart : name ≠ last := fun equal => same equal.symm
        simp [same, apart, lookup]

end Catalog

namespace Registry

/-- The answers to names that are looked up one after another, and the registry left behind. -/
def queryAll (registry : Registry) (catalog : Catalog) :
    List String → List (Except Error Entity) × Registry
  | [] => ([], registry)
  | name :: names =>
      let (answer, after) := registry.query catalog name
      let (answers, last) := after.queryAll catalog names
      (answer :: answers, last)

end Registry

namespace Trace

variable (catalog : Catalog)

/-- Writing the builds down changes nothing else. -/
theorem next_lookup (trace : Trace) (name : String) :
    (trace.next (catalog.lookup name)).answers =
        trace.answers ++ [(trace.registry.query catalog name).1] ∧
      (trace.next (catalog.lookup name)).registry = (trace.registry.query catalog name).2 := by
  have named : (catalog.lookup name).name = name := rfl
  have outcome : (catalog.lookup name).outcome = catalog.entity name := rfl
  unfold Registry.query Registry.lookUp
  dsimp only
  rw [Registry.find?_reserve]
  cases found : trace.registry.find? name with
  | some entity =>
      rw [next_of_found (named ▸ found)]
      exact ⟨rfl, rfl⟩
  | none =>
      cases built : catalog.entity name with
      | error error =>
          rw [next_of_failed (named ▸ found) (outcome.trans built)]
          exact ⟨rfl, rfl⟩
      | ok entity =>
          rw [next_of_built (named ▸ found) (outcome.trans built)]
          exact ⟨rfl, rfl⟩

theorem foldl_next_lookup (names : List String) (trace : Trace) :
    ((names.map catalog.lookup).foldl next trace).answers =
        trace.answers ++ (trace.registry.queryAll catalog names).1 ∧
      ((names.map catalog.lookup).foldl next trace).registry =
        (trace.registry.queryAll catalog names).2 := by
  induction names generalizing trace with
  | nil => exact ⟨(List.append_nil _).symm, rfl⟩
  | cons name names rest =>
      rcases next_lookup catalog trace name with ⟨answers, registry⟩
      rcases rest (trace.next (catalog.lookup name)) with ⟨later, last⟩
      rw [answers, registry, List.append_assoc] at later
      rw [registry] at last
      exact ⟨later, last⟩

theorem queryAll_empty (names : List String) :
    Registry.empty.queryAll catalog names =
      ((of (names.map catalog.lookup)).answers, (of (names.map catalog.lookup)).registry) := by
  rcases foldl_next_lookup catalog names {} with ⟨answers, registry⟩
  exact Prod.ext answers.symm registry.symm

theorem answers_of_map_lookup (names : List String) :
    (of (names.map catalog.lookup)).answers = names.map catalog.entity := by
  induction names using List.reverseRecOn with
  | nil => rfl
  | append_singleton names last earlier =>
      rw [List.map_append, List.map_singleton, answers_of_concat, earlier, List.map_append,
        List.map_singleton, Catalog.firstBuilt?_map_lookup]
      cases built : catalog.entity last <;> by_cases seen : last ∈ names <;>
        simp [seen, built, Catalog.lookup, Except.toOption]

/-- What is built is built once; what cannot be built is tried each time. -/
theorem countP_builds_of_map_lookup (names : List String) (name : String) :
    (of (names.map catalog.lookup)).builds.countP (·.name == name) =
      if (catalog.entity name).isOk then min 1 (names.count name) else names.count name := by
  induction names using List.reverseRecOn with
  | nil => simp [of]
  | append_singleton names last earlier =>
      rw [List.map_append, List.map_singleton, builds_of_concat, List.countP_append, earlier,
        List.count_append, Catalog.firstBuilt?_map_lookup]
      by_cases same : last = name
      · subst same
        cases built : catalog.entity last <;> by_cases seen : last ∈ names <;>
          simp [seen, built, Catalog.lookup, Except.toOption, Except.isOk, Except.toBool,
            List.count_eq_zero]
      · rw [apply_ite (List.countP _)]
        simp [Catalog.lookup, same]

theorem size_of_map_lookup (names : List String) :
    (of (names.map catalog.lookup)).registry.size =
      (names.filter fun name => (catalog.entity name).isOk).toFinset.card := by
  refine Registry.size_eq_card _ fun name => ?_
  rw [find?_of, Catalog.firstBuilt?_map_lookup, List.mem_toFinset, List.mem_filter]
  cases built : catalog.entity name <;> by_cases seen : name ∈ names <;>
    simp [seen, Except.toOption, Except.isOk, Except.toBool]

end Trace

/-- A registry that starts out empty is transparent: names are answered by their mappings, however
often and in whatever order they are looked up. An entity is built once, a failure is found anew
each time, and the entities counted are those that some lookup came to. The entity of a name is
the one built first, even if building it again would come to another one. -/
theorem Registry.lookups_transparent (catalog : Catalog) (names : List String) :
    (Registry.empty.queryAll catalog names).1 = names.map catalog.entity ∧
    Registry.empty.queryAll catalog names =
      ((Trace.of (names.map catalog.lookup)).answers,
        (Trace.of (names.map catalog.lookup)).registry) ∧
    (∀ name, (Trace.of (names.map catalog.lookup)).builds.countP (·.name == name) =
      if (catalog.entity name).isOk then min 1 (names.count name) else names.count name) ∧
    (Registry.empty.queryAll catalog names).2.size =
      (names.filter fun name => (catalog.entity name).isOk).toFinset.card ∧
    ∀ earlier lookup,
      (Trace.of (earlier ++ [lookup])).answers =
          (Trace.of earlier).answers ++
            [(Lookup.firstBuilt? earlier lookup.name).elim lookup.outcome .ok] ∧
        (Trace.of (earlier ++ [lookup])).builds =
          (Trace.of earlier).builds ++
            if (Lookup.firstBuilt? earlier lookup.name).isSome then [] else [lookup] := by
  have traced := Trace.queryAll_empty catalog names
  refine ⟨?_, traced, Trace.countP_builds_of_map_lookup catalog names, ?_, ?_⟩
  · rw [traced]
    exact Trace.answers_of_map_lookup catalog names
  · rw [traced]
    exact Trace.size_of_map_lookup catalog names
  · exact fun earlier lookup =>
      ⟨Trace.answers_of_concat lookup earlier, Trace.builds_of_concat lookup earlier⟩

end EntitySql
