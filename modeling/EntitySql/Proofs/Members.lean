import Mathlib.Data.List.Nodup
import Mathlib.Data.String.Basic
import EntitySql.Json.Basic

/-! Members of an object as a map. Whatever is set one after the other leaves the names in
their order, so that the members are told by what they hold. -/

namespace EntitySql

namespace Members

/-- Each name stands behind the names before it. -/
def Ordered (members : Members) : Prop :=
  members.Pairwise fun first second => first.1 < second.1

theorem Ordered.nodup_names {members : Members} (ordered : members.Ordered) :
    (members.map (·.1)).Nodup :=
  List.pairwise_map.mpr (ordered.imp ne_of_lt)

theorem Ordered.nodup {members : Members} (ordered : members.Ordered) : members.Nodup :=
  ordered.nodup_names.of_map

theorem Ordered.perm {members : Members} (ordered : members.Ordered)
    {entries : List (String × Json)} (distinct : (entries.map (·.1)).Nodup)
    (same : ∀ entry, entry ∈ members ↔ entry ∈ entries) : members.Perm entries :=
  (List.perm_ext_iff_of_nodup ordered.nodup distinct.of_map).mpr same

theorem Ordered.eq {members others : Members} (ordered : members.Ordered)
    (othersOrdered : others.Ordered) (same : ∀ entry, entry ∈ members ↔ entry ∈ others) :
    members = others :=
  (ordered.perm othersOrdered.nodup_names same).eq_of_pairwise
    (fun _ _ _ _ before behind => absurd before (lt_asymm behind)) ordered othersOrdered

/-! Setting one member. -/

theorem mem_of_mem_insert {members : Members} {name : String} {value : Json}
    {entry : String × Json} (listed : entry ∈ members.insert name value) :
    entry = (name, value) ∨ entry ∈ members := by
  induction members with
  | nil => exact .inl (List.mem_singleton.mp listed)
  | cons member members induction =>
      rw [insert] at listed
      split_ifs at listed
      · exact (List.mem_cons.mp listed).imp_right (List.mem_cons_of_mem _)
      · exact List.mem_cons.mp listed
      · rcases List.mem_cons.mp listed with rfl | later
        · exact .inr List.mem_cons_self
        · exact (induction later).imp_right (List.mem_cons_of_mem _)

theorem ordered_insert {members : Members} (ordered : members.Ordered) (name : String)
    (value : Json) : (members.insert name value).Ordered := by
  induction members with
  | nil => exact List.pairwise_singleton _ _
  | cons member members induction =>
      rcases List.pairwise_cons.mp ordered with ⟨first, rest⟩
      rw [insert]
      split_ifs with equal before
      · exact List.pairwise_cons.mpr ⟨equal ▸ first, rest⟩
      · refine List.pairwise_cons.mpr ⟨?_, ordered⟩
        intro entry listed
        rcases List.mem_cons.mp listed with rfl | later
        · exact before
        · exact before.trans (first entry later)
      · refine List.pairwise_cons.mpr ⟨?_, induction rest⟩
        intro entry listed
        rcases mem_of_mem_insert listed with rfl | later
        · exact (lt_or_gt_of_ne equal).resolve_left before
        · exact first entry later

/-- The member that is set takes the place of another of its name. -/
theorem mem_insert {members : Members} (ordered : members.Ordered) {name : String}
    {value : Json} {entry : String × Json} :
    entry ∈ members.insert name value ↔
      entry = (name, value) ∨ (entry ∈ members ∧ entry.1 ≠ name) := by
  induction members with
  | nil => simp [insert]
  | cons member members induction =>
      rcases List.pairwise_cons.mp ordered with ⟨first, rest⟩
      have behind : ∀ entry ∈ members, entry.1 ≠ member.1 := fun entry listed =>
        (first entry listed).ne'
      rw [insert]
      split_ifs with equal before
      · rw [List.mem_cons, List.mem_cons]
        constructor
        · rintro (rfl | later)
          · exact .inl rfl
          · exact .inr ⟨.inr later, equal ▸ behind entry later⟩
        · rintro (rfl | ⟨rfl | later, other⟩)
          · exact .inl rfl
          · exact absurd equal.symm other
          · exact .inr later
      · rw [List.mem_cons]
        refine or_congr_right ⟨fun listed => ⟨listed, ?_⟩, And.left⟩
        rcases List.mem_cons.mp listed with rfl | later
        · exact Ne.symm equal
        · exact (before.trans (first entry later)).ne'
      · rw [List.mem_cons, induction rest, List.mem_cons]
        constructor
        · rintro (rfl | rfl | ⟨later, other⟩)
          · exact .inr ⟨.inl rfl, Ne.symm equal⟩
          · exact .inl rfl
          · exact .inr ⟨.inr later, other⟩
        · rintro (rfl | ⟨rfl | later, other⟩)
          · exact .inr (.inl rfl)
          · exact .inl rfl
          · exact .inr (.inr ⟨later, other⟩)

/-! Setting several members, one after the other. -/

def insertAll (members : Members) (entries : List (String × Json)) : Members :=
  entries.foldl (fun built entry => built.insert entry.1 entry.2) members

theorem insertAll_cons (members : Members) (entry : String × Json)
    (entries : List (String × Json)) :
    members.insertAll (entry :: entries) =
      (members.insert entry.1 entry.2).insertAll entries :=
  rfl

theorem ordered_insertAll {members : Members} (ordered : members.Ordered)
    (entries : List (String × Json)) : (members.insertAll entries).Ordered := by
  induction entries generalizing members with
  | nil => exact ordered
  | cons entry entries induction => exact induction (ordered_insert ordered _ _)

theorem mem_of_mem_insertAll {members : Members} {entries : List (String × Json)}
    {entry : String × Json} (listed : entry ∈ members.insertAll entries) :
    entry ∈ entries ∨ entry ∈ members := by
  induction entries generalizing members with
  | nil => exact .inr listed
  | cons first entries induction =>
      rcases induction listed with later | listed
      · exact .inl (List.mem_cons_of_mem _ later)
      · rcases mem_of_mem_insert listed with rfl | listed
        · exact .inl List.mem_cons_self
        · exact .inr listed

/-- A name is set to one value only. -/
def Coherent (entries : List (String × Json)) : Prop :=
  ∀ entry ∈ entries, ∀ other ∈ entries, entry.1 = other.1 → entry = other

theorem coherent_of_nodup {entries : List (String × Json)}
    (distinct : (entries.map (·.1)).Nodup) : Coherent entries :=
  fun _ listed _ among same => List.inj_on_of_nodup_map distinct listed among same

/-- A name with the value it has in a table. -/
theorem coherent_map (names : List String) (value : String → Json) :
    Coherent (names.map fun name => (name, value name)) := by
  intro entry listed other among same
  rcases List.mem_map.mp listed with ⟨name, -, rfl⟩
  rcases List.mem_map.mp among with ⟨twin, -, rfl⟩
  cases (same : name = twin)
  rfl

theorem mem_insertAll {members : Members} (ordered : members.Ordered)
    {entries : List (String × Json)} (coherent : Coherent entries) {entry : String × Json} :
    entry ∈ members.insertAll entries ↔
      entry ∈ entries ∨ (entry ∈ members ∧ entry.1 ∉ entries.map (·.1)) := by
  induction entries generalizing members with
  | nil => simp [insertAll]
  | cons first entries induction =>
      have rest : Coherent entries := fun entry listed other among =>
        coherent entry (List.mem_cons_of_mem _ listed) other (List.mem_cons_of_mem _ among)
      rw [insertAll_cons, induction (ordered_insert ordered _ _) rest, mem_insert ordered,
        List.map_cons, List.mem_cons, List.mem_cons, not_or]
      constructor
      · rintro (later | ⟨rfl | ⟨listed, other⟩, absent⟩)
        · exact .inl (.inr later)
        · exact .inl (.inl rfl)
        · exact .inr ⟨listed, other, absent⟩
      · rintro ((rfl | later) | ⟨listed, other, absent⟩)
        · by_cases again : entry.1 ∈ entries.map (·.1)
          · rcases List.mem_map.mp again with ⟨twin, among, same⟩
            have equal := coherent twin (List.mem_cons_of_mem _ among) entry List.mem_cons_self same
            exact .inl (equal ▸ among)
          · exact .inr ⟨.inl rfl, again⟩
        · exact .inl later
        · exact .inr ⟨.inr ⟨listed, other⟩, absent⟩

/-! Members from a list. -/

theorem ordered_ofList (entries : List (String × Json)) : (ofList entries).Ordered :=
  ordered_insertAll .nil entries

theorem mem_of_mem_ofList {entries : List (String × Json)} {entry : String × Json}
    (listed : entry ∈ ofList entries) : entry ∈ entries :=
  (mem_of_mem_insertAll listed).resolve_right List.not_mem_nil

theorem mem_ofList {entries : List (String × Json)} (coherent : Coherent entries)
    {entry : String × Json} : entry ∈ ofList entries ↔ entry ∈ entries :=
  (mem_insertAll .nil coherent).trans (by simp)

end Members

end EntitySql
