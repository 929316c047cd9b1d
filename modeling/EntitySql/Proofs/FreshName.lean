import Mathlib.Data.List.Nodup
import Mathlib.Data.List.Perm.Subperm
import EntitySql.Text.FreshName

/-! Names that clash with no earlier one: the name found is free, it is the wanted
name or the variant of it with the least number that is free, and it is a plain
identifier where the wanted name is one. -/

namespace EntitySql

/-! Digits are word characters, and case does not touch them. -/

theorem isWordCharacter_of_isDigit {character : Char} (digit : character.isDigit = true) :
    isWordCharacter character = true := by
  simp [isWordCharacter, Char.isAlphanum, digit]

theorem toLower_of_isDigit {character : Char} (digit : character.isDigit = true) :
    character.toLower = character := by
  have range := Char.isDigit_iff_toNat.mp digit
  have nine : '9'.toNat < 'A'.toNat := by decide
  unfold Char.toLower
  split
  · next upper =>
      have atLeastA := UInt32.le_iff_toNat_le.mp upper.1
      change 'A'.toNat ≤ character.toNat at atLeastA
      omega
  · rfl

theorem isDigit_of_mem_toDigits {number : Nat} {character : Char}
    (member : character ∈ Nat.toDigits 10 number) : character.isDigit = true :=
  Nat.isDigit_of_mem_toDigits (by decide) (by decide) member

theorem toDigits_injective : Function.Injective (Nat.toDigits 10) :=
  Function.LeftInverse.injective (g := fun digits => Nat.ofDigitChars 10 digits 0)
    fun _ => Nat.ofDigitChars_ten_toDigits

/-! Names are compared by their folded forms. -/

theorem sameIgnoringCase_iff {left right : String} :
    sameIgnoringCase left right = true ↔ foldCase left = foldCase right := by
  simp [sameIgnoringCase]

theorem sameIgnoringCase_self (name : String) : sameIgnoringCase name name = true :=
  sameIgnoringCase_iff.mpr rfl

theorem isTaken_iff {taken : List String} {name : String} :
    isTaken taken name = true ↔ foldCase name ∈ taken.map foldCase := by
  simp only [isTaken, List.any_eq_true, sameIgnoringCase_iff, List.mem_map]

theorem foldCase_numberedName (base : String) (number : Nat) :
    foldCase (numberedName base number) =
      foldCase base ++ '_' :: Nat.toDigits 10 number := by
  have digits : (Nat.toDigits 10 number).map Char.toLower = Nat.toDigits 10 number := by
    conv_rhs => rw [← List.map_id (Nat.toDigits 10 number)]
    exact List.map_congr_left fun _ member =>
      toLower_of_isDigit (isDigit_of_mem_toDigits member)
  have underscore : '_'.toLower = '_' := by decide
  simp [foldCase, numberedName, digits, underscore]

/-- Numbered variants of one name differ even where case is ignored. -/
theorem foldCase_numberedName_injective (base : String) :
    Function.Injective fun number => foldCase (numberedName base number) := by
  intro left right equal
  simp only [foldCase_numberedName, List.append_cancel_left_eq, List.cons.injEq,
    true_and] at equal
  exact toDigits_injective equal

theorem foldCase_numberedName_ne (base : String) (number : Nat) :
    foldCase base ≠ foldCase (numberedName base number) := by
  intro equal
  have lengths := congrArg List.length equal
  rw [foldCase_numberedName, List.length_append, List.length_cons] at lengths
  omega

/-- A name and its numbered variants. -/
theorem nodup_candidates (base : String) (count : Nat) :
    ((base :: (List.range' 1 count).map (numberedName base)).map foldCase).Nodup := by
  rw [List.map_cons, List.map_map, List.nodup_cons]
  constructor
  · intro listed
    rcases List.mem_map.mp listed with ⟨number, -, equal⟩
    exact foldCase_numberedName_ne base number equal.symm
  · exact List.Nodup.map (foldCase_numberedName_injective base) List.nodup_range'

/-! Names that are free. -/

/-- The name differs from all of these, also where case is ignored. -/
def Free (taken : List String) (name : String) : Prop :=
  ∀ other ∈ taken, sameIgnoringCase other name = false

theorem isTaken_eq_false_iff {taken : List String} {name : String} :
    isTaken taken name = false ↔ Free taken name := by
  simp [isTaken, Free]

theorem isTaken_eq_true_iff {taken : List String} {name : String} :
    isTaken taken name = true ↔ ¬ Free taken name := by
  rw [← isTaken_eq_false_iff, Bool.not_eq_false]

/-- Of different names that are more than the taken ones, one is free. -/
theorem exists_free (taken : List String) {candidates : List String}
    (different : (candidates.map foldCase).Nodup) (more : taken.length < candidates.length) :
    ∃ candidate ∈ candidates, Free taken candidate := by
  by_contra none
  have included : candidates.map foldCase ⊆ taken.map foldCase := by
    refine List.forall_mem_map.mpr fun candidate listed => ?_
    exact isTaken_iff.mp (isTaken_eq_true_iff.mpr fun free => none ⟨candidate, listed, free⟩)
  have fewer := (List.subperm_of_subset different included).length_le
  rw [List.length_map, List.length_map] at fewer
  omega

/-! The search. Every candidate that it passes over is taken, so a search that ran
through all of its attempts would need as many taken names. -/

/-- The search gives a numbered name. Every one that it passes over is taken, and it is out of
attempts where the one that it gives is taken as well. -/
theorem exists_number_firstFreeNumbered (taken : List String) (base : String) :
    ∀ attempts number, ∃ found,
      firstFreeNumbered taken base attempts number = numberedName base found ∧
        number ≤ found ∧ found ≤ number + attempts ∧
        (∀ earlier, number ≤ earlier → earlier < found →
          isTaken taken (numberedName base earlier) = true) ∧
        (isTaken taken (numberedName base found) = true → found = number + attempts)
  | 0, number => ⟨number, rfl, Nat.le_refl _, Nat.le_refl _, by omega, fun _ => rfl⟩
  | attempts + 1, number => by
      unfold firstFreeNumbered
      by_cases passed : isTaken taken (numberedName base number) = true
      · rw [if_pos passed]
        rcases exists_number_firstFreeNumbered taken base attempts (number + 1) with
          ⟨found, equal, above, below, skipped, exhausted⟩
        refine ⟨found, equal, by omega, by omega, ?_, fun used => by
          rw [exhausted used, Nat.add_right_comm, Nat.add_assoc]⟩
        intro earlier behind before
        rcases Nat.eq_or_lt_of_le behind with same | later
        · rw [← same]
          exact passed
        · exact skipped earlier later before
      · rw [if_neg passed]
        exact ⟨number, rfl, Nat.le_refl _, by omega, by omega, fun used => absurd used passed⟩

theorem firstFreeNumbered_eq_numberedName (taken : List String) (base : String)
    (attempts number : Nat) :
    ∃ found, firstFreeNumbered taken base attempts number = numberedName base found :=
  (exists_number_firstFreeNumbered taken base attempts number).imp fun _ => And.left

theorem freshNumbered_not_isTaken (taken : List String) (base : String) :
    isTaken taken (freshNumbered taken base) = false := by
  rcases exists_number_firstFreeNumbered taken base taken.length 1 with
    ⟨found, equal, -, -, passed, exhausted⟩
  rw [freshNumbered, equal]
  by_contra clash
  have last := exhausted (Bool.not_eq_false _ ▸ clash)
  -- One more candidate than there are taken names, and the search ended on a taken one.
  have different := (List.nodup_cons.mp (nodup_candidates base (taken.length + 1))).2
  rcases exists_free taken different (by simp) with ⟨candidate, listed, free⟩
  rcases List.mem_map.mp listed with ⟨number, range, rfl⟩
  rw [List.mem_range'_1] at range
  have free := isTaken_eq_false_iff.mpr free
  rcases Nat.lt_or_ge number found with earlier | late
  · exact Bool.false_ne_true (free.symm.trans (passed number range.1 earlier))
  · have same : number = found := by omega
    exact clash (same ▸ free)

theorem freshName_not_isTaken (taken : List String) (base : String) :
    isTaken taken (freshName taken base) = false := by
  unfold freshName
  split
  · exact freshNumbered_not_isTaken taken base
  · next free => simpa using free

/-! The least number. -/

/-- The number is the least one that makes the name free. -/
structure LeastFree (taken : List String) (name : String) (number : Nat) : Prop where
  positive : 1 ≤ number
  bounded : number ≤ taken.length + 1
  free : Free taken (numberedName name number)
  least : ∀ earlier, 1 ≤ earlier → earlier < number → ¬ Free taken (numberedName name earlier)

/-- There is such a number, and the search stops at it. -/
theorem exists_leastFree_freshNumbered (taken : List String) (name : String) :
    ∃ number, LeastFree taken name number ∧
      freshNumbered taken name = numberedName name number := by
  have free := freshNumbered_not_isTaken taken name
  rcases exists_number_firstFreeNumbered taken name taken.length 1 with
    ⟨number, found, positive, bounded, passed, -⟩
  have shape : freshNumbered taken name = numberedName name number := found
  rw [shape, isTaken_eq_false_iff] at free
  exact ⟨number, ⟨positive, by omega, free, fun earlier behind before =>
    isTaken_eq_true_iff.mp (passed earlier behind before)⟩, shape⟩

/-- Goes through the first candidates. -/
def searched (taken : List String) (name : String) (candidates : Nat) : Option String :=
  ((List.range' 1 candidates).map (numberedName name)).find? (!isTaken taken ·)

/-- No more candidates are looked at than there are taken names and one: looking at more of
them finds the same name. -/
theorem LeastFree.searched_eq {taken : List String} {name : String} {number : Nat}
    (least : LeastFree taken name number) {candidates : Nat} (enough : taken.length < candidates) :
    searched taken name candidates = some (numberedName name number) := by
  obtain ⟨passed, rfl⟩ : ∃ passed, number = passed + 1 :=
    ⟨number - 1, (Nat.sub_add_cancel least.positive).symm⟩
  obtain ⟨more, rfl⟩ : ∃ more, candidates = passed + (more + 1) :=
    ⟨candidates - (passed + 1), by have bounded := least.bounded; omega⟩
  have cut : List.range' 1 (passed + (more + 1)) =
      List.range' 1 passed ++ (passed + 1) :: List.range' (passed + 1 + 1) more := by
    rw [← List.range'_append_1, List.range'_succ, Nat.add_comm 1 passed]
  rw [searched, cut, List.map_append, List.map_cons, List.find?_append, List.find?_eq_none.mpr]
  · simp [isTaken_eq_false_iff.mpr least.free]
  · rw [List.forall_mem_map]
    intro earlier listed
    rw [List.mem_range'_1] at listed
    have used := isTaken_eq_true_iff.mpr (least.least earlier listed.1 (by omega))
    simp [used]

/-- Where the name itself is taken, the number is not beyond the number of the taken names. -/
theorem LeastFree.number_le {taken : List String} {name : String} {number : Nat}
    (least : LeastFree taken name number) (used : ¬ Free taken name) : number ≤ taken.length := by
  rcases exists_free taken (nodup_candidates name taken.length) (by simp) with
    ⟨candidate, listed, free⟩
  rcases List.mem_cons.mp listed with rfl | listed
  · exact absurd free used
  · rcases List.mem_map.mp listed with ⟨other, range, rfl⟩
    rw [List.mem_range'_1] at range
    by_contra beyond
    exact least.least other range.1 (by omega) free

/-! Plain names stay plain. -/

theorem isPlainIdentifier_iff {name : String} :
    isPlainIdentifier name = true ↔ ∃ first rest, name.toList = first :: rest ∧
      isWordStart first = true ∧ ∀ character ∈ rest, isWordCharacter character = true := by
  unfold isPlainIdentifier
  cases name.toList with
  | nil => simp
  | cons first rest => simp [and_assoc]

theorem isWordCharacter_of_isWordStart {character : Char}
    (start : isWordStart character = true) : isWordCharacter character = true := by
  simp only [isWordStart, isWordCharacter, Char.isAlphanum, Bool.or_eq_true] at start ⊢
  exact start.imp_left Or.inl

/-- A plain identifier is a run of word characters that is not empty. -/
theorem word_of_isPlainIdentifier {name : String} (plain : isPlainIdentifier name = true) :
    name.toList ≠ [] ∧ ∀ character ∈ name.toList, isWordCharacter character = true := by
  rcases isPlainIdentifier_iff.mp plain with ⟨first, rest, characters, start, others⟩
  rw [characters]
  refine ⟨List.cons_ne_nil _ _, ?_⟩
  intro character member
  rcases List.mem_cons.mp member with rfl | member
  · exact isWordCharacter_of_isWordStart start
  · exact others character member

theorem isPlainIdentifier_append {name : String} {suffix : List Char}
    (plain : isPlainIdentifier name = true)
    (word : ∀ character ∈ suffix, isWordCharacter character = true) :
    isPlainIdentifier (name ++ String.ofList suffix) = true := by
  rcases isPlainIdentifier_iff.mp plain with ⟨first, rest, characters, start, others⟩
  refine isPlainIdentifier_iff.mpr ⟨first, rest ++ suffix, ?_, start, ?_⟩
  · rw [String.toList_append, String.toList_ofList, characters, List.cons_append]
  · intro character member
    exact (List.mem_append.mp member).elim (others character) (word character)

theorem isPlainIdentifier_numberedName {base : String} (number : Nat)
    (plain : isPlainIdentifier base = true) :
    isPlainIdentifier (numberedName base number) = true := by
  have suffix : numberedName base number =
      base ++ String.ofList ('_' :: Nat.toDigits 10 number) := by
    apply String.toList_inj.mp
    simp [numberedName]
  rw [suffix]
  apply isPlainIdentifier_append plain
  intro character member
  rcases List.mem_cons.mp member with rfl | digit
  · decide
  · exact isWordCharacter_of_isDigit (isDigit_of_mem_toDigits digit)

theorem isPlainIdentifier_freshName {base : String} (taken : List String)
    (plain : isPlainIdentifier base = true) :
    isPlainIdentifier (freshName taken base) = true := by
  unfold freshName
  split
  · rcases firstFreeNumbered_eq_numberedName taken base taken.length 1 with ⟨number, equal⟩
    rw [freshNumbered, equal]
    exact isPlainIdentifier_numberedName number plain
  · exact plain

/-! The alias of a table that declares none is plain as soon as the table has a
name. -/

/-- The character that stands for another one in an alias. -/
def aliasCharacter (character : Char) : Char :=
  if character.isAlphanum then character else '_'

theorem isWordCharacter_aliasCharacter (character : Char) :
    isWordCharacter (aliasCharacter character) = true := by
  unfold aliasCharacter
  split
  · next alphanumeric => simp [isWordCharacter, alphanumeric]
  · decide

theorem isWordStart_aliasCharacter {character : Char}
    (notDigit : (aliasCharacter character).isDigit = false) :
    isWordStart (aliasCharacter character) = true := by
  have word := isWordCharacter_aliasCharacter character
  simpa [isWordCharacter, isWordStart, Char.isAlphanum, notDigit] using word

theorem aliasOfTable_eq {table : String} {first : Char} {rest : List Char}
    (characters : table.toList = first :: rest) :
    aliasOfTable table = String.ofList
      (if (aliasCharacter first).isDigit then '_' :: (first :: rest).map aliasCharacter
        else (first :: rest).map aliasCharacter) := by
  unfold aliasOfTable
  rw [characters]
  rfl

theorem isPlainIdentifier_aliasOfTable {table : String} (named : table.toList ≠ []) :
    isPlainIdentifier (aliasOfTable table) = true := by
  rcases List.exists_cons_of_ne_nil named with ⟨first, rest, characters⟩
  have word : ∀ text : List Char, ∀ character ∈ text.map aliasCharacter,
      isWordCharacter character = true := fun text =>
    List.forall_mem_map.mpr fun character _ => isWordCharacter_aliasCharacter character
  rw [aliasOfTable_eq characters]
  apply isPlainIdentifier_iff.mpr
  cases digit : (aliasCharacter first).isDigit with
  | true =>
      refine ⟨'_', (first :: rest).map aliasCharacter, ?_, by decide, word _⟩
      rw [if_pos rfl, String.toList_ofList]
  | false =>
      refine ⟨aliasCharacter first, rest.map aliasCharacter, ?_,
        isWordStart_aliasCharacter digit, word _⟩
      rw [if_neg Bool.false_ne_true, String.toList_ofList, List.map_cons]

end EntitySql
