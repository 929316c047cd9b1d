import EntitySql.Proofs.SentParts

/-! Placeholders found in one pass. The pass reads the characters of a text together with their
byte offsets and takes the name of a placeholder as the slice of the text between two offsets.
It never cuts a character, and it does what the grammar of the text says: a text falls into
segments in one way only, from the left, and each placeholder among them is replaced and takes
its own value. -/

namespace EntitySql

/-! Slices by byte offsets. -/

/-- The text between two byte offsets; there is none where an offset is not on a boundary of
characters or the second one comes before the first. -/
def byteSlice? (text : String) (start stop : Nat) : Option String := do
  let first ← text.pos? ⟨start⟩
  let last ← text.pos? ⟨stop⟩
  let slice ← text.slice? first last
  return slice.copy

theorem pos?_eq_some_iff {text : String} {offset : Nat} {position : text.Pos} :
    text.pos? ⟨offset⟩ = some position ↔ position.offset.byteIdx = offset := by
  rw [String.pos?, Option.map_eq_some_iff]
  constructor
  · rintro ⟨inner, found, rfl⟩
    unfold String.Slice.pos? at found
    split at found
    · cases found
      rfl
    · cases found
  · rintro rfl
    refine ⟨position.toSlice, ?_, String.Pos.ofToSlice_toSlice position⟩
    have valid : String.Pos.Raw.isValidForSlice text.toSlice position.offset = true :=
      String.Pos.Raw.isValidForSlice_eq_true_iff.mpr position.isValid.toSlice
    rw [String.Slice.pos?, dif_pos valid]
    rfl

theorem byteSlice?_eq_some_iff {text name : String} {start stop : Nat} :
    byteSlice? text start stop = some name ↔
      ∃ left right, text = left ++ name ++ right ∧ start = left.utf8ByteSize ∧
        stop = (left ++ name).utf8ByteSize := by
  have slices : byteSlice? text start stop = some name ↔
      ∃ first last : text.Pos, first.offset.byteIdx = start ∧ last.offset.byteIdx = stop ∧
        ∃ ordered, (text.slice first last ordered).copy = name := by
    simp only [byteSlice?, Option.bind_eq_bind, Option.bind_eq_some_iff, pos?_eq_some_iff,
      String.slice?]
    constructor
    · rintro ⟨first, starts, last, stops, slice, cut, shown⟩
      split at cut
      · next ordered =>
          cases cut
          exact ⟨first, last, starts, stops, ordered, Option.some.inj shown⟩
      · cases cut
    · rintro ⟨first, last, starts, stops, ordered, rfl⟩
      exact ⟨first, starts, last, stops, _, dif_pos ordered, rfl⟩
  rw [slices]
  simp only [String.copy_slice_eq_iff_splits]
  constructor
  · rintro ⟨first, last, rfl, rfl, left, right, before, upTo⟩
    refine ⟨left, right, upTo.eq_append, ?_, ?_⟩
    · rw [before.offset_eq_rawEndPos]
      rfl
    · rw [upTo.offset_eq_rawEndPos]
      rfl
  · rintro ⟨left, right, rfl, rfl, rfl⟩
    exact ⟨.ofEqAppend (String.append_assoc ..), .ofEqAppend rfl, rfl, rfl, left, right,
      String.Pos.splits_ofEqAppend _, String.Pos.splits_ofEqAppend _⟩

/-- How many bytes the characters take. -/
def byteCount (text : List Char) : Nat :=
  (String.ofList text).utf8ByteSize

@[simp] theorem byteCount_append (left right : List Char) :
    byteCount (left ++ right) = byteCount left + byteCount right := by
  rw [byteCount, String.ofList_append, String.utf8ByteSize_append]
  rfl

@[simp] theorem byteCount_singleton (character : Char) :
    byteCount [character] = character.utf8Size := by
  rw [byteCount, ← String.singleton_eq_ofList, String.utf8ByteSize_singleton]

@[simp] theorem byteCount_nil : byteCount [] = 0 :=
  rfl

@[simp] theorem byteCount_cons (character : Char) (text : List Char) :
    byteCount (character :: text) = character.utf8Size + byteCount text := by
  rw [← List.singleton_append, byteCount_append, byteCount_singleton]

/-- The slice behind some characters, over some more. -/
theorem byteSlice?_of_toList {text : String} {left name right : List Char}
    (split : text.toList = left ++ (name ++ right)) :
    byteSlice? text (byteCount left) (byteCount (left ++ name)) = some (String.ofList name) := by
  refine byteSlice?_eq_some_iff.mpr ⟨String.ofList left, String.ofList right, ?_, rfl, ?_⟩
  · rw [← String.toList_inj, split]
    simp
  · rw [byteCount, String.ofList_append]

namespace Params

/-- There is a parameter of the name, in some case of its letters. -/
def Holds (params : Params) (name : String) : Prop :=
  ∃ parameter ∈ params.entries, sameIgnoringCase parameter.name name = true

theorem get?_eq_none_iff {params : Params} {name : String} :
    params.get? name = none ↔ ¬ params.Holds name := by
  simp [get?, find?, Holds]

end Params

namespace MySql

/-! The pass. -/

/-- The characters of a text, each with the number of bytes before it; `offset` is that of the
first. -/
def placed : (offset : Nat) → List Char → List (Nat × Char)
  | _, [] => []
  | offset, character :: rest =>
      (offset, character) :: placed (offset + character.utf8Size) rest

/-- Goes over the word characters ahead. Gives the offset behind the last one, which is `stop`
where there is none, and what is left to read. -/
def passWord : (stop : Nat) → List (Nat × Char) → Nat × List (Nat × Char)
  | stop, [] => (stop, [])
  | stop, (offset, character) :: rest =>
      if isWordCharacter character then passWord (offset + character.utf8Size) rest
      else (stop, (offset, character) :: rest)

theorem length_passWord_le (stop : Nat) (reading : List (Nat × Char)) :
    (passWord stop reading).2.length ≤ reading.length := by
  induction reading generalizing stop with
  | nil => exact Nat.le_refl _
  | cons first reading induction =>
      rw [passWord]
      split
      · exact (induction _).trans (Nat.le_succ _)
      · exact Nat.le_refl _

/-- Reads on from what has been written so far. There is no outcome where a slice would cut a
character. -/
def scanFrom (params : Params) (text : String) (written : Prepared) :
    List (Nat × Char) → Option (Except Error Prepared)
  | [] => some (.ok written)
  | (_, '@') :: (_, '@') :: rest =>
      scanFrom params text (written.append ⟨['@', '@'], []⟩) rest
  | (offset, '@') :: rest =>
      match byteSlice? text (offset + 1) (passWord (offset + 1) rest).1 with
      | none => none
      | some name =>
          if name.isEmpty then
            scanFrom params text (written.append ⟨['@'], []⟩) (passWord (offset + 1) rest).2
          else
            match params.get? name with
            | none => some (.error (.execution (.unboundParameter name)))
            | some value =>
                scanFrom params text (written.append ⟨['?'], [value]⟩)
                  (passWord (offset + 1) rest).2
  | (_, character) :: rest => scanFrom params text (written.append ⟨[character], []⟩) rest
termination_by reading => reading.length
decreasing_by
  · exact (Nat.lt_succ_self _).trans (Nat.lt_succ_self _)
  · exact Nat.lt_succ_of_le (length_passWord_le ..)
  · exact Nat.lt_succ_of_le (length_passWord_le ..)
  · exact Nat.lt_succ_self _

/-- The text with its placeholders replaced, and the values that these stand for. -/
def scan (params : Params) (text : String) : Option (Except Error Prepared) :=
  scanFrom params text ⟨[], []⟩ (placed 0 text.toList)

/-- What the server is handed: identifiers as their text, every other value as it is. -/
def Prepared.handed (prepared : Prepared) : Prepared :=
  { prepared with arguments := prepared.arguments.map argument }

/-- A placeholder between characters of two bytes, one that is repeated in another case, and at
signs that make none. -/
example : scan ⟨[⟨"a_1", .int 7, .input⟩]⟩ "é@A_1é@@a@@@a_1@é" =
    some (.ok ⟨"é?é@@a@@?@é".toList, [.int 7, .int 7]⟩) := by
  cbv

/-! The grammar. -/

/-- The segment ends before this text: the name of a placeholder is not carried on, and a single
at sign makes neither a pair nor a placeholder. -/
def Segment.EndsBefore (rest : List Char) : Segment → Prop
  | .doubledMark => True
  | .placeholder name =>
      name ≠ [] ∧ (∀ character ∈ name, isWordCharacter character = true) ∧
        ∀ next ∈ rest.head?, isWordCharacter next = false
  | .character value =>
      value = '@' → ∀ next ∈ rest.head?, next ≠ '@' ∧ isWordCharacter next = false

/-- A text and its segments. -/
inductive Cut : List Char → List Segment → Prop where
  | nil : Cut [] []
  | cons {segment : Segment} {rest : List Char} {cut : List Segment}
      (ends : segment.EndsBefore rest) (later : Cut rest cut) :
      Cut (segment.text ++ rest) (segment :: cut)

theorem Cut.flatMap_text {text : List Char} {cut : List Segment} (falls : Cut text cut) :
    cut.flatMap Segment.text = text := by
  induction falls with
  | nil => rfl
  | cons ends later induction => rw [List.flatMap_cons, induction]

theorem segments_of_endsBefore {segment : Segment} {rest : List Char}
    (ends : segment.EndsBefore rest) :
    segments (segment.text ++ rest) = segment :: segments rest := by
  cases segment with
  | doubledMark => exact segments.eq_2 rest
  | placeholder name => exact segments_placeholder ends.1 ends.2.1 ends.2.2
  | character value =>
      by_cases mark : value = '@'
      · subst mark
        have single : rest.head? ≠ some '@' := fun head => (ends rfl '@' head).1 rfl
        have alone : rest.takeWhile isWordCharacter = [] := by
          cases rest with
          | nil => rfl
          | cons next others => simp [(ends rfl next rfl).2]
        exact (segments_mark single).trans (if_pos (by rw [alone]; rfl))
      · exact segments_cons mark rest

theorem Cut.eq_segments {text : List Char} {cut : List Segment} (falls : Cut text cut) :
    cut = segments text := by
  induction falls with
  | nil => rw [segments]
  | cons ends later induction => rw [segments_of_endsBefore ends, induction]

theorem cut_segments (text : List Char) : Cut text (segments text) := by
  induction text using segments.induct with
  | case1 =>
      rw [segments]
      exact .nil
  | case2 rest induction =>
      rw [segments]
      have ends : Segment.doubledMark.EndsBefore rest := trivial
      exact .cons ends induction
  | case3 rest single empty induction =>
      rw [segments_mark (head?_ne single), if_pos empty]
      have ends : (Segment.character '@').EndsBefore rest := by
        rintro - next head
        rcases List.head?_eq_some_iff.mp head with ⟨others, rfl⟩
        refine ⟨fun mark => single others (by rw [mark]), ?_⟩
        simpa using empty
      exact .cons ends induction
  | case4 rest single named induction =>
      rw [segments_mark (head?_ne single), if_neg named]
      have ends : (Segment.placeholder (rest.takeWhile isWordCharacter)).EndsBefore
          (rest.dropWhile isWordCharacter) := by
        refine ⟨by simpa using named, fun character => List.mem_takeWhile_imp, ?_⟩
        intro next head
        have stops := List.head?_dropWhile_not isWordCharacter rest
        rwa [Option.mem_def.mp head] at stops
      simpa [Segment.text, List.takeWhile_append_dropWhile] using Cut.cons ends induction
  | case5 character rest other another induction =>
      rw [segments_cons another]
      have ends : (Segment.character character).EndsBefore rest := fun mark => absurd mark another
      exact .cons ends induction

/-! What the pass makes of a text that is cut. -/

namespace Segment

/-- What the server reads in place of the segment. -/
def positional : Segment → List Char
  | .placeholder _ => ['?']
  | .doubledMark => ['@', '@']
  | .character value => [value]

def name? : Segment → Option (List Char)
  | .placeholder name => some name
  | .doubledMark | .character _ => none

def value? (params : Params) (segment : Segment) : Option Value :=
  segment.name?.bind fun name => params.get? (String.ofList name)

end Segment

/-- The segments with their placeholders replaced, and the values that these stand for. -/
def replaced (params : Params) (cut : List Segment) : Prepared :=
  { sql := cut.flatMap Segment.positional
    arguments := cut.filterMap (Segment.value? params) }

theorem replaced_cons (params : Params) (segment : Segment) (cut : List Segment) :
    replaced params (segment :: cut) =
      Prepared.append ⟨segment.positional, (segment.value? params).toList⟩
        (replaced params cut) := by
  cases value : segment.value? params <;> simp [replaced, Prepared.append, value]

namespace Prepared

theorem append_assoc (first second third : Prepared) :
    (first.append second).append third = first.append (second.append third) := by
  simp [append]

theorem append_nil (prepared : Prepared) : prepared.append ⟨[], []⟩ = prepared := by
  simp [append]

theorem nil_append (prepared : Prepared) : append ⟨[], []⟩ prepared = prepared := by
  simp [append]

theorem handed_append (first second : Prepared) :
    (first.append second).handed = first.handed.append second.handed := by
  simp [append, handed]

end Prepared

theorem passWord_of_word {name rest : List Char}
    (word : ∀ character ∈ name, isWordCharacter character = true)
    (ends : ∀ next ∈ rest.head?, isWordCharacter next = false) (offset : Nat) :
    passWord offset (placed offset (name ++ rest)) =
      (offset + byteCount name, placed (offset + byteCount name) rest) := by
  induction name generalizing offset with
  | nil =>
      cases rest with
      | nil => rfl
      | cons next others => simp [placed, passWord, ends next rfl]
  | cons character name induction =>
      rw [List.forall_mem_cons] at word
      rw [List.cons_append, placed, passWord, if_pos word.1, induction word.2, byteCount_cons,
        Nat.add_assoc]

section

variable {params : Params} {text : String} {before rest : List Char}

theorem scanFrom_plain {character : Char} (plain : character ≠ '@') (written : Prepared)
    (offset : Nat) :
    scanFrom params text written (placed offset (character :: rest)) =
      scanFrom params text (written.append ⟨[character], []⟩)
        (placed (offset + character.utf8Size) rest) := by
  rw [placed, scanFrom]
  · intro _ _ _ equal
    exact absurd equal plain
  · exact plain

/-- Behind a single at sign the name is sliced out as it stands there. -/
theorem scanFrom_mark {name : List Char} (single : (name ++ rest).head? ≠ some '@')
    (word : ∀ character ∈ name, isWordCharacter character = true)
    (ends : ∀ next ∈ rest.head?, isWordCharacter next = false)
    (split : text.toList = before ++ '@' :: (name ++ rest)) (written : Prepared) :
    scanFrom params text written (placed (byteCount before) ('@' :: (name ++ rest))) =
      if name = [] then
        scanFrom params text (written.append ⟨['@'], []⟩)
          (placed (byteCount (before ++ '@' :: name)) rest)
      else
        match params.get? (String.ofList name) with
        | none => some (.error (.execution (.unboundParameter (String.ofList name))))
        | some value =>
            scanFrom params text (written.append ⟨['?'], [value]⟩)
              (placed (byteCount (before ++ '@' :: name)) rest) := by
  have behind : byteCount (before ++ ['@']) = byteCount before + 1 := by simp; rfl
  have cut : byteSlice? text (byteCount before + 1) (byteCount before + 1 + byteCount name) =
      some (String.ofList name) := by
    have shape : text.toList = before ++ ['@'] ++ (name ++ rest) := by rw [split]; simp
    rw [← behind, ← byteCount_append, byteSlice?_of_toList shape]
  have passed : passWord (byteCount before + 1) (placed (byteCount before + 1) (name ++ rest)) =
      (byteCount before + 1 + byteCount name,
        placed (byteCount (before ++ '@' :: name)) rest) := by
    rw [passWord_of_word word ends, ← behind, ← byteCount_append, List.append_assoc]
    rfl
  have unpaired : ∀ offset others,
      placed (byteCount before + 1) (name ++ rest) = (offset, '@') :: others → False := by
    intro offset others equal
    cases shape : name ++ rest with
    | nil =>
        rw [shape] at equal
        cases equal
    | cons next later =>
        rw [shape] at equal single
        cases equal
        exact single rfl
  change scanFrom params text written
    ((byteCount before, '@') :: placed (byteCount before + 1) (name ++ rest)) = _
  rw [scanFrom]
  · rw [passed, cut]
    simp only [String.isEmpty_iff, String.ofList_eq_empty_iff]
  · exact unpaired

/-- A segment is passed as a whole, and the pass goes on at the offset of what stands behind
it. -/
theorem scanFrom_segment {segment : Segment} (ends : segment.EndsBefore rest)
    (split : text.toList = before ++ (segment.text ++ rest)) (written : Prepared) :
    scanFrom params text written (placed (byteCount before) (segment.text ++ rest)) =
      match segment.unbound? params with
      | some name => some (.error (.execution (.unboundParameter name)))
      | none =>
          scanFrom params text
            (written.append ⟨segment.positional, (segment.value? params).toList⟩)
            (placed (byteCount (before ++ segment.text)) rest) := by
  cases segment with
  | doubledMark =>
      change scanFrom params text written ((byteCount before, '@') ::
        (byteCount before + 1, '@') :: placed (byteCount before + 1 + 1) rest) = _
      have behind : byteCount (before ++ ['@', '@']) = byteCount before + 1 + 1 := by
        simp
        rfl
      rw [scanFrom, Segment.text, behind]
      rfl
  | placeholder name =>
      rcases ends with ⟨some', word, ends⟩
      change scanFrom params text written
        (placed (byteCount before) ('@' :: (name ++ rest))) = _
      rw [scanFrom_mark (head?_word_append_ne some' word rest) word ends split, if_neg some']
      cases found : params.get? (String.ofList name) with
      | none => rw [Segment.unbound?, if_pos found]
      | some value =>
          have present : ¬ params.get? (String.ofList name) = none := by
            rw [found]
            exact Option.some_ne_none value
          have bound : (Segment.placeholder name).value? params = some value := found
          rw [Segment.unbound?, if_neg present, bound]
          rfl
  | character value =>
      by_cases mark : value = '@'
      · subst mark
        have single : ([] ++ rest).head? ≠ some '@' := fun head => (ends rfl '@' head).1 rfl
        exact scanFrom_mark single (by simp) (fun next head => (ends rfl next head).2) split written
      · have behind : byteCount (before ++ [value]) = byteCount before + value.utf8Size := by simp
        change scanFrom params text written (placed (byteCount before) (value :: rest)) = _
        rw [scanFrom_plain mark, Segment.text, behind]
        rfl

/-- The pass over a text that is cut: it ends at the first placeholder without a value. -/
theorem scanFrom_of_cut {cut : List Segment} (falls : Cut rest cut)
    (split : text.toList = before ++ rest) (written : Prepared) :
    scanFrom params text written (placed (byteCount before) rest) =
      match cut.findSome? (Segment.unbound? params) with
      | some name => some (.error (.execution (.unboundParameter name)))
      | none => some (.ok (written.append (replaced params cut))) := by
  induction falls generalizing before written with
  | nil =>
      rw [placed, scanFrom]
      exact congrArg (some ∘ Except.ok) written.append_nil.symm
  | @cons segment rest cut ends later induction =>
      rw [scanFrom_segment ends split, List.findSome?_cons]
      cases own : segment.unbound? params with
      | some name => rfl
      | none =>
          rw [← List.append_assoc] at split
          change scanFrom params text _ (placed (byteCount (before ++ segment.text)) rest) = _
          rw [induction split, Prepared.append_assoc, ← replaced_cons]

end

/-! Placeholders that all have values. -/

variable {params : Params} {cut : List Segment}

theorem Segment.prepare_of_bound {segment : Segment} (bound : segment.unbound? params = none) :
    segment.prepare params =
      .ok (Prepared.handed ⟨segment.positional, (segment.value? params).toList⟩) := by
  cases segment with
  | doubledMark | character value => rfl
  | placeholder name =>
      cases found : params.get? (String.ofList name) with
      | none => simp [unbound?, found] at bound
      | some value =>
          have own : (placeholder name).value? params = some value := found
          rw [prepare, found, own]
          rfl

theorem prepareSegments_of_bound (bound : cut.findSome? (Segment.unbound? params) = none) :
    prepareSegments params cut = .ok (replaced params cut).handed := by
  induction cut with
  | nil => rfl
  | cons segment cut induction =>
      rw [List.findSome?_eq_none_iff, List.forall_mem_cons, ← List.findSome?_eq_none_iff] at bound
      rw [replaced_cons, Prepared.handed_append]
      exact prepareSegments_cons_eq_ok.mpr
        ⟨_, _, Segment.prepare_of_bound bound.1, induction bound.2, rfl⟩

theorem forall₂_value?_of_bound (bound : cut.findSome? (Segment.unbound? params) = none) :
    List.Forall₂ (fun name value => params.get? (String.ofList name) = some value)
      (cut.filterMap Segment.name?) (replaced params cut).arguments := by
  induction cut with
  | nil => exact .nil
  | cons segment cut induction =>
      rw [List.findSome?_eq_none_iff, List.forall_mem_cons, ← List.findSome?_eq_none_iff] at bound
      cases segment with
      | doubledMark | character value => exact induction bound.2
      | placeholder name =>
          cases found : params.get? (String.ofList name) with
          | none => simp [Segment.unbound?, found] at bound
          | some value =>
              have own : (Segment.placeholder name).value? params = some value := found
              rw [replaced_cons, own]
              exact .cons found (induction bound.2)

theorem exists_prefix_of_unbound {name : String}
    (first : cut.findSome? (Segment.unbound? params) = some name) :
    ∃ before own after, cut = before ++ .placeholder own :: after ∧ name = String.ofList own ∧
      ¬ params.Holds (String.ofList own) ∧
      ∀ earlier, .placeholder earlier ∈ before → params.Holds (String.ofList earlier) := by
  rcases List.findSome?_eq_some_iff.mp first with ⟨before, segment, after, rfl, own, bound⟩
  cases segment with
  | doubledMark | character value => cases own
  | placeholder written =>
      rcases Option.ite_none_right_eq_some.mp own with ⟨absent, same⟩
      refine ⟨before, written, after, rfl, (Option.some.inj same).symm,
        Params.get?_eq_none_iff.mp absent, ?_⟩
      intro earlier listed
      by_contra missing
      have unbound := bound _ listed
      rw [Segment.unbound?, if_pos (Params.get?_eq_none_iff.mpr missing)] at unbound
      cases unbound

theorem findSome?_unbound?_eq_none_iff :
    cut.findSome? (Segment.unbound? params) = none ↔
      ∀ name, .placeholder name ∈ cut → params.Holds (String.ofList name) := by
  constructor
  · intro bound name listed
    by_contra missing
    have own := List.findSome?_eq_none_iff.mp bound _ listed
    rw [Segment.unbound?, if_pos (Params.get?_eq_none_iff.mpr missing)] at own
    cases own
  · intro holds
    rw [List.findSome?_eq_none_iff]
    intro segment listed
    by_contra unbound
    rcases Segment.unbound?_isSome_iff.mp (Option.isSome_iff_ne_none.mpr unbound) with
      ⟨name, rfl, absent⟩
    exact Params.get?_eq_none_iff.mp absent (holds name listed)

/-- A text falls into segments in one way. The pass over it always ends, and it replaces every
placeholder where each has a parameter of its name: the text is then that of the segments with
a question mark in place of each placeholder, and the arguments are the values of the
placeholders, one each, in their order. Otherwise it fails with the first placeholder that has
none. -/
theorem positional_follows_segments (params : Params) (text : String) :
    ∃ cut, Cut text.toList cut ∧ (∀ other, Cut text.toList other → other = cut) ∧
      cut.flatMap Segment.text = text.toList ∧
      ∃ outcome, scan params text = some outcome ∧
        prepare params text.toList = outcome.map Prepared.handed ∧
        ((∃ written, outcome = .ok written) ↔
          ∀ name, .placeholder name ∈ cut → params.Holds (String.ofList name)) ∧
        (∀ written, outcome = .ok written →
          written.sql = cut.flatMap Segment.positional ∧
          List.Forall₂ (fun name value => params.get? (String.ofList name) = some value)
            (cut.filterMap Segment.name?) written.arguments) ∧
        ∀ error, outcome = .error error →
          ∃ before name after, cut = before ++ .placeholder name :: after ∧
            ¬ params.Holds (String.ofList name) ∧
            (∀ earlier, .placeholder earlier ∈ before → params.Holds (String.ofList earlier)) ∧
            error = .execution (.unboundParameter (String.ofList name)) := by
  have falls := cut_segments text.toList
  have scanned : scan params text = _ := scanFrom_of_cut falls (List.nil_append _).symm ⟨[], []⟩
  refine ⟨segments text.toList, falls, fun other => Cut.eq_segments, falls.flatMap_text, ?_⟩
  rw [← findSome?_unbound?_eq_none_iff]
  cases first : (segments text.toList).findSome? (Segment.unbound? params) with
  | none =>
      rw [first, Prepared.nil_append] at scanned
      refine ⟨_, scanned, prepareSegments_of_bound first, by simp, ?_, by simp⟩
      intro written same
      cases same
      exact ⟨rfl, forall₂_value?_of_bound first⟩
  | some name =>
      rw [first] at scanned
      refine ⟨_, scanned, prepareSegments_of_findSome?_eq_some first, by simp, by simp, ?_⟩
      rintro _ ⟨⟩
      rcases exists_prefix_of_unbound first with ⟨before, own, after, split, rfl, absent, bound⟩
      exact ⟨before, own, after, split, absent, bound, rfl⟩

end MySql

end EntitySql
