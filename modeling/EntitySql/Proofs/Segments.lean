import Mathlib.Data.List.Forall2
import Mathlib.Data.List.TakeWhile
import EntitySql.MySql.Placeholder
import EntitySql.Sql.Lexical

/-! How a text falls into statements and segments when its pieces do. The executor cuts at
every semicolon and reads a placeholder behind every at sign that word characters follow,
whatever surrounds them: a piece is cut as it would be alone unless the text behind it
carries on a placeholder at its end. -/

namespace EntitySql

theorem mem_intercalate_iff {α : Type} {separator item : α} (other : item ≠ separator)
    {parts : List (List α)} :
    item ∈ [separator].intercalate parts ↔ ∃ part ∈ parts, item ∈ part := by
  induction parts with
  | nil => simp
  | cons first rest induction =>
      cases rest with
      | nil => simp [List.intercalate_singleton]
      | cons second rest =>
          rw [List.intercalate_cons_cons, List.mem_append, List.mem_append, induction,
            List.exists_mem_cons_iff]
          simp [other]

namespace MySql

/-! Statements. -/

theorem splitStatements_append (left right : List Char) :
    splitStatements (left ++ ';' :: right) = splitStatements left ++ splitStatements right := by
  simp [splitStatements, List.splitOn_append_cons_self]

/-- A character that neither ends a statement nor is cut off at its end. -/
def Visible (character : Char) : Prop :=
  isBlank character = false ∧ character ≠ ';'

theorem trimBlanks_ne_nil {text : List Char} {character : Char} (listed : character ∈ text)
    (visible : isBlank character = false) : trimBlanks text ≠ [] := by
  intro trimmed
  rw [trimBlanks, List.reverse_eq_nil_iff, List.dropWhile_eq_nil_iff] at trimmed
  rw [← List.takeWhile_append_dropWhile (p := isBlank) (l := text), List.mem_append] at listed
  rcases listed with early | late
  · rw [List.mem_takeWhile_imp early] at visible
    cases visible
  · rw [trimmed character (List.mem_reverse.mpr late)] at visible
    cases visible

theorem splitStatements_ne_nil {text : List Char} {character : Char} (listed : character ∈ text)
    (visible : Visible character) : splitStatements text ≠ [] := by
  have rejoined : [';'].intercalate (text.splitOn ';') = text := List.intercalate_splitOn _
  rw [← rejoined, mem_intercalate_iff visible.2] at listed
  rcases listed with ⟨part, among, inPart⟩
  apply List.ne_nil_of_mem (a := trimBlanks part)
  rw [splitStatements, List.mem_filter]
  refine ⟨List.mem_map_of_mem among, ?_⟩
  simpa using trimBlanks_ne_nil inPart visible.1

/-- The text starts and ends with visible characters. -/
structure Framed (text : List Char) : Prop where
  first : ∃ character rest, text = character :: rest ∧ Visible character
  last : ∃ front character, text = front ++ [character] ∧ Visible character

theorem Framed.trimBlanks {text : List Char} (framed : Framed text) :
    EntitySql.trimBlanks text = text := by
  rcases framed.first with ⟨first, rest, starts, visible, -⟩
  rcases framed.last with ⟨front, last, ends, lastVisible, -⟩
  have begins : text.dropWhile isBlank = text := by
    rw [starts, List.dropWhile_cons_of_neg (by simp [visible])]
  rw [EntitySql.trimBlanks, begins, ends, List.reverse_append, List.reverse_singleton,
    List.singleton_append, List.dropWhile_cons_of_neg (by simp [lastVisible])]
  simp

theorem Framed.splitStatements {text : List Char} (framed : Framed text) (whole : ';' ∉ text) :
    splitStatements text = [text] := by
  rcases framed.first with ⟨first, rest, starts, -⟩
  rw [MySql.splitStatements, List.splitOn_eq_singleton whole, List.map_singleton,
    framed.trimBlanks, starts]
  rfl

/-- A semicolon cuts the text in two at least. -/
theorem Framed.two_le_length {text : List Char} (framed : Framed text) (cut : ';' ∈ text) :
    2 ≤ (MySql.splitStatements text).length := by
  rcases List.append_of_mem cut with ⟨left, right, split⟩
  have leftKept : MySql.splitStatements left ≠ [] := by
    rcases framed.first with ⟨first, rest, starts, visible⟩
    cases left with
    | nil =>
        rw [List.nil_append, starts] at split
        exact absurd (List.cons.inj split).1 visible.2
    | cons other left =>
        rw [List.cons_append, starts] at split
        exact splitStatements_ne_nil List.mem_cons_self ((List.cons.inj split).1 ▸ visible)
  have rightKept : MySql.splitStatements right ≠ [] := by
    rcases framed.last with ⟨front, last, ends, visible⟩
    rcases List.eq_nil_or_concat right with rfl | ⟨right, other, rfl⟩
    · rw [ends] at split
      have same : last = ';' := by simpa using (List.append_inj' split rfl).2
      exact absurd same visible.2
    · have shape : left ++ ';' :: right.concat other = left ++ ';' :: right ++ [other] := by simp
      rw [ends, shape] at split
      have same : last = other := by simpa using (List.append_inj' split rfl).2
      exact splitStatements_ne_nil (by simp) (same ▸ visible)
  have leftLength := List.length_pos_iff.mpr leftKept
  have rightLength := List.length_pos_iff.mpr rightKept
  rw [split, splitStatements_append, List.length_append]
  omega

theorem splitStatements_intercalate {parts : List (List Char)} (given : parts ≠ []) :
    splitStatements ([';'].intercalate parts) = parts.flatMap splitStatements := by
  induction parts with
  | nil => exact absurd rfl given
  | cons first rest induction =>
      cases rest with
      | nil => simp [List.intercalate_singleton]
      | cons second rest =>
          rw [List.intercalate_cons_cons, List.append_assoc, List.singleton_append,
            splitStatements_append, induction (List.cons_ne_nil _ _)]
          rfl

/-- Parts are found again as they are, unless one of them holds a semicolon: then there are
more of them. -/
theorem splitStatements_parts {parts : List (List Char)} (framed : ∀ part ∈ parts, Framed part) :
    ((∀ part ∈ parts, ';' ∉ part) → parts.flatMap splitStatements = parts) ∧
    (¬ (∀ part ∈ parts, ';' ∉ part) → parts.length < (parts.flatMap splitStatements).length) := by
  induction parts with
  | nil => simp
  | cons part parts induction =>
      rw [List.forall_mem_cons] at framed
      rcases induction framed.2 with ⟨same, more⟩
      have atLeast : parts.length ≤ (parts.flatMap splitStatements).length := by
        by_cases whole : ∀ part ∈ parts, ';' ∉ part
        · rw [same whole]
        · exact (more whole).le
      rw [List.flatMap_cons, List.forall_mem_cons]
      constructor
      · rintro ⟨whole, others⟩
        rw [framed.1.splitStatements whole, same others]
        rfl
      · intro cut
        rw [List.length_cons, List.length_append]
        by_cases whole : ';' ∈ part
        · have two := framed.1.two_le_length whole
          omega
        · have later := more fun others => cut ⟨whole, others⟩
          rw [framed.1.splitStatements whole]
          simp only [List.length_singleton]
          omega

theorem forall₂_splitStatements_iff {α : Type} {relation : α → List Char → Prop}
    {text : α → List Char} {parts : List α} (given : parts ≠ [])
    (framed : ∀ part ∈ parts, Framed (text part)) :
    List.Forall₂ relation parts (splitStatements ([';'].intercalate (parts.map text))) ↔
      ∀ part ∈ parts, ';' ∉ text part ∧ relation part (text part) := by
  rw [splitStatements_intercalate (by simpa using given)]
  rcases splitStatements_parts (List.forall_mem_map.mpr framed) with ⟨same, more⟩
  rw [List.forall_mem_map] at same more
  constructor
  · intro each
    have uncut : ∀ part ∈ parts, ';' ∉ text part := by
      by_contra cut
      have longer := more cut
      rw [List.length_map, each.length_eq] at longer
      exact Nat.lt_irrefl _ longer
    rw [same uncut, List.forall₂_map_right_iff, List.forall₂_same] at each
    exact fun part listed => ⟨uncut part listed, each part listed⟩
  · intro each
    rw [same fun part listed => (each part listed).1, List.forall₂_map_right_iff,
      List.forall₂_same]
    exact fun part listed => (each part listed).2

/-! Segments. -/

namespace Segment

def isPlaceholder : Segment → Bool
  | .placeholder _ => true
  | _ => false

/-- The characters that the segment was cut from. -/
def text : Segment → List Char
  | .doubledMark => ['@', '@']
  | .placeholder name => '@' :: name
  | .character value => [value]

end Segment

theorem segments_cons {character : Char} (plain : character ≠ '@') (rest : List Char) :
    segments (character :: rest) = .character character :: segments rest := by
  rw [segments]
  · intro _ equal _
    exact plain equal
  · intro equal
    exact plain equal

theorem segments_mark {rest : List Char} (single : rest.head? ≠ some '@') :
    segments ('@' :: rest) =
      if (rest.takeWhile isWordCharacter).isEmpty then .character '@' :: segments rest
      else .placeholder (rest.takeWhile isWordCharacter) ::
        segments (rest.dropWhile isWordCharacter) := by
  rw [segments]
  intro tail equal
  exact single (equal ▸ rfl)

theorem segments_append_of_unmarked {left : List Char} (unmarked : '@' ∉ left)
    (rest : List Char) :
    segments (left ++ rest) = left.map Segment.character ++ segments rest := by
  induction left with
  | nil => rfl
  | cons character left induction =>
      rw [List.mem_cons, not_or] at unmarked
      rw [List.cons_append, segments_cons (Ne.symm unmarked.1), induction unmarked.2]
      rfl

theorem segments_of_unmarked {text : List Char} (unmarked : '@' ∉ text) :
    segments text = text.map Segment.character := by
  simpa [segments] using segments_append_of_unmarked unmarked []

section Stop

variable {stop : Char} (mark : stop ≠ '@') (ends : isWordCharacter stop = false)

include ends in
/-- A run of word characters ends before the stop. -/
theorem run_append (left rest : List Char) :
    (left ++ stop :: rest).takeWhile isWordCharacter = left.takeWhile isWordCharacter ∧
    (left ++ stop :: rest).dropWhile isWordCharacter =
      left.dropWhile isWordCharacter ++ stop :: rest := by
  induction left with
  | nil => simp [ends]
  | cons character left induction =>
      cases word : isWordCharacter character <;> simp [word, induction]

include mark in
theorem head?_append_ne {left : List Char} (single : ∀ rest, left = '@' :: rest → False)
    (rest : List Char) : (left ++ stop :: rest).head? ≠ some '@' := by
  cases left with
  | nil => simpa using mark
  | cons character left =>
      intro head
      exact single left (by rw [Option.some.inj head])

theorem head?_ne {left : List Char} (single : ∀ rest, left = '@' :: rest → False) :
    left.head? ≠ some '@' := by
  intro head
  rcases List.head?_eq_some_iff.mp head with ⟨rest, rfl⟩
  exact single rest rfl

include mark ends in
/-- What a text is cut into does not depend on what stands behind a character that no
placeholder goes on over. -/
theorem segments_append_cons (left rest : List Char) :
    segments (left ++ stop :: rest) = segments left ++ segments (stop :: rest) := by
  induction left using segments.induct with
  | case1 => simp [segments]
  | case2 left induction =>
      rw [List.cons_append, List.cons_append, segments, segments, induction]
      rfl
  | case3 left single empty induction =>
      rw [List.cons_append, segments_mark (head?_append_ne mark single rest),
        segments_mark (head?_ne single), (run_append ends left rest).1, if_pos empty, if_pos empty,
        induction]
      rfl
  | case4 left single named induction =>
      rw [List.cons_append, segments_mark (head?_append_ne mark single rest),
        segments_mark (head?_ne single), (run_append ends left rest).1,
        (run_append ends left rest).2, if_neg named, if_neg named, induction]
      rfl
  | case5 character left other another induction =>
      rw [List.cons_append, segments_cons another, segments_cons another, induction]
      rfl

end Stop

theorem head?_word_append_ne {name : List Char} (some' : name ≠ [])
    (word : ∀ character ∈ name, isWordCharacter character = true) (rest : List Char) :
    (name ++ rest).head? ≠ some '@' := by
  rcases List.exists_cons_of_ne_nil some' with ⟨first, others, rfl⟩
  intro head
  have marked := word first List.mem_cons_self
  rw [Option.some.inj head] at marked
  exact absurd marked (by decide)

/-- A placeholder is cut as a whole where it is not carried on. -/
theorem segments_placeholder {name rest : List Char} (some' : name ≠ [])
    (word : ∀ character ∈ name, isWordCharacter character = true)
    (ends : ∀ next ∈ rest.head?, isWordCharacter next = false) :
    segments ('@' :: (name ++ rest)) = .placeholder name :: segments rest := by
  have stop : rest.takeWhile isWordCharacter = [] ∧ rest.dropWhile isWordCharacter = rest := by
    cases rest with
    | nil => simp
    | cons next others => simp [ends next rfl]
  rw [segments_mark (head?_word_append_ne some' word rest), List.takeWhile_append_of_pos word,
    List.dropWhile_append_of_pos word, stop.1, stop.2, List.append_nil,
    if_neg (by simpa using some')]

theorem segments_placeholder_alone {name : List Char} (some' : name ≠ [])
    (word : ∀ character ∈ name, isWordCharacter character = true) :
    segments ('@' :: name) = [.placeholder name] := by
  have alone : segments ('@' :: (name ++ [])) = .placeholder name :: segments [] :=
    segments_placeholder some' word (by simp)
  rwa [List.append_nil, segments] at alone

theorem flatMap_text_segments (text : List Char) :
    (segments text).flatMap Segment.text = text := by
  induction text using segments.induct with
  | case1 => simp [segments]
  | case2 text induction => simp [segments, Segment.text, induction]
  | case3 text single empty induction =>
      rw [segments_mark (head?_ne single), if_pos empty, List.flatMap_cons, induction]
      rfl
  | case4 text single named induction =>
      rw [segments_mark (head?_ne single), if_neg named, List.flatMap_cons, induction,
        Segment.text, List.cons_append, List.takeWhile_append_dropWhile]
  | case5 character text other another induction =>
      rw [segments_cons another, List.flatMap_cons, induction]
      rfl

/-! Quoted names. -/

theorem doubleQuotes_cons (quote character : Char) (text : List Char) :
    doubleQuotes [quote] 0 (character :: text) =
      if character = quote then quote :: quote :: doubleQuotes [quote] 0 text
      else character :: doubleQuotes [quote] 0 text := by
  by_cases equal : character = quote
  · simp [doubleQuotes, equal]
  · simp [doubleQuotes, equal, Ne.symm equal]

theorem mem_doubleQuotes {quote character : Char} {text : List Char} :
    character ∈ doubleQuotes [quote] 0 text ↔ character ∈ text := by
  induction text with
  | nil => rfl
  | cons first text induction =>
      rw [doubleQuotes_cons]
      split_ifs with equal <;> simp [induction, equal]

/-- Doubling a character that is no word character leaves the runs of the others. -/
theorem run_doubleQuotes {quote : Char} (ends : isWordCharacter quote = false) (text : List Char) :
    (doubleQuotes [quote] 0 text).takeWhile isWordCharacter = text.takeWhile isWordCharacter ∧
    (doubleQuotes [quote] 0 text).dropWhile isWordCharacter =
      doubleQuotes [quote] 0 (text.dropWhile isWordCharacter) := by
  induction text with
  | nil => exact ⟨rfl, rfl⟩
  | cons character text induction =>
      cases word : isWordCharacter character with
      | true =>
          have other : character ≠ quote := by
            rintro rfl
            rw [word] at ends
            cases ends
          simp [doubleQuotes_cons, other, word, induction]
      | false =>
          have kept : (doubleQuotes [quote] 0 (character :: text)).takeWhile isWordCharacter = [] ∧
              (doubleQuotes [quote] 0 (character :: text)).dropWhile isWordCharacter =
                doubleQuotes [quote] 0 (character :: text) := by
            rw [doubleQuotes_cons]
            split_ifs <;> simp [ends, word]
          simp [kept, word]

/-- A quoted name holds the placeholders that the name holds. -/
theorem countP_segments_doubleQuotes {quote : Char} (mark : quote ≠ '@')
    (ends : isWordCharacter quote = false) (text : List Char) :
    (segments (doubleQuotes [quote] 0 text)).countP Segment.isPlaceholder =
      (segments text).countP Segment.isPlaceholder := by
  have single : ∀ rest : List Char, (∀ tail, rest = '@' :: tail → False) →
      (doubleQuotes [quote] 0 rest).head? ≠ some '@' := by
    intro rest single
    cases rest with
    | nil => exact Option.some_ne_none _ |>.symm
    | cons character rest =>
        rw [doubleQuotes_cons]
        split_ifs
        · simpa using mark
        · intro head
          exact single rest (by rw [Option.some.inj head])
  induction text using segments.induct with
  | case1 => rfl
  | case2 text induction =>
      simp [doubleQuotes_cons, Ne.symm mark, segments, List.countP_cons, induction]
  | case3 text alone empty induction =>
      rw [doubleQuotes_cons, if_neg (Ne.symm mark), segments_mark (single text alone),
        segments_mark (head?_ne alone), (run_doubleQuotes ends text).1, if_pos empty, if_pos empty,
        List.countP_cons, List.countP_cons, induction]
  | case4 text alone named induction =>
      rw [doubleQuotes_cons, if_neg (Ne.symm mark), segments_mark (single text alone),
        segments_mark (head?_ne alone), (run_doubleQuotes ends text).1,
        (run_doubleQuotes ends text).2, if_neg named, if_neg named, List.countP_cons,
        List.countP_cons, induction]
  | case5 character text other another induction =>
      rw [doubleQuotes_cons, segments_cons another]
      split_ifs with equal
      · rw [segments_cons mark, segments_cons mark, List.countP_cons, List.countP_cons,
          List.countP_cons, induction]
        rfl
      · rw [segments_cons another, List.countP_cons, List.countP_cons, induction]

/-! Prepared segments. -/

variable {params : Params}

theorem prepareSegments_cons_eq_ok {segment : Segment} {rest : List Segment}
    {prepared : Prepared} :
    prepareSegments params (segment :: rest) = .ok prepared ↔
      ∃ first others, segment.prepare params = .ok first ∧
        prepareSegments params rest = .ok others ∧ prepared = first.append others := by
  rw [prepareSegments]
  cases segment.prepare params with
  | error error => simp [bind, Except.bind]
  | ok first =>
      cases prepareSegments params rest <;> simp [bind, Except.bind, pure, Except.pure, eq_comm]

theorem prepareSegments_append {first second : List Segment} {left right : Prepared}
    (head : prepareSegments params first = .ok left)
    (tail : prepareSegments params second = .ok right) :
    prepareSegments params (first ++ second) = .ok (left.append right) := by
  induction first generalizing left with
  | nil =>
      cases head
      simpa [Prepared.append] using tail
  | cons segment first induction =>
      rcases prepareSegments_cons_eq_ok.mp head with ⟨here, there, own, others, rfl⟩
      refine prepareSegments_cons_eq_ok.mpr ⟨here, _, own, induction others, ?_⟩
      simp [Prepared.append]

/-- What holds no placeholder is sent as it is. -/
theorem prepareSegments_of_inert {cut : List Segment}
    (inert : ∀ segment ∈ cut, segment.isPlaceholder = false) :
    prepareSegments params cut = .ok { sql := cut.flatMap Segment.text, arguments := [] } := by
  induction cut with
  | nil => rfl
  | cons segment cut induction =>
      have rest := induction fun other listed => inert other (List.mem_cons_of_mem _ listed)
      have own := inert segment List.mem_cons_self
      refine prepareSegments_cons_eq_ok.mpr ⟨⟨segment.text, []⟩, _, ?_, rest, rfl⟩
      cases segment with
      | placeholder name => cases own
      | doubledMark | character => rfl

/-- Each placeholder takes one argument. -/
theorem length_arguments {cut : List Segment} {prepared : Prepared}
    (done : prepareSegments params cut = .ok prepared) :
    prepared.arguments.length = cut.countP Segment.isPlaceholder := by
  induction cut generalizing prepared with
  | nil =>
      cases done
      rfl
  | cons segment cut induction =>
      rcases prepareSegments_cons_eq_ok.mp done with ⟨first, others, own, rest, rfl⟩
      have one : first.arguments.length = if segment.isPlaceholder then 1 else 0 := by
        cases segment with
        | placeholder name =>
            simp only [Segment.prepare] at own
            split at own <;> cases own
            rfl
        | doubledMark | character =>
            cases own
            rfl
      rw [Prepared.append, List.length_append, induction rest, one, List.countP_cons]
      omega

end MySql

end EntitySql
