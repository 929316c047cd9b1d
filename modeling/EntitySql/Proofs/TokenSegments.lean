import EntitySql.Proofs.Legible
import EntitySql.Proofs.Segments

/-! What the segments of a statement's text are in terms of its tokens. The executor does not
look at quotes: a token is cut as it would be alone, and a quoted name as if it were not
quoted. A statement is prepared as it was built where its names hold no placeholders, and
only there, since every placeholder that is read takes a value of its own. -/

namespace EntitySql

open MySql

/-- The name holds no semicolon and nothing that reads as a placeholder. -/
def Inert (name : String) : Prop :=
  ';' ∉ name.toList ∧ ∀ segment ∈ segments name.toList, segment.isPlaceholder = false

instance (name : String) : Decidable (Inert name) :=
  instDecidableAnd

/-! Tokens. -/

namespace Token

def quoted? : Token → Option String
  | .identifier name => some name
  | _ => none

/-- The text of a token where its value is sent apart. -/
def positional : Token → List Char
  | .placeholder _ => ['?']
  | token => token.characters Dialect.mysql.lexical

/-- How many placeholders are read in the name that a token quotes. -/
def strays : Token → Nat
  | .identifier name => (segments name.toList).countP Segment.isPlaceholder
  | _ => 0

theorem characters_identifier (name : String) :
    (Token.identifier name).characters Dialect.mysql.lexical =
      '\x60' :: (doubleQuotes ['\x60'] 0 name.toList ++ ['\x60']) := by
  simp [characters, Lexical.quote, Dialect.openQuote, Dialect.closeQuote]

theorem unmarked_of_word {text : List Char}
    (word : ∀ character ∈ text, isWordCharacter character = true) : '@' ∉ text := by
  intro marked
  exact absurd (word '@' marked) (by decide)

theorem unmarked_symbol (glyph : Symbol) : '@' ∉ glyph.text := by
  cases glyph <;> decide

/-- A token is cut into the same segments wherever it may stand. -/
theorem segments_append {token : Token} {rest : List Char} (proper : token.Proper)
    (ends : ∀ next ∈ rest.head?, token.EndsBefore .mysql next) :
    segments (token.characters Dialect.mysql.lexical ++ rest) =
      segments (token.characters Dialect.mysql.lexical) ++ segments rest := by
  have plain : ∀ text : List Char, '@' ∉ text →
      segments (text ++ rest) = segments text ++ segments rest := by
    intro text unmarked
    rw [segments_append_of_unmarked unmarked, segments_of_unmarked unmarked]
  cases token with
  | word text => exact plain _ (unmarked_of_word proper.2)
  | symbol glyph => exact plain _ (unmarked_symbol glyph)
  | space => exact plain _ (by decide)
  | systemVariable name =>
      have tail := plain _ (unmarked_of_word proper.2)
      simp [characters, segments, tail]
  | placeholder name =>
      have alone := segments_placeholder_alone proper.1 proper.2
      have whole := segments_placeholder proper.1 proper.2 ends
      have shape : (Token.placeholder name).characters Dialect.mysql.lexical =
          '@' :: name.toList := rfl
      rw [shape, List.cons_append, whole, alone]
      simp
  | identifier name =>
      have quoted : ∀ others : List Char,
          segments ((Token.identifier name).characters Dialect.mysql.lexical ++ others) =
            .character '\x60' :: (segments (doubleQuotes ['\x60'] 0 name.toList) ++
              .character '\x60' :: segments others) := by
        intro others
        rw [characters_identifier, List.cons_append, List.append_assoc, List.singleton_append,
          segments_cons (by decide), segments_append_cons (by decide) (by decide),
          segments_cons (by decide)]
      have alone := quoted []
      rw [List.append_nil] at alone
      rw [quoted, alone]
      simp [segments]

/-- A token is read as one placeholder where it is one, and its quoted name as those that
stand in it. -/
theorem countP_segments {token : Token} (proper : token.Proper) :
    (segments (token.characters Dialect.mysql.lexical)).countP Segment.isPlaceholder =
      token.placeholder?.toList.length + token.strays := by
  have plain : ∀ text : List Char, '@' ∉ text →
      (segments text).countP Segment.isPlaceholder = 0 := by
    intro text unmarked
    rw [segments_of_unmarked unmarked, List.countP_eq_zero]
    simp [Segment.isPlaceholder]
  cases token with
  | word text => exact plain _ (unmarked_of_word proper.2)
  | symbol glyph => exact plain _ (unmarked_symbol glyph)
  | space => exact plain _ (by decide)
  | systemVariable name =>
      simpa [characters, segments, placeholder?, strays, List.countP_cons,
        Segment.isPlaceholder] using plain _ (unmarked_of_word proper.2)
  | placeholder name =>
      have alone := segments_placeholder_alone proper.1 proper.2
      simp [characters, Lexical.placeholder, Dialect.lexical, alone, placeholder?,
        strays, List.countP_cons, Segment.isPlaceholder]
  | identifier name =>
      have inside : (segments (doubleQuotes ['\x60'] 0 name.toList)).countP Segment.isPlaceholder =
          (segments name.toList).countP Segment.isPlaceholder :=
        countP_segments_doubleQuotes (by decide) (by decide) _
      rw [characters_identifier, segments_cons (by decide),
        segments_append_cons (by decide) (by decide), segments_cons (by decide), List.countP_cons,
        List.countP_append, inside]
      simp [segments, placeholder?, strays, Segment.isPlaceholder]

/-- A token without strays is sent as its positional text, and a placeholder as its value. -/
theorem prepareSegments_token {token : Token} (proper : token.Proper) (clean : token.strays = 0)
    {params : Params} {values : List Value}
    (bound : List.Forall₂ (fun name value => params.get? name = some value)
      token.placeholder?.toList values) :
    prepareSegments params (segments (token.characters Dialect.mysql.lexical)) =
      .ok { sql := token.positional, arguments := values.map argument } := by
  cases shown : token.placeholder? with
  | some name =>
      cases token <;> cases shown
      rcases List.forall₂_cons_left_iff.mp bound with ⟨value, rest, found, none', rfl⟩
      cases none'
      have alone := segments_placeholder_alone proper.1 proper.2
      have shape : (Token.placeholder name).characters Dialect.mysql.lexical =
          '@' :: name.toList := rfl
      rw [shape, alone]
      simp [prepareSegments, Segment.prepare, String.ofList_toList, found]
      rfl
  | none =>
      have none' : values = [] := by simpa [shown] using bound
      have count := countP_segments proper
      rw [shown, clean] at count
      have inert := List.countP_eq_zero.mp count
      have same : token.positional = token.characters Dialect.mysql.lexical := by
        cases token <;> first | rfl | cases shown
      rw [prepareSegments_of_inert (by simpa using inert), flatMap_text_segments, none', same]
      rfl

end Token

/-! Fragments. -/

namespace Fragment

theorem segments_characters {fragment : Fragment} (legible : fragment.Legible) :
    segments (fragment.characters Dialect.mysql.lexical) =
      fragment.flatMap fun token => segments (token.characters Dialect.mysql.lexical) := by
  induction fragment with
  | nil => simp [characters, segments]
  | cons token fragment induction =>
      have ends := Dialect.mysql.endsBefore_of_legible legible
      have rest := induction
        ⟨fun other listed => legible.proper other (List.mem_cons_of_mem _ listed),
          legible.apart.tail⟩
      have split : characters Dialect.mysql.lexical (token :: fragment) =
          token.characters Dialect.mysql.lexical ++ characters Dialect.mysql.lexical fragment :=
        List.flatMap_cons
      rw [split, Token.segments_append (legible.proper token List.mem_cons_self) ends, rest,
        List.flatMap_cons]

/-- The names that the fragment quotes. -/
def quoted (fragment : Fragment) : List String :=
  fragment.filterMap Token.quoted?

theorem mem_quoted {fragment : Fragment} {name : String} :
    name ∈ fragment.quoted ↔ .identifier name ∈ fragment := by
  rw [quoted, List.mem_filterMap]
  constructor
  · rintro ⟨token, listed, shown⟩
    cases token <;> cases shown
    exact listed
  · exact fun listed => ⟨_, listed, rfl⟩

/-- The text of a fragment where its values are sent apart. -/
def positional (fragment : Fragment) : List Char :=
  fragment.flatMap Token.positional

end Fragment

/-- The part is sent as the text of the statement with its placeholders positional, and with
the values that these stand for, in their order. -/
def Prepares (params : Params) (statement : Fragment) (part : List Char) : Prop :=
  ∃ values, List.Forall₂ (fun name value => params.get? name = some value)
      statement.placeholders values ∧
    prepare params part =
      .ok { sql := statement.positional, arguments := values.map argument }

theorem sql_of_prepares {params : Params} {statements : List Fragment}
    {parts : List (List Char)} (prepares : List.Forall₂ (Prepares params) statements parts) :
    parts.map (fun part => (prepare params part).toOption.map (·.sql)) =
      statements.map (some ·.positional) := by
  induction prepares with
  | nil => rfl
  | cons first _ induction =>
      rcases first with ⟨values, -, prepared⟩
      rw [List.map_cons, List.map_cons, induction, prepared]
      rfl

namespace Fragment

theorem mem_placeholders {fragment : Fragment} {name : String} :
    name ∈ fragment.placeholders ↔ .placeholder name ∈ fragment := by
  rw [placeholders, List.mem_filterMap]
  constructor
  · rintro ⟨token, listed, shown⟩
    cases token <;> cases shown
    exact listed
  · exact fun listed => ⟨_, listed, rfl⟩

theorem placeholders_cons (token : Token) (fragment : Fragment) :
    placeholders (token :: fragment) = token.placeholder?.toList ++ placeholders fragment := by
  cases token <;> rfl

variable {fragment : Fragment} {params : Params}

theorem prepares_of_strays (legible : fragment.Legible)
    (clean : ∀ token ∈ fragment, token.strays = 0)
    (bound : ∀ name ∈ fragment.placeholders, ∃ value, params.get? name = some value) :
    Prepares params fragment (fragment.characters Dialect.mysql.lexical) := by
  rw [Prepares, prepare, segments_characters legible]
  have proper := legible.proper
  clear legible
  induction fragment with
  | nil => exact ⟨[], .nil, rfl⟩
  | cons token fragment induction =>
      rw [List.forall_mem_cons] at clean proper
      rw [placeholders_cons, List.forall_mem_append] at bound
      rcases induction clean.2 bound.2 proper.2 with ⟨rest, restBound, restPrepared⟩
      have named : ∃ values, List.Forall₂ (fun name value => params.get? name = some value)
          token.placeholder?.toList values := by
        cases shown : token.placeholder? with
        | none => exact ⟨[], .nil⟩
        | some name =>
            rcases bound.1 name (by simp [shown]) with ⟨value, found⟩
            exact ⟨[value], .cons found .nil⟩
      rcases named with ⟨values, valuesBound⟩
      refine ⟨values ++ rest, ?_, ?_⟩
      · rw [placeholders_cons]
        exact List.rel_append valuesBound restBound
      · have head := Token.prepareSegments_token proper.1 clean.1 valuesBound
        rw [List.flatMap_cons, prepareSegments_append head restPrepared, List.map_append]
        rfl

/-- How many placeholders are read in the names that the fragment quotes. -/
def strays : Fragment → Nat
  | [] => 0
  | token :: rest => token.strays + strays rest

theorem strays_eq_zero_iff : fragment.strays = 0 ↔ ∀ token ∈ fragment, token.strays = 0 := by
  induction fragment with
  | nil => simp [strays]
  | cons token fragment induction =>
      rw [strays, Nat.add_eq_zero_iff, induction, List.forall_mem_cons]

theorem countP_segments (proper : ∀ token ∈ fragment, token.Proper) :
    (fragment.flatMap fun token =>
        segments (token.characters Dialect.mysql.lexical)).countP Segment.isPlaceholder =
      fragment.placeholders.length + fragment.strays := by
  induction fragment with
  | nil => rfl
  | cons token fragment induction =>
      rw [List.forall_mem_cons] at proper
      rw [List.flatMap_cons, List.countP_append, induction proper.2,
        Token.countP_segments proper.1, placeholders_cons, List.length_append, strays]
      omega

/-- A value is sent for each placeholder that is read, so that one more of them than were
built shows. -/
theorem strays_of_prepares (legible : fragment.Legible)
    (prepares : Prepares params fragment (fragment.characters Dialect.mysql.lexical)) :
    ∀ token ∈ fragment, token.strays = 0 := by
  rcases prepares with ⟨values, bound, prepared⟩
  rw [prepare, segments_characters legible] at prepared
  have sent := length_arguments prepared
  rw [countP_segments legible.proper, List.length_map, ← bound.length_eq] at sent
  have none : fragment.strays = 0 := by omega
  exact strays_eq_zero_iff.mp none

theorem prepares_iff (legible : fragment.Legible)
    (bound : ∀ name ∈ fragment.placeholders, ∃ value, params.get? name = some value) :
    Prepares params fragment (fragment.characters Dialect.mysql.lexical) ↔
      ∀ name ∈ fragment.quoted, ∀ segment ∈ segments name.toList,
        segment.isPlaceholder = false := by
  constructor
  · intro prepares name shown
    have none := strays_of_prepares legible prepares _ (mem_quoted.mp shown)
    simpa using List.countP_eq_zero.mp none
  · intro clean
    refine prepares_of_strays legible (fun token listed => ?_) bound
    cases token with
    | identifier name =>
        exact List.countP_eq_zero.mpr (by simpa using clean name (mem_quoted.mpr listed))
    | word | placeholder | systemVariable | symbol | space => rfl

end Fragment

end EntitySql
