import EntitySql.Proofs.FreshName
import EntitySql.Proofs.Lexer
import EntitySql.Sql.Condition

/-! How legible fragments are put together, and which placeholders they show. A
fragment is never cut inside a run of word characters or between two symbols that
would read as one, because its parts meet at separators. -/

namespace EntitySql

namespace Token

instance : (token : Token) → Decidable token.Proper
  | .word text | .placeholder text | .systemVariable text =>
      @instDecidableAnd _ _ _ (List.decidableBAll (isWordCharacter · = true) text.toList)
  | .space | .identifier _ | .symbol _ => .isTrue trivial

/-- Tokens that any token may stand before and after. -/
def isSeparator : Token → Bool
  | .space => true
  | .symbol .plus | .symbol .minus | .symbol .times | .symbol .slash => true
  | .symbol .comma | .symbol .dot | .symbol .semicolon => true
  | .symbol .openParen | .symbol .closeParen => true
  | _ => false

theorem mayPrecede_separator {token separator : Token}
    (separates : separator.isSeparator = true) : token.mayPrecede separator = true := by
  unfold mayPrecede
  split <;> first | rfl | exact absurd separates Bool.false_ne_true

theorem separator_mayPrecede {token separator : Token}
    (separates : separator.isSeparator = true) : separator.mayPrecede token = true := by
  unfold mayPrecede
  split <;> first | rfl | exact absurd separates Bool.false_ne_true

theorem proper_of_isSeparator {separator : Token}
    (separates : separator.isSeparator = true) : separator.Proper := by
  cases separator <;> trivial

def placeholder? : Token → Option String
  | .placeholder name => some name
  | _ => none

end Token

theorem proper_word_of_isPlainIdentifier {name : String}
    (plain : isPlainIdentifier name = true) : (Token.word name).Proper :=
  word_of_isPlainIdentifier plain

theorem proper_placeholder_of_isPlainIdentifier {name : String}
    (plain : isPlainIdentifier name = true) : (Token.placeholder name).Proper :=
  word_of_isPlainIdentifier plain

namespace Fragment

/-- The names of the placeholders, from left to right. -/
def placeholders (fragment : Fragment) : List String :=
  fragment.filterMap Token.placeholder?

theorem Legible.proper_placeholder {fragment : Fragment} (legible : fragment.Legible)
    {name : String} (shown : name ∈ fragment.placeholders) : (Token.placeholder name).Proper := by
  rcases List.mem_filterMap.mp shown with ⟨token, listed, named⟩
  cases token with
  | placeholder => exact Option.some.inj named ▸ legible.proper _ listed
  | word | identifier | systemVariable | space | symbol => cases named

@[simp] theorem placeholders_nil : placeholders [] = [] :=
  rfl

@[simp] theorem placeholders_append (left right : Fragment) :
    placeholders (left ++ right) = left.placeholders ++ right.placeholders :=
  List.filterMap_append

@[simp] theorem placeholders_placeholder (name : String) (rest : Fragment) :
    placeholders (.placeholder name :: rest) = name :: placeholders rest :=
  rfl

@[simp] theorem placeholders_word (text : String) (rest : Fragment) :
    placeholders (.word text :: rest) = placeholders rest :=
  rfl

@[simp] theorem placeholders_identifier (name : String) (rest : Fragment) :
    placeholders (.identifier name :: rest) = placeholders rest :=
  rfl

@[simp] theorem placeholders_symbol (glyph : Symbol) (rest : Fragment) :
    placeholders (.symbol glyph :: rest) = placeholders rest :=
  rfl

@[simp] theorem placeholders_space (rest : Fragment) :
    placeholders (.space :: rest) = placeholders rest :=
  rfl

theorem legible_nil : Legible [] :=
  ⟨by simp, .nil⟩

@[simp] theorem legible_singleton {token : Token} : Legible [token] ↔ token.Proper :=
  ⟨fun legible => legible.proper token (by simp),
    fun proper => ⟨by simpa using proper, .singleton token⟩⟩

/-- A separator cuts a fragment into parts that are legible on their own. -/
theorem legible_append_cons {left right : Fragment} {separator : Token}
    (separates : separator.isSeparator = true) :
    Legible (left ++ separator :: right) ↔ left.Legible ∧ right.Legible := by
  constructor
  · intro legible
    have parts := List.isChain_append.mp legible.apart
    exact ⟨⟨fun token member => legible.proper token (by simp [member]), parts.1⟩,
      ⟨fun token member => legible.proper token (by simp [member]), parts.2.1.tail⟩⟩
  · rintro ⟨leftLegible, rightLegible⟩
    refine ⟨?_, List.isChain_append.mpr ⟨leftLegible.apart, ?_, ?_⟩⟩
    · intro token member
      rcases List.mem_append.mp member with member | member
      · exact leftLegible.proper token member
      · rcases List.mem_cons.mp member with rfl | member
        · exact Token.proper_of_isSeparator separates
        · exact rightLegible.proper token member
    · exact List.isChain_cons.mpr
        ⟨fun _ _ => Token.separator_mayPrecede separates, rightLegible.apart⟩
    · intro token _ next head
      rw [List.head?_cons, Option.mem_some_iff] at head
      exact head ▸ Token.mayPrecede_separator separates

theorem legible_cons {separator : Token} {rest : Fragment}
    (separates : separator.isSeparator = true) :
    Legible (separator :: rest) ↔ rest.Legible := by
  have cut : Legible ([] ++ separator :: rest) ↔ _ := legible_append_cons separates
  simpa [legible_nil] using cut

theorem legible_cons_cons {token separator : Token} {rest : Fragment}
    (separates : separator.isSeparator = true) :
    Legible (token :: separator :: rest) ↔ token.Proper ∧ rest.Legible := by
  have cut : Legible ([token] ++ separator :: rest) ↔ _ := legible_append_cons separates
  simpa using cut

/-- Nothing runs on into the fragment: it is empty or starts with a separator. -/
def StartsApart (fragment : Fragment) : Prop :=
  ∀ token ∈ fragment.head?, token.isSeparator = true

theorem startsApart_cons {separator : Token} {rest : Fragment}
    (separates : separator.isSeparator = true) : StartsApart (separator :: rest) := by
  intro token head
  exact Option.some.inj head ▸ separates

theorem legible_append {left right : Fragment} (leftLegible : left.Legible)
    (rightLegible : right.Legible) (apart : right.StartsApart) : (left ++ right).Legible := by
  cases right with
  | nil => rwa [List.append_nil]
  | cons separator rest =>
      have separates := apart separator rfl
      exact (legible_append_cons separates).mpr
        ⟨leftLegible, (legible_cons separates).mp rightLegible⟩

theorem startsApart_append {left right : Fragment} (leftApart : left.StartsApart)
    (rightApart : right.StartsApart) : (left ++ right).StartsApart := by
  cases left with
  | nil => exact rightApart
  | cons separator rest => exact leftApart

theorem startsApart_flatten {fragments : List Fragment}
    (apart : ∀ fragment ∈ fragments, fragment.StartsApart) :
    StartsApart fragments.flatten := by
  induction fragments with
  | nil => exact fun _ member => absurd member (Option.not_mem_none _)
  | cons first rest induction =>
      exact startsApart_append (apart first List.mem_cons_self)
        (induction fun fragment member => apart fragment (List.mem_cons_of_mem _ member))

theorem legible_flatten {fragments : List Fragment}
    (legible : ∀ fragment ∈ fragments, fragment.Legible)
    (apart : ∀ fragment ∈ fragments, fragment.StartsApart) : Legible fragments.flatten := by
  induction fragments with
  | nil => exact legible_nil
  | cons first rest induction =>
      have restApart := fun fragment member => apart fragment (List.mem_cons_of_mem _ member)
      exact legible_append (legible first List.mem_cons_self)
        (induction (fun fragment member => legible fragment (List.mem_cons_of_mem _ member))
          restApart)
        (startsApart_flatten restApart)

/-- Parts with a fragment between each two, where that fragment keeps them apart. -/
theorem legible_intercalate {between : Fragment} {fragments : List Fragment}
    (joins : ∀ left right : Fragment, left.Legible → right.Legible →
      Legible (left ++ between ++ right))
    (legible : ∀ fragment ∈ fragments, fragment.Legible) :
    Legible (between.intercalate fragments) := by
  induction fragments with
  | nil => exact legible_nil
  | cons first rest induction =>
      have restLegible := induction fun fragment member =>
        legible fragment (List.mem_cons_of_mem _ member)
      have firstLegible := legible first List.mem_cons_self
      cases rest with
      | nil => rwa [List.intercalate_singleton]
      | cons second rest =>
          rw [List.intercalate_cons_cons]
          exact joins _ _ firstLegible restLegible

theorem placeholders_intercalate {between : Fragment} (bare : between.placeholders = [])
    (fragments : List Fragment) :
    placeholders (between.intercalate fragments) = fragments.flatMap placeholders := by
  induction fragments with
  | nil => rfl
  | cons first rest induction =>
      cases rest with
      | nil => simp [List.intercalate_singleton]
      | cons second rest =>
          rw [List.intercalate_cons_cons, placeholders_append, placeholders_append, induction,
            bare, List.append_nil, ← List.flatMap_cons]

/-- A legible fragment that shows no placeholder. -/
structure Bare (fragment : Fragment) : Prop where
  legible : fragment.Legible
  placeholders : fragment.placeholders = []

theorem bare_nil : Bare [] :=
  ⟨legible_nil, rfl⟩

theorem placeholders_flatMap_bare {fragments : List Fragment}
    (bare : ∀ fragment ∈ fragments, fragment.Bare) :
    fragments.flatMap placeholders = [] := by
  rw [List.flatMap_eq_nil_iff]
  exact fun fragment member => (bare fragment member).placeholders

/-- A bare fragment that can be put behind any other. -/
structure Appendable (fragment : Fragment) : Prop where
  bare : fragment.Bare
  apart : fragment.StartsApart

theorem appendable_nil : Appendable [] :=
  ⟨bare_nil, fun _ member => absurd member (Option.not_mem_none _)⟩

theorem appendable_space {rest : Fragment} (bare : rest.Bare) : Appendable (.space :: rest) :=
  ⟨⟨(legible_cons rfl).mpr bare.legible, bare.placeholders⟩, startsApart_cons rfl⟩

theorem appendable_flatten {fragments : List Fragment}
    (appendable : ∀ fragment ∈ fragments, fragment.Appendable) :
    Appendable fragments.flatten := by
  have apart := fun fragment member => (appendable fragment member).apart
  refine ⟨⟨legible_flatten (fun fragment member => (appendable fragment member).bare.legible)
    apart, ?_⟩, startsApart_flatten apart⟩
  have none := placeholders_flatMap_bare fun fragment member => (appendable fragment member).bare
  simpa [placeholders, List.filterMap_flatten, List.flatMap] using none

/-! The forms that statements are put together from. -/

theorem Bare.append_space {left right : Fragment} (first : left.Bare) (second : right.Bare) :
    (left ++ .space :: right).Bare :=
  ⟨(legible_append_cons rfl).mpr ⟨first.legible, second.legible⟩, by
    simp [first.placeholders, second.placeholders]⟩

theorem bare_word {text : String} (proper : (Token.word text).Proper) : Bare [.word text] :=
  ⟨legible_singleton.mpr proper, rfl⟩

theorem legible_words {texts : List String}
    (proper : ∀ text ∈ texts, (Token.word text).Proper) : (words texts).Legible := by
  induction texts with
  | nil => exact legible_nil
  | cons first rest induction =>
      have restLegible := induction fun text member => proper text (List.mem_cons_of_mem _ member)
      have firstProper := proper first List.mem_cons_self
      cases rest with
      | nil => exact legible_singleton.mpr firstProper
      | cons second rest => exact (legible_cons_cons rfl).mpr ⟨firstProper, restLegible⟩

@[simp] theorem placeholders_words (texts : List String) : (words texts).placeholders = [] := by
  induction texts with
  | nil => rfl
  | cons first rest induction =>
      cases rest with
      | nil => rfl
      | cons second rest => exact induction

theorem bare_words (texts : List String) (proper : ∀ text ∈ texts, (Token.word text).Proper) :
    (words texts).Bare :=
  ⟨legible_words proper, placeholders_words texts⟩

theorem legible_number (value : Nat) : (number value).Legible := by
  refine legible_singleton.mpr ⟨by simp, ?_⟩
  intro character member
  rw [Nat.toString_eq_repr, Nat.toList_repr] at member
  exact isWordCharacter_of_isDigit (isDigit_of_mem_toDigits member)

theorem bare_number (value : Nat) : (number value).Bare :=
  ⟨legible_number value, rfl⟩

theorem legible_spaced {fragments : List Fragment}
    (legible : ∀ fragment ∈ fragments, fragment.Legible) : (spaced fragments).Legible := by
  refine legible_intercalate (fun left right leftLegible rightLegible => ?_)
    fun fragment member => legible fragment (List.mem_filter.mp member).1
  rw [List.append_assoc]
  exact (legible_append_cons rfl).mpr ⟨leftLegible, rightLegible⟩

@[simp] theorem placeholders_spaced (fragments : List Fragment) :
    (spaced fragments).placeholders = fragments.flatMap placeholders := by
  rw [spaced, placeholders_intercalate rfl]
  induction fragments with
  | nil => rfl
  | cons first rest induction => cases first <;> simp [induction]

theorem legible_commaSeparated {fragments : List Fragment}
    (legible : ∀ fragment ∈ fragments, fragment.Legible) : (commaSeparated fragments).Legible := by
  refine legible_intercalate (fun left right leftLegible rightLegible => ?_) legible
  rw [List.append_assoc]
  exact (legible_append_cons rfl).mpr ⟨leftLegible, (legible_cons rfl).mpr rightLegible⟩

@[simp] theorem placeholders_commaSeparated (fragments : List Fragment) :
    (commaSeparated fragments).placeholders = fragments.flatMap placeholders :=
  placeholders_intercalate rfl fragments

theorem bare_commaSeparated {fragments : List Fragment}
    (bare : ∀ fragment ∈ fragments, fragment.Bare) : (commaSeparated fragments).Bare :=
  ⟨legible_commaSeparated fun fragment member => (bare fragment member).legible, by
    rw [placeholders_commaSeparated, placeholders_flatMap_bare bare]⟩

@[simp] theorem legible_parenthesized {fragment : Fragment} :
    (parenthesized fragment).Legible ↔ fragment.Legible := by
  rw [parenthesized, List.singleton_append, legible_append_cons rfl, legible_cons rfl]
  exact and_iff_left legible_nil

@[simp] theorem placeholders_parenthesized (fragment : Fragment) :
    (parenthesized fragment).placeholders = fragment.placeholders := by
  simp [parenthesized]

@[simp] theorem legible_joined {left right : Fragment} {glyph : Symbol} :
    (joined left glyph right).Legible ↔ left.Legible ∧ right.Legible := by
  have cut : joined left glyph right =
      left ++ .space :: .symbol glyph :: .space :: right := by
    simp [joined]
  rw [cut, legible_append_cons rfl, legible_cons_cons rfl]
  exact and_congr_right fun _ => and_iff_right trivial

@[simp] theorem placeholders_joined (left right : Fragment) (glyph : Symbol) :
    (joined left glyph right).placeholders = left.placeholders ++ right.placeholders := by
  simp [joined]

@[simp] theorem legible_renamed {column : Fragment} {name : String} :
    (renamed column name).Legible ↔ column.Legible := by
  have name : Legible [.word "AS", .space, .identifier name] :=
    (legible_cons_cons rfl).mpr ⟨by decide, legible_singleton.mpr trivial⟩
  rw [renamed, legible_append_cons rfl]
  exact and_iff_left name

@[simp] theorem placeholders_renamed (column : Fragment) (name : String) :
    (renamed column name).placeholders = column.placeholders := by
  simp [renamed]

theorem Bare.renamed {column : Fragment} (bare : column.Bare) (name : String) :
    (renamed column name).Bare :=
  ⟨legible_renamed.mpr bare.legible, by simp [bare.placeholders]⟩

theorem legible_call {function : String} {argument : Fragment}
    (proper : (Token.word function).Proper) :
    (call function argument).Legible ↔ argument.Legible := by
  rw [call, parenthesized, List.append_assoc, List.singleton_append, legible_cons_cons rfl,
    legible_append_cons rfl]
  exact ⟨fun legible => legible.2.1, fun legible => ⟨proper, legible, legible_nil⟩⟩

@[simp] theorem placeholders_call (function : String) (argument : Fragment) :
    (call function argument).placeholders = argument.placeholders := by
  simp [call]

theorem bare_always : always.Bare :=
  ⟨⟨by decide, by decide⟩, rfl⟩

theorem bare_never : never.Bare :=
  ⟨⟨by decide, by decide⟩, rfl⟩

@[simp] theorem legible_nullTest {operand : Fragment} {negated : Bool} :
    (nullTest operand negated).Legible ↔ operand.Legible := by
  rw [nullTest, legible_append_cons rfl]
  refine and_iff_left (legible_words ?_)
  cases negated <;> decide

@[simp] theorem placeholders_nullTest (operand : Fragment) (negated : Bool) :
    (nullTest operand negated).placeholders = operand.placeholders := by
  simp [nullTest]

theorem legible_operatorWord {word : String} (proper : (Token.word word).Proper)
    (negated : Bool) : (operatorWord word negated).Legible := by
  refine legible_words ?_
  cases negated with
  | false => simpa using proper
  | true => simpa using ⟨(by decide : (Token.word "NOT").Proper), proper⟩

@[simp] theorem placeholders_operatorWord (word : String) (negated : Bool) :
    (operatorWord word negated).placeholders = [] :=
  placeholders_words _

@[simp] theorem legible_connected {left right : Fragment} {connective : Connective} :
    (connected left connective right).Legible ↔ left.Legible ∧ right.Legible := by
  have keyword : (Token.word connective.keyword).Proper := by cases connective <;> decide
  have cut : connected left connective right =
      left ++ .space :: .word connective.keyword :: .space :: right := by
    simp [connected]
  rw [cut, legible_append_cons rfl, legible_cons_cons rfl]
  exact and_congr_right fun _ => and_iff_right keyword

@[simp] theorem placeholders_connected (left right : Fragment) (connective : Connective) :
    (connected left connective right).placeholders =
      left.placeholders ++ right.placeholders := by
  simp [connected]

end Fragment

end EntitySql
