import Mathlib.Data.List.Chain
import EntitySql.Dialect
import EntitySql.Text.Identifier

/-! Reading statement text back into tokens. The reader is the lexical rule of a
dialect: quoted identifiers end at a closing quote that is not doubled, a word or
the name of a placeholder is the longest run of word characters, and of two
symbols with one beginning the longer one is read. The main statement is that
the text of a legible fragment reads back as the fragment, token by token. -/

namespace EntitySql

namespace Dialect

def openQuote : Dialect → Char
  | .mysql => '\x60'
  | .sqlServer => '['
  | .oracle => '"'

def closeQuote : Dialect → Char
  | .mysql => '\x60'
  | .sqlServer => ']'
  | .oracle => '"'

@[simp] theorem openQuote_toList (dialect : Dialect) :
    dialect.lexical.openQuote.toList = [dialect.openQuote] := by
  cases dialect <;> rfl

@[simp] theorem closeQuote_toList (dialect : Dialect) :
    dialect.lexical.closeQuote.toList = [dialect.closeQuote] := by
  cases dialect <;> rfl

end Dialect

/-- A name up to its closing quote, and the text after that. A doubled closing
quote stands for one. -/
def readQuoted (close : Char) : List Char → Option (List Char × List Char)
  | [] => none
  | character :: rest =>
      if character = close then
        match rest with
        | [] => some ([], [])
        | next :: others =>
            if next = close then
              (readQuoted close others).map fun (name, after) => (close :: name, after)
            else
              some ([], next :: others)
      else
        (readQuoted close rest).map fun (name, after) => (character :: name, after)

/-- Every symbol, the longer ones first. -/
def Symbol.all : List Symbol :=
  [.notEqual, .greaterOrEqual, .lessOrEqual, .equal, .greater, .less, .plus, .minus, .times,
    .slash, .comma, .dot, .openParen, .closeParen, .semicolon]

def readSymbol (text : List Char) : Option (Symbol × List Char) :=
  (Symbol.all.find? (·.text.isPrefixOf text)).map fun glyph =>
    (glyph, text.drop glyph.text.length)

/-- The longest run of word characters, which must not be empty. -/
def readRun (text : List Char) : Option (String × List Char) :=
  if (text.takeWhile isWordCharacter).isEmpty then
    none
  else
    some (String.ofList (text.takeWhile isWordCharacter), text.dropWhile isWordCharacter)

namespace Dialect

/-- The token at the start of a text, and the text after it. -/
def readToken (dialect : Dialect) : List Char → Option (Token × List Char)
  | [] => none
  | character :: rest =>
      if character = ' ' then
        some (.space, rest)
      else if character = dialect.openQuote then
        (readQuoted dialect.closeQuote rest).map fun (name, after) =>
          (.identifier (String.ofList name), after)
      else if character = '@' ∧ rest.head? = some '@' then
        (readRun rest.tail).map fun (name, after) => (.systemVariable name, after)
      else if character = dialect.lexical.mark then
        (readRun rest).map fun (name, after) => (.placeholder name, after)
      else if isWordCharacter character then
        (readRun (character :: rest)).map fun (text, after) => (.word text, after)
      else
        (readSymbol (character :: rest)).map fun (glyph, after) => (.symbol glyph, after)

/-- The tokens of a text. `skip` counts the characters left of a token that is
already read. -/
def readTokensFrom (dialect : Dialect) : (skip : Nat) → List Char → Option Fragment
  | _, [] => some []
  | skip + 1, _ :: rest => readTokensFrom dialect skip rest
  | 0, character :: rest => do
      let (token, after) ← dialect.readToken (character :: rest)
      let tokens ← readTokensFrom dialect (rest.length - after.length) rest
      return token :: tokens

def readTokens (dialect : Dialect) (text : String) : Option Fragment :=
  dialect.readTokensFrom 0 text.toList

end Dialect

/-! A token ends where it does if the next character cannot carry it on. -/

namespace Token

/-- Words and names are runs of word characters that are not empty. -/
def Proper : Token → Prop
  | .word text => text.toList ≠ [] ∧ ∀ character ∈ text.toList, isWordCharacter character = true
  | .placeholder name | .systemVariable name =>
      name.toList ≠ [] ∧ ∀ character ∈ name.toList, isWordCharacter character = true
  | _ => True

def EndsBefore (dialect : Dialect) (token : Token) (next : Char) : Prop :=
  match token with
  | .word _ | .placeholder _ | .systemVariable _ => isWordCharacter next = false
  | .identifier _ => next ≠ dialect.closeQuote
  | .symbol .less => next ≠ '=' ∧ next ≠ '>'
  | .symbol .greater => next ≠ '='
  | _ => True

/-- Whether the text of one token may stand right before the text of another. -/
def mayPrecede : Token → Token → Bool
  | .word _, .word _ | .placeholder _, .word _ | .systemVariable _, .word _ => false
  | .identifier _, .identifier _ => false
  | .symbol .less, .symbol .equal | .symbol .less, .symbol .greater
  | .symbol .less, .symbol .greaterOrEqual => false
  | .symbol .greater, .symbol .equal => false
  | _, _ => true

end Token

/-! Reading one token. -/

theorem readQuoted_doubleQuotes (close : Char) (name rest : List Char)
    (ends : ∀ next ∈ rest.head?, next ≠ close) :
    readQuoted close (doubleQuotes [close] 0 name ++ close :: rest) = some (name, rest) := by
  induction name with
  | nil =>
      cases rest with
      | nil => simp [doubleQuotes, readQuoted]
      | cons next others => simp [doubleQuotes, readQuoted, ends next (by simp)]
  | cons character name induction =>
      by_cases equal : character = close
      · subst character
        simp [doubleQuotes, readQuoted, induction]
      · have different : ¬ close = character := fun same => equal same.symm
        have kept : doubleQuotes [close] 0 (character :: name) =
            character :: doubleQuotes [close] 0 name := by
          simp [doubleQuotes, different]
        rw [kept, List.cons_append, readQuoted.eq_def]
        simp only [if_neg equal, induction]
        rfl

theorem readRun_append {text : String} {rest : List Char}
    (word : text.toList ≠ [] ∧ ∀ character ∈ text.toList, isWordCharacter character = true)
    (ends : ∀ next ∈ rest.head?, isWordCharacter next = false) :
    readRun (text.toList ++ rest) = some (text, rest) := by
  have stop : rest.takeWhile isWordCharacter = [] ∧ rest.dropWhile isWordCharacter = rest := by
    cases rest with
    | nil => simp
    | cons next others => simp [ends next (by simp)]
  simp [readRun, List.takeWhile_append_of_pos word.2, List.dropWhile_append_of_pos word.2,
    stop, word.1]

theorem readSymbol_append (dialect : Dialect) (glyph : Symbol) (rest : List Char)
    (ends : ∀ next ∈ rest.head?, (Token.symbol glyph).EndsBefore dialect next) :
    readSymbol (glyph.text ++ rest) = some (glyph, rest) := by
  cases rest with
  | nil => cases glyph <;> rfl
  | cons next others =>
      have ends := ends next rfl
      cases glyph with
      | less =>
          have notEqual : ['='].isPrefixOf (next :: others) = false := by
            simpa [List.isPrefixOf] using Ne.symm ends.1
          have notGreater : ['>'].isPrefixOf (next :: others) = false := by
            simpa [List.isPrefixOf] using Ne.symm ends.2
          simp [readSymbol, Symbol.all, Symbol.text, notEqual, notGreater]
      | greater =>
          have notEqual : ['='].isPrefixOf (next :: others) = false := by
            simpa [List.isPrefixOf] using Ne.symm ends
          simp [readSymbol, Symbol.all, Symbol.text, notEqual]
      | _ => simp [readSymbol, Symbol.all, Symbol.text]

namespace Dialect

/-- A character that starts neither a quoted identifier nor a placeholder. -/
def Ordinary (dialect : Dialect) (character : Char) : Prop :=
  character ≠ ' ' ∧ character ≠ dialect.openQuote ∧ character ≠ '@' ∧
    character ≠ dialect.lexical.mark

theorem ordinary_of_isWordCharacter (dialect : Dialect) {character : Char}
    (word : isWordCharacter character = true) : dialect.Ordinary character := by
  refine ⟨?_, ?_, ?_, ?_⟩ <;> rintro rfl
  · exact absurd word (by decide)
  · cases dialect <;> exact absurd word (by decide)
  · exact absurd word (by decide)
  · cases dialect <;> exact absurd word (by decide)

theorem ordinary_of_symbol (dialect : Dialect) (glyph : Symbol) :
    ∃ character rest, glyph.text = character :: rest ∧ dialect.Ordinary character ∧
      isWordCharacter character = false := by
  cases glyph <;> refine ⟨_, _, rfl, ?_, by decide⟩ <;> cases dialect <;>
    (refine ⟨?_, ?_, ?_, ?_⟩ <;> decide)

theorem readToken_ordinary (dialect : Dialect) {character : Char} (rest : List Char)
    (ordinary : dialect.Ordinary character) :
    dialect.readToken (character :: rest) =
      if isWordCharacter character then
        (readRun (character :: rest)).map fun (text, after) => (.word text, after)
      else
        (readSymbol (character :: rest)).map fun (glyph, after) => (.symbol glyph, after) := by
  rcases ordinary with ⟨notSpace, notQuote, notAt, notMark⟩
  rw [readToken, if_neg notSpace, if_neg notQuote, if_neg fun both => notAt both.1,
    if_neg notMark]

theorem readToken_characters (dialect : Dialect) {token : Token} {rest : List Char}
    (proper : token.Proper) (ends : ∀ next ∈ rest.head?, token.EndsBefore dialect next) :
    dialect.readToken (token.characters dialect.lexical ++ rest) = some (token, rest) := by
  cases token with
  | word text =>
      rcases List.exists_cons_of_ne_nil proper.1 with ⟨first, others, characters⟩
      have word : isWordCharacter first = true := proper.2 first (by simp [characters])
      have run := readRun_append proper ends
      rw [characters] at run
      rw [Token.characters, characters, List.cons_append,
        readToken_ordinary dialect _ (dialect.ordinary_of_isWordCharacter word), if_pos word]
      rw [List.cons_append] at run
      rw [run]
      rfl
  | identifier name =>
      have notSpace : dialect.openQuote ≠ ' ' := by cases dialect <;> decide
      have read := readQuoted_doubleQuotes dialect.closeQuote name.toList rest ends
      simp only [Token.characters, Lexical.quote, openQuote_toList, closeQuote_toList,
        List.append_assoc, List.cons_append, List.nil_append]
      rw [readToken, if_neg notSpace, if_pos rfl, read]
      simp
  | placeholder name =>
      have notSpace : dialect.lexical.mark ≠ ' ' := by cases dialect <;> decide
      have notQuote : dialect.lexical.mark ≠ dialect.openQuote := by cases dialect <;> decide
      rcases List.exists_cons_of_ne_nil proper.1 with ⟨first, others, characters⟩
      have notAt : first ≠ '@' := by
        rintro rfl
        exact absurd (proper.2 '@' (by simp [characters])) (by decide)
      have run := readRun_append proper ends
      rw [Token.characters, Lexical.placeholder, List.cons_append, readToken,
        if_neg notSpace, if_neg notQuote, if_neg, if_pos rfl, run]
      · rfl
      · rintro ⟨-, head⟩
        rw [characters] at head
        exact notAt (Option.some.inj head)
  | systemVariable name =>
      have notQuote : '@' ≠ dialect.openQuote := by cases dialect <;> decide
      have run := readRun_append proper ends
      rw [Token.characters, List.cons_append, List.cons_append, readToken, if_neg (by decide),
        if_neg notQuote, if_pos ⟨rfl, rfl⟩, List.tail_cons, run]
      rfl
  | symbol glyph =>
      rcases dialect.ordinary_of_symbol glyph with ⟨first, others, text, ordinary, notWord⟩
      have read := readSymbol_append dialect glyph rest ends
      rw [text, List.cons_append] at read
      rw [Token.characters, text, List.cons_append, readToken_ordinary dialect _ ordinary,
        if_neg (by simp [notWord]), read]
      rfl
  | space => rfl

/-- Every token ends before a character that carries on none. -/
theorem endsBefore_of_separate (dialect : Dialect) (token : Token) {next : Char}
    (notWord : isWordCharacter next = false) (notClose : next ≠ dialect.closeQuote)
    (notEqual : next ≠ '=') (notGreater : next ≠ '>') : token.EndsBefore dialect next := by
  unfold Token.EndsBefore
  split
  · exact notWord
  · exact notWord
  · exact notWord
  · exact notClose
  · exact ⟨notEqual, notGreater⟩
  · exact notEqual
  · trivial

theorem endsBefore_word (dialect : Dialect) {token : Token} {text : String} {next : Char}
    (word : isWordCharacter next = true) (may : token.mayPrecede (.word text) = true) :
    token.EndsBefore dialect next := by
  have notEqual : next ≠ '=' := by rintro rfl; exact absurd word (by decide)
  have notGreater : next ≠ '>' := by rintro rfl; exact absurd word (by decide)
  have notClose : next ≠ dialect.closeQuote := by
    rintro rfl
    cases dialect <;> exact absurd word (by decide)
  unfold Token.EndsBefore
  split
  · simp [Token.mayPrecede] at may
  · simp [Token.mayPrecede] at may
  · simp [Token.mayPrecede] at may
  · exact notClose
  · exact ⟨notEqual, notGreater⟩
  · exact notEqual
  · trivial

theorem endsBefore_identifier (dialect : Dialect) {token : Token} {name : String}
    (may : token.mayPrecede (.identifier name) = true) :
    token.EndsBefore dialect dialect.openQuote := by
  have notWord : isWordCharacter dialect.openQuote = false := by cases dialect <;> decide
  have notEqual : dialect.openQuote ≠ '=' := by cases dialect <;> decide
  have notGreater : dialect.openQuote ≠ '>' := by cases dialect <;> decide
  unfold Token.EndsBefore
  split
  · exact notWord
  · exact notWord
  · exact notWord
  · simp [Token.mayPrecede] at may
  · exact ⟨notEqual, notGreater⟩
  · exact notEqual
  · trivial

theorem endsBefore_symbol (dialect : Dialect) {token : Token} {glyph : Symbol} {next : Char}
    {rest : List Char} (starts : glyph.text = next :: rest)
    (may : token.mayPrecede (.symbol glyph) = true) : token.EndsBefore dialect next := by
  rcases dialect.ordinary_of_symbol glyph with ⟨first, others, text, -, notWord⟩
  rcases List.cons.inj (text.symm.trans starts) with ⟨rfl, rfl⟩
  have notClose : first ≠ dialect.closeQuote := by
    cases glyph <;> cases text <;> cases dialect <;> decide
  unfold Token.EndsBefore
  split
  · exact notWord
  · exact notWord
  · exact notWord
  · exact notClose
  · cases glyph <;> cases text <;> first | exact absurd may Bool.false_ne_true | decide
  · cases glyph <;> cases text <;> first | exact absurd may Bool.false_ne_true | decide
  · trivial

/-- What the text of a token starts with cannot carry on a token that may stand
before it. -/
theorem endsBefore_of_mayPrecede (dialect : Dialect) {token next : Token}
    (proper : next.Proper) (may : token.mayPrecede next = true) :
    ∃ first rest, next.characters dialect.lexical = first :: rest ∧
      token.EndsBefore dialect first := by
  cases next with
  | word text =>
      rcases List.exists_cons_of_ne_nil proper.1 with ⟨first, rest, characters⟩
      have word : isWordCharacter first = true := proper.2 first (by simp [characters])
      exact ⟨first, rest, characters, dialect.endsBefore_word word may⟩
  | identifier name =>
      exact ⟨dialect.openQuote, _, by simp [Token.characters, Lexical.quote]; rfl,
        dialect.endsBefore_identifier may⟩
  | placeholder name =>
      refine ⟨dialect.lexical.mark, _, rfl, dialect.endsBefore_of_separate token ?_ ?_ ?_ ?_⟩
        <;> cases dialect <;> decide
  | systemVariable name =>
      refine ⟨'@', _, rfl, dialect.endsBefore_of_separate token ?_ ?_ ?_ ?_⟩
        <;> cases dialect <;> decide
  | symbol glyph =>
      rcases dialect.ordinary_of_symbol glyph with ⟨first, rest, text, -⟩
      exact ⟨first, rest, text, dialect.endsBefore_symbol text may⟩
  | space =>
      refine ⟨' ', _, rfl, dialect.endsBefore_of_separate token ?_ ?_ ?_ ?_⟩
        <;> cases dialect <;> decide

end Dialect

/-! Fragments whose text reads back: every token is proper, and each may stand
before the one after it. -/

namespace Fragment

structure Legible (fragment : Fragment) : Prop where
  proper : ∀ token ∈ fragment, token.Proper
  apart : fragment.IsChain fun token next => token.mayPrecede next = true

end Fragment

namespace Dialect

theorem readTokensFrom_append (dialect : Dialect) (read rest : List Char) :
    dialect.readTokensFrom read.length (read ++ rest) = dialect.readTokensFrom 0 rest := by
  induction read with
  | nil => rfl
  | cons character read induction =>
      rw [List.cons_append, List.length_cons, readTokensFrom, induction]

theorem characters_ne_nil (dialect : Dialect) {token : Token} (proper : token.Proper) :
    token.characters dialect.lexical ≠ [] := by
  cases token with
  | word text => exact proper.1
  | symbol glyph => cases glyph <;> exact List.cons_ne_nil _ _
  | identifier name => simp [Token.characters, Lexical.quote]
  | placeholder | systemVariable | space => exact List.cons_ne_nil _ _

/-- The reader takes the first token of a fragment as a whole and goes on behind it. -/
theorem readTokensFrom_token (dialect : Dialect) {token : Token} {rest : List Char}
    (proper : token.Proper) (ends : ∀ next ∈ rest.head?, token.EndsBefore dialect next) :
    dialect.readTokensFrom 0 (token.characters dialect.lexical ++ rest) =
      (dialect.readTokensFrom 0 rest).map (token :: ·) := by
  have read := dialect.readToken_characters proper ends
  rcases List.exists_cons_of_ne_nil (dialect.characters_ne_nil proper) with
    ⟨first, others, characters⟩
  rw [characters, List.cons_append] at read ⊢
  have skip : (others ++ rest).length - rest.length = others.length := by simp
  rw [readTokensFrom, read]
  simp only [Option.bind_eq_bind, Option.bind_some, skip, readTokensFrom_append]
  cases dialect.readTokensFrom 0 rest <;> rfl

/-- What stands behind a token of a legible fragment does not carry it on. -/
theorem endsBefore_of_legible (dialect : Dialect) {token : Token} {fragment : Fragment}
    (legible : Fragment.Legible (token :: fragment)) :
    ∀ next ∈ (Fragment.characters dialect.lexical fragment).head?,
      token.EndsBefore dialect next := by
  intro next head
  cases fragment with
  | nil => simp [Fragment.characters] at head
  | cons follower fragment =>
      rcases dialect.endsBefore_of_mayPrecede (legible.proper follower (by simp))
        (List.isChain_cons_cons.mp legible.apart).1 with ⟨first, others, characters, ends⟩
      simp only [Fragment.characters, List.flatMap_cons, characters, List.cons_append,
        List.head?_cons, Option.mem_some_iff] at head
      exact head ▸ ends

theorem readTokensFrom_characters (dialect : Dialect) {fragment : Fragment}
    (legible : fragment.Legible) :
    dialect.readTokensFrom 0 (fragment.characters dialect.lexical) = some fragment := by
  induction fragment with
  | nil => rfl
  | cons token fragment induction =>
      have ends := dialect.endsBefore_of_legible legible
      have rest := induction
        ⟨fun other member => legible.proper other (List.mem_cons_of_mem _ member),
          legible.apart.tail⟩
      have split : Fragment.characters dialect.lexical (token :: fragment) =
          token.characters dialect.lexical ++ Fragment.characters dialect.lexical fragment :=
        List.flatMap_cons
      rw [split, dialect.readTokensFrom_token (legible.proper token List.mem_cons_self) ends,
        rest]
      rfl

theorem readTokens_text (dialect : Dialect) {fragment : Fragment}
    (legible : fragment.Legible) :
    dialect.readTokens (fragment.text dialect.lexical) = some fragment := by
  rw [readTokens, Fragment.text, String.toList_ofList]
  exact dialect.readTokensFrom_characters legible

/-- A closing quote inside a name is read back, and the longer symbol is read. -/
example : oracle.readTokens "\"a\"\"b\" <= :c" =
    some [.identifier "a\"b", .space, .symbol .lessOrEqual, .space, .placeholder "c"] := by
  decide +kernel

end Dialect

end EntitySql
