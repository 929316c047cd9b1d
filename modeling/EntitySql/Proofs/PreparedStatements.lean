import EntitySql.Proofs.Placeholders
import EntitySql.Proofs.Statements
import EntitySql.Proofs.TokenSegments

/-! What the MySQL executor makes of the text of a statement. It cuts the text at semicolons
and reads placeholders in it without looking at quotes, so that the names a statement quotes
decide whether it is cut, and bound, where the statement was built. -/

namespace EntitySql

open MySql

/-! Where a statement starts and ends. -/

/-- The code points of word characters are those of the digits up to those of the letters. -/
theorem toNat_of_isWordCharacter {character : Char} (word : isWordCharacter character = true) :
    '0'.toNat ≤ character.toNat ∧ character.toNat ≤ 'z'.toNat := by
  have kinds : (((character.isUpper || character.isLower) || character.isDigit) ||
      character == '_') = true := word
  simp only [Bool.or_eq_true, beq_iff_eq] at kinds
  rcases kinds with ((upper | lower) | digit) | rfl
  · have letters : 'A'.val ≤ character.val ∧ character.val ≤ 'Z'.val := of_decide_eq_true upper
    exact ⟨Nat.le_trans (by decide) (UInt32.le_iff_toNat_le.mp letters.1),
      Nat.le_trans (UInt32.le_iff_toNat_le.mp letters.2) (by decide)⟩
  · rcases Bool.and_eq_true_iff.mp lower with ⟨least, most⟩
    exact ⟨Nat.le_trans (by decide) (UInt32.le_iff_toNat_le.mp (of_decide_eq_true least)),
      UInt32.le_iff_toNat_le.mp (of_decide_eq_true most)⟩
  · have digits := Char.isDigit_iff_toNat.mp digit
    exact ⟨digits.1, Nat.le_trans digits.2 (by decide)⟩
  · decide

theorem visible_of_isWordCharacter {character : Char}
    (word : isWordCharacter character = true) : Visible character := by
  constructor
  · have range := toNat_of_isWordCharacter word
    have ends : '0'.toNat = 48 ∧ 'z'.toNat = 122 := by decide
    rw [Bool.eq_false_iff]
    intro blank
    simp only [isBlank, Bool.or_eq_true, Bool.and_eq_true, decide_eq_true_eq, beq_iff_eq] at blank
    omega
  · rintro rfl
    exact absurd word (by decide)

/-- A token ends in a visible character unless it is blank or ends the statement. -/
theorem Token.exists_last {token : Token} (proper : token.Proper)
    (single : token ≠ .symbol .semicolon) (shown : token ≠ .space) :
    ∃ front character, token.characters Dialect.mysql.lexical = front ++ [character] ∧
      Visible character := by
  have named : ∀ text : List Char, text ≠ [] →
      (∀ character ∈ text, isWordCharacter character = true) →
      ∃ front character, text = front ++ [character] ∧ Visible character := by
    intro text given word
    exact ⟨text.dropLast, text.getLast given, (List.dropLast_append_getLast given).symm,
      visible_of_isWordCharacter (word _ (List.getLast_mem given))⟩
  cases token with
  | word text => exact named _ proper.1 proper.2
  | placeholder name =>
      rcases named _ proper.1 proper.2 with ⟨front, character, ends, visible⟩
      exact ⟨'@' :: front, character, by
        simp [characters, Lexical.placeholder, Dialect.lexical, ends], visible⟩
  | systemVariable name =>
      rcases named _ proper.1 proper.2 with ⟨front, character, ends, visible⟩
      exact ⟨'@' :: '@' :: front, character, by simp [characters, ends], visible⟩
  | identifier name =>
      exact ⟨'\x60' :: doubleQuotes ['\x60'] 0 name.toList, '\x60', by
        simp [characters_identifier], by decide, by decide⟩
  | symbol glyph =>
      cases glyph <;> first
        | exact absurd rfl single
        | exact ⟨[], _, rfl, by decide, by decide⟩
        | exact ⟨[_], _, rfl, by decide, by decide⟩
  | space => exact absurd rfl shown

theorem Fragment.Whole.framed {fragment : Fragment} (whole : fragment.Whole)
    (legible : fragment.Legible) : Framed (fragment.characters Dialect.mysql.lexical) := by
  constructor
  · rcases whole.begins with ⟨keyword, rest, rfl⟩
    have proper : (Token.word keyword).Proper := legible.proper _ List.mem_cons_self
    rcases List.exists_cons_of_ne_nil proper.1 with ⟨first, others, spelled⟩
    have word := proper.2 first (by simp [spelled])
    refine ⟨first, others ++ Fragment.characters Dialect.mysql.lexical rest, ?_,
      visible_of_isWordCharacter word⟩
    simp [Fragment.characters, Token.characters, spelled]
  · rcases whole.solid.last with ⟨token, last, shown⟩
    rcases List.getLast?_eq_some_iff.mp last with ⟨front, rfl⟩
    have single : token ≠ .symbol .semicolon := by
      rintro rfl
      exact whole.solid.single (by simp)
    rcases Token.exists_last (legible.proper token (by simp)) single shown with
      ⟨start, character, ends, visible⟩
    refine ⟨Fragment.characters Dialect.mysql.lexical front ++ start, character, ?_, visible⟩
    simp [Fragment.characters, ends]

namespace Fragment

theorem characters_intercalate (parts : List Fragment) :
    characters Dialect.mysql.lexical ([Token.symbol .semicolon].intercalate parts) =
      [';'].intercalate (parts.map (characters Dialect.mysql.lexical)) := by
  induction parts with
  | nil => rfl
  | cons first rest induction =>
      cases rest with
      | nil => simp [List.intercalate_singleton]
      | cons second rest =>
          rw [List.intercalate_cons_cons, List.map_cons, List.map_cons, List.intercalate_cons_cons,
            ← List.map_cons, ← induction]
          simp [characters, Token.characters, Symbol.text]

theorem legible_of_intercalate {parts : List Fragment}
    (legible : Legible ([Token.symbol .semicolon].intercalate parts)) :
    ∀ part ∈ parts, part.Legible := by
  induction parts with
  | nil => simp
  | cons first rest induction =>
      cases rest with
      | nil => simpa [List.intercalate_singleton] using legible
      | cons second rest =>
          rw [List.intercalate_cons_cons, List.append_assoc, List.singleton_append,
            legible_append_cons rfl] at legible
          exact List.forall_mem_cons.mpr ⟨legible.1, induction legible.2⟩

/-- The text of a statement holds a semicolon only in a name that it quotes. -/
theorem semicolon_mem_characters {fragment : Fragment} (legible : fragment.Legible)
    (single : fragment.Single) :
    ';' ∈ fragment.characters Dialect.mysql.lexical ↔
      ∃ name ∈ fragment.quoted, ';' ∈ name.toList := by
  have word : ∀ text : List Char, (∀ character ∈ text, isWordCharacter character = true) →
      ';' ∉ text := by
    intro text word listed
    exact absurd (word ';' listed) (by decide)
  have quoted : ∀ name : String,
      ';' ∈ (Token.identifier name).characters Dialect.mysql.lexical ↔ ';' ∈ name.toList := by
    intro name
    rw [Token.characters_identifier]
    simp [mem_doubleQuotes]
  rw [characters, List.mem_flatMap]
  constructor
  · rintro ⟨token, listed, inside⟩
    have proper := legible.proper token listed
    cases token with
    | word text => exact absurd inside (word _ proper.2)
    | placeholder name =>
        exact absurd (List.mem_of_ne_of_mem (by decide) inside) (word _ proper.2)
    | systemVariable name =>
        have later := List.mem_of_ne_of_mem (by decide) inside
        exact absurd (List.mem_of_ne_of_mem (by decide) later) (word _ proper.2)
    | identifier name => exact ⟨name, mem_quoted.mpr listed, (quoted name).mp inside⟩
    | symbol glyph =>
        cases glyph
        case semicolon => exact absurd listed single
        all_goals exact absurd inside (by decide)
    | space => exact absurd inside (by decide)
  · rintro ⟨name, listed, inside⟩
    exact ⟨_, mem_quoted.mp listed, (quoted name).mpr inside⟩

/-- Each statement of a legible text is prepared where it was built just if every name that
is quoted is inert. -/
theorem prepares_statements_iff {tokens : Fragment} {params : Params} {count : Nat}
    (legible : tokens.Legible) (consists : tokens.Consists count)
    (bound : ∀ name ∈ tokens.placeholders, ∃ value, params.get? name = some value) :
    List.Forall₂ (Prepares params) tokens.statements
        (splitStatements (tokens.characters Dialect.mysql.lexical)) ↔
      ∀ name ∈ tokens.quoted, Inert name := by
  have rejoined : [Token.symbol .semicolon].intercalate tokens.statements = tokens :=
    List.intercalate_splitOn _
  have given : tokens.statements ≠ [] := List.splitOn_ne_nil _ _
  have whole := consists.whole
  generalize tokens.statements = parts at *
  subst rejoined
  have legibleEach := legible_of_intercalate legible
  rw [characters_intercalate, forall₂_splitStatements_iff given fun part listed =>
    (whole part listed).framed (legibleEach part listed)]
  have each : ∀ part ∈ parts, (';' ∉ part.characters Dialect.mysql.lexical ∧
      Prepares params part (part.characters Dialect.mysql.lexical) ↔
        ∀ name ∈ part.quoted, Inert name) := by
    intro part listed
    have partBound : ∀ name ∈ part.placeholders, ∃ value, params.get? name = some value := by
      intro name shown
      exact bound name (mem_placeholders.mpr
        ((mem_intercalate_iff (by simp)).mpr ⟨part, listed, mem_placeholders.mp shown⟩))
    rw [semicolon_mem_characters (legibleEach part listed) (whole part listed).solid.single,
      prepares_iff (legibleEach part listed) partBound]
    simp only [Inert, forall_and, not_exists, not_and]
  rw [forall₂_congr each]
  constructor
  · intro inert name shown
    rcases (mem_intercalate_iff (by simp)).mp (mem_quoted.mp shown) with ⟨part, listed, inside⟩
    exact inert part listed name (mem_quoted.mpr inside)
  · intro inert part listed name shown
    exact inert name (mem_quoted.mpr
      ((mem_intercalate_iff (by simp)).mpr ⟨part, listed, mem_quoted.mp shown⟩))

end Fragment

/-! Parameters. -/

/-- Whatever a statement shows was bound. -/
theorem exists_get?_of_mem_names {params : Params} {name : String}
    (listed : name ∈ params.names) : ∃ value, params.get? name = some value := by
  rcases List.mem_map.mp listed with ⟨parameter, among, rfl⟩
  have found : (params.find? parameter.name).isSome := by
    rw [Params.find?, List.find?_isSome]
    exact ⟨parameter, among, sameIgnoringCase_self _⟩
  rcases Option.isSome_iff_exists.mp found with ⟨entry, found⟩
  exact ⟨entry.value, by rw [Params.get?, found]; rfl⟩

theorem Operation.mem_names_of_corresponds {catalog : Catalog} {operation : Operation}
    {tokens : Fragment} {params : Params}
    (corresponds : operation.Corresponds catalog .mysql tokens params) :
    ∀ name ∈ tokens.placeholders, name ∈ params.names := by
  have shown : tokens.Shows params → ∀ name ∈ tokens.placeholders, name ∈ params.names := by
    intro shows name listed
    exact shows.1 ▸ listed
  cases operation
  case updateSelect =>
    rcases corresponds with ⟨first, conditions, second, rfl, -, -, bare, shows, -⟩
    intro name listed
    rw [← shows]
    simpa [bare, or_assoc] using listed
  all_goals exact shown corresponds

/-- Where properties have plain names: the executor prepares the statements that the builder
wrote, as many as it wrote, each with the values of its own placeholders, just if it quotes
inert names only. -/
theorem statements_prepared_iff (catalog : Catalog) (operation : Operation)
    (plain : catalog.PlainProperties) (names : operation.query.PlainNames)
    {composition : Composition}
    (composed : (operation.compose catalog .mysql).1 = .ok composition) :
    ∃ built draft, (operation.build catalog .mysql).runFrom {} = (.ok built, draft) ∧
      composition.statement = ⟨built.sql.text Dialect.mysql.lexical, draft.params⟩ ∧
      built.sql.statements.length = operation.statementCount ∧
      (List.Forall₂ (Prepares composition.statement.params) built.sql.statements
          (splitStatements composition.statement.sql.toList) ↔
        ∀ name ∈ built.sql.quoted, Inert name) := by
  rcases Operation.exists_run_of_compose composed with ⟨built, draft, run, statement⟩
  have sound := sound_build plain names run
  have consists := Operation.consists_build run
  refine ⟨built, draft, run, statement, consists.length, ?_⟩
  rw [statement, Fragment.text, String.toList_ofList]
  exact Fragment.prepares_statements_iff sound.1 consists fun name listed =>
    exists_get?_of_mem_names (Operation.mem_names_of_corresponds sound.2.2 name listed)

/-- Tools, in a table and with a column whose names hold quotes and at signs. -/
def Catalog.tools : Catalog :=
  { descriptors :=
      [("Tool",
        { table := "tools @ \x60home\x60"
          fields := [⟨"Id", "id"⟩, ⟨"Name", "tool@@name"⟩]
          keys := ["Id"] })] }

def Query.saws : Query :=
  { entity := "Tool"
    filters := [.comparison .equal (.column "Tool" "Name") (.constant (.text "saw"))] }

def Expr.ripSaw : Expr :=
  .record "Tool" [("Name", .constant (.text "rip saw"))]

theorem statements_prepared_saws :
    ∃ composition built draft,
      ((Operation.updateSelect .saws .ripSaw).compose .tools .mysql).1 = .ok composition ∧
      ((Operation.updateSelect .saws .ripSaw).build .tools .mysql).runFrom {} =
        (.ok built, draft) ∧
      built.sql.statements.length = 2 ∧
      List.Forall₂ (Prepares composition.statement.params) built.sql.statements
        (splitStatements composition.statement.sql.toList) := by
  have plain : Catalog.tools.PlainProperties := plainProperties_of_fields (by decide)
  have names : Query.saws.PlainNames := ⟨by decide, by simp [Query.saws]⟩
  rcases statements_prepared_iff .tools (.updateSelect .saws .ripSaw) plain names rfl with
    ⟨built, draft, run, -, length, prepared⟩
  have inert : ∀ name ∈ built.sql.quoted, Inert name := by
    cases run
    decide +kernel
  exact ⟨_, built, draft, rfl, run, length, prepared.mpr inert⟩

/-- Jobs, in a table with a semicolon in its name, and parts, one of whose properties is no
word. -/
def Catalog.workshop : Catalog :=
  { descriptors :=
      [("Job", { table := "jobs;done", fields := [⟨"Id", "id"⟩] }),
       ("Part", { table := "parts", fields := [⟨"size", "size"⟩, ⟨"size-max", "size_max"⟩] })] }

def Query.jobs : Query :=
  { entity := "Job" }

def Query.sizedParts : Query :=
  { entity := "Part"
    filters :=
      [.comparison .greater (.column "Part" "size") (.constant (.int 1)),
       .comparison .less (.column "Part" "size-max") (.constant (.int 9))] }

/-- A statement is cut inside the name of its table, and a parameter whose name is no word
takes the value of another. -/
theorem statements_not_prepared :
    (∃ composition built draft,
      ((Operation.delete .jobs).compose .workshop .mysql).1 = .ok composition ∧
      ((Operation.delete .jobs).build .workshop .mysql).runFrom {} = (.ok built, draft) ∧
      splitStatements composition.statement.sql.toList =
        ["DELETE FROM \x60jobs".toList, "done\x60 WHERE 1=1".toList] ∧
      ¬ List.Forall₂ (Prepares composition.statement.params) built.sql.statements
        (splitStatements composition.statement.sql.toList)) ∧
    ∃ composition built draft,
      ((Operation.count .sizedParts).compose .workshop .mysql).1 = .ok composition ∧
      ((Operation.count .sizedParts).build .workshop .mysql).runFrom {} = (.ok built, draft) ∧
      prepare composition.statement.params composition.statement.sql.toList =
        .ok
          { sql := ("SELECT COUNT(1) FROM \x60parts\x60 parts WHERE 1=1 " ++
              "AND parts.\x60size\x60 > ? AND parts.\x60size_max\x60 < ?-max").toList
            arguments := [.int 1, .int 1] } ∧
      ¬ List.Forall₂ (Prepares composition.statement.params) built.sql.statements
        (splitStatements composition.statement.sql.toList) := by
  constructor
  · refine ⟨_, _, _, rfl, rfl, by decide +kernel, ?_⟩
    intro prepares
    exact absurd prepares.length_eq (by decide +kernel)
  · refine ⟨_, _, _, rfl, rfl, by decide +kernel, ?_⟩
    intro prepares
    exact absurd (sql_of_prepares prepares) (by decide +kernel)

end EntitySql
