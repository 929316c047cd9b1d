import EntitySql.Proofs.ConditionMeaning
import EntitySql.Proofs.LikePatterns
import EntitySql.Proofs.ReadText

/-! Searches for a text within others. A search is written as a test by LIKE, with the text
bound inside a pattern as it was given; what the test says is set against what the name of the
search says. -/

namespace EntitySql

/-- Texts fit by LIKE, letters compared exactly. -/
def Engine.FitsTexts (engine : Engine) : Prop :=
  ∀ subject pattern, engine.fits (.text subject) (.text pattern) = isLike pattern subject

theorem Engine.matched_texts {engine : Engine} (fits : engine.FitsTexts)
    (subject pattern : String) :
    engine.matched (.text subject) (.text pattern) = .ofBool (isLike pattern subject) :=
  congrArg Truth.ofBool (fits subject pattern)

theorem Truth.negatedIf_ofBool (negated truth : Bool) :
    (Truth.ofBool truth).negatedIf negated = .ofBool (truth != negated) := by
  cases negated <;> cases truth <;> rfl

inductive TextSearch where
  | contains
  | notContains
  | startsWith
  | endsWith
  deriving DecidableEq, Repr

namespace TextSearch

def expression : TextSearch → Expr → String → Expr
  | .contains => Expr.contains
  | .notContains => Expr.notContains
  | .startsWith => Expr.startsWith
  | .endsWith => Expr.endsWith

def anchor : TextSearch → Anchor
  | .contains | .notContains => .anywhere
  | .startsWith => .start
  | .endsWith => .finish

def negated : TextSearch → Bool
  | .notContains => true
  | .contains | .startsWith | .endsWith => false

theorem expression_eq (search : TextSearch) (operand : Expr) (text : String) :
    search.expression operand text = .like operand text search.anchor search.negated := by
  cases search <;> rfl

/-- What a search is called after. -/
def Asks (search : TextSearch) (text subject : String) : Prop :=
  match search with
  | .contains => text.toList <:+: subject.toList
  | .notContains => ¬ text.toList <:+: subject.toList
  | .startsWith => text.toList <+: subject.toList
  | .endsWith => text.toList <:+ subject.toList

instance (search : TextSearch) (text subject : String) : Decidable (search.Asks text subject) := by
  unfold Asks
  split <;> infer_instance

/-- What the test by LIKE tells of a subject. -/
def holds (search : TextSearch) (text subject : String) : Bool :=
  isLike (search.anchor.wrap text) subject != search.negated

/-- The test tells what the search asks of every subject exactly where the pattern takes the
text literally. -/
theorem holds_iff_asks (search : TextSearch) (text : String) :
    (∀ subject, search.holds text subject = true ↔ search.Asks text subject) ↔
      search.anchor.Literal text.toList := by
  rw [← search.anchor.isLike_wrap_iff_finds text]
  refine forall_congr' fun subject => ?_
  cases search with
  | contains | startsWith | endsWith =>
      simp [holds, anchor, negated, Asks, Anchor.Finds]
  | notContains =>
      simp only [holds, anchor, negated, Asks, Anchor.Finds]
      cases isLike (Anchor.anywhere.wrap text) subject <;> simp

variable {search : TextSearch} {scope : Scope} {operand : Expr} {text : String}
  {draft later : Draft} {fragment : Fragment}

/-- The text of a search reads back as a test that tells, of the text that the operand stands
for, whether the search holds. -/
theorem readsBack (joins : scope.PlainJoin) (plain : operand.PlainMembers scope.catalog)
    (run : ((search.expression operand text).predicate scope).runFrom draft =
      (.ok fragment, later)) :
    ∃ formula, Dialect.mysql.conditionOf later.params (fragment.text Dialect.mysql.lexical) =
        some formula ∧
      ∀ (engine : Engine) (valuation : Valuation) (subject : String), engine.FitsTexts →
        operand.value? scope engine valuation = some (.text subject) →
        formula.truth? engine valuation = some (.ofBool (search.holds text subject)) := by
  rw [expression_eq] at run
  have members : (Expr.like operand text search.anchor search.negated).PlainMembers
      scope.catalog := plain
  rcases Expr.readsBack_predicate joins members run _ later.params.extends_refl with
    ⟨formula, agrees, connected⟩
  refine ⟨formula, conditionOf_text (Expr.written_predicate joins members run).legible
    (reads_connected (connected .and rfl)), ?_⟩
  intro engine valuation subject fits stands
  rcases agrees engine valuation with ⟨truth, read, same⟩
  rw [read, ← same]
  simp [Expr.truth?, stands, Engine.matched_texts fits, Truth.negatedIf_ofBool, holds]

end TextSearch

open TextSearch in
/-- A search is written as a test by LIKE of its operand against a placeholder for the text in
its pattern. Read back, and wherever the operand stands for a text, the test is true or false
as that text fits the pattern. This is what the search asks of every text exactly where the
searched text has no percent sign, no underscore and no backslash that the pattern goes on
after. -/
theorem text_search_literal_iff (search : TextSearch) (scope : Scope) (operand : Expr)
    (text : String) (draft later : Draft) (fragment : Fragment)
    (run : ((search.expression operand text).predicate scope).runFrom draft =
      (.ok fragment, later)) :
    (∃ subject middle name,
      Expr.ScalarRun scope (operand.hint?.getD Expr.unnamed) operand draft subject middle ∧
      fragment = subject ++ .space :: Fragment.operatorWord "LIKE" search.negated ++
        [.space, .placeholder name] ∧
      later.params.get? name = some (.text (search.anchor.wrap text))) ∧
    (scope.PlainJoin → operand.PlainMembers scope.catalog →
      ∃ formula, Dialect.mysql.conditionOf later.params (fragment.text Dialect.mysql.lexical) =
          some formula ∧
        ∀ (engine : Engine) (valuation : Valuation) (subject : String), engine.FitsTexts →
          operand.value? scope engine valuation = some (.text subject) →
          formula.truth? engine valuation = some (.ofBool (search.holds text subject))) ∧
    ((∀ subject, search.holds text subject = true ↔ search.Asks text subject) ↔
      search.anchor.Literal text.toList) := by
  refine ⟨?_, fun joins plain => readsBack joins plain run, search.holds_iff_asks text⟩
  rw [expression_eq] at run
  cases Expr.predicateRun_of_predicate run with
  | like _ _ _ inner bound =>
      rw [Build.runFrom_input] at bound
      cases bound
      exact ⟨_, _, _, inner, rfl, Params.get?_of_extends_add (Params.extends_refl _)⟩

/-- Nothing in the searched text has a meaning of its own in the pattern. -/
theorem text_search_literal_iff_names :
    ∃ fragment later,
      ((TextSearch.notContains.expression (.column "Person" "Name") "an").predicate
        (.aliased .people)).runFrom {} = (.ok fragment, later) ∧
      fragment.text Dialect.mysql.lexical = "people.\x60full]name\x60 NOT LIKE @Name" ∧
      (∃ formula, Dialect.mysql.conditionOf later.params
          (fragment.text Dialect.mysql.lexical) = some formula ∧
        ∀ (engine : Engine) (valuation : Valuation) (subject : String), engine.FitsTexts →
          Expr.value? (.aliased .people) engine valuation (.column "Person" "Name") =
            some (.text subject) →
          formula.truth? engine valuation =
            some (.ofBool (TextSearch.notContains.holds "an" subject))) ∧
      ∀ subject, TextSearch.notContains.holds "an" subject = true ↔
        ¬ "an".toList <:+: subject.toList := by
  rcases text_search_literal_iff .notContains (.aliased .people) (.column "Person" "Name") "an" {}
    _ _ rfl with ⟨-, reads, literal⟩
  exact ⟨_, _, rfl, by decide +kernel,
    reads (Scope.plainJoin_aliased .people) (plainProperties_people.members _),
    literal.mpr (by decide)⟩

/-- Texts fit by LIKE; everything else is told apart as it is written. -/
def Engine.likes : Engine :=
  { compare := fun _ left right => left = right
    calculate := fun _ _ _ => .null
    fits := fun subject pattern =>
      match subject, pattern with
      | .text subject, .text pattern => isLike pattern subject
      | _, _ => false
    compare_int := by simp }

/-- A name of 500 is found by a search for a half in percent. -/
theorem text_search_not_literal :
    ∃ fragment later formula,
      (((Expr.column "Person" "Name").contains "50%").predicate (.aliased .people)).runFrom {} =
        (.ok fragment, later) ∧
      Dialect.mysql.conditionOf later.params (fragment.text Dialect.mysql.lexical) =
        some formula ∧
      Engine.likes.FitsTexts ∧
      formula.truth? .likes
        { column := fun _ => .text "500", aggregate := fun _ _ => .null } = some .yes ∧
      ¬ "50%".toList <:+: "500".toList := by
  rcases TextSearch.readsBack (Scope.plainJoin_aliased .people) (plainProperties_people.members _)
    (show ((TextSearch.contains.expression (.column "Person" "Name") "50%").predicate
      (.aliased .people)).runFrom {} = (.ok _, _) from rfl) with ⟨formula, read, tells⟩
  refine ⟨_, _, formula, rfl, read, fun _ _ => rfl, ?_, by decide⟩
  rw [tells .likes _ "500" (fun _ _ => rfl) rfl]
  decide +kernel

end EntitySql
