import EntitySql.Proofs.ConditionGrammar
import EntitySql.Proofs.ConditionText

/-! The text of a condition says what the expression means. Parentheses are written
only where a conjunction and a disjunction meet and around arithmetic; reading the
text by precedence finds the same connectives over the same tests all the same,
grouped from the left at the most. -/

namespace EntitySql

/-- Whatever the engine and the row, the formula has a truth, and it is the given one. -/
def Formula.Agrees (formula : Formula) (truth? : Engine → Valuation → Option Truth) : Prop :=
  ∀ engine valuation, ∃ truth, formula.truth? engine valuation = some truth ∧
    truth? engine valuation = some truth

namespace Expr

theorem exists_value?_of_term? {scope : Scope} (engine : Engine) (valuation : Valuation) :
    ∀ {expression : Expr} {formula : Formula}, expression.term? scope = some formula →
      ∃ value, formula.value? engine valuation = some value
  | .member path, formula, found => by
      rcases Option.map_eq_some_iff.mp found with ⟨reference, -, rfl⟩
      exact ⟨_, rfl⟩
  | .constant value, formula, found => by
      cases found
      exact ⟨_, rfl⟩
  | .arithmetic operator left right, formula, found => by
      simp only [term?, Option.bind_eq_bind, Option.bind_eq_some_iff] at found
      rcases found with ⟨first, head, second, tail, result⟩
      cases result
      rcases exists_value?_of_term? engine valuation head with ⟨leftValue, leftRead⟩
      rcases exists_value?_of_term? engine valuation tail with ⟨rightValue, rightRead⟩
      exact ⟨_, by simp [Formula.value?, leftRead, rightRead]; rfl⟩
  | .aggregate function operand, formula, found => by
      rcases Option.map_eq_some_iff.mp found with ⟨argument, -, rfl⟩
      exact ⟨_, rfl⟩
  | .bareAggregate .count, formula, found => by
      cases found
      exact ⟨_, rfl⟩
  | .lambda entity inner, formula, found => by
      have innerFound : inner.term? scope = some formula := found
      exact exists_value?_of_term? engine valuation innerFound

end Expr

/-! What has been bound reads as its value. -/

theorem reads_input {base : String} {value : Value} {draft later : Draft}
    {fragment : Fragment} (run : (Build.input base value).runFrom draft = (.ok fragment, later))
    {bag : Params} (grown : bag.Extends later.params) :
    Reads bag .primary fragment.squeezed (.constant value) := by
  rw [Build.runFrom_input] at run
  cases run
  exact reads_placeholder (Params.get?_of_extends_add grown)

theorem bound_inputs {base : String} (plain : isPlainIdentifier base = true)
    {values : List Value} {draft later : Draft} {fragments : List Fragment}
    (run : (Build.inputs base values).runFrom draft = (.ok fragments, later))
    {bag : Params} (grown : bag.Extends later.params) :
    ∃ names, fragments = names.map (fun name => [Token.placeholder name]) ∧
      List.Forall₂ (fun name value => bag.get? name = some value) names values := by
  induction values generalizing draft fragments with
  | nil =>
      rw [Build.inputs, Build.runFrom_pure_eq_ok] at run
      rcases run with ⟨rfl, rfl⟩
      exact ⟨[], rfl, .nil⟩
  | cons value values induction =>
      simp only [Build.inputs, Build.runFrom_bind_eq_ok, Build.runFrom_pure_eq_ok] at run
      rcases run with ⟨first, middle, head, rest, last, tail, rfl, rfl⟩
      rcases induction tail with ⟨names, rfl, bound⟩
      have kept := grown.trans (Build.writtenAll_inputs plain tail).binds.extends
      rw [Build.runFrom_input] at head
      cases head
      exact ⟨_ :: names, rfl, .cons (Params.get?_of_extends_add kept) bound⟩

namespace Expr

/-- A scalar only adds to what was bound before it. -/
theorem ScalarRun.extends {scope : Scope} {hint : String} {expression : Expr}
    {draft later : Draft} {fragment : Fragment}
    (steps : ScalarRun scope hint expression draft fragment later) :
    later.params.Extends draft.params := by
  induction steps with
  | member | count => exact Params.extends_refl _
  | constant value bound =>
      rw [Build.runFrom_input] at bound
      cases bound
      exact List.prefix_append _ _
  | arithmetic _ _ _ head tail => exact tail.trans head
  | aggregate _ _ inner | lambda _ inner => exact inner

/-- A scalar reads as the term that the expression stands for. -/
theorem ScalarRun.reads {scope : Scope} {hint : String} {expression : Expr}
    {draft later : Draft} {fragment : Fragment}
    (steps : ScalarRun scope hint expression draft fragment later) :
    ∃ formula, expression.term? scope = some formula ∧
      ∀ bag : Params, bag.Extends later.params →
        Reads bag .primary fragment.squeezed formula := by
  induction steps with
  | member path found =>
      rcases Scope.member_eq_ok.mp found with ⟨reference, resolved, rfl⟩
      refine ⟨.column reference, by simp [term?, resolved], ?_⟩
      intro bag _
      rw [Fragment.squeezed_fragment]
      exact reads_column bag reference
  | constant value bound => exact ⟨.constant value, rfl, fun bag grown => reads_input bound grown⟩
  | arithmetic operator head tail headReads tailReads =>
      rcases headReads with ⟨leftTerm, leftFound, leftReads⟩
      rcases tailReads with ⟨rightTerm, rightFound, rightReads⟩
      refine ⟨.arithmetic operator leftTerm rightTerm, by simp [term?, leftFound, rightFound],
        fun bag grown => ?_⟩
      rw [Fragment.squeezed_parenthesized, Fragment.squeezed_joined]
      exact reads_parenthesized <| reads_disjunction_of_sum <|
        reads_arithmetic operator (leftReads bag (grown.trans tail.extends)) (rightReads bag grown)
  | aggregate function inner innerReads =>
      rcases innerReads with ⟨term, found, reads⟩
      refine ⟨.aggregate function term, by simp [term?, found], fun bag grown => ?_⟩
      rw [Fragment.squeezed_call]
      exact reads_call function <| reads_disjunction_of_sum <|
        reads_sum_of_primary (reads bag grown)
  | count =>
      refine ⟨.aggregate .count (.constant (.int 1)), rfl, ?_⟩
      intro bag grown
      have one : Reads bag .primary [.word "1"] (.constant (.int 1)) :=
        reads_number (by decide +kernel)
      exact reads_call .count (reads_disjunction_of_sum (reads_sum_of_primary one))
  | lambda _ innerReads =>
      rcases innerReads with ⟨formula, found, reads⟩
      exact ⟨formula, found, reads⟩

theorem reads_scalar {scope : Scope} {expression : Expr} {hint : String}
    {draft later : Draft} {fragment : Fragment}
    (run : (expression.scalar scope hint).runFrom draft = (.ok fragment, later)) :
    ∃ formula, expression.term? scope = some formula ∧
      ∀ bag : Params, bag.Extends later.params →
        Reads bag .primary fragment.squeezed formula :=
  (scalarRun_of_scalar run).reads

/-! Conditions. A formula for the expression comes with the way its tokens read: as a
chain of tests, unless the expression is a chain of the other connective. -/

def ReadsBack (scope : Scope) (expression : Expr) (bag : Params) (tokens : List Token) : Prop :=
  ∃ formula : Formula, formula.Agrees (truth? scope · · expression) ∧
    ∀ connective, expression.mixesWith connective = false →
      Connected bag connective tokens formula

theorem exists_mixesWith_eq_false (expression : Expr) :
    ∃ connective, expression.mixesWith connective = false := by
  unfold mixesWith
  cases expression.body with
  | logical operator left right => exact ⟨operator, by simp⟩
  | _ => exact ⟨.and, rfl⟩

/-- With parentheses where it is of the other sort, it stands in a chain of either. -/
theorem ReadsBack.bracketed {scope : Scope} {expression : Expr} {bag : Params}
    {fragment : Fragment} (readsBack : expression.ReadsBack scope bag fragment.squeezed)
    (connective : Connective) :
    ∃ formula : Formula, formula.Agrees (truth? scope · · expression) ∧
      Connected bag connective (Fragment.squeezed
        (if expression.mixesWith connective then Fragment.parenthesized fragment else fragment))
        formula := by
  rcases readsBack with ⟨formula, agrees, connected⟩
  refine ⟨formula, agrees, ?_⟩
  cases mixes : expression.mixesWith connective with
  | false => exact connected connective mixes
  | true =>
      rcases expression.exists_mixesWith_eq_false with ⟨own, unmixed⟩
      rw [if_pos rfl, Fragment.squeezed_parenthesized]
      exact .single (reads_bracketed (connected own unmixed))

theorem readsBack_of_test {scope : Scope} {expression : Expr} {bag : Params}
    {tokens : List Token} (formula : Formula)
    (agrees : formula.Agrees (truth? scope · · expression))
    (reads : Reads bag .test tokens formula) : expression.ReadsBack scope bag tokens :=
  ⟨formula, agrees, fun _ _ => .single reads⟩

theorem reads_always (bag : Params) :
    Reads bag .test Fragment.always.squeezed
      (.comparison .equal (.constant (.int 1)) (.constant (.int 1))) := by
  have one : Reads bag .primary [.word "1"] (.constant (.int 1)) :=
    reads_number (by decide +kernel)
  exact reads_comparison .equal (reads_sum_of_primary one) (reads_sum_of_primary one)

theorem reads_never (bag : Params) :
    Reads bag .test Fragment.never.squeezed
      (.comparison .equal (.constant (.int 1)) (.constant (.int 0))) := by
  have one : Reads bag .primary [.word "1"] (.constant (.int 1)) :=
    reads_number (by decide +kernel)
  have zero : Reads bag .primary [.word "0"] (.constant (.int 0)) :=
    reads_number (by decide +kernel)
  exact reads_comparison .equal (reads_sum_of_primary one) (reads_sum_of_primary zero)

/-- The two conditions that need no column are told apart by the numbers in them. -/
theorem truth?_numbers (engine : Engine) (valuation : Valuation) (left right : Int64) :
    (Formula.comparison .equal (.constant (.int left)) (.constant (.int right))).truth?
      engine valuation = some (.ofBool (decide (left = right))) := by
  simp [Formula.truth?, Formula.value?, Engine.compared, Value.isNull, engine.compare_int]

theorem value?_eq {scope : Scope} {expression : Expr} {term : Formula}
    (found : expression.term? scope = some term) (engine : Engine) (valuation : Valuation) :
    ∃ value, term.value? engine valuation = some value ∧
      expression.value? scope engine valuation = some value := by
  rcases exists_value?_of_term? engine valuation found with ⟨value, read⟩
  exact ⟨value, read, by simp [value?, found, read]⟩

theorem agrees_nullTest {scope : Scope} {operand : Expr} {term : Formula}
    (found : operand.term? scope = some term) (negated : Bool) :
    (Formula.nullTest term negated).Agrees fun engine valuation => do
      let tested ← operand.value? scope engine valuation
      return (Truth.ofBool tested.isNull).negatedIf negated := by
  intro engine valuation
  rcases value?_eq found engine valuation with ⟨value, read, same⟩
  exact ⟨_, by simp [Formula.truth?, read]; rfl, by simp [same]⟩

/-- The truth of a comparison with the null constant is that of the test it is built as. -/
theorem reads_nullComparison {scope : Scope} {operator : Comparison} {operand : Expr}
    {tested : Fragment} {negated : Bool} {term : Formula} {bag : Params}
    (negation : operator = if negated then .notEqual else .equal)
    (found : operand.term? scope = some term) (reads : Reads bag .primary tested.squeezed term) :
    ∃ formula : Formula, formula.Agrees (nullTruth? scope · · operator operand) ∧
      Reads bag .test (Fragment.nullTest tested negated).squeezed formula := by
  refine ⟨.nullTest term negated, ?_, ?_⟩
  · subst negation
    cases negated <;> exact agrees_nullTest found _
  · rw [Fragment.squeezed_nullTest]
    exact reads_nullTest negated (reads_sum_of_primary reads)

theorem CompareRun.reads {scope : Scope} {operator : Comparison} {left right : Expr}
    {draft later : Draft} {fragment : Fragment}
    (steps : CompareRun scope operator left right draft fragment later)
    {bag : Params} (grown : bag.Extends later.params) :
    ∃ formula : Formula, formula.Agrees (comparisonTruth? scope · · operator left right) ∧
      Reads bag .test fragment.squeezed formula := by
  unfold comparisonTruth?
  cases steps with
  | nullOnRight null negation inner =>
      rcases inner.reads with ⟨term, found, reads⟩
      simpa only [if_pos null] using reads_nullComparison negation found (reads bag grown)
  | nullOnLeft other null negation inner =>
      rcases inner.reads with ⟨term, found, reads⟩
      simpa only [if_neg other, if_pos null] using
        reads_nullComparison negation found (reads bag grown)
  | sides noRight noLeft head tail =>
      simp only [if_neg noRight, if_neg noLeft]
      rcases head.reads with ⟨leftTerm, leftFound, leftReads⟩
      rcases tail.reads with ⟨rightTerm, rightFound, rightReads⟩
      refine ⟨.comparison operator leftTerm rightTerm, fun engine valuation => ?_, ?_⟩
      · rcases value?_eq leftFound engine valuation with ⟨leftValue, leftRead, leftSame⟩
        rcases value?_eq rightFound engine valuation with ⟨rightValue, rightRead, rightSame⟩
        exact ⟨engine.compared operator leftValue rightValue,
          by simp [Formula.truth?, leftRead, rightRead], by simp [leftSame, rightSame]⟩
      · rw [Fragment.squeezed_joined]
        exact reads_comparison operator (reads_sum_of_primary (leftReads bag
          (grown.trans tail.extends))) (reads_sum_of_primary (rightReads bag grown))

theorem PredicateRun.readsBack {scope : Scope} (joins : scope.PlainJoin) {expression : Expr}
    {draft later : Draft} {fragment : Fragment}
    (steps : PredicateRun scope expression draft fragment later)
    (plain : expression.PlainMembers scope.catalog) (bag : Params)
    (grown : bag.Extends later.params) : expression.ReadsBack scope bag fragment.squeezed := by
  induction steps with
  | member path found bound =>
      rcases Scope.member_eq_ok.mp found with ⟨reference, resolved, rfl⟩
      have columnReads := reads_column bag reference
      rw [Fragment.squeezed_joined, Fragment.squeezed_fragment]
      refine readsBack_of_test _ (fun engine valuation => ⟨_, rfl, ?_⟩) <|
        reads_comparison .equal (reads_sum_of_primary columnReads)
          (reads_sum_of_primary (reads_input bound grown))
      simp [truth?, resolved]
  | always =>
      exact readsBack_of_test _
        (fun engine valuation => ⟨_, truth?_numbers engine valuation 1 1, rfl⟩)
        (reads_always bag)
  | never =>
      exact readsBack_of_test _
        (fun engine valuation => ⟨_, truth?_numbers engine valuation 1 0, rfl⟩)
        (reads_never bag)
  | comparison sides =>
      rcases sides.reads grown with ⟨formula, agrees, reads⟩
      exact readsBack_of_test formula agrees reads
  | logical connective left right head tail headReads tailReads =>
      have parts := plainMembers_append left right rfl plain
      have kept := (tail.written joins parts.2).binds.extends
      rcases (headReads parts.1 (grown.trans kept)).bracketed connective with
        ⟨leftFormula, leftAgrees, leftChain⟩
      rcases (tailReads parts.2 grown).bracketed connective with
        ⟨rightFormula, rightAgrees, rightChain⟩
      rcases connected_append leftChain rightChain with ⟨formula, chain, truth⟩
      refine ⟨formula, fun engine valuation => ?_, fun other unmixed => ?_⟩
      · rcases leftAgrees engine valuation with ⟨leftTruth, leftRead, leftSame⟩
        rcases rightAgrees engine valuation with ⟨rightTruth, rightRead, rightSame⟩
        exact ⟨connective.combine leftTruth rightTruth,
          by simp [truth engine valuation, Formula.truth?, leftRead, rightRead],
          by simp [truth?, leftSame, rightSame]⟩
      · have same : connective = other := by simpa [mixesWith, body] using unmixed
        subst same
        rwa [Fragment.squeezed_connected]
  | negation operand _ innerReads =>
      rcases innerReads plain grown with ⟨formula, agrees, connected⟩
      rcases operand.exists_mixesWith_eq_false with ⟨own, unmixed⟩
      refine readsBack_of_test (.negation formula) (fun engine valuation => ?_) ?_
      · rcases agrees engine valuation with ⟨truth, read, same⟩
        exact ⟨truth.not, by simp [Formula.truth?, read], by simp [truth?, same]⟩
      · simpa using reads_negation rfl (reads_bracketed (connected own unmixed))
  | nullTest negated inner =>
      rcases inner.reads with ⟨term, found, reads⟩
      rw [Fragment.squeezed_nullTest]
      exact readsBack_of_test _ (agrees_nullTest found negated)
        (reads_nullTest negated (reads_sum_of_primary (reads bag grown)))
  | emptyList negated =>
      cases negated with
      | false =>
          exact readsBack_of_test _
            (fun engine valuation => ⟨_, truth?_numbers engine valuation 1 0, rfl⟩)
            (reads_never bag)
      | true =>
          exact readsBack_of_test _
            (fun engine valuation => ⟨_, truth?_numbers engine valuation 1 1, rfl⟩)
            (reads_always bag)
  | inList item items negated inner binding =>
      have hinted := (inner.plainHint plain).getD isPlainIdentifier_unnamed
      rcases inner.reads with ⟨term, found, reads⟩
      have kept := (Build.writtenAll_inputs hinted binding).binds.extends
      rcases bound_inputs hinted binding grown with ⟨names, rfl, bound⟩
      have named : names ≠ [] := by
        rintro rfl
        cases bound
      refine readsBack_of_test (.inList term (item :: items) negated)
        (fun engine valuation => ?_) ?_
      · rcases value?_eq found engine valuation with ⟨value, read, same⟩
        exact ⟨_, by simp [Formula.truth?, read]; rfl, by simp [truth?, same]⟩
      · have chain := reads_inList negated (reads_sum_of_primary (reads bag (grown.trans kept)))
          bound named
        have items : Fragment.squeezed (Fragment.commaSeparated
            (names.map fun name => [Token.placeholder name])) =
              [Token.symbol .comma].intercalate
                (names.map fun name => [Token.placeholder name]) := by
          rw [Fragment.commaSeparated, Fragment.squeezed_intercalate, List.map_map]
          rfl
        simpa [Fragment.squeezed_operatorWord, items] using chain
  | like pattern anchor negated inner binding =>
      have hinted := (inner.plainHint plain).getD isPlainIdentifier_unnamed
      rcases inner.reads with ⟨term, found, reads⟩
      have kept := (Build.written_input hinted binding).binds.extends
      refine readsBack_of_test (.like term (.constant (.text (anchor.wrap pattern))) negated)
        (fun engine valuation => ?_) ?_
      · rcases value?_eq found engine valuation with ⟨value, read, same⟩
        exact ⟨_, by simp [Formula.truth?, Formula.value?, read]; rfl, by simp [truth?, same]⟩
      · have test := reads_like negated (reads_sum_of_primary (reads bag (grown.trans kept)))
          (reads_sum_of_primary (reads_input binding grown))
        simpa [Fragment.squeezed_operatorWord] using test
  | between low high inner lower upper =>
      have hinted := (inner.plainHint plain).getD isPlainIdentifier_unnamed
      rcases inner.reads with ⟨term, found, reads⟩
      have keptHigh := grown.trans (Build.written_input hinted upper).binds.extends
      have keptLow := keptHigh.trans (Build.written_input hinted lower).binds.extends
      refine readsBack_of_test (.between term (.constant low) (.constant high) false)
        (fun engine valuation => ?_) ?_
      · rcases value?_eq found engine valuation with ⟨value, read, same⟩
        exact ⟨engine.within value low high, by simp [Formula.truth?, Formula.value?, read]; rfl,
          by simp [truth?, same]⟩
      · have test := reads_between (reads_sum_of_primary (reads bag keptLow))
          (reads_sum_of_primary (reads_input lower keptHigh))
          (reads_sum_of_primary (reads_input upper grown))
        simpa [Connective.keyword] using test
  | lambda _ innerReads => exact innerReads plain grown

theorem readsBack_predicate {scope : Scope} (joins : scope.PlainJoin) {expression : Expr}
    {draft later : Draft} {fragment : Fragment} (plain : expression.PlainMembers scope.catalog)
    (run : (expression.predicate scope).runFrom draft = (.ok fragment, later)) (bag : Params)
    (grown : bag.Extends later.params) : expression.ReadsBack scope bag fragment.squeezed :=
  (predicateRun_of_predicate run).readsBack joins plain bag grown

end Expr

/-! Lists of conditions. -/

namespace Scope

open EntitySql.Expr

/-- Conditions added to a chain of tests carry it on, as the conjunction of it with all
of them. -/
theorem connected_conjuncts {scope : Scope} (joins : scope.PlainJoin) {bag : Params}
    {expressions : List Expr} {draft later : Draft} {fragments : List Fragment}
    (plain : ∀ expression ∈ expressions, expression.PlainMembers scope.catalog)
    (run : (scope.conjuncts expressions).runFrom draft = (.ok fragments, later))
    (grown : bag.Extends later.params) {tokens : List Token} {start : Formula}
    {startTruth? : Engine → Valuation → Option Truth} (agrees : start.Agrees startTruth?)
    (chain : Connected bag .and tokens start) :
    ∃ formula : Formula,
      Connected bag .and (tokens ++ Fragment.squeezed (fragments.flatMap added)) formula ∧
      formula.Agrees fun engine valuation => do
        let first ← startTruth? engine valuation
        let others ← jointTruth? scope engine valuation expressions
        return first.and others := by
  induction expressions generalizing draft fragments tokens start startTruth? with
  | nil =>
      rw [conjuncts, Build.runFrom_pure_eq_ok] at run
      rcases run with ⟨rfl, rfl⟩
      refine ⟨start, by simpa using chain, ?_⟩
      intro engine valuation
      rcases agrees engine valuation with ⟨truth, read, same⟩
      exact ⟨truth, read, by simp [same, jointTruth?, Truth.all]⟩
  | cons expression expressions induction =>
      simp only [conjuncts, conjunct, Build.runFrom_bind_eq_ok, Build.runFrom_pure_eq_ok] at run
      rcases run with ⟨first, middle, ⟨condition, _, head, rfl, rfl⟩, rest, last, tail, rfl, rfl⟩
      have restPlain := fun other member => plain other (List.mem_cons_of_mem _ member)
      have kept := (writtenAll_conjuncts joins restPlain tail).binds.extends
      rcases (readsBack_predicate joins (plain expression List.mem_cons_self) head bag
          (grown.trans kept)).bracketed .and with
        ⟨formula, firstAgrees, firstChain⟩
      rcases connected_append chain firstChain with ⟨both, bothChain, bothTruth⟩
      have bothAgrees : both.Agrees fun engine valuation => do
          let first ← startTruth? engine valuation
          let second ← expression.truth? scope engine valuation
          return first.and second := by
        intro engine valuation
        rcases agrees engine valuation with ⟨startTruth, startRead, startSame⟩
        rcases firstAgrees engine valuation with ⟨truth, read, same⟩
        exact ⟨startTruth.and truth,
          by simp [bothTruth engine valuation, Formula.truth?, startRead, read,
            Connective.combine],
          by simp [startSame, same]⟩
      rcases induction restPlain tail bothAgrees bothChain with ⟨whole, wholeChain, wholeAgrees⟩
      refine ⟨whole, by simpa [added, Connective.keyword] using wholeChain, ?_⟩
      intro engine valuation
      rcases wholeAgrees engine valuation with ⟨truth, read, same⟩
      refine ⟨truth, read, ?_⟩
      simp only [Option.bind_eq_bind, Option.bind_eq_some_iff, Option.pure_def,
        Option.some.injEq] at same ⊢
      rcases same with
        ⟨_, ⟨startTruth, startSame, second, secondSame, rfl⟩, others, othersSame, rfl⟩
      exact ⟨startTruth, startSame, second.and others,
        jointTruth?_cons scope engine valuation secondSame othersSame,
        by rw [Truth.and_assoc]⟩

/-- A where clause is the conjunction of its conditions, behind one that always holds. -/
theorem connected_whereClause {scope : Scope} (joins : scope.PlainJoin) {bag : Params}
    {filters : List Expr} {draft later : Draft} {fragment : Fragment}
    (plain : ∀ expression ∈ filters, expression.PlainMembers scope.catalog)
    (run : (scope.whereClause filters).runFrom draft = (.ok fragment, later))
    (grown : bag.Extends later.params) :
    ∃ tokens formula, fragment.squeezed = .word "WHERE" :: tokens ∧
      Connected bag .and tokens formula ∧ formula.Agrees (jointTruth? scope · · filters) := by
  simp only [whereClause, Build.runFrom_bind_eq_ok, Build.runFrom_pure_eq_ok] at run
  rcases run with ⟨fragments, last, inner, rfl, rfl⟩
  have always : Formula.Agrees (.comparison .equal (.constant (.int 1)) (.constant (.int 1)))
      fun _ _ => some .yes :=
    fun engine valuation => ⟨_, truth?_numbers engine valuation 1 1, rfl⟩
  rcases connected_conjuncts joins plain inner grown always (.single (reads_always bag)) with
    ⟨formula, connected, agrees⟩
  refine ⟨_, formula, rfl, connected, ?_⟩
  intro engine valuation
  rcases agrees engine valuation with ⟨truth, read, same⟩
  exact ⟨truth, read, by simpa using same⟩

theorem reads_whereClause {scope : Scope} (joins : scope.PlainJoin) {bag : Params}
    {filters : List Expr} {draft later : Draft} {fragment : Fragment}
    (plain : ∀ expression ∈ filters, expression.PlainMembers scope.catalog)
    (run : (scope.whereClause filters).runFrom draft = (.ok fragment, later))
    (grown : bag.Extends later.params) :
    ∃ tokens formula, fragment.squeezed = .word "WHERE" :: tokens ∧
      Reads bag .disjunction tokens formula ∧
      formula.Agrees (jointTruth? scope · · filters) := by
  rcases connected_whereClause joins plain run grown with
    ⟨tokens, formula, starts, connected, agrees⟩
  exact ⟨tokens, formula, starts, reads_connected connected, agrees⟩

end Scope

/-! From text to formula. -/

theorem readCondition_of_reads {bag : Params} {tokens : List Token} {formula : Formula}
    (reads : Reads bag .disjunction tokens formula) :
    readCondition bag tokens = some formula := by
  have read := reads tokens.length [] (Nat.le_refl _) (stops_nil _)
  rw [List.append_nil] at read
  simp [readCondition, readFormula, show FormulaReader.disjunction bag _ tokens = _ from read]

theorem conditionOf_text {dialect : Dialect} {bag : Params} {fragment : Fragment}
    {formula : Formula} (legible : fragment.Legible)
    (reads : Reads bag .disjunction fragment.squeezed formula) :
    dialect.conditionOf bag (fragment.text dialect.lexical) = some formula := by
  simp [Dialect.conditionOf, dialect.readTokens_text legible, readCondition_of_reads reads]

theorem clauseConditionOf_text {dialect : Dialect} {bag : Params} {fragment : Fragment}
    {keyword : String} {tokens : List Token} {formula : Formula} (legible : fragment.Legible)
    (starts : fragment.squeezed = .word keyword :: tokens)
    (reads : Reads bag .disjunction tokens formula) :
    dialect.clauseConditionOf keyword bag (fragment.text dialect.lexical) = some formula := by
  simp [Dialect.clauseConditionOf, dialect.readTokens_text legible, starts, skipToken,
    readCondition_of_reads reads]

open EntitySql.Expr in
/-- Whatever dialect the text is written in and whatever had been bound before, the
text of a condition reads back as a formula that is as true as the expression; the
text of a where clause and that of a having clause with conditions read back as the
conjunction of all the conditions. -/
theorem conditions_read_back (dialect : Dialect) (catalog : Catalog) (qualified : Bool)
    (draft later : Draft) (fragment : Fragment) :
    (∀ expression : Expr,
      (∀ path ∈ expression.members, isPlainIdentifier path.member = true) →
      (expression.predicate { catalog, qualified }).runFrom draft = (.ok fragment, later) →
      ∃ formula : Formula,
        dialect.conditionOf later.params (fragment.text dialect.lexical) = some formula ∧
        formula.Agrees (truth? { catalog, qualified } · · expression)) ∧
    (∀ filters : List Expr,
      (∀ expression ∈ filters, ∀ path ∈ expression.members,
        isPlainIdentifier path.member = true) →
      (Scope.whereClause { catalog, qualified } filters).runFrom draft = (.ok fragment, later) →
      ∃ formula : Formula,
        dialect.clauseConditionOf "WHERE" later.params (fragment.text dialect.lexical) =
          some formula ∧
        formula.Agrees (jointTruth? { catalog, qualified } · · filters)) ∧
    (∀ conditions : List Expr, conditions ≠ [] →
      (∀ expression ∈ conditions, ∀ path ∈ expression.members,
        isPlainIdentifier path.member = true) →
      (Scope.havingClause { catalog, qualified } conditions).runFrom draft =
        (.ok fragment, later) →
      ∃ formula : Formula,
        dialect.clauseConditionOf "HAVING" later.params (fragment.text dialect.lexical) =
          some formula ∧
        formula.Agrees (jointTruth? { catalog, qualified } · · conditions)) := by
  have joins : Scope.PlainJoin { catalog, qualified } :=
    fun _ member => absurd member (Option.not_mem_none _)
  have grown := later.params.extends_refl
  refine ⟨fun expression named run => ?_, fun filters named run => ?_,
    fun conditions given named run => ?_⟩
  · have plain : expression.PlainMembers catalog := fun path member _ => named path member
    rcases expression.exists_mixesWith_eq_false with ⟨own, unmixed⟩
    rcases readsBack_predicate joins plain run _ grown with ⟨formula, agrees, connected⟩
    exact ⟨formula, conditionOf_text (written_predicate joins plain run).legible
      (reads_connected (connected own unmixed)), agrees⟩
  · have plain : ∀ expression ∈ filters, expression.PlainMembers catalog :=
      fun expression given path member _ => named expression given path member
    have legible := (Scope.written_whereClause joins plain run).legible
    rcases Scope.reads_whereClause joins plain run grown with
      ⟨tokens, formula, starts, reads, agrees⟩
    exact ⟨formula, clauseConditionOf_text legible starts reads, agrees⟩
  · have plain : ∀ expression ∈ conditions, expression.PlainMembers catalog :=
      fun expression given path member _ => named expression given path member
    have legible := (Scope.written_havingClause joins plain run).legible
    rcases List.exists_cons_of_ne_nil given with ⟨expression, rest, rfl⟩
    simp only [Scope.havingClause, List.isEmpty_cons, Bool.false_eq_true, if_false,
      Scope.conjuncts, conjunct, Build.runFrom_bind_eq_ok, Build.runFrom_pure_eq_ok] at run
    rcases run with
      ⟨_, _, ⟨first, middle, ⟨condition, _, head, rfl, rfl⟩, others, last, tail, rfl, rfl⟩,
       rfl, rfl⟩
    have restPlain := fun other member => plain other (List.mem_cons_of_mem _ member)
    have kept := (Scope.writtenAll_conjuncts joins restPlain tail).binds.extends
    rcases (readsBack_predicate joins (plain expression List.mem_cons_self) head _
      kept).bracketed .and with ⟨start, startAgrees, startChain⟩
    rcases Scope.connected_conjuncts joins restPlain tail grown startAgrees startChain with
      ⟨formula, connected, agrees⟩
    refine ⟨formula, clauseConditionOf_text legible ?_ (reads_connected connected),
      fun engine valuation => ?_⟩
    · rw [Fragment.intercalate_cons_eq, ← Fragment.squeezed_append]
      rfl
    · rcases agrees engine valuation with ⟨truth, read, same⟩
      refine ⟨truth, read, ?_⟩
      simp only [Option.bind_eq_bind, Option.bind_eq_some_iff, Option.pure_def,
        Option.some.injEq] at same
      rcases same with ⟨_, firstSame, _, restSame, rfl⟩
      exact jointTruth?_cons _ engine valuation firstSame restSame

/-- A disjunction within a conjunction, on its own and in either clause. -/
theorem conditions_read_back_nested :
    let age : Expr := .column "Person" "Age"
    let nested : Expr := .logical .and (.member ⟨"Person", "Id"⟩)
      (.logical .or (.between age (.int 30) (.int 40)) (.inList age [] true))
    (∃ fragment later formula,
      (nested.predicate { catalog := .people, qualified := true }).runFrom {} =
        (.ok fragment, later) ∧
      Dialect.oracle.conditionOf later.params (fragment.text Dialect.oracle.lexical) =
        some formula) ∧
    (∃ fragment later formula,
      (Scope.whereClause { catalog := .people, qualified := true } [nested, nested]).runFrom {} =
        (.ok fragment, later) ∧
      Dialect.oracle.clauseConditionOf "WHERE" later.params
        (fragment.text Dialect.oracle.lexical) = some formula) ∧
    (∃ fragment later formula,
      (Scope.havingClause { catalog := .people, qualified := true } [nested, nested]).runFrom {} =
        (.ok fragment, later) ∧
      Dialect.oracle.clauseConditionOf "HAVING" later.params
        (fragment.text Dialect.oracle.lexical) = some formula) := by
  intro age nested
  have named : ∀ expression ∈ [nested, nested], ∀ path ∈ expression.members,
      isPlainIdentifier path.member = true := by decide
  refine ⟨?_, ?_, ?_⟩
  · rcases (conditions_read_back .oracle .people true {} _ _).1 nested (named nested (by simp))
      rfl with ⟨formula, read, -⟩
    exact ⟨_, _, formula, rfl, read⟩
  · rcases (conditions_read_back .oracle .people true {} _ _).2.1 [nested, nested] named rfl with
      ⟨formula, read, -⟩
    exact ⟨_, _, formula, rfl, read⟩
  · rcases (conditions_read_back .oracle .people true {} _ _).2.2 [nested, nested] (by simp)
      named rfl with ⟨formula, read, -⟩
    exact ⟨_, _, formula, rfl, read⟩

end EntitySql
