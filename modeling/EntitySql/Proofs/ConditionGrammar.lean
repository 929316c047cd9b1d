import EntitySql.Proofs.ConditionReader

/-! What the reader of conditions makes of tokens that are put together by its rules.
Tokens read as a formula at some level if the reader of that level takes all of
them and nothing behind them, whatever follows that could not carry them on: a
token behind them has to bind less tightly than the level does. -/

namespace EntitySql

/-- How tightly a token binds what stands before it to what stands behind it. -/
def Token.rank : Token → Nat
  | .word text =>
      if text = "OR" then 1
      else if text = "AND" then 2
      else if text = "IS" ∨ text = "NOT" ∨ text = "IN" ∨ text = "LIKE" ∨ text = "BETWEEN" then 3
      else 0
  | .symbol .plus | .symbol .minus => 4
  | .symbol .times | .symbol .slash => 5
  | .symbol .dot | .symbol .openParen => 6
  | .symbol glyph => if glyph.comparison?.isSome then 3 else 0
  | _ => 0

/-- The tokens carry on nothing that binds as tightly as the bound. -/
def Stops (bound : Nat) (tokens : List Token) : Prop :=
  ∀ token ∈ tokens.head?, token.rank < bound

theorem stops_nil (bound : Nat) : Stops bound [] :=
  fun _ head => absurd head (Option.not_mem_none _)

theorem stops_cons {bound : Nat} {token : Token} {rest : List Token} (lower : token.rank < bound) :
    Stops bound (token :: rest) := by
  intro first head
  exact Option.some.inj head ▸ lower

theorem Stops.weaken {bound wider : Nat} {tokens : List Token} (stops : Stops bound tokens)
    (le : bound ≤ wider) : Stops wider tokens :=
  fun token head => Nat.lt_of_lt_of_le (stops token head) le

inductive Level where
  | primary
  | product
  | sum
  | test
  | conjunction
  | disjunction
  deriving DecidableEq, Repr

namespace Level

def reader (bag : Params) (inner : FormulaReader) : Level → FormulaReader
  | .primary => .primary bag inner
  | .product => .product bag inner
  | .sum => .sum bag inner
  | .test => .test bag inner
  | .conjunction => .conjunction bag inner
  | .disjunction => .disjunction bag inner

/-- Tokens of this rank carry on what is read at the level. -/
def bound : Level → Nat
  | .primary => 6
  | .product => 5
  | .sum => 4
  | .test => 3
  | .conjunction => 2
  | .disjunction => 1

end Level

/-- The reader of the level takes the tokens for the formula, and nothing more. -/
def Reads (bag : Params) (level : Level) (tokens : List Token) (formula : Formula) : Prop :=
  ∀ depth rest, tokens.length ≤ depth → Stops level.bound rest →
    level.reader bag (readFormula bag depth) (tokens ++ rest) = some (formula, rest)

/-! Chains of operands. -/

/-- Tokens that read as operands with operators between them, grouped from the left. -/
inductive Chain (reads : List Token → Formula → Prop) (operator : Operator) :
    List Token → Formula → Prop
  | single {tokens formula} : reads tokens formula → Chain reads operator tokens formula
  | extend {tokens left token combine more right} : Chain reads operator tokens left →
      operator token = some combine → reads more right →
      Chain reads operator (tokens ++ token :: more) (combine left right)

theorem Chain.mono {reads others : List Token → Formula → Prop} {operator : Operator}
    {tokens : List Token} {formula : Formula} (chain : Chain reads operator tokens formula)
    (weaker : ∀ tokens formula, reads tokens formula → others tokens formula) :
    Chain others operator tokens formula := by
  induction chain with
  | single reads => exact .single (weaker _ _ reads)
  | extend _ combines reads induction => exact .extend induction combines (weaker _ _ reads)

namespace FormulaReader

theorem readChain_stops {operand : FormulaReader} {operator : Operator} {limit : Nat}
    {left : Formula} {tokens : List Token}
    (stops : ∀ token ∈ tokens.head?, operator token = none) :
    readChain operand operator limit left tokens = some (left, tokens) := by
  cases limit with
  | zero => rfl
  | succ limit =>
      cases tokens with
      | nil => rfl
      | cons token rest => simp only [readChain, stops token rfl]

/-- Reading a chain gets to its formula, with enough steps left for what follows. -/
theorem chained_chain {operand : FormulaReader} {operator : Operator} {bound size : Nat}
    {reads : List Token → Formula → Prop}
    (complete : ∀ tokens formula rest, reads tokens formula → tokens.length ≤ size →
      Stops bound rest → operand (tokens ++ rest) = some (formula, rest))
    (looser : ∀ token combine, operator token = some combine → token.rank < bound)
    {tokens : List Token} {formula : Formula} (chain : Chain reads operator tokens formula)
    (fits : tokens.length ≤ size) {rest : List Token} (stops : Stops bound rest) :
    ∃ limit, rest.length ≤ limit ∧ chained operand operator (tokens ++ rest) =
      readChain operand operator limit formula rest := by
  induction chain generalizing rest with
  | single reads =>
      refine ⟨rest.length, Nat.le_refl _, ?_⟩
      simp [chained, complete _ _ rest reads fits stops]
  | @extend tokens left token combine more right _ combines reads induction =>
      rw [List.length_append, List.length_cons] at fits
      have next : Stops bound (token :: (more ++ rest)) :=
        stops_cons (looser token combine combines)
      rcases induction (by omega) next with ⟨limit, enough, read⟩
      rw [List.length_cons, List.length_append] at enough
      rcases Nat.exists_eq_add_of_le' (Nat.one_le_of_lt enough) with ⟨fewer, rfl⟩
      refine ⟨fewer, by omega, ?_⟩
      rw [List.append_assoc, List.cons_append, read]
      simp [readChain, combines, complete _ _ rest reads (by omega) stops]

end FormulaReader

/-- A level that reads chains of the next tighter one. -/
structure Links (lower upper : Level) (operator : Operator) : Prop where
  reader : ∀ bag inner, upper.reader bag inner = .chained (lower.reader bag inner) operator
  looser : ∀ token combine, operator token = some combine → token.rank < lower.bound
  stops : ∀ token, token.rank < upper.bound → operator token = none
  tighter : upper.bound ≤ lower.bound

theorem links_product : Links .primary .product .product where
  reader _ _ := rfl
  looser token combine combines := by
    unfold Operator.product at combines
    split at combines <;> first | decide | cases combines
  stops token low := by
    unfold Operator.product
    split <;> first | rfl | exact absurd low (by decide)
  tighter := by decide

theorem links_sum : Links .product .sum .sum where
  reader _ _ := rfl
  looser token combine combines := by
    unfold Operator.sum at combines
    split at combines <;> first | decide | cases combines
  stops token low := by
    unfold Operator.sum
    split <;> first | rfl | exact absurd low (by decide)
  tighter := by decide

theorem links_connective {lower upper : Level} {connective : Connective}
    (reader : ∀ bag inner,
      upper.reader bag inner = .chained (lower.reader bag inner) (.connective connective))
    (rank : (Token.word connective.keyword).rank = upper.bound)
    (tighter : upper.bound < lower.bound) : Links lower upper (.connective connective) where
  reader := reader
  looser token combine combines := by
    rcases Option.ite_none_right_eq_some.mp combines with ⟨rfl, -⟩
    exact rank ▸ tighter
  stops token low := by
    apply if_neg
    intro same
    rw [same, rank] at low
    exact Nat.lt_irrefl _ low
  tighter := Nat.le_of_lt tighter

theorem links_conjunction : Links .test .conjunction (.connective .and) :=
  links_connective (fun _ _ => rfl) (by decide) (by decide)

theorem links_disjunction : Links .conjunction .disjunction (.connective .or) :=
  links_connective (fun _ _ => rfl) (by decide) (by decide)

theorem reads_of_chain {bag : Params} {lower upper : Level} {operator : Operator}
    (links : Links lower upper operator) {tokens : List Token} {formula : Formula}
    (chain : Chain (Reads bag lower) operator tokens formula) :
    Reads bag upper tokens formula := by
  intro depth rest fits stops
  rcases FormulaReader.chained_chain
      (fun tokens formula rest reads fits stops => reads depth rest fits stops) links.looser
      chain fits (stops.weaken links.tighter) with
    ⟨limit, -, read⟩
  rw [links.reader, read]
  exact FormulaReader.readChain_stops fun token head => links.stops token (stops token head)

theorem reads_of_lower {bag : Params} {lower upper : Level} {operator : Operator}
    (links : Links lower upper operator) {tokens : List Token} {formula : Formula}
    (reads : Reads bag lower tokens formula) : Reads bag upper tokens formula :=
  reads_of_chain links (.single reads)

/-! Primaries. -/

section

variable {bag : Params}

theorem reads_placeholder {name : String} {value : Value} (bound : bag.get? name = some value) :
    Reads bag .primary [.placeholder name] (.constant value) := by
  intro depth rest _ _
  simp [Level.reader, FormulaReader.primary, bound]

theorem reads_column (bag : Params) (reference : ColumnReference) :
    Reads bag .primary reference.fragment (.column reference) := by
  intro depth rest _ _
  rcases reference with ⟨_ | aliasName, name⟩ <;> rfl

/-- A word is a qualifier only before a dot, and names a function only before a
parenthesis. -/
theorem primary_word {inner : FormulaReader} {text : String} {rest : List Token}
    (notDot : rest.head? ≠ some (.symbol .dot))
    (notParen : rest.head? ≠ some (.symbol .openParen)) :
    FormulaReader.primary bag inner (.word text :: rest) =
      (readNumber? text).map fun value => (.constant value, rest) := by
  cases rest with
  | nil => rfl
  | cons token rest =>
      cases token with
      | symbol glyph =>
          cases glyph with
          | dot => exact absurd rfl notDot
          | openParen => exact absurd rfl notParen
          | _ => rfl
      | _ => rfl

theorem Stops.head_ne {bound : Nat} {tokens : List Token} (stops : Stops bound tokens)
    {token : Token} (tight : bound ≤ token.rank) : tokens.head? ≠ some token :=
  fun head => Nat.not_lt.mpr tight (stops token head)

theorem reads_number {text : String} {value : Value} (number : readNumber? text = some value) :
    Reads bag .primary [.word text] (.constant value) := by
  intro depth rest _ stops
  have plain : FormulaReader.primary bag (readFormula bag depth) (.word text :: rest) = _ :=
    primary_word (stops.head_ne (by decide)) (stops.head_ne (by decide))
  simp [Level.reader, plain, number]

/-- What is read inside parentheses, with one level of depth used up. -/
theorem inner_of_reads {tokens : List Token} {formula : Formula}
    (reads : Reads bag .disjunction tokens formula) {depth : Nat} (rest : List Token)
    (fits : tokens.length + 1 ≤ depth) :
    readFormula bag depth (tokens ++ .symbol .closeParen :: rest) =
      some (formula, .symbol .closeParen :: rest) := by
  rcases Nat.exists_eq_add_of_le' (Nat.one_le_of_lt fits) with ⟨less, rfl⟩
  exact reads less _ (by omega) (stops_cons (by decide))

theorem reads_parenthesized {tokens : List Token} {formula : Formula}
    (reads : Reads bag .disjunction tokens formula) :
    Reads bag .primary (.symbol .openParen :: tokens ++ [.symbol .closeParen]) formula := by
  intro depth rest fits _
  simp only [List.cons_append, List.length_cons, List.length_append] at fits
  have room : tokens.length + 1 ≤ depth := by omega
  have inner := inner_of_reads reads rest room
  simp [Level.reader, FormulaReader.primary, inner, skipToken]

theorem reads_call (function : Aggregate) {tokens : List Token} {formula : Formula}
    (reads : Reads bag .disjunction tokens formula) :
    Reads bag .primary
      (.word function.keyword :: .symbol .openParen :: tokens ++ [.symbol .closeParen])
      (.aggregate function formula) := by
  intro depth rest fits _
  simp only [List.cons_append, List.length_cons, List.length_append] at fits
  have room : tokens.length + 1 ≤ depth := by omega
  have inner := inner_of_reads reads rest room
  have known : Aggregate.ofKeyword? function.keyword = some function := by
    cases function <;> decide
  simp [Level.reader, FormulaReader.primary, inner, skipToken, known]

/-! Tests. -/

theorem chained_eq_none {operand : FormulaReader} {operator : Operator} {tokens : List Token}
    (fails : operand tokens = none) : FormulaReader.chained operand operator tokens = none := by
  simp [FormulaReader.chained, fails]

/-- Where a scalar can be read, a leading `NOT` can only be an alias. -/
theorem negated_tested {inner : FormulaReader} {tokens : List Token}
    {result : Formula × List Token}
    (reads : FormulaReader.tested bag (.sum bag inner) tokens = some result) :
    FormulaReader.test bag inner tokens = some result := by
  unfold FormulaReader.test FormulaReader.negated
  split
  · next text rest =>
      split_ifs with leading
      · rcases leading with ⟨rfl, notDot⟩
        have fails : FormulaReader.primary bag inner (.word "NOT" :: rest) = none := by
          by_cases paren : rest.head? = some (.symbol .openParen)
          · rcases List.head?_eq_some_iff.mp paren with ⟨_, rfl⟩
            rfl
          · rw [primary_word notDot paren]
            rfl
        have noSum : FormulaReader.sum bag inner (.word "NOT" :: rest) = none :=
          chained_eq_none (chained_eq_none fails)
        simp [FormulaReader.tested, noSum] at reads
      · exact reads
  · exact reads

theorem test?_eq_none {sum : FormulaReader} {token : Token} (low : token.rank < 3) :
    FormulaReader.test? bag sum token = none := by
  cases token with
  | word text =>
      rw [Token.rank] at low
      split_ifs at low with isOr isAnd others
      · subst isOr
        rfl
      · subst isAnd
        rfl
      · exact absurd low (by decide)
      · simp only [not_or] at others
        simp [FormulaReader.test?, others]
  | symbol glyph => cases glyph <;> first | rfl | exact absurd low (by decide)
  | _ => rfl

theorem reads_test_of_sum {tokens : List Token} {formula : Formula}
    (reads : Reads bag .sum tokens formula) : Reads bag .test tokens formula := by
  intro depth rest fits stops
  have subject : FormulaReader.sum bag (readFormula bag depth) (tokens ++ rest) =
      some (formula, rest) := reads depth rest fits (stops.weaken (by decide))
  apply negated_tested
  simp only [FormulaReader.tested, subject, Option.bind_eq_bind, Option.bind_some]
  cases rest with
  | nil => rfl
  | cons token rest => simp [test?_eq_none (stops token rfl)]

/-- A subject with what follows the token that starts its test. -/
theorem reads_test {tokens more : List Token} {token : Token} {subject formula : Formula}
    (reads : Reads bag .sum tokens subject) (rank : token.rank < 4)
    (finishes : ∀ depth rest, more.length ≤ depth → Stops 3 rest →
      ∃ read, FormulaReader.test? bag (.sum bag (readFormula bag depth)) token = some read ∧
        read subject (more ++ rest) = some (formula, rest)) :
    Reads bag .test (tokens ++ token :: more) formula := by
  intro depth rest fits stops
  rw [List.length_append, List.length_cons] at fits
  have first : FormulaReader.sum bag (readFormula bag depth)
      (tokens ++ token :: (more ++ rest)) = some (subject, token :: (more ++ rest)) :=
    reads depth _ (by omega) (stops_cons rank)
  rcases finishes depth rest (by omega) stops with ⟨read, starts, finished⟩
  apply negated_tested
  rw [List.append_assoc, List.cons_append]
  simp only [FormulaReader.tested, first, starts, Option.bind_eq_bind, Option.bind_some]
  exact finished

theorem comparison?_symbol (operator : Comparison) :
    operator.symbol.comparison? = some operator := by
  cases operator <;> rfl

theorem reads_comparison (operator : Comparison) {tokens more : List Token}
    {left right : Formula} (first : Reads bag .sum tokens left)
    (second : Reads bag .sum more right) :
    Reads bag .test (tokens ++ .symbol operator.symbol :: more)
      (.comparison operator left right) := by
  apply reads_test first (by cases operator <;> decide)
  intro depth rest fits stops
  have operand : FormulaReader.sum bag (readFormula bag depth) (more ++ rest) =
      some (right, rest) := second depth rest fits (stops.weaken (by decide))
  refine ⟨_, congrArg (Option.map _) (comparison?_symbol operator), ?_⟩
  simp [operand]

theorem reads_nullTest (negated : Bool) {tokens : List Token} {subject : Formula}
    (reads : Reads bag .sum tokens subject) :
    Reads bag .test
      (tokens ++ .word "IS" ::
        (if negated then [.word "NOT", .word "NULL"] else [.word "NULL"]))
      (.nullTest subject negated) := by
  apply reads_test reads (by decide)
  intro depth rest _ _
  exact ⟨_, rfl, by cases negated <;> rfl⟩

/-- A test that a keyword names, after `NOT` where it is negated. -/
theorem reads_wordTest {keyword : String} (known : keyword ∈ ["IN", "LIKE", "BETWEEN"])
    (negated : Bool) {tokens more : List Token} {subject formula : Formula}
    (reads : Reads bag .sum tokens subject)
    (finishes : ∀ depth rest, more.length ≤ depth → Stops 3 rest →
      FormulaReader.wordTest bag (.sum bag (readFormula bag depth)) keyword negated subject
        (more ++ rest) = some (formula, rest)) :
    Reads bag .test
      (tokens ++ (if negated then [.word "NOT", .word keyword] else [.word keyword]) ++ more)
      formula := by
  rw [List.append_assoc]
  cases negated with
  | true =>
      change Reads bag .test (tokens ++ .word "NOT" :: (.word keyword :: more)) formula
      apply reads_test reads (by decide)
      intro depth rest fits stops
      exact ⟨_, rfl, finishes depth rest (Nat.le_of_lt fits) stops⟩
  | false =>
      simp only [List.mem_cons, List.not_mem_nil, or_false] at known
      apply reads_test reads
      · rcases known with rfl | rfl | rfl <;> decide
      · intro depth rest fits stops
        refine ⟨_, ?_, finishes depth rest fits stops⟩
        rcases known with rfl | rfl | rfl <;> rfl

/-- Items with commas between them, up to the closing parenthesis. -/
theorem readItems_complete {names : List String} {values : List Value}
    (bound : List.Forall₂ (fun name value => bag.get? name = some value) names values)
    (some' : names ≠ []) (rest : List Token) :
    readItems bag ([Token.symbol .comma].intercalate (names.map fun name =>
      [Token.placeholder name]) ++ .symbol .closeParen :: rest) = some (values, rest) := by
  induction bound with
  | nil => exact absurd rfl some'
  | @cons name value names values found others induction =>
      cases others with
      | nil => simp [readItems, found, List.intercalate_singleton]
      | @cons next _ names _ foundNext others =>
          have tail := induction (by simp)
          simp only [List.map_cons, List.intercalate_cons_cons, List.cons_append,
            List.nil_append] at tail ⊢
          rw [readItems, found, tail]
          rfl

theorem reads_inList (negated : Bool) {tokens : List Token} {subject : Formula}
    (reads : Reads bag .sum tokens subject) {names : List String} {values : List Value}
    (bound : List.Forall₂ (fun name value => bag.get? name = some value) names values)
    (some' : names ≠ []) :
    Reads bag .test
      (tokens ++ (if negated then [.word "NOT", .word "IN"] else [.word "IN"]) ++
        (.symbol .openParen :: [Token.symbol .comma].intercalate (names.map fun name =>
          [Token.placeholder name]) ++ [.symbol .closeParen]))
      (.inList subject values negated) := by
  apply reads_wordTest (by decide) negated reads
  intro depth rest _ _
  have items := readItems_complete bound some' rest
  simp [FormulaReader.wordTest, skipToken, items]

theorem reads_like (negated : Bool) {tokens more : List Token} {subject pattern : Formula}
    (reads : Reads bag .sum tokens subject) (looked : Reads bag .sum more pattern) :
    Reads bag .test
      (tokens ++ (if negated then [.word "NOT", .word "LIKE"] else [.word "LIKE"]) ++ more)
      (.like subject pattern negated) := by
  apply reads_wordTest (by decide) negated reads
  intro depth rest fits stops
  have operand : FormulaReader.sum bag (readFormula bag depth) (more ++ rest) =
      some (pattern, rest) := looked depth rest fits (stops.weaken (by decide))
  simp [FormulaReader.wordTest, operand]

theorem reads_between {tokens lower upper : List Token} {subject low high : Formula}
    (reads : Reads bag .sum tokens subject) (least : Reads bag .sum lower low)
    (greatest : Reads bag .sum upper high) :
    Reads bag .test (tokens ++ [.word "BETWEEN"] ++ (lower ++ .word "AND" :: upper))
      (.between subject low high false) := by
  apply reads_wordTest (by decide) false reads
  intro depth rest fits stops
  rw [List.length_append, List.length_cons] at fits
  have first : FormulaReader.sum bag (readFormula bag depth)
      (lower ++ .word "AND" :: (upper ++ rest)) = some (low, .word "AND" :: (upper ++ rest)) :=
    least depth _ (by omega) (stops_cons (by decide))
  have second : FormulaReader.sum bag (readFormula bag depth) (upper ++ rest) =
      some (high, rest) := greatest depth rest (by omega) (stops.weaken (by decide))
  simp [FormulaReader.wordTest, skipToken, first, second]

theorem reads_negation {tokens : List Token} {operand : Formula}
    (starts : tokens.head? = some (.symbol .openParen))
    (reads : Reads bag .test tokens operand) :
    Reads bag .test (.word "NOT" :: tokens) (.negation operand) := by
  intro depth rest fits stops
  have inner := reads depth rest (Nat.le_of_lt fits) stops
  rcases List.head?_eq_some_iff.mp starts with ⟨others, rfl⟩
  simp only [Level.reader, FormulaReader.test, List.cons_append] at inner ⊢
  rw [FormulaReader.negated, if_pos (by simp), inner]
  rfl

/-! Conditions. -/

theorem reads_sum_of_primary {tokens : List Token} {formula : Formula}
    (reads : Reads bag .primary tokens formula) : Reads bag .sum tokens formula :=
  reads_of_lower links_sum (reads_of_lower links_product reads)

theorem reads_columnFragment (bag : Params) (reference : ColumnReference) :
    Reads bag .sum reference.fragment.squeezed (.column reference) := by
  rw [Fragment.squeezed_fragment]
  exact reads_sum_of_primary (reads_column bag reference)

theorem reads_disjunction_of_sum {tokens : List Token} {formula : Formula}
    (reads : Reads bag .sum tokens formula) : Reads bag .disjunction tokens formula :=
  reads_of_lower links_disjunction
    (reads_of_lower links_conjunction (reads_test_of_sum reads))

theorem reads_arithmetic (operator : Arithmetic) {tokens more : List Token}
    {left right : Formula} (first : Reads bag .primary tokens left)
    (second : Reads bag .primary more right) :
    Reads bag .sum (tokens ++ .symbol operator.symbol :: more)
      (.arithmetic operator left right) := by
  have product := reads_of_lower links_product first
  have other := reads_of_lower links_product second
  cases operator with
  | add => exact reads_of_chain links_sum (.extend (.single product) rfl other)
  | subtract => exact reads_of_chain links_sum (.extend (.single product) rfl other)
  | multiply =>
      exact reads_of_lower links_sum
        (reads_of_chain links_product (.extend (.single first) rfl second))
  | divide =>
      exact reads_of_lower links_sum
        (reads_of_chain links_product (.extend (.single first) rfl second))

/-- Tests with one connective between them, from the left. -/
abbrev Connected (bag : Params) (connective : Connective) :
    List Token → Formula → Prop :=
  Chain (Reads bag .test) (.connective connective)

theorem reads_connected {connective : Connective} {tokens : List Token} {formula : Formula}
    (connected : Connected bag connective tokens formula) :
    Reads bag .disjunction tokens formula := by
  cases connective with
  | and => exact reads_of_lower links_disjunction (reads_of_chain links_conjunction connected)
  | or =>
      exact reads_of_chain links_disjunction
        (connected.mono fun _ _ => reads_of_lower links_conjunction)

theorem reads_bracketed {connective : Connective} {tokens : List Token} {formula : Formula}
    (connected : Connected bag connective tokens formula) :
    Reads bag .test (.symbol .openParen :: tokens ++ [.symbol .closeParen]) formula :=
  reads_test_of_sum (reads_sum_of_primary (reads_parenthesized (reads_connected connected)))

/-- Two chains with their connective between them are one chain, of the same truth. -/
theorem connected_append {connective : Connective} {tokens more : List Token}
    {left right : Formula} (first : Connected bag connective tokens left)
    (second : Connected bag connective more right) :
    ∃ formula, Connected bag connective (tokens ++ .word connective.keyword :: more) formula ∧
      ∀ engine valuation, formula.truth? engine valuation =
        (Formula.logical connective left right).truth? engine valuation := by
  have combines : Operator.connective connective (.word connective.keyword) =
      some (.logical connective) := if_pos rfl
  induction second with
  | single reads => exact ⟨_, .extend first combines reads, fun _ _ => rfl⟩
  | @extend _ inner token combine last final _ links reads induction =>
      rcases Option.ite_none_right_eq_some.mp links with ⟨rfl, combined⟩
      cases combined
      rcases induction with ⟨formula, chain, truth⟩
      refine ⟨.logical connective formula final, ?_, fun engine valuation => ?_⟩
      · simpa using Chain.extend chain combines reads
      · simp only [Formula.truth?, truth engine valuation]
        cases left.truth? engine valuation <;> cases inner.truth? engine valuation <;>
          cases final.truth? engine valuation <;> simp [connective.combine_assoc]

end

end EntitySql
