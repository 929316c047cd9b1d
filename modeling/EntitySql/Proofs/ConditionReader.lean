import EntitySql.Proofs.Formula
import EntitySql.Proofs.Lexer

/-! Reading conditions by the precedence of the operators: products before sums,
sums before comparisons and other tests, tests before negation, negation before
conjunction and conjunction before disjunction. Placeholders read as the values
that the bag holds for them. The spaces of the text say nothing and are dropped
before a condition is read. -/

namespace EntitySql

/-- A formula at the start of some tokens, and the tokens after it. -/
abbrev FormulaReader := List Token → Option (Formula × List Token)

/-- What an operator makes of the formulas on its two sides. -/
abbrev Operator := Token → Option (Formula → Formula → Formula)

namespace FormulaReader

/-- Takes operators with their right operands for as long as there are any, at most
`limit` of them. -/
def readChain (operand : FormulaReader) (operator : Operator) :
    (limit : Nat) → Formula → FormulaReader
  | 0, left, tokens => some (left, tokens)
  | _ + 1, left, [] => some (left, [])
  | limit + 1, left, token :: rest =>
      match operator token with
      | none => some (left, token :: rest)
      | some combine => do
          let (right, after) ← operand rest
          readChain operand operator limit (combine left right) after

/-- Operands with operators between them, grouped from the left. -/
def chained (operand : FormulaReader) (operator : Operator) : FormulaReader := fun tokens => do
  let (first, rest) ← operand tokens
  readChain operand operator rest.length first rest

end FormulaReader

namespace Operator

def product : Operator
  | .symbol .times => some (.arithmetic .multiply)
  | .symbol .slash => some (.arithmetic .divide)
  | _ => none

def sum : Operator
  | .symbol .plus => some (.arithmetic .add)
  | .symbol .minus => some (.arithmetic .subtract)
  | _ => none

def connective (connective : Connective) : Operator := fun token =>
  if token = .word connective.keyword then some (.logical connective) else none

end Operator

def Symbol.comparison? : Symbol → Option Comparison
  | .equal => some .equal
  | .notEqual => some .notEqual
  | .greater => some .greater
  | .greaterOrEqual => some .greaterOrEqual
  | .less => some .less
  | .lessOrEqual => some .lessOrEqual
  | _ => none

def Aggregate.ofKeyword? (keyword : String) : Option Aggregate :=
  [Aggregate.count, .sum, .min, .max, .avg].find? (·.keyword = keyword)

/-- A whole number written in digits. -/
def readNumber? (text : String) : Option Value :=
  if text.toList.all Char.isDigit then
    some (.int (Int64.ofNat (Nat.ofDigitChars 10 text.toList 0)))
  else
    none

/-- The tokens after one that has to be there. -/
def skipToken (expected : Token) : List Token → Option (List Token)
  | token :: rest => if token = expected then some rest else none
  | [] => none

/-- Values up to the parenthesis that closes their list. -/
def readItems (bag : Params) : List Token → Option (List Value × List Token)
  | .placeholder name :: .symbol .closeParen :: rest => do
      let value ← bag.get? name
      return ([value], rest)
  | .placeholder name :: .symbol .comma :: rest => do
      let value ← bag.get? name
      let (values, after) ← readItems bag rest
      return (value :: values, after)
  | _ => none

namespace FormulaReader

/-- A column, a bound value, a number, a call of an aggregate or a formula in
parentheses. -/
def primary (bag : Params) (inner : FormulaReader) : FormulaReader
  | .placeholder name :: rest => (bag.get? name).map fun value => (.constant value, rest)
  | .identifier name :: rest => some (.column { name }, rest)
  | .symbol .openParen :: rest => do
      let (formula, after) ← inner rest
      let after ← skipToken (.symbol .closeParen) after
      return (formula, after)
  | .word qualifier :: .symbol .dot :: .identifier name :: rest =>
      some (.column { qualifier? := some qualifier, name }, rest)
  | .word keyword :: .symbol .openParen :: rest => do
      let function ← Aggregate.ofKeyword? keyword
      let (argument, after) ← inner rest
      let after ← skipToken (.symbol .closeParen) after
      return (.aggregate function argument, after)
  | .word text :: rest => (readNumber? text).map fun value => (.constant value, rest)
  | _ => none

/-- What follows the subject of a test that a keyword names. -/
def wordTest (bag : Params) (sum : FormulaReader) (keyword : String) (negated : Bool)
    (subject : Formula) : FormulaReader := fun tokens =>
  if keyword = "IN" then do
    let rest ← skipToken (.symbol .openParen) tokens
    let (items, after) ← readItems bag rest
    return (.inList subject items negated, after)
  else if keyword = "LIKE" then do
    let (pattern, after) ← sum tokens
    return (.like subject pattern negated, after)
  else if keyword = "BETWEEN" then do
    let (low, rest) ← sum tokens
    let rest ← skipToken (.word "AND") rest
    let (high, after) ← sum rest
    return (.between subject low high negated, after)
  else
    none

/-- What follows `IS`. -/
def nullTest (subject : Formula) : FormulaReader
  | .word "NULL" :: rest => some (.nullTest subject false, rest)
  | .word "NOT" :: .word "NULL" :: rest => some (.nullTest subject true, rest)
  | _ => none

/-- What makes a test of a scalar: the reader for what stands behind the token that
starts a test. -/
def test? (bag : Params) (sum : FormulaReader) : Token → Option (Formula → FormulaReader)
  | .symbol glyph =>
      glyph.comparison?.map fun operator subject tokens => do
        let (right, after) ← sum tokens
        return (.comparison operator subject right, after)
  | .word text =>
      if text = "IS" then
        some nullTest
      else if text = "NOT" then
        some fun subject tokens =>
          match tokens with
          | .word keyword :: rest => wordTest bag sum keyword true subject rest
          | _ => none
      else if text = "IN" ∨ text = "LIKE" ∨ text = "BETWEEN" then
        some (wordTest bag sum text false)
      else
        none
  | _ => none

/-- A scalar, and the test it is put to if there is one. -/
def tested (bag : Params) (sum : FormulaReader) : FormulaReader := fun tokens => do
  let (subject, rest) ← sum tokens
  match rest with
  | [] => return (subject, [])
  | token :: after =>
      match test? bag sum token with
      | none => return (subject, token :: after)
      | some read => read subject after

/-- `NOT` negates what follows, unless it is the alias that a column is under. -/
def negated (test : FormulaReader) : FormulaReader
  | .word text :: rest =>
      if text = "NOT" ∧ rest.head? ≠ some (.symbol .dot) then do
        let (operand, after) ← negated test rest
        return (.negation operand, after)
      else
        test (.word text :: rest)
  | tokens => test tokens

/-! The levels of precedence, the tightest first; `inner` reads what stands in
parentheses. -/

def product (bag : Params) (inner : FormulaReader) : FormulaReader :=
  chained (primary bag inner) .product

def sum (bag : Params) (inner : FormulaReader) : FormulaReader :=
  chained (product bag inner) .sum

def test (bag : Params) (inner : FormulaReader) : FormulaReader :=
  negated (tested bag (sum bag inner))

def conjunction (bag : Params) (inner : FormulaReader) : FormulaReader :=
  chained (test bag inner) (.connective .and)

def disjunction (bag : Params) (inner : FormulaReader) : FormulaReader :=
  chained (conjunction bag inner) (.connective .or)

end FormulaReader

/-- A condition in which parentheses go at most `depth` deep. -/
def readFormula (bag : Params) : (depth : Nat) → FormulaReader
  | 0 => fun _ => none
  | depth + 1 => FormulaReader.disjunction bag (readFormula bag depth)

namespace Fragment

/-- The fragment without its spaces. -/
def squeezed (fragment : Fragment) : List Token :=
  fragment.filter (· ≠ .space)

@[simp] theorem squeezed_nil : squeezed [] = [] :=
  rfl

@[simp] theorem squeezed_append (left right : Fragment) :
    squeezed (left ++ right) = left.squeezed ++ right.squeezed :=
  List.filter_append ..

@[simp] theorem squeezed_space (rest : Fragment) : squeezed (.space :: rest) = squeezed rest :=
  rfl

@[simp] theorem squeezed_cons {token : Token} (solid : token ≠ .space) (rest : Fragment) :
    squeezed (token :: rest) = token :: squeezed rest :=
  List.filter_cons_of_pos (by simpa using solid)

@[simp] theorem squeezed_fragment (reference : ColumnReference) :
    squeezed reference.fragment = reference.fragment := by
  rcases reference with ⟨_ | aliasName, name⟩ <;> rfl

@[simp] theorem squeezed_parenthesized (fragment : Fragment) :
    squeezed (parenthesized fragment) =
      .symbol .openParen :: fragment.squeezed ++ [.symbol .closeParen] := by
  simp [parenthesized]

@[simp] theorem squeezed_joined (left right : Fragment) (glyph : Symbol) :
    squeezed (joined left glyph right) = left.squeezed ++ .symbol glyph :: right.squeezed := by
  simp [joined]

@[simp] theorem squeezed_connected (left right : Fragment) (connective : Connective) :
    squeezed (connected left connective right) =
      left.squeezed ++ .word connective.keyword :: right.squeezed := by
  simp [connected]

@[simp] theorem squeezed_call (function : String) (argument : Fragment) :
    squeezed (call function argument) =
      .word function :: .symbol .openParen :: argument.squeezed ++ [.symbol .closeParen] := by
  simp [call]

theorem squeezed_nullTest (operand : Fragment) (negated : Bool) :
    squeezed (nullTest operand negated) = operand.squeezed ++ .word "IS" ::
      (if negated then [.word "NOT", .word "NULL"] else [.word "NULL"]) := by
  cases negated <;> simp [nullTest, words]

theorem squeezed_operatorWord (word : String) (negated : Bool) :
    squeezed (operatorWord word negated) =
      if negated then [.word "NOT", .word word] else [.word word] := by
  cases negated <;> rfl

theorem intercalate_cons_eq (between first : Fragment) (rest : List Fragment) :
    between.intercalate (first :: rest) = first ++ rest.flatMap (between ++ ·) := by
  induction rest generalizing first with
  | nil => simp [List.intercalate_singleton]
  | cons second rest induction =>
      rw [List.intercalate_cons_cons, induction, List.flatMap_cons]
      simp only [List.append_assoc]

theorem squeezed_intercalate (between : Fragment) (fragments : List Fragment) :
    squeezed (between.intercalate fragments) =
      between.squeezed.intercalate (fragments.map squeezed) := by
  induction fragments with
  | nil => rfl
  | cons first rest induction =>
      cases rest with
      | nil => simp [List.intercalate_singleton]
      | cons second rest =>
          rw [List.intercalate_cons_cons, squeezed_append, squeezed_append, induction,
            List.map_cons, List.map_cons, List.map_cons, List.intercalate_cons_cons]

theorem squeezed_commaSeparated (fragments : List Fragment) :
    squeezed (commaSeparated fragments) =
      [Token.symbol .comma].intercalate (fragments.map squeezed) := by
  rw [commaSeparated, squeezed_intercalate]
  rfl

theorem squeezed_spaced (fragments : List Fragment) :
    squeezed (spaced fragments) = fragments.flatMap squeezed := by
  rw [spaced, squeezed_intercalate]
  induction fragments with
  | nil => rfl
  | cons first rest induction =>
      rw [List.flatMap_cons, ← induction]
      cases first with
      | nil => rfl
      | cons token tokens =>
          rw [List.filter_cons_of_pos (by rfl), List.map_cons]
          cases rest.filter (!·.isEmpty) with
          | nil => simp [List.intercalate_singleton]
          | cons second others => simp [List.intercalate_cons_cons]

end Fragment

/-- The condition that some tokens are, all of them. -/
def readCondition (bag : Params) (tokens : List Token) : Option Formula :=
  match readFormula bag (tokens.length + 1) tokens with
  | some (formula, []) => some formula
  | _ => none

namespace Dialect

/-- The condition that a text reads as. -/
def conditionOf (dialect : Dialect) (bag : Params) (text : String) : Option Formula := do
  let fragment ← dialect.readTokens text
  readCondition bag fragment.squeezed

/-- The condition in a clause, which a keyword starts. -/
def clauseConditionOf (dialect : Dialect) (keyword : String) (bag : Params) (text : String) :
    Option Formula := do
  let fragment ← dialect.readTokens text
  let tokens ← skipToken (.word keyword) fragment.squeezed
  readCondition bag tokens

end Dialect

end EntitySql
