import EntitySql.Proofs.DialectAgreement
import EntitySql.Proofs.RowQueryMeaning

/-! Caps on the number of rows. Each dialect has tokens of its own that cap the rows of the
statement they are put around. What a cap keeps is said as the server does it: by counting
rows, or by the numbers that rows are given. -/

namespace EntitySql

/-- How a statement caps the rows of the one inside it. -/
inductive RowCap where
  | first (count : Nat)
  | window (skip count : Nat)
  /-- By the number that a row gets when it is looked at. -/
  | numberAtMost (count : Nat)
  /-- By the numbers that the rows got in a statement of their own. -/
  | numberBetween (first last : Nat)
  deriving DecidableEq, Repr

namespace RowCap

/-- Rows are numbered as they are looked at. The number of a row that is not kept goes to
the next one. -/
def keepNumbered (keeps : Nat → Bool) : (number : Nat) → List α → List α
  | _, [] => []
  | number, row :: rest =>
      if keeps number then row :: keepNumbered keeps (number + 1) rest
      else keepNumbered keeps number rest

def keep (rows : List α) : RowCap → List α
  | .first count => rows.take count
  | .window skip count => (rows.drop skip).take count
  | .numberAtMost count => keepNumbered (· ≤ count) 1 rows
  | .numberBetween least greatest =>
      ((rows.zipIdx 1).filter fun row => least ≤ row.2 && row.2 ≤ greatest).map (·.1)

theorem keepNumbered_le (count number : Nat) (rows : List α) :
    keepNumbered (· ≤ count) number rows = rows.take (count + 1 - number) := by
  induction rows generalizing number with
  | nil => rw [keepNumbered, List.take_nil]
  | cons row rows induction =>
      by_cases kept : number ≤ count
      · have more : count + 1 - number = (count + 1 - (number + 1)) + 1 := by omega
        rw [more, List.take_succ_cons, ← induction]
        simp [keepNumbered, kept]
      · have none : count + 1 - number = 0 := by omega
        rw [keepNumbered, if_neg (by simpa using kept), induction, none, List.take_zero,
          List.take_zero]

theorem filter_zipIdx_between (least greatest number : Nat) (rows : List α) :
    ((rows.zipIdx number).filter fun row => least ≤ row.2 && row.2 ≤ greatest).map (·.1) =
      (rows.drop (least - number)).take (greatest + 1 - max least number) := by
  induction rows generalizing number with
  | nil => simp
  | cons row rows induction =>
      rw [List.zipIdx_cons]
      by_cases reached : least ≤ number
      · have start : least - number = 0 ∧ least - (number + 1) = 0 := by omega
        have edge : max least number = number ∧ max least (number + 1) = number + 1 := by omega
        rw [start.1, edge.1, List.drop_zero]
        by_cases kept : number ≤ greatest
        · have more : greatest + 1 - number = (greatest + 1 - (number + 1)) + 1 := by omega
          rw [List.filter_cons_of_pos (by simp [reached, kept]), List.map_cons, induction,
            start.2, edge.2, more, List.take_succ_cons, List.drop_zero]
        · have none : greatest + 1 - number = 0 ∧ greatest + 1 - (number + 1) = 0 := by omega
          rw [List.filter_cons_of_neg (by simp [kept]), induction, edge.2, none.1, none.2,
            List.take_zero, List.take_zero]
      · have skipped : least - number = (least - (number + 1)) + 1 := by omega
        have edge : max least number = max least (number + 1) := by omega
        rw [List.filter_cons_of_neg (by simp [reached]), induction, skipped, edge,
          List.drop_succ_cons]

/-- Counted or numbered, the rows that are kept are the same. -/
theorem keep_numberAtMost (count : Nat) (rows : List α) :
    (numberAtMost count).keep rows = (first count).keep rows := by
  simp [keep, keepNumbered_le]

theorem keep_numberBetween (skip count : Nat) (rows : List α) :
    (numberBetween (skip + 1) (skip + count)).keep rows = (window skip count).keep rows := by
  have edge : skip + count + 1 - max (skip + 1) 1 = count := by omega
  simp only [keep, filter_zipIdx_between, edge, Nat.add_sub_cancel]

end RowCap

/-! Reading caps. -/

/-- The tokens behind some that have to be there. -/
def skipTokens (expected : List Token) (tokens : List Token) : Option (List Token) :=
  expected.foldlM (fun rest token => skipToken token rest) tokens

@[simp] theorem skipTokens_append (expected rest : List Token) :
    skipTokens expected (expected ++ rest) = some rest := by
  induction expected with
  | nil => rfl
  | cons token expected induction =>
      simpa [skipTokens, skipToken] using induction

/-- From the end: a number of rows to take, and before it maybe one of rows to skip. -/
def readLimited (tokens : List Token) : Option (RowCap × List Token) := do
  let (last, rest) ← readCap tokens.reverse
  match skipToken (.word "OFFSET") rest with
  | some rest => do
      let (count, rest) ← readCap rest
      let rest ← skipToken (.word "LIMIT") rest
      return (.window last count, rest.reverse)
  | none => do
      let rest ← skipToken (.word "LIMIT") rest
      return (.first last, rest.reverse)

/-- Behind keywords: a number of rows to take. -/
def readTopBehind (keywords tokens : List Token) : Option (RowCap × List Token) := do
  let rest ← skipTokens (keywords ++ [.word "TOP"]) tokens
  let (count, rest) ← readCap rest
  return (.first count, keywords ++ rest)

def readTop (tokens : List Token) : Option (RowCap × List Token) :=
  (readTopBehind [.word "SELECT", .word "DISTINCT"] tokens).or
    (readTopBehind [.word "SELECT"] tokens)

/-- From the end: numbers of rows to skip and to fetch. -/
def readFetched (tokens : List Token) : Option (RowCap × List Token) := do
  let rest ← skipTokens [.word "ONLY", .word "ROWS"] tokens.reverse
  let (count, rest) ← readCap rest
  let rest ← skipTokens [.word "NEXT", .word "FETCH", .word "ROWS"] rest
  let (skip, rest) ← readCap rest
  let rest ← skipToken (.word "OFFSET") rest
  return (.window skip count, rest.reverse)

/-- Around the statement: one that numbers its rows as they are looked at. -/
def readNumberAtMost (tokens : List Token) : Option (RowCap × List Token) := do
  let rest ← skipTokens
    [.word "SELECT", .word "T", .symbol .dot, .symbol .times, .word "FROM", .symbol .openParen]
    tokens
  let (count, rest) ← readCap rest.reverse
  let rest ← skipTokens
    [.symbol .lessOrEqual, .word "ROWNUM", .word "WHERE", .word "T", .symbol .closeParen] rest
  return (.numberAtMost count, rest.reverse)

/-- Around the statement: one that shows the numbers of its rows, and one that picks rows
by them. -/
def readNumberBetween (tokens : List Token) : Option (RowCap × List Token) := do
  let rest ← skipTokens
    [.word "SELECT", .word "T2", .symbol .dot, .symbol .times, .word "FROM", .symbol .openParen,
      .word "SELECT", .word "T", .symbol .dot, .symbol .times, .symbol .comma, .word "ROWNUM",
      .word "ROWNUMS", .word "FROM", .symbol .openParen]
    tokens
  let (last, rest) ← readCap rest.reverse
  let rest ← skipTokens [.word "AND"] rest
  let (first, rest) ← readCap rest
  let rest ← skipTokens
    [.word "BETWEEN", .word "ROWNUMS", .word "WHERE", .word "T2", .symbol .closeParen, .word "T",
      .symbol .closeParen] rest
  return (.numberBetween first last, rest.reverse)

/-- The cap of a statement and the statement without it. -/
def Dialect.readCapped (dialect : Dialect) (tokens : List Token) :
    Option (RowCap × List Token) :=
  match dialect with
  | .mysql => readLimited tokens
  | .sqlServer => (readTop tokens).or (readFetched tokens)
  | .oracle => (readNumberBetween tokens).or (readNumberAtMost tokens)

@[simp] theorem readCap_number (count : Nat) (rest : List Token) :
    readCap (.word count.repr :: rest) = some (count, rest) := by
  simp [readCap, Nat.toNat?_repr]

namespace Dialect

theorem readCapped_limit (sql : Fragment) (count : Nat) :
    mysql.readCapped (sql.limit count).squeezed = some (.first count, sql.squeezed) := by
  simp [readCapped, readLimited, Fragment.limit, Fragment.number, skipToken]

theorem readCapped_offsetLimit (sql : Fragment) (rows : RowRange) :
    mysql.readCapped (sql.offsetLimit rows).squeezed =
      some (.window rows.skip.toNat rows.size.toNat, sql.squeezed) := by
  simp [readCapped, readLimited, Fragment.offsetLimit, Fragment.limit, Fragment.number, skipToken]

theorem readCapped_firstRows (sql : Fragment) (count : Nat) :
    oracle.readCapped (sql.firstRows count).squeezed =
      some (.numberAtMost count, sql.squeezed) := by
  simp [readCapped, readNumberBetween, readNumberAtMost, Fragment.firstRows, Fragment.allOf,
    Fragment.rowNumberAtMost, Fragment.number, skipTokens, skipToken]

theorem readCapped_rowsBetween (sql : Fragment) (rows : RowRange) :
    oracle.readCapped (sql.rowsBetween rows).squeezed =
      some (.numberBetween rows.first.toNat rows.last.toNat, sql.squeezed) := by
  simp [readCapped, readNumberBetween, Fragment.rowsBetween, Fragment.numberedRows,
    Fragment.allOf, Fragment.words, Fragment.number, skipTokens, skipToken]

theorem readFetched_offsetFetch (sql : Fragment) (rows : RowRange) :
    readFetched (sql.offsetFetch rows).squeezed =
      some (.window rows.skip.toNat rows.size.toNat, sql.squeezed) := by
  simp [readFetched, Fragment.offsetFetch, Fragment.words, Fragment.number, skipTokens, skipToken]

end Dialect

/-! What a select list starts with. A cap behind the keyword is no item of it. -/

/-- A word at the start is an alias or a function. -/
def StartsScalar : List Token → Prop
  | .word _ :: .symbol _ :: _ => True
  | .word _ :: _ | [] => False
  | _ :: _ => True

theorem StartsScalar.append {tokens : List Token} (starts : StartsScalar tokens)
    (rest : List Token) : StartsScalar (tokens ++ rest) := by
  match tokens, starts with
  | .word _ :: .symbol _ :: _, _ => trivial
  | .identifier _ :: _, _ | .placeholder _ :: _, _ | .systemVariable _ :: _, _
  | .symbol _ :: _, _ | .space :: _, _ => trivial

/-- One word at most stands before what cannot be a number. -/
theorem StartsScalar.word_skipped {items rest : List Token} (starts : StartsScalar items)
    {word : String} (skipped : skipToken (.word word) items = some rest) :
    ∃ glyph more, rest = .symbol glyph :: more := by
  match items, starts with
  | .word alike :: .symbol glyph :: more, _ =>
      simp only [skipToken, Option.ite_none_right_eq_some, Option.some.injEq] at skipped
      exact ⟨glyph, more, skipped.2.symm⟩
  | .identifier _ :: _, _ | .placeholder _ :: _, _ | .systemVariable _ :: _, _
  | .symbol _ :: _, _ | .space :: _, _ => simp [skipToken] at skipped

theorem readTop_of_startsScalar {items : List Token} (starts : StartsScalar items)
    (distinct : Bool) :
    readTop (.word "SELECT" :: ((if distinct then [.word "DISTINCT"] else []) ++ items)) =
      none := by
  have noCount : ∀ rest, skipToken (.word "TOP") items = some rest →
      ∀ count more, ¬ readCap rest = some (count, more) := by
    intro rest skipped count more read
    rcases starts.word_skipped skipped with ⟨glyph, others, rfl⟩
    cases read
  have noTop : (skipToken (.word "DISTINCT") items).bind (skipToken (.word "TOP")) = none := by
    cases skipped : skipToken (.word "DISTINCT") items with
    | none => rfl
    | some rest =>
        rcases starts.word_skipped skipped with ⟨glyph, more, rfl⟩
        rfl
  have other : skipToken (.word "TOP") (.word "DISTINCT" :: items) = none := rfl
  cases distinct
  · simpa [readTop, readTopBehind, skipTokens, noTop] using noCount
  · simpa [readTop, readTopBehind, skipTokens, other] using noCount

theorem readTop_of_top (distinct : Bool) (count : Nat) (rest : List Token) :
    readTop (.word "SELECT" :: ((if distinct then [.word "DISTINCT"] else []) ++
      .word "TOP" :: .word count.repr :: rest)) =
      some (.first count,
        .word "SELECT" :: ((if distinct then [.word "DISTINCT"] else []) ++ rest)) := by
  cases distinct <;> simp [readTop, readTopBehind, skipTokens, skipToken]

namespace ColumnReference

theorem startsScalar (reference : ColumnReference) : StartsScalar reference.fragment.squeezed := by
  rcases reference with ⟨_ | aliasName, name⟩ <;> trivial

end ColumnReference

theorem Expr.ScalarRun.startsScalar {scope : Scope} {hint : String} {expression : Expr}
    {draft later : Draft} {fragment : Fragment}
    (steps : ScalarRun scope hint expression draft fragment later) :
    StartsScalar fragment.squeezed := by
  induction steps with
  | member path found =>
      rcases Scope.member_eq_ok.mp found with ⟨reference, -, rfl⟩
      exact reference.startsScalar
  | constant value bound =>
      rw [Build.runFrom_input] at bound
      cases bound
      trivial
  | arithmetic | aggregate | count => trivial
  | lambda _ induction => exact induction

namespace Scope

variable {scope : Scope}

theorem startsScalar_commaSeparated {first : Fragment} {rest : List Fragment}
    (starts : StartsScalar first.squeezed) :
    StartsScalar (Fragment.commaSeparated (first :: rest)).squeezed := by
  rw [Fragment.commaSeparated, Fragment.intercalate_cons_eq, Fragment.squeezed_append]
  exact starts.append _

theorem startsScalar_renamed {column : Fragment} (starts : StartsScalar column.squeezed)
    (name : String) : StartsScalar (Fragment.renamed column name).squeezed := by
  rw [Fragment.renamed, Fragment.squeezed_append]
  exact starts.append _

theorem startsScalar_selectedBindings {bindings : List (String × Expr)} {draft later : Draft}
    {fragments : List Fragment}
    (run : (scope.selectedBindings bindings).runFrom draft = (.ok fragments, later))
    (given : bindings ≠ []) : StartsScalar (Fragment.commaSeparated fragments).squeezed := by
  cases runs_of_selectedBindings run with
  | nil => exact absurd rfl given
  | cons first rest =>
      rcases first with ⟨_, value, _, steps, rfl⟩
      exact startsScalar_commaSeparated (startsScalar_renamed steps.startsScalar _)

theorem startsScalar_column {entity : Entity} {property : String} {column : Fragment}
    (found : scope.column entity property = .ok column) : StartsScalar column.squeezed := by
  rcases columnUnder_eq_ok.mp found with ⟨name, -, rfl⟩
  exact ColumnReference.startsScalar _

theorem startsScalar_projection {selector : Expr} {draft later : Draft} {columns : Fragment}
    (run : (scope.projection selector).runFrom draft = (.ok columns, later)) :
    StartsScalar columns.squeezed := by
  cases projectionRun_of_projection run with
  | member path shape found =>
      rcases selectedMember_cases found with ⟨entity, column, -, reached, rfl | rfl⟩
      · exact startsScalar_column reached
      · exact startsScalar_renamed (startsScalar_column reached) _
  | record name bindings fragments shape given inner =>
      exact startsScalar_selectedBindings inner given
  | scalar _ inner => exact (Expr.scalarRun_of_scalar inner).startsScalar

theorem startsScalar_selectList {entity : Entity} {select : Option Expr} {draft later : Draft}
    {columns : Fragment} (mapped : entity.fields ≠ [])
    (run : (scope.selectList entity select).runFrom draft = (.ok columns, later)) :
    StartsScalar columns.squeezed := by
  cases select with
  | some selector => exact startsScalar_projection run
  | none =>
      rw [selectList, Build.runFrom_lift_eq_ok] at run
      rcases fieldList_cases run.1 with ⟨fragments, rfl, each⟩
      generalize entity.fields = fields at mapped each
      cases each with
      | nil => exact absurd rfl mapped
      | cons first rest =>
          rcases first with ⟨column, reached, ⟨-, rfl⟩ | rfl⟩
          · exact startsScalar_commaSeparated (startsScalar_column reached)
          · exact startsScalar_commaSeparated (startsScalar_renamed (startsScalar_column reached) _)

end Scope

end EntitySql
