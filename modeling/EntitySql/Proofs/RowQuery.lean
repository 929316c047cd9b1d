import EntitySql.Proofs.UpdateScript
import EntitySql.Sql.Join

/-! Queries for rows: how they are read from their text. A query names the tables that it
takes rows from and the conditions on them, then says how the rows are grouped, which
groups are kept, and what is shown of each. -/

namespace EntitySql

structure SourceTable where
  table : String
  aliasName : String
  deriving DecidableEq, Repr

structure SourceJoin where
  kind : JoinKind
  source : SourceTable
  condition : Formula
  deriving DecidableEq, Repr

/-- Where the rows of a query come from. -/
structure RowSource where
  first : SourceTable
  joins : List SourceJoin
  condition : Formula
  /-- The most rows that are taken at all. -/
  cap? : Option Nat := none
  deriving DecidableEq, Repr

structure RowQuery where
  distinct : Bool := false
  items : List Formula
  source : RowSource
  groups : List Formula := []
  having? : Option Formula := none
  order : List Formula := []
  /-- The most rows that the query yields. -/
  limit? : Option Nat := none
  deriving DecidableEq, Repr

/-! Reading. What columns are renamed to and the directions of an order are passed over. -/

variable (bag : Params) (size : Nat)

def readScalar : TokenReader Formula :=
  FormulaReader.sum bag (readFormula bag size)

def readItem : TokenReader Formula := fun tokens => do
  let (value, rest) ← readScalar bag size tokens
  match skipToken (.word "AS") rest with
  | some renamed => do
      let (_, after) ← takeIdentifier renamed
      return (value, after)
  | none => return (value, rest)

def readSortItem : TokenReader Formula := fun tokens => do
  let (value, rest) ← readScalar bag size tokens
  match rest with
  | .word direction :: after =>
      if direction = "ASC" ∨ direction = "DESC" then some (value, after) else none
  | _ => none

/-- What stands behind a keyword, if the tokens start with it. -/
def readClause (keyword : String) (absent : α) (present : TokenReader α) : TokenReader α :=
  fun tokens =>
    match skipToken (.word keyword) tokens with
    | some rest => present rest
    | none => some (absent, tokens)

/-- The tokens start with the keyword, which is no alias there. -/
def startsWith (keyword : String) (tokens : List Token) : Bool :=
  match tokens with
  | .word word :: rest => word = keyword && rest.head? ≠ some (.symbol .dot)
  | _ => false

def readCap : TokenReader Nat
  | .word digits :: rest => digits.toNat?.map fun count => (count, rest)
  | _ => none

/-- What stands behind `SELECT`, up to the tables. -/
def readHead : TokenReader (Bool × Option Nat × List Formula) := fun tokens => do
  let distinct := startsWith "DISTINCT" tokens
  let tokens := if distinct then tokens.tail else tokens
  let (limit?, rest) ←
    if startsWith "TOP" tokens then
      (readCap tokens.tail).map fun (count, rest) => (some count, rest)
    else
      some (none, tokens)
  let (items, rest) ← readList (readItem bag size) size rest
  return ((distinct, limit?, items), rest)

def readTable : TokenReader SourceTable
  | .identifier table :: .word aliasName :: rest => some ({ table, aliasName }, rest)
  | _ => none

/-- A hint that locks nothing. -/
def skipHint : List Token → List Token
  | .word "WITH" :: .symbol .openParen :: .word "NOLOCK" :: .symbol .closeParen :: rest => rest
  | tokens => tokens

def JoinKind.ofKeyword? (keyword : String) : Option JoinKind :=
  [JoinKind.inner, .left, .right].find? (·.keywords = [keyword, "JOIN"])

def readJoin : TokenReader SourceJoin
  | .word keyword :: .word "JOIN" :: rest => do
      let kind ← JoinKind.ofKeyword? keyword
      let (source, rest) ← readTable rest
      let rest ← skipToken (.word "ON") rest
      let (condition, rest) ← readFormula bag (size + 1) rest
      return ({ kind, source, condition }, rest)
  | _ => none

/-- As many joins as there are, at most `limit` of them. -/
def readJoins : (limit : Nat) → TokenReader (List SourceJoin)
  | 0 => fun tokens => some ([], tokens)
  | limit + 1 => fun tokens =>
      match readJoin bag size tokens with
      | some (first, rest) => do
          let (others, rest) ← readJoins limit rest
          return (first :: others, rest)
      | none => some ([], tokens)

/-- The tokens before a cap on the row number that stands at their end. -/
def splitRowCap (tokens : List Token) : Option (List Token × Nat) :=
  match tokens.reverse with
  | .word digits :: .symbol .lessOrEqual :: .word "ROWNUM" :: .word "AND" :: before =>
      digits.toNat?.map fun count => (before.reverse, count)
  | _ => none

/-- A condition, or a conjunction of which a cap on the row number is the last part. -/
def readWhere : TokenReader (Formula × Option Nat) := fun tokens =>
  match readFormula bag (size + 1) tokens with
  | some (condition, rest) => some ((condition, none), rest)
  | none => do
      let (before, count) ← splitRowCap tokens
      let (condition, rest) ← FormulaReader.conjunction bag (readFormula bag size) before
      if rest.isEmpty then return ((condition, some count), []) else none

def readSource : TokenReader RowSource := fun tokens => do
  let rest ← skipToken (.word "FROM") tokens
  let (first, rest) ← readTable rest
  let (joins, rest) ← readJoins bag size size (skipHint rest)
  let rest ← skipToken (.word "WHERE") rest
  let ((condition, cap?), rest) ← readWhere bag size rest
  return ({ first, joins, condition, cap? }, rest)

def readGroups : TokenReader (List Formula) :=
  readClause "GROUP" [] fun tokens => do
    let rest ← skipToken (.word "BY") tokens
    readList (readScalar bag size) size rest

def readHaving : TokenReader (Option Formula) :=
  readClause "HAVING" none fun tokens => do
    let (condition, rest) ← readFormula bag (size + 1) tokens
    return (some condition, rest)

def readOrder : TokenReader (List Formula) :=
  readClause "ORDER" [] fun tokens => do
    let rest ← skipToken (.word "BY") tokens
    readList (readSortItem bag size) size rest

def readLimit : TokenReader (Option Nat) :=
  readClause "LIMIT" none fun tokens => do
    let (count, rest) ← readCap tokens
    return (some count, rest)

/-- The query that some tokens are, all of them. -/
def readRowQuery (tokens : List Token) : Option RowQuery := do
  let size := tokens.length
  let rest ← skipToken (.word "SELECT") tokens
  let ((distinct, top?, items), rest) ← readHead bag size rest
  let (source, rest) ← readSource bag size rest
  let (groups, rest) ← readGroups bag size rest
  let (having?, rest) ← readHaving bag size rest
  let (order, rest) ← readOrder bag size rest
  let (limit?, rest) ← readLimit rest
  if rest.isEmpty then
    return { distinct, items, source, groups, having?, order, limit? := limit?.or top? }
  else
    none

/-- The query of a statement, with the values that its parameters hold. -/
def Dialect.rowQueryOf (dialect : Dialect) (statement : Statement) : Option RowQuery := do
  let fragment ← dialect.readTokens statement.sql
  readRowQuery statement.params fragment.squeezed

end EntitySql
