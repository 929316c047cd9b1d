import EntitySql.Error
import EntitySql.Sql.Lexical

/-! The dialects that statements are written in. -/

namespace EntitySql

inductive Dialect where
  | mysql
  | sqlServer
  | oracle
  deriving DecidableEq, Repr, Inhabited

namespace Dialect

def name : Dialect → String
  | .mysql => "mysql"
  | .sqlServer => "sqlserver"
  | .oracle => "oracle"

/-- The dialect of an exact name. SQL Server has two names. -/
def ofName? : String → Option Dialect
  | "mysql" => some .mysql
  | "sqlserver" => some .sqlServer
  | "mssql" => some .sqlServer
  | "oracle" => some .oracle
  | _ => none

/-- Reads a name in any case. -/
def parse (text : String) : Except Error Dialect :=
  let folded := String.ofList (text.toList.map Char.toLower)
  match ofName? folded with
  | some dialect => .ok dialect
  | none => .error (.config (.unknownDialect folded))

def lexical : Dialect → Lexical
  | .mysql => { openQuote := "\x60", closeQuote := "\x60", mark := '@' }
  | .sqlServer => { openQuote := "[", closeQuote := "]", mark := '@' }
  | .oracle => { openQuote := "\"", closeQuote := "\"", mark := ':' }

end Dialect

end EntitySql
