import EntitySql.Error
import EntitySql.Params
import EntitySql.Text.Blank
import EntitySql.Text.Identifier

/-! Named placeholders for a server that takes positional ones. A text is cut
from the left into doubled at signs, placeholders (an at sign and the longest
run of word characters after it, which must not be empty) and other characters;
each placeholder becomes a question mark and its value the next argument. -/

namespace EntitySql

namespace MySql

/-- The statements between semicolons, trimmed; blank ones are dropped. -/
def splitStatements (sql : List Char) : List (List Char) :=
  ((sql.splitOn ';').map trimBlanks).filter (!·.isEmpty)

inductive Segment where
  | doubledMark
  | placeholder (name : List Char)
  | character (value : Char)
  deriving DecidableEq, Repr

def segments : List Char → List Segment
  | [] => []
  | '@' :: '@' :: rest => .doubledMark :: segments rest
  | '@' :: rest =>
      if (rest.takeWhile isWordCharacter).isEmpty then
        .character '@' :: segments rest
      else
        .placeholder (rest.takeWhile isWordCharacter) ::
          segments (rest.dropWhile isWordCharacter)
  | character :: rest => .character character :: segments rest
termination_by text => text.length
decreasing_by
  all_goals have kept :=
    (List.dropWhile_sublist isWordCharacter (l := rest)).length_le
  all_goals simp only [List.length_cons]; omega

/-- A statement as the server is asked to run it. -/
structure Prepared where
  sql : List Char
  arguments : List Value
  deriving DecidableEq, Repr

def Prepared.append (first second : Prepared) : Prepared :=
  { sql := first.sql ++ second.sql
    arguments := first.arguments ++ second.arguments }

/-- Identifiers reach the server as their text. -/
def argument : Value → Value
  | .uuid value => .text value.text
  | other => other

def Segment.prepare (params : Params) : Segment → Except Error Prepared
  | .doubledMark => .ok { sql := ['@', '@'], arguments := [] }
  | .character value => .ok { sql := [value], arguments := [] }
  | .placeholder name =>
      match params.get? (String.ofList name) with
      | some value => .ok { sql := ['?'], arguments := [argument value] }
      | none => .error (.execution (.unboundParameter (String.ofList name)))

def prepareSegments (params : Params) : List Segment → Except Error Prepared
  | [] => .ok { sql := [], arguments := [] }
  | segment :: rest => do
      let first ← segment.prepare params
      let others ← prepareSegments params rest
      return first.append others

def prepare (params : Params) (sql : List Char) : Except Error Prepared :=
  prepareSegments params (segments sql)

end MySql

end EntitySql
