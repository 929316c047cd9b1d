import EntitySql.Decimal.Notation
import EntitySql.Json.Basic
import EntitySql.Text.Hexadecimal

/-! JSON text: no spaces, members in the order they are held in, every
character as it is except the quote, the backslash and the control characters
below the space. A double that is no number is written as `null`. -/

namespace EntitySql

namespace Json

def escapeCharacter (character : Char) : List Char :=
  match character with
  | '"' => ['\\', '"']
  | '\\' => ['\\', '\\']
  | '\n' => ['\\', 'n']
  | '\r' => ['\\', 'r']
  | '\t' => ['\\', 't']
  | _ =>
      let code := character.toNat
      if code = 0x08 then
        ['\\', 'b']
      else if code = 0x0C then
        ['\\', 'f']
      else if code < 0x20 then
        ['\\', 'u', '0', '0', hexDigit (code / 16), hexDigit code]
      else
        [character]

def quoted (text : String) : String :=
  String.ofList (['"'] ++ text.toList.flatMap escapeCharacter ++ ['"'])

mutual

def render : Json → String
  | .null => "null"
  | .boolean value => if value then "true" else "false"
  | .integer value => toString value
  | .double value => if value.isFinite then value.jsonText else "null"
  | .text value => quoted value
  | .array items => "[" ++ ",".intercalate (renderItems items) ++ "]"
  | .object members => "\x7b" ++ ",".intercalate (renderMembers members) ++ "\x7d"

def renderItems : List Json → List String
  | [] => []
  | item :: rest => render item :: renderItems rest

def renderMembers : List (String × Json) → List String
  | [] => []
  | (name, value) :: rest =>
      (quoted name ++ ":" ++ render value) :: renderMembers rest

end

end Json

end EntitySql
