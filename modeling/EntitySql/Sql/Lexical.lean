import EntitySql.Sql.Token

/-! The characters that differ between dialects, and the text of a fragment
under them. A close quote inside a quoted identifier is doubled, so that no
name can end the identifier it is written in. -/

namespace EntitySql

structure Lexical where
  openQuote : String
  closeQuote : String
  mark : Char
  deriving DecidableEq, Repr

/-- The text with every occurrence of the quote doubled. Occurrences are taken
from the left and do not overlap; `skip` counts the characters left of one that
is already written. -/
def doubleQuotes (quote : List Char) : (skip : Nat) → List Char → List Char
  | _, [] => []
  | skip + 1, _ :: rest => doubleQuotes quote skip rest
  | 0, character :: rest =>
      if !quote.isEmpty && quote.isPrefixOf (character :: rest) then
        quote ++ quote ++ doubleQuotes quote (quote.length - 1) rest
      else
        character :: doubleQuotes quote 0 rest

namespace Lexical

def quote (lexical : Lexical) (name : String) : List Char :=
  lexical.openQuote.toList ++ doubleQuotes lexical.closeQuote.toList 0 name.toList ++
    lexical.closeQuote.toList

def placeholder (lexical : Lexical) (name : String) : List Char :=
  lexical.mark :: name.toList

end Lexical

def Symbol.text : Symbol → List Char
  | .equal => ['=']
  | .notEqual => ['<', '>']
  | .greater => ['>']
  | .greaterOrEqual => ['>', '=']
  | .less => ['<']
  | .lessOrEqual => ['<', '=']
  | .plus => ['+']
  | .minus => ['-']
  | .times => ['*']
  | .slash => ['/']
  | .comma => [',']
  | .dot => ['.']
  | .openParen => ['(']
  | .closeParen => [')']
  | .semicolon => [';']

def Token.characters (lexical : Lexical) : Token → List Char
  | .word text => text.toList
  | .identifier name => lexical.quote name
  | .placeholder name => lexical.placeholder name
  | .systemVariable name => '@' :: '@' :: name.toList
  | .symbol glyph => glyph.text
  | .space => [' ']

namespace Fragment

def characters (lexical : Lexical) (fragment : Fragment) : List Char :=
  fragment.flatMap (Token.characters lexical)

def text (lexical : Lexical) (fragment : Fragment) : String :=
  String.ofList (fragment.characters lexical)

end Fragment

end EntitySql
