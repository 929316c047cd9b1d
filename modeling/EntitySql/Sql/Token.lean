/-! Statement text as tokens. A fragment is a piece of a statement; spaces are
tokens of their own, so that a fragment determines its text up to the last
character once the quotes and the placeholder mark of a dialect are known. -/

namespace EntitySql

inductive Symbol where
  | equal
  | notEqual
  | greater
  | greaterOrEqual
  | less
  | lessOrEqual
  | plus
  | minus
  | times
  | slash
  | comma
  | dot
  | openParen
  | closeParen
  | semicolon
  deriving DecidableEq, Repr

inductive Token where
  /-- A keyword, a number or an unquoted alias. -/
  | word (text : String)
  /-- A quoted identifier, without its quotes. -/
  | identifier (name : String)
  | placeholder (name : String)
  /-- A variable of the server, written after a doubled at sign. -/
  | systemVariable (name : String)
  | symbol (glyph : Symbol)
  | space
  deriving DecidableEq, Repr

abbrev Fragment := List Token

namespace Fragment

/-- Keywords with a space between each two. -/
def words (texts : List String) : Fragment :=
  (texts.map Token.word).intersperse .space

def number (value : Nat) : Fragment :=
  [.word (toString value)]

/-- Free text as one word; no text gives no token. -/
def ofText (text : String) : Fragment :=
  if text.isEmpty then [] else [.word text]

/-- The fragments that are not empty, a space between each two. -/
def spaced (fragments : List Fragment) : Fragment :=
  [Token.space].intercalate (fragments.filter (!·.isEmpty))

def commaSeparated (fragments : List Fragment) : Fragment :=
  [Token.symbol .comma, .space].intercalate fragments

def parenthesized (fragment : Fragment) : Fragment :=
  [.symbol .openParen] ++ fragment ++ [.symbol .closeParen]

/-- Two operands with a symbol between them, spaced. -/
def joined (left : Fragment) (symbol : Symbol) (right : Fragment) : Fragment :=
  left ++ [.space, .symbol symbol, .space] ++ right

/-- A column, selected under another name. -/
def renamed (column : Fragment) (name : String) : Fragment :=
  column ++ [.space, .word "AS", .space, .identifier name]

/-- A function applied to one argument. -/
def call (function : String) (argument : Fragment) : Fragment :=
  .word function :: parenthesized argument

end Fragment

end EntitySql
