/-! Names written into statements without quotes. Everything here looks at
ASCII letters and digits only: a name with any other character is never a
plain identifier, and case is ignored for ASCII letters alone. -/

namespace EntitySql

def isWordStart (character : Char) : Bool :=
  character.isAlpha || character == '_'

def isWordCharacter (character : Char) : Bool :=
  character.isAlphanum || character == '_'

def isPlainIdentifier (name : String) : Bool :=
  match name.toList with
  | [] => false
  | first :: rest => isWordStart first && rest.all isWordCharacter

/-! Two names that differ at most in the case of ASCII letters denote the same
parameter or alias. -/

def foldCase (name : String) : List Char :=
  name.toList.map Char.toLower

def sameIgnoringCase (left right : String) : Bool :=
  foldCase left == foldCase right

/-! A table without a declared alias is known under its own name, with every
character that an unquoted alias cannot hold replaced. -/

def aliasOfTable (table : String) : String :=
  let cleaned := table.toList.map fun character =>
    if character.isAlphanum then character else '_'
  match cleaned with
  | [] => ""
  | first :: _ =>
      String.ofList (if first.isDigit then '_' :: cleaned else cleaned)

end EntitySql
