import EntitySql.Text.Identifier

/-! Names that clash with no earlier one. Parameters and table aliases follow
one rule: the wanted name if it is free, else the wanted name with the least
number from one on that makes it free. Among one more candidate than there are
taken names one is always free, which bounds the search. -/

namespace EntitySql

def isTaken (taken : List String) (name : String) : Bool :=
  taken.any (sameIgnoringCase · name)

def numberedName (base : String) (number : Nat) : String :=
  base ++ "_" ++ toString number

/-- Tries `attempts` numbered names from `number` on and settles for the one
after them. -/
def firstFreeNumbered (taken : List String) (base : String) :
    (attempts number : Nat) → String
  | 0, number => numberedName base number
  | attempts + 1, number =>
      if isTaken taken (numberedName base number) then
        firstFreeNumbered taken base attempts (number + 1)
      else
        numberedName base number

def freshNumbered (taken : List String) (base : String) : String :=
  firstFreeNumbered taken base taken.length 1

def freshName (taken : List String) (base : String) : String :=
  if isTaken taken base then freshNumbered taken base else base

end EntitySql
