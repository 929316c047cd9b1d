import EntitySql.Text.Hexadecimal

/-! Universally unique identifiers: 128 bits, written as lowercase hexadecimal
digits in groups of 8, 4, 4, 4 and 12. -/

namespace EntitySql

structure Uuid where
  bits : BitVec 128
  deriving DecidableEq, Repr

namespace Uuid

/-- The hexadecimal digit at a place counted from the right. -/
def digitAt (uuid : Uuid) (place : Nat) : Char :=
  hexDigit (uuid.bits.toNat >>> (4 * place))

/-- `count` digits from `place` leftwards to right. -/
def group (uuid : Uuid) (place : Nat) : (count : Nat) → List Char
  | 0 => []
  | count + 1 => uuid.digitAt (place + count) :: uuid.group place count

def text (uuid : Uuid) : String :=
  String.ofList (uuid.group 24 8 ++ '-' :: (uuid.group 20 4 ++ '-' :: (uuid.group 16 4 ++
    '-' :: (uuid.group 12 4 ++ '-' :: uuid.group 0 12))))

/-- Reads 32 digits of either case, with or without hyphens between the groups. -/
def read? (source : String) : Option Uuid := do
  let characters := source.toList
  let groups := characters.splitOn '-'
  let lengths := groups.map List.length
  if lengths = [32] ∨ lengths = [8, 4, 4, 4, 12] then
    return ⟨BitVec.ofNat 128 (← readHexadecimal? groups.flatten)⟩
  else
    none

end Uuid

end EntitySql
