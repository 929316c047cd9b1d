import EntitySql.Error

/-! Pages of a row sequence. Pages and rows are numbered from one. -/

namespace EntitySql

structure RowRange where
  /-- Rows before the page. -/
  skip : UInt64
  first : UInt64
  last : UInt64
  size : UInt64
  deriving DecidableEq, Repr

def RowRange.ofPage (index size : UInt32) : Except Error RowRange :=
  if index < 1 || size < 1 then
    .error (.invalidPaging index size)
  else
    let rows := size.toUInt64
    let skip := (index.toUInt64 - 1) * rows
    .ok { skip, first := skip + 1, last := skip + rows, size := rows }

/-- One page of results and the number of rows on all pages. -/
structure Page (α : Type) where
  index : UInt32
  size : UInt32
  total : UInt64
  items : List α

namespace Page

def totalPages (page : Page α) : Nat :=
  let size := max page.size.toNat 1
  (page.total.toNat + size - 1) / size

def hasNext (page : Page α) : Bool :=
  page.index.toNat < page.totalPages

end Page

end EntitySql
