import EntitySql.Schema.Entity

/-! What a statement asks for, gathered before it is built. Reads and writes
share the form; a write looks at the filters and the projection only. -/

namespace EntitySql

structure Query where
  entity : String
  filters : List Expr := []
  select : Option Expr := none
  order : List SortKey := []
  groups : List Expr := []
  having : List Expr := []
  joins : List Navigation := []
  top : Option UInt32 := none
  distinct : Bool := false
  noLock : Bool := false

namespace Query

def hasFilters (query : Query) : Bool :=
  !query.filters.isEmpty

/-! Asking for more. Lists grow at their end; the rest is replaced. -/

def filtered (query : Query) (condition : Expr) : Query :=
  { query with filters := query.filters ++ [condition] }

def selecting (query : Query) (selector : Expr) : Query :=
  { query with select := some selector }

def ordered (query : Query) (key : Expr) (direction : SortDirection) : Query :=
  { query with order := query.order ++ [⟨key, direction⟩] }

def grouped (query : Query) (key : Expr) : Query :=
  { query with groups := query.groups ++ [key] }

def groupFiltered (query : Query) (condition : Expr) : Query :=
  { query with having := query.having ++ [condition] }

def joined (query : Query) (navigation : Navigation) : Query :=
  { query with joins := query.joins ++ [navigation] }

def limited (query : Query) (count : UInt32) : Query :=
  { query with top := some count }

end Query

end EntitySql
