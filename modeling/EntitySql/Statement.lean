import EntitySql.Params

/-! Statement text with its parameters, ready to be executed. -/

namespace EntitySql

structure Statement where
  sql : String := ""
  params : Params := {}
  deriving DecidableEq, Repr, Inhabited

end EntitySql
