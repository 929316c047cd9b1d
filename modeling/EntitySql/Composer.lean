import EntitySql.Operation

/-! A composer holds the statement that was built last. An operation that fails
leaves it as it was; taking the statement leaves it empty. -/

namespace EntitySql

structure Composer where
  dialect : Dialect
  statement : Statement := {}
  joins : List Navigation := []

namespace Composer

def fresh (dialect : Dialect) : Composer :=
  { dialect }

/-- An empty composer of the same dialect. -/
def another (composer : Composer) : Composer :=
  fresh composer.dialect

def hold (composer : Composer) (composition : Composition) : Composer :=
  { composer with statement := composition.statement, joins := composition.joins }

def run (composer : Composer) (catalog : Catalog) (operation : Operation) :
    Except Error Composer × List LogLine :=
  let (outcome, log) := operation.compose catalog composer.dialect
  (outcome.map composer.hold, log)

def take (composer : Composer) : Statement × Composer :=
  (composer.statement, fresh composer.dialect)

end Composer

end EntitySql
