import EntitySql.Composer
import EntitySql.Proofs.Build
import EntitySql.Proofs.Column

/-! What a composer holds after whatever was asked of it. A composer answers one call after
the other, and some of them fail, possibly late, when parameters have been bound already. It
holds what the last operation that succeeded gives a fresh composer, or nothing where it was
emptied since. -/

namespace EntitySql

/-- What can be asked of a composer. -/
inductive Call where
  | compose (operation : Operation)
  | take
  | another

inductive Answer where
  | composed
  | failed (error : Error)
  | taken (statement : Statement)
  | renewed
  deriving DecidableEq, Repr

namespace Composer

/-- The answer to a call, and the composer that later calls are made to. -/
def respond (composer : Composer) (catalog : Catalog) : Call → Answer × Composer
  | .compose operation =>
      match (composer.run catalog operation).1 with
      | .ok next => (.composed, next)
      | .error error => (.failed error, composer)
  | .take => (.taken composer.take.1, composer.take.2)
  | .another => (.renewed, composer.another)

section Calls

variable {composer : Composer} {catalog : Catalog} {operation : Operation} {draft : Draft}

end Calls

/-! One call after the other. -/

variable {catalog : Catalog} {dialect : Dialect}

end Composer

end EntitySql
