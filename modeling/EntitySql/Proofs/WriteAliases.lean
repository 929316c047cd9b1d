import EntitySql.Proofs.Build
import EntitySql.Proofs.Column

/-! Writes and aliases. A statement that writes is about one table and qualifies no
column, so that it is the same text whatever its entities are known by and joined to.
What a scope makes of a condition is settled by what it makes of members; two scopes
that read every member alike build the same fragments, bind the same parameters and fail
alike. -/

namespace EntitySql

/-! Scopes that read alike. -/

namespace Scope

/-- Every member reads the same in both scopes, on either side of a comparison. -/
structure ReadsLike (first second : Scope) : Prop where
  member : ∀ path, first.member path = second.member path
  right : ∀ path, first.inRightOperand.member path = second.inRightOperand.member path

theorem ReadsLike.inRightOperand {first second : Scope} (like : first.ReadsLike second) :
    first.inRightOperand.ReadsLike second.inRightOperand :=
  ⟨like.right, like.right⟩

end Scope

namespace Expr

variable {first second : Scope}

theorem scalar_congr (like : first.ReadsLike second) :
    ∀ (expression : Expr) (hint : String),
      expression.scalar first hint = expression.scalar second hint
  | .member path, hint => by rw [scalar, scalar, like.member]
  | .constant value, hint => by rw [scalar, scalar]
  | .arithmetic operator left right, hint => by
      simp only [scalar, scalar_congr like left, scalar_congr like right]
  | .aggregate function operand, hint => by
      simp only [scalar, scalar_congr like operand]
  | .bareAggregate function, hint => by cases function <;> simp only [scalar]
  | .lambda entity inner, hint => by
      simp only [scalar, scalar_congr like inner]
  | .comparison .., hint | .logical .., hint | .negation _, hint | .nullTest .., hint
  | .inList .., hint | .like .., hint | .between .., hint | .record .., hint => by
      simp only [scalar]

theorem compare_congr (like : first.ReadsLike second) (operator : Comparison)
    (left right : Expr) :
    compare first operator left right = compare second operator left right := by
  simp only [compare, nullComparison, scalar_congr like, scalar_congr like.inRightOperand]

theorem predicate_congr (like : first.ReadsLike second) :
    ∀ expression : Expr, expression.predicate first = expression.predicate second
  | .member path => by rw [predicate, predicate, like.member]
  | .constant value => by
      cases value with
      | boolean truth => cases truth <;> simp only [predicate]
      | _ => simp only [predicate]
  | .comparison operator left right => by
      simp only [predicate, compare_congr like]
  | .logical connective left right => by
      simp only [predicate, predicate_congr like left, predicate_congr like right]
  | .negation operand => by simp only [predicate, predicate_congr like operand]
  | .nullTest .. | .inList .. | .like .. | .between .. => by
      simp only [predicate, scalar_congr like]
  | .lambda entity inner => by simp only [predicate, predicate_congr like inner]
  | .arithmetic .. | .aggregate .. | .bareAggregate _ | .record .. => by
      simp only [predicate]

end Expr

namespace Scope.ReadsLike

variable {first second : Scope} (like : first.ReadsLike second)

include like

theorem conjuncts (expressions : List Expr) :
    first.conjuncts expressions = second.conjuncts expressions := by
  induction expressions with
  | nil => rfl
  | cons expression expressions induction =>
      simp only [Scope.conjuncts, Expr.conjunct, Expr.predicate_congr like, induction]

theorem whereClause (filters : List Expr) :
    first.whereClause filters = second.whereClause filters := by
  simp only [Scope.whereClause, like.conjuncts]

theorem returnedBinding (binding : String × Expr) :
    first.returnedBinding binding = second.returnedBinding binding := by
  simp only [Scope.returnedBinding, like.member]

end Scope.ReadsLike

/-! Entities of one table. -/

/-- The same but for the name, the alias and the navigations. -/
structure Entity.SameTable (first second : Entity) : Prop where
  table : first.table = second.table
  fields : first.fields = second.fields
  keys : first.keys = second.keys
  identity : first.identity? = second.identity?

/-- The same but for the alias and the navigations. -/
structure Descriptor.SameTable (first second : Descriptor) : Prop where
  table : first.table = second.table
  fields : first.fields = second.fields
  keys : first.keys = second.keys
  identity : first.identity? = second.identity?

/-- Catalogs that differ in the aliases and the navigations of their entities alone: each
entity is accepted in both, or refused in both for the same fault. -/
structure Catalog.SameTables (first second : Catalog) : Prop where
  table : ∀ name, (first.descriptor name).SameTable (second.descriptor name)
  fault : ∀ name, (first.descriptor name).fault? = (second.descriptor name).fault?

namespace Entity.SameTable

variable {entity other : Entity} (same : entity.SameTable other)

include same

theorem column (property : String) : entity.column property = other.column property := by
  simp only [Entity.column, same.fields, same.table]

theorem tableName : entity.tableName = other.tableName := by
  simp only [Entity.tableName, same.table]

theorem identityOrKey? : entity.identityOrKey? = other.identityOrKey? := by
  simp only [Entity.identityOrKey?, same.identity, same.keys]

theorem updatableFields (exclude : List String) :
    entity.updatableFields exclude = other.updatableFields exclude := by
  simp only [Entity.updatableFields, Entity.isKey, Entity.isIdentity, same.fields, same.keys,
    same.identity]

theorem insertableFields (exclude : List String) :
    entity.insertableFields exclude = other.insertableFields exclude := by
  simp only [Entity.insertableFields, Entity.isIdentity, same.fields, same.identity]

theorem warnUnfiltered (query : Query) (action : String) :
    query.warnUnfiltered action entity = query.warnUnfiltered action other := by
  simp only [Query.warnUnfiltered, same.table]

theorem returningClause (dialect : Dialect) (columns : List ReturnedColumn) :
    dialect.returningClause entity columns = dialect.returningClause other columns := by
  simp only [Dialect.returningClause, same.tableName]

end Entity.SameTable

/-! Columns that are not qualified. -/

namespace Scope

variable {first : Catalog} (second : Catalog) {entity other : Entity}
  (same : entity.SameTable other)

include same

theorem column_unqualified (property : String) :
    (unqualified first).column entity property =
      (unqualified second).column other property := by
  simp only [column, columnUnder, same.column, unqualified, Bool.false_eq_true, if_false]

theorem boundFields_unqualified (record : Record) (fields : List Field) :
    (unqualified first).boundFields entity record fields =
      (unqualified second).boundFields other record fields := by
  induction fields with
  | nil => rfl
  | cons field fields induction =>
      simp only [boundFields, column_unqualified second same, induction]

theorem insertLists_unqualified (record : Record) (exclude : List String) :
    (unqualified first).insertLists entity record exclude =
      (unqualified second).insertLists other record exclude := by
  simp only [insertLists, boundFields_unqualified second same,
    same.insertableFields]

theorem recordSetClause_unqualified (record : Record) (exclude : List String) :
    (unqualified first).recordSetClause entity record exclude =
      (unqualified second).recordSetClause other record exclude := by
  simp only [recordSetClause, boundFields_unqualified second same,
    same.updatableFields]

theorem keyConditions_unqualified (record : Record) :
    (unqualified first).keyConditions entity record =
      (unqualified second).keyConditions other record := by
  have comparisons : ∀ keys, (unqualified first).keyComparisons entity record keys =
      (unqualified second).keyComparisons other record keys := by
    intro keys
    induction keys with
    | nil => rfl
    | cons key keys induction =>
        simp only [keyComparisons, column_unqualified second same, induction]
  simp only [keyConditions, comparisons, same.keys, same.table]

end Scope

namespace Catalog.SameTables

variable {first second : Catalog} (same : first.SameTables second)

include same

/-- An entity is refused for one fault, or found with one table. -/
theorem entity (name : String) :
    (∃ error, first.entity name = .error error ∧ second.entity name = .error error) ∨
    ∃ entity other, first.entity name = .ok entity ∧ second.entity name = .ok other ∧
      entity.SameTable other := by
  rcases same.table name with ⟨table, fields, keys, identity⟩
  simp only [Catalog.entity, Descriptor.build, same.fault name]
  cases (second.descriptor name).fault? with
  | some fault => exact .inl ⟨_, rfl, rfl⟩
  | none => exact .inr ⟨_, _, rfl, rfl, table, fields, keys, identity⟩

/-- What is built of an entity, where it does not depend on the alias and the
navigations. -/
theorem lift_bind {next again : Entity → Build α} (name : String)
    (tail : ∀ entity other, entity.SameTable other → next entity = again other) :
    (Build.lift (first.entity name) >>= next) = Build.lift (second.entity name) >>= again := by
  rcases same.entity name with ⟨error, left, right⟩ | ⟨entity, other, left, right, alike⟩
  · rw [left, right]
    rfl
  · rw [left, right]
    exact tail entity other alike

theorem member (path : MemberPath) :
    (Scope.unqualified first).member path = (Scope.unqualified second).member path := by
  unfold Scope.member
  rcases same.entity path.entity with ⟨error, left, right⟩ | ⟨entity, other, left, right, alike⟩
  · simp only [Scope.unqualified, left, right]
    rfl
  · simp only [Scope.unqualified, left, right]
    exact Scope.column_unqualified second alike path.member

theorem readsLike : (Scope.unqualified first).ReadsLike (Scope.unqualified second) :=
  ⟨same.member, same.member⟩

theorem boundAssignments {entity other : Entity} (alike : entity.SameTable other)
    (bindings : List (String × Expr)) :
    (Scope.unqualified first).boundAssignments entity bindings =
      (Scope.unqualified second).boundAssignments other bindings := by
  induction bindings with
  | nil => rfl
  | cons binding bindings induction =>
      simp only [Scope.boundAssignments, Expr.scalar_congr same.readsLike,
        Scope.column_unqualified second alike, induction]

theorem setClause (updater : Expr) :
    (Scope.unqualified first).setClause updater =
      (Scope.unqualified second).setClause updater := by
  unfold Scope.setClause
  split
  · next name bindings shape =>
      split
      · rfl
      · exact same.lift_bind name fun entity other alike => by
          rw [same.boundAssignments alike]
  · rfl

theorem returnedColumns {entity other : Entity} (alike : entity.SameTable other)
    (select : Option Expr) :
    (Scope.unqualified first).returnedColumns entity select =
      (Scope.unqualified second).returnedColumns other select := by
  have fields : (Scope.unqualified first).returnedField entity =
      (Scope.unqualified second).returnedField other := by
    funext field
    simp only [Scope.returnedField, Scope.column_unqualified second alike]
  have bindings := funext same.readsLike.returnedBinding
  cases select with
  | none => simp only [Scope.returnedColumns, fields, alike.fields]
  | some selector => simp only [Scope.returnedColumns, same.member, bindings]

end Catalog.SameTables

namespace Query

variable {first second : Catalog} (same : first.SameTables second) (query : Query)

include same

theorem buildInsert_congr (record : Record) (exclude : List String) :
    query.buildInsert first record exclude = query.buildInsert second record exclude := by
  simp only [buildInsert, insertClauses, bind_assoc]
  apply same.lift_bind
  intro entity other alike
  simp only [Scope.insertLists_unqualified second alike, pure_bind,
    InsertClauses.sql, alike.tableName]

theorem buildInsertIdentity_congr (dialect : Dialect) (record : Record)
    (exclude : List String) :
    query.buildInsertIdentity first dialect record exclude =
      query.buildInsertIdentity second dialect record exclude := by
  simp only [buildInsertIdentity, insertClauses, bind_assoc]
  apply same.lift_bind
  intro entity other alike
  simp only [Scope.insertLists_unqualified second alike, pure_bind,
    InsertClauses.sql, alike.tableName, alike.identityOrKey?, alike.table,
    Scope.column_unqualified second alike]

theorem buildUpdate_congr (updater : Expr) :
    query.buildUpdate first updater = query.buildUpdate second updater := by
  simp only [buildUpdate, updateClauses, bind_assoc]
  apply same.lift_bind
  intro entity other alike
  simp only [same.setClause, same.readsLike.whereClause, alike.warnUnfiltered, pure_bind,
    UpdateClauses.sql, UpdateClauses.sqlWith, alike.tableName]

theorem buildUpdateSelect_congr (dialect : Dialect) (updater : Expr) :
    query.buildUpdateSelect first dialect updater =
      query.buildUpdateSelect second dialect updater := by
  simp only [buildUpdateSelect, updateClauses, bind_assoc]
  apply same.lift_bind
  intro entity other alike
  simp only [same.setClause, same.readsLike.whereClause, alike.warnUnfiltered, pure_bind,
    same.returnedColumns alike, alike.returningClause, UpdateClauses.sql,
    UpdateClauses.sqlWith, alike.tableName]

theorem buildUpdateRecord_congr (record : Record) (exclude : List String) (everyRow : Bool) :
    query.buildUpdateRecord first record exclude everyRow =
      query.buildUpdateRecord second record exclude everyRow := by
  simp only [buildUpdateRecord]
  apply same.lift_bind
  intro entity other alike
  simp only [Scope.recordSetClause_unqualified second alike,
    same.readsLike.whereClause, alike.warnUnfiltered,
    Scope.keyConditions_unqualified second alike, UpdateClauses.sql,
    UpdateClauses.sqlWith, alike.tableName]

theorem buildDelete_congr : query.buildDelete first = query.buildDelete second := by
  simp only [buildDelete]
  apply same.lift_bind
  intro entity other alike
  simp only [same.readsLike.whereClause, alike.warnUnfiltered, alike.tableName]

end Query

/-! Every operation that writes. -/

namespace Operation

def writes : Operation → Bool
  | .insert .. | .insertIdentity .. | .update .. | .updateSelect .. | .updateRecord ..
  | .delete .. => true
  | _ => false

theorem build_congr {first second : Catalog} (same : first.SameTables second)
    (dialect : Dialect) {operation : Operation} (writes : operation.writes = true) :
    operation.build first dialect = operation.build second dialect := by
  cases operation with
  | insert query record exclude => exact query.buildInsert_congr same record exclude
  | insertIdentity query record exclude =>
      exact query.buildInsertIdentity_congr same dialect record exclude
  | update query updater => exact query.buildUpdate_congr same updater
  | updateSelect query updater => exact query.buildUpdateSelect_congr same dialect updater
  | updateRecord query record exclude everyRow =>
      exact query.buildUpdateRecord_congr same record exclude everyRow
  | delete query => exact query.buildDelete_congr same
  | _ => cases writes

/-- A statement that writes takes no joins. -/
theorem gives_no_joins (catalog : Catalog) (dialect : Dialect) {operation : Operation}
    (writes : operation.writes = true) :
    (operation.build catalog dialect).Gives fun built => built.joins = [] := by
  have ends : ∀ sql : Fragment, Build.Gives (fun built => built.joins = [])
      (pure { sql } : Build Built) := fun sql => Build.gives_pure rfl
  cases operation with
  | insert query record exclude => exact .bind fun _ => ends _
  | insertIdentity query record exclude =>
      apply Build.Gives.bind
      intro clauses
      split
      · intro draft result later run
        cases run
      · cases dialect with
        | mysql | sqlServer => exact ends _
        | oracle => exact .bind fun _ => .bind fun _ => ends _
  | update query updater => exact .bind fun _ => ends _
  | updateSelect query updater =>
      refine .bind fun clauses => .bind fun columns => .bind fun clause => ?_
      cases dialect <;> exact ends _
  | updateRecord query record exclude everyRow =>
      refine .bind fun entity => .bind fun assignments => .bind fun conditions => ?_
      split
      · exact .bind fun keyed => ends _
      · split
        · exact .bind fun warned => .bind fun keyed => ends _
        · exact .bind fun keyed => ends _
  | delete query => exact .bind fun _ => .bind fun _ => .bind fun _ => ends _
  | _ => cases writes

end Operation

/-- Catalogs that differ in aliases and navigations alone give the same writes: the same
error, or the same text with the same parameters, and the same log lines either way. No
join is taken. -/
theorem writes_ignore_aliases {first second : Catalog} (same : first.SameTables second)
    (dialect : Dialect) (operation : Operation) (writes : operation.writes = true) :
    operation.compose first dialect = operation.compose second dialect ∧
    ∀ composition, (operation.compose first dialect).1 = .ok composition →
      composition.joins = [] := by
  refine ⟨?_, ?_⟩
  · simp only [Operation.compose, Operation.build_congr same dialect writes]
  · intro composition composed
    unfold Operation.compose at composed
    split at composed
    · next built draft run =>
        cases composed
        exact Operation.gives_no_joins first dialect writes _ _ _ run
    · cases composed

/-! People under an alias of their own, each joined with another one. -/

/-- Lists of descriptors that agree one by one make up catalogs that agree. -/
theorem Catalog.sameTables_of_forall₂ {first second : Catalog}
    (each : List.Forall₂ (fun left right => left.1 = right.1 ∧ left.2.SameTable right.2 ∧
      left.2.fault? = right.2.fault?) first.descriptors second.descriptors) :
    first.SameTables second := by
  have found : ∀ name, (first.descriptor name).SameTable (second.descriptor name) ∧
      (first.descriptor name).fault? = (second.descriptor name).fault? := by
    intro name
    rcases first with ⟨firsts⟩
    rcases second with ⟨seconds⟩
    dsimp only [Catalog.descriptor] at each ⊢
    induction each with
    | nil => exact ⟨⟨rfl, rfl, rfl, rfl⟩, rfl⟩
    | @cons left right lefts rights head tail induction =>
        rcases head with ⟨named, agree⟩
        by_cases wanted : right.1 = name
        · simpa [named, wanted] using agree
        · simpa [named, wanted] using induction
  exact ⟨fun name => (found name).1, fun name => (found name).2⟩

def Catalog.ledPeople : Catalog :=
  { descriptors :=
      [("Person",
        { Catalog.people.descriptor "Person" with
          aliasName? := some "p"
          navigations := [⟨"leader", "Person", .left,
            .comparison .equal (.column "Person" "Age") (.column "Person" "Id"), true⟩] })] }

theorem sameTables_people : Catalog.people.SameTables .ledPeople :=
  Catalog.sameTables_of_forall₂ <| .cons ⟨rfl, ⟨rfl, rfl, rfl, rfl⟩, by decide⟩ .nil

/-- Reads tell the catalogs apart, and an update that tells its rows does not. -/
theorem writes_ignore_aliases_people :
    ∃ composition,
      ((Operation.updateSelect .minors .comeOfAge).compose .ledPeople .oracle).1 =
        .ok composition ∧
      ((Operation.updateSelect .minors .comeOfAge).compose .people .oracle).1 =
        .ok composition ∧
      ((Operation.list .minors).compose .ledPeople .oracle).1.map (·.statement.sql) ≠
        ((Operation.list .minors).compose .people .oracle).1.map (·.statement.sql) := by
  have same := (writes_ignore_aliases sameTables_people .oracle
    (.updateSelect .minors .comeOfAge) rfl).1
  exact ⟨_, rfl, congrArg Prod.fst same, by decide +kernel⟩

end EntitySql
