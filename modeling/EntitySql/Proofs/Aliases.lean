import Mathlib.Data.List.TakeWhile
import EntitySql.Proofs.FreshName
import EntitySql.Proofs.Placeholders
import EntitySql.Proofs.QueryMentions

/-! Which tables the aliases of columns stand for. No two tables of a statement go by one
alias, so an alias stands for one of them at most. Outside of the condition of its join a
column is under the alias that its entity declares. It is the alias of a table of that
entity unless another table has it already; the join then lends its table another one,
which the column does not follow. -/

namespace EntitySql

/-- A table of an entity, and the alias that a statement introduces for it. -/
structure TableAlias where
  entity : String
  aliasName : String
  deriving DecidableEq, Repr

/-! The tables of a statement. -/

def Mention.table? : Mention → Option TableAlias
  | .table entity aliasName => some { entity, aliasName }
  | .column .. => none

def JoinView.table (join : JoinView) : TableAlias :=
  { entity := join.target, aliasName := join.aliasName }

namespace Query

variable (catalog : Catalog) (query : Query)

def rootTable : TableAlias :=
  { entity := query.entity, aliasName := catalog.aliasName query.entity }

def tables : List TableAlias :=
  query.rootTable catalog :: (query.joinViews catalog).map (·.2.table)

end Query

/-! What a piece of a statement introduces, and where its columns stand. -/

/-- A column is under the alias of its entity, or under that of a table of it. -/
def Catalog.Settled (catalog : Catalog) (tables : List TableAlias) (path : MemberPath)
    (aliasName : String) : Prop :=
  aliasName = catalog.aliasName path.entity ∨ { entity := path.entity, aliasName } ∈ tables

/-- The mentions introduce these tables in order, and their columns are settled where all
the tables of the statement are known. -/
structure Introduces (catalog : Catalog) (tables : List TableAlias) (mentions : List Mention)
    (introduced : List TableAlias) : Prop where
  introduced : mentions.filterMap Mention.table? = introduced
  settled : ∀ path aliasName, .column path aliasName ∈ mentions →
    catalog.Settled tables path aliasName

namespace Introduces

variable {catalog : Catalog} {tables : List TableAlias}

theorem nil : Introduces catalog tables [] [] :=
  ⟨rfl, fun _ _ listed => absurd listed List.not_mem_nil⟩

theorem append {left right : List Mention} {first second : List TableAlias}
    (head : Introduces catalog tables left first) (tail : Introduces catalog tables right second) :
    Introduces catalog tables (left ++ right) (first ++ second) := by
  refine ⟨by rw [List.filterMap_append, head.introduced, tail.introduced], ?_⟩
  intro path aliasName listed
  rcases List.mem_append.mp listed with listed | listed
  · exact head.settled path aliasName listed
  · exact tail.settled path aliasName listed

theorem flatMap {α : Type} {items : List α} {mentioned : α → List Mention}
    {introduced : α → List TableAlias}
    (each : ∀ item ∈ items, Introduces catalog tables (mentioned item) (introduced item)) :
    Introduces catalog tables (items.flatMap mentioned) (items.flatMap introduced) := by
  induction items with
  | nil => exact nil
  | cons item items induction =>
      exact (each item List.mem_cons_self).append
        (induction fun other listed => each other (List.mem_cons_of_mem _ listed))

/-- Pieces that introduce no table. -/
theorem flatMap_columns {α : Type} {items : List α} {mentioned : α → List Mention}
    (each : ∀ item ∈ items, Introduces catalog tables (mentioned item) []) :
    Introduces catalog tables (items.flatMap mentioned) [] := by
  have whole := flatMap each
  rwa [List.flatMap_eq_nil_iff.mpr fun _ _ => rfl] at whole

theorem table (entity aliasName : String) :
    Introduces catalog tables [.table entity aliasName] [{ entity, aliasName }] := by
  refine ⟨rfl, ?_⟩
  intro path other listed
  simp at listed

theorem column {path : MemberPath} {aliasName : String}
    (settled : catalog.Settled tables path aliasName) :
    Introduces catalog tables [.column path aliasName] [] := by
  refine ⟨rfl, ?_⟩
  intro other otherAlias listed
  cases List.mem_singleton.mp listed
  exact settled

end Introduces

theorem Scope.settled_aliasFor {scope : Scope} {tables : List TableAlias}
    (lent : ∀ join ∈ scope.join?, join.table ∈ tables) (path : MemberPath) :
    scope.catalog.Settled tables path (scope.aliasFor path.entity) := by
  rw [aliasFor]
  cases found : scope.joinedAlias? path.entity with
  | none => exact .inl rfl
  | some aliasName =>
      refine .inr ?_
      unfold joinedAlias? at found
      split at found
      · next join joined =>
          split_ifs at found with own
          cases found
          have target : join.target = path.entity := by simp_all
          rw [← target]
          exact lent join joined
      · cases found

/-- Expressions introduce no table. -/
theorem Expr.introduces_mentions {tables : List TableAlias} :
    ∀ {expression : Expr} {scope : Scope}, (∀ join ∈ scope.join?, join.table ∈ tables) →
      Introduces scope.catalog tables (expression.mentions scope) []
  | .member path, scope, lent => .column (Scope.settled_aliasFor lent path)
  | .comparison operator left right, scope, lent => by
      have rightLent : ∀ join ∈ scope.inRightOperand.join?, join.table ∈ tables := lent
      have tail : Introduces scope.catalog tables (right.mentions scope.inRightOperand) [] :=
        introduces_mentions rightLent
      rw [mentions]
      split_ifs
      · exact introduces_mentions lent
      · exact introduces_mentions lent
      · exact (introduces_mentions lent).append tail
  | .arithmetic operator left right, scope, lent
  | .logical operator left right, scope, lent =>
      (introduces_mentions lent).append (introduces_mentions lent)
  | .inList operand items negated, scope, lent => by
      rw [mentions]
      split_ifs
      · exact .nil
      · exact introduces_mentions lent
  | .negation operand, scope, lent | .nullTest operand _, scope, lent
  | .like operand _ _ _, scope, lent | .between operand _ _, scope, lent
  | .aggregate _ operand, scope, lent | .lambda _ operand, scope, lent => by
      rw [mentions]
      exact introduces_mentions lent
  | .constant _, scope, lent | .bareAggregate _, scope, lent | .record .., scope, lent => .nil

section Statements

variable (catalog : Catalog) (query : Query)

theorem introduces_aliased {tables : List TableAlias} (expression : Expr) :
    Introduces catalog tables (expression.mentions (.aliased catalog)) [] :=
  have lent : ∀ join ∈ (Scope.aliased catalog).join?, join.table ∈ tables :=
    fun _ none => absurd none (Option.not_mem_none _)
  Expr.introduces_mentions lent

theorem introduces_projected {tables : List TableAlias} (selector : Expr) :
    Introduces catalog tables (selector.projectedMentions (.aliased catalog)) [] := by
  unfold Expr.projectedMentions
  split
  · exact .flatMap_columns fun binding _ => introduces_aliased catalog binding.2
  · exact introduces_aliased catalog selector

theorem introduces_fields {tables : List TableAlias} {entity aliasName : String}
    (settled : aliasName = catalog.aliasName entity ∨ { entity, aliasName } ∈ tables) :
    Introduces catalog tables (catalog.fieldMentions entity aliasName) [] := by
  rw [Catalog.fieldMentions, List.map_eq_flatMap]
  exact .flatMap_columns fun field _ => .column settled

theorem introduces_sources :
    Introduces catalog (query.tables catalog) (query.sourceMentions catalog)
      (query.tables catalog) := by
  have joined : Introduces catalog (query.tables catalog)
      ((query.joinViews catalog).flatMap catalog.joinMentions)
      ((query.joinViews catalog).flatMap fun join => [join.2.table]) := by
    refine .flatMap fun join listed => ?_
    refine (Introduces.table _ _).append ?_
    have lent : ∀ view ∈ (Scope.ofJoin catalog join.2).join?, view.table ∈ query.tables catalog := by
      intro view equal
      cases equal
      exact List.mem_cons_of_mem _ (List.mem_map_of_mem listed)
    exact Expr.introduces_mentions lent
  rw [← List.map_eq_flatMap] at joined
  exact (Introduces.table _ _).append joined

theorem introduces_selected :
    Introduces catalog (query.tables catalog) (query.selectMentions catalog) [] := by
  unfold Query.selectMentions
  split
  · refine (introduces_fields catalog (.inl rfl)).append (.flatMap_columns fun join listed => ?_)
    unfold Catalog.joinedMentions
    split_ifs
    · exact introduces_fields catalog
        (.inr (List.mem_cons_of_mem _ (List.mem_map_of_mem listed)))
    · exact .nil
  · next selector _ => exact introduces_projected catalog selector

theorem introduces_ordering :
    Introduces catalog (query.tables catalog) (query.orderMentions catalog) [] :=
  .flatMap_columns fun item _ => introduces_aliased catalog item.expression

theorem introduces_pageOrdering (dialect : Dialect) :
    Introduces catalog (query.tables catalog) (query.pageOrderMentions catalog dialect) [] := by
  unfold Query.pageOrderMentions
  split
  · unfold Query.keyMentions
    split_ifs
    · rw [List.map_eq_flatMap]
      exact .flatMap_columns fun key _ => .column (.inl rfl)
    · exact .nil
  · exact introduces_ordering catalog query

theorem introduces_rows {ordering : List Mention}
    (ordered : Introduces catalog (query.tables catalog) ordering []) :
    Introduces catalog (query.tables catalog) (query.rowMentions catalog ordering)
      (query.tables catalog) := by
  have conditions : Introduces catalog (query.tables catalog)
      ((query.filters ++ query.groups ++ query.having).flatMap
        (Expr.mentions (.aliased catalog))) [] :=
    .flatMap_columns fun expression _ => introduces_aliased catalog expression
  simpa [Query.rowMentions] using ((((introduces_selected catalog query).append
    (introduces_sources catalog query)).append conditions).append ordered)

theorem introduces_value {head : List Mention}
    (shown : Introduces catalog (query.tables catalog) head []) :
    Introduces catalog (query.tables catalog) (query.valueMentions catalog head)
      (query.tables catalog) := by
  have conditions : Introduces catalog (query.tables catalog)
      (query.filters.flatMap (Expr.mentions (.aliased catalog))) [] :=
    .flatMap_columns fun expression _ => introduces_aliased catalog expression
  simpa [Query.valueMentions] using
    ((shown.append (introduces_sources catalog query)).append conditions)

theorem introduces_operation (dialect : Dialect) {operation : Operation}
    (reads : operation.reads = true) :
    Introduces catalog (operation.query.tables catalog) (operation.mentions catalog dialect)
      (operation.query.tables catalog) := by
  cases operation <;> cases reads
  case get query => exact introduces_rows catalog query (introduces_ordering catalog query)
  case list query => exact introduces_rows catalog query (introduces_ordering catalog query)
  case page query index size =>
    exact introduces_rows catalog query (introduces_pageOrdering catalog query dialect)
  case any query => exact introduces_value catalog query .nil
  case count query => exact introduces_value catalog query .nil
  case summarize summary query selector =>
    exact introduces_value catalog query
      (.flatMap_columns fun expression _ => introduces_aliased catalog expression)

end Statements

/-! Aliases are different from each other. -/

/-- No two tables go by one alias, in whatever case. -/
def DifferentAliases (tables : List TableAlias) : Prop :=
  (tables.map fun table => foldCase table.aliasName).Nodup

theorem joinAlias_not_isTaken (taken : List String) (own navigation : String) :
    isTaken taken (joinAlias taken own navigation) = false := by
  unfold joinAlias
  split
  · exact freshName_not_isTaken taken navigation
  · next free => simpa using free

section Joins

variable (catalog : Catalog) (root : String)

/-- The tables that joins introduce behind others. -/
def Catalog.joinedTables (before : List TableAlias) (navigations : List Navigation) :
    List TableAlias :=
  (catalog.joinViews root (before.map (·.aliasName)) navigations).map (·.2.table)

/-- The table that a join introduces behind others. -/
def Catalog.joinedTable (before : List TableAlias) (navigation : Navigation) : TableAlias :=
  { entity := navigation.target
    aliasName := joinAlias (before.map (·.aliasName)) (catalog.aliasName navigation.target)
      navigation.name }

/-- Where the aliases of the tables before are in use, a joined table gets another one. -/
theorem DifferentAliases.join {before : List TableAlias} (different : DifferentAliases before)
    (navigation : Navigation) :
    DifferentAliases (before ++ [catalog.joinedTable before navigation]) := by
  have free := joinAlias_not_isTaken (before.map (·.aliasName))
    (catalog.aliasName navigation.target) navigation.name
  rw [← Bool.not_eq_true, isTaken_iff, List.map_map] at free
  unfold DifferentAliases
  rw [List.map_append, List.map_singleton, List.nodup_append]
  refine ⟨different, List.nodup_singleton _, ?_⟩
  intro folded listed other single equal
  rw [List.mem_singleton] at single
  exact free (single ▸ equal ▸ listed)

theorem joinedTables_cons (before : List TableAlias) (navigation : Navigation)
    (navigations : List Navigation) :
    catalog.joinedTables root before (navigation :: navigations) =
      catalog.joinedTable before navigation ::
        catalog.joinedTables root (before ++ [catalog.joinedTable before navigation])
          navigations := by
  simp [Catalog.joinedTables, Catalog.joinedTable, Catalog.joinViews, JoinView.table]

theorem differentAliases_joinedTables (navigations : List Navigation) {before : List TableAlias}
    (different : DifferentAliases before) :
    DifferentAliases (before ++ catalog.joinedTables root before navigations) := by
  induction navigations generalizing before with
  | nil => simpa [Catalog.joinedTables, Catalog.joinViews] using different
  | cons navigation navigations induction =>
      rw [joinedTables_cons, List.append_cons]
      exact induction (different.join catalog navigation)

/-- The first table of an entity goes by the alias that the entity declares unless a table
before it does. -/
theorem declared_mem_joinedTables {entity : String} (navigations : List Navigation)
    {before : List TableAlias} (others : ∀ table ∈ before, table.entity ≠ entity)
    (joined : entity ∈ (catalog.joinedTables root before navigations).map (·.entity))
    (free : isTaken (((before ++ catalog.joinedTables root before navigations).takeWhile
      (·.entity != entity)).map (·.aliasName)) (catalog.aliasName entity) = false) :
    { entity, aliasName := catalog.aliasName entity } ∈
      catalog.joinedTables root before navigations := by
  induction navigations generalizing before with
  | nil => simp [Catalog.joinedTables, Catalog.joinViews] at joined
  | cons navigation navigations induction =>
      rw [joinedTables_cons] at joined free ⊢
      by_cases own : navigation.target = entity
      · have first : (before ++ catalog.joinedTable before navigation ::
            catalog.joinedTables root (before ++ [catalog.joinedTable before navigation])
              navigations).takeWhile (·.entity != entity) = before := by
          rw [List.takeWhile_append_of_pos (by simpa using others)]
          simp [Catalog.joinedTable, own]
        rw [first] at free
        have declared : catalog.joinedTable before navigation =
            { entity, aliasName := catalog.aliasName entity } := by
          simp [Catalog.joinedTable, joinAlias, own, free]
        rw [declared]
        exact List.mem_cons_self
      · rw [List.append_cons] at free
        refine List.mem_cons_of_mem _ (induction ?_ ?_ free)
        · intro table listed
          rcases List.mem_append.mp listed with listed | listed
          · exact others table listed
          · rw [List.mem_singleton.mp listed]
            exact own
        · rcases List.mem_cons.mp joined with same | later
          · exact absurd same.symm own
          · exact later

end Joins

/-! The tables of a query. -/

/-- The alias stands for a table of the entity, and no other table goes by it in any case. -/
structure StandsFor (tables : List TableAlias) (aliasName entity : String) : Prop where
  introduced : { entity, aliasName } ∈ tables
  alone : ∀ table ∈ tables, sameIgnoringCase table.aliasName aliasName = true →
    table = { entity, aliasName }

theorem DifferentAliases.standsFor {tables : List TableAlias} (different : DifferentAliases tables)
    {aliasName entity : String} (introduced : { entity, aliasName } ∈ tables) :
    StandsFor tables aliasName entity :=
  ⟨introduced, fun _ listed same =>
    List.inj_on_of_nodup_map different listed introduced (sameIgnoringCase_iff.mp same)⟩

namespace Query

variable (catalog : Catalog) (query : Query)

/-- No table before the first one of the entity goes by the alias that the entity declares. -/
def KeepsAlias (entity : String) : Prop :=
  isTaken (((query.tables catalog).takeWhile (·.entity != entity)).map (·.aliasName))
    (catalog.aliasName entity) = false

instance (entity : String) : Decidable (query.KeepsAlias catalog entity) :=
  inferInstanceAs (Decidable (_ = _))

theorem tables_eq : query.tables catalog =
    [query.rootTable catalog] ++ catalog.joinedTables query.entity [query.rootTable catalog]
      (query.joins ++ (catalog.descriptor query.entity).navigations) :=
  rfl

theorem differentAliases_tables : DifferentAliases (query.tables catalog) := by
  rw [tables_eq]
  exact differentAliases_joinedTables catalog _ _ (List.nodup_singleton _)

variable {catalog query} {entity : String}

theorem exists_other_of_not_keepsAlias (lost : ¬ query.KeepsAlias catalog entity) :
    ∃ other ∈ query.tables catalog, other.entity ≠ entity ∧
      sameIgnoringCase other.aliasName (catalog.aliasName entity) = true := by
  rw [KeepsAlias, Bool.not_eq_false, isTaken_iff, List.map_map, List.mem_map] at lost
  rcases lost with ⟨other, before, same⟩
  refine ⟨other, (List.takeWhile_sublist _).subset before, ?_, sameIgnoringCase_iff.mpr same⟩
  simpa using List.mem_takeWhile_imp before

/-- Of an entity with a table in the query, one goes by its declared alias just where no
table before the first of them does. -/
theorem standsFor_declared_iff (known : entity ∈ (query.tables catalog).map (·.entity)) :
    StandsFor (query.tables catalog) (catalog.aliasName entity) entity ↔
      query.KeepsAlias catalog entity := by
  constructor
  · intro stands
    by_contra lost
    rcases exists_other_of_not_keepsAlias lost with ⟨other, listed, different, same⟩
    exact different (congrArg TableAlias.entity (stands.alone other listed same))
  · intro keeps
    refine (query.differentAliases_tables catalog).standsFor ?_
    rw [tables_eq, List.singleton_append] at known ⊢
    by_cases root : query.entity = entity
    · rw [← root]
      exact List.mem_cons_self
    · refine List.mem_cons_of_mem _ (declared_mem_joinedTables catalog _ _ ?_ ?_ keeps)
      · simpa [rootTable] using root
      · rcases List.mem_cons.mp known with same | joined
        · exact absurd same.symm root
        · exact joined

end Query

/-! Columns. -/

/-- What is told of the columns of a statement: one that mentions an entity with a table in
the query stands under an alias of such a table and of no other, unless it is under the
declared alias of the entity and a table of another entity took that first. -/
def Operation.ResolvesColumns (catalog : Catalog) (dialect : Dialect) (operation : Operation) :
    Prop :=
  ∀ path aliasName, .column path aliasName ∈ operation.mentions catalog dialect →
    path.entity ∈ (operation.query.tables catalog).map (·.entity) →
    (StandsFor (operation.query.tables catalog) aliasName path.entity ↔
      (aliasName = catalog.aliasName path.entity →
        operation.query.KeepsAlias catalog path.entity)) ∧
    (¬ StandsFor (operation.query.tables catalog) aliasName path.entity →
      ∃ other ∈ operation.query.tables catalog, other.entity ≠ path.entity ∧
        sameIgnoringCase other.aliasName aliasName = true)

theorem resolvesColumns_of_reads (catalog : Catalog) (dialect : Dialect) {operation : Operation}
    (reads : operation.reads = true) : operation.ResolvesColumns catalog dialect := by
  intro path aliasName mentioned known
  have settled := (introduces_operation catalog dialect reads).settled path aliasName mentioned
  by_cases declared : aliasName = catalog.aliasName path.entity
  · rw [declared]
    have stands := Query.standsFor_declared_iff known
    refine ⟨by simpa using stands, ?_⟩
    intro strange
    exact Query.exists_other_of_not_keepsAlias (mt stands.mpr strange)
  · have introduced := settled.resolve_left declared
    have stands := (operation.query.differentAliases_tables catalog).standsFor introduced
    exact ⟨iff_of_true stands fun equal => absurd equal declared, fun strange => absurd stands strange⟩

/-- The text of a statement that reads names what its query mentions, in order, and
introduces the tables of the query. A column stands for a table of its own entity just
where it follows the alias that a join lends or its entity keeps the declared alias. -/
theorem column_aliases_stand_for (catalog : Catalog) (dialect : Dialect) (operation : Operation)
    (reads : operation.reads = true) {composition : Composition} {log : List LogLine}
    (composed : operation.compose catalog dialect = (.ok composition, log)) :
    ∃ tokens : Fragment,
      composition.statement.sql = tokens.text dialect.lexical ∧
      (catalog.PlainProperties → operation.query.PlainNames →
        dialect.readTokens composition.statement.sql = some tokens) ∧
      (namings tokens.squeezed).map some =
        (operation.mentions catalog dialect).map (Mention.naming? catalog) ∧
      (operation.mentions catalog dialect).filterMap Mention.table? =
        operation.query.tables catalog ∧
      operation.ResolvesColumns catalog dialect := by
  unfold Operation.compose at composed
  split at composed
  · next built draft run =>
      cases composed
      rcases Operation.mentions_build reads run with ⟨named, names, same⟩
      have whole := names.names [] names_nil.opens
      rw [List.append_nil, namings, List.append_nil] at whole
      refine ⟨built.sql, rfl, ?_, whole ▸ same, ?_, resolvesColumns_of_reads catalog dialect reads⟩
      · intro plain names
        exact dialect.readTokens_text (sound_build plain names run).1
      · exact (introduces_operation catalog dialect reads).introduced
  · cases composed

/-- Orders, and an archive whose table has a name that gives the same alias. -/
def Catalog.shop : Catalog :=
  { descriptors :=
      [("Order",
        { table := "shop.orders"
          fields := [⟨"Id", "id"⟩, ⟨"Archive", "archive"⟩]
          keys := ["Id"] }),
       ("Archive",
        { table := "shop_orders"
          fields := [⟨"Id", "id"⟩, ⟨"Closed", "closed"⟩]
          keys := ["Id"] })] }

/-- The orders whose archive is closed. -/
def Query.closed : Query :=
  { entity := "Order"
    filters := [.column "Archive" "Closed"]
    joins :=
      [{ name := "Kept"
         target := "Archive"
         kind := .inner
         condition := .comparison .equal (.column "Order" "Archive") (.column "Archive" "Id")
         withFields := false }] }

theorem column_aliases_stand_for_orders :
    ∃ composition tokens,
      ((Operation.list .closed).compose .shop .mysql).1 = .ok composition ∧
      Dialect.mysql.readTokens composition.statement.sql = some tokens ∧
      (namings tokens.squeezed).map some =
        ((Operation.list .closed).mentions .shop .mysql).map (Mention.naming? .shop) ∧
      StandsFor (Query.closed.tables .shop) "shop_orders" "Order" := by
  have plain : Catalog.shop.PlainProperties := plainProperties_of_fields (by decide)
  have names : Query.closed.PlainNames := ⟨by decide, by simp [Query.closed]⟩
  rcases column_aliases_stand_for .shop .mysql (.list .closed) rfl rfl with
    ⟨tokens, -, read, named, -, resolves⟩
  have stands := (resolves ⟨"Order", "Id"⟩ "shop_orders" (by decide) (by decide)).1
  exact ⟨_, tokens, rfl, read plain names, named, stands.mpr fun _ => by decide⟩

/-- The filter on the archive is one on the orders: its column stands under the alias of
their table, and the table of the archive goes by another. -/
theorem column_alias_of_other_table :
    ∃ composition,
      ((Operation.list .closed).compose .shop .mysql).1 = .ok composition ∧
      Query.closed.tables .shop = [⟨"Order", "shop_orders"⟩, ⟨"Archive", "Kept"⟩] ∧
      (Operation.list .closed).mentions .shop .mysql =
        [.column ⟨"Order", "Id"⟩ "shop_orders", .column ⟨"Order", "Archive"⟩ "shop_orders",
          .table "Order" "shop_orders", .table "Archive" "Kept",
          .column ⟨"Order", "Archive"⟩ "shop_orders", .column ⟨"Archive", "Id"⟩ "Kept",
          .column ⟨"Archive", "Closed"⟩ "shop_orders"] ∧
      composition.statement.sql =
        "SELECT shop_orders.`id` AS `Id`, shop_orders.`archive` AS `Archive` " ++
        "FROM `shop.orders` shop_orders " ++
        "INNER JOIN `shop_orders` Kept ON shop_orders.`archive` = Kept.`id` " ++
        "WHERE 1=1 AND shop_orders.`closed` = @Closed" ∧
      ¬ StandsFor (Query.closed.tables .shop) "shop_orders" "Archive" := by
  refine ⟨_, rfl, by decide, by decide, by decide +kernel, ?_⟩
  intro stands
  exact absurd stands.introduced (by decide)

end EntitySql
