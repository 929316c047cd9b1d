import EntitySql.Proofs.OrderStarts
import EntitySql.Proofs.Pages
import EntitySql.Proofs.RowCounts

/-! The order that SQL Server pages by where a query asks for none. It is that of the key if
the rows show the key, as far as grouping, `DISTINCT` and the projection are looked at; what
else takes the key from the rows is not. -/

namespace EntitySql

/-- An order by the key columns of an entity, under its alias. -/
def Entity.OrdersByKey (entity : Entity) (order : Fragment) : Prop :=
  ∃ columns, List.Forall₂ (fun column key => ∃ name, entity.column key = .ok name ∧
      column = [Token.word entity.aliasName, .symbol .dot, .identifier name]) columns entity.keys ∧
    order = Fragment.words ["ORDER", "BY"] ++ .space :: Fragment.commaSeparated columns

/-- Nothing that is looked at takes the key from the rows of the query. -/
structure Query.PagesByKey (query : Query) (entity : Entity) : Prop where
  ungrouped : query.groups = []
  unrepeated : ¬ (query.distinct = true ∧ query.select.isSome = true)
  keyed : entity.keys ≠ []

/-- The rows of the query are rows of its tables, with the key among their columns. -/
structure Query.ShowsKey (query : Query) (entity : Entity) : Prop
    extends query.PagesByKey entity where
  unpicked : query.having = []
  single : query.select.any Expr.projectsAggregate = false

namespace Fragment

theorem spaced_concat_nil (fragments : List Fragment) :
    spaced (fragments ++ [[]]) = spaced fragments := by
  simp [spaced]

theorem spaced_concat {fragments : List Fragment} {first last : Fragment}
    (head : first ≠ []) (given : last ≠ []) :
    spaced (first :: fragments ++ [last]) = spaced (first :: fragments) ++ .space :: last := by
  have kept : (first :: fragments ++ [last]).filter (!·.isEmpty) =
      first :: (fragments.filter (!·.isEmpty) ++ [last]) := by
    simp [head, given]
  have shown : (first :: fragments).filter (!·.isEmpty) =
      first :: fragments.filter (!·.isEmpty) := by
    simp [head]
  rw [spaced, spaced, kept, shown, intercalate_cons_eq, intercalate_cons_eq]
  simp

end Fragment

/-! Orders. -/

theorem orderStarts_order {keys : List Token} (columns : Unordered keys) (rest : List Token) :
    orderStarts (.word "ORDER" :: .word "BY" :: keys ++ rest) = 1 + orderStarts rest := by
  have inner := columns.cons (by decide : startsWord "ORDER" [.word "BY"] = false)
  have starts : (startsWord "ORDER" [.word "ORDER"] &&
      startsWord "BY" (.word "BY" :: (keys ++ rest))) = true := by
    simp only [startsWord]
    decide
  have behind := inner rest
  rw [List.cons_append] at behind ⊢
  rw [orderStarts, List.cons_append, if_pos starts, behind]

namespace SelectClauses

variable {clauses ordered : SelectClauses}

/-- An order goes behind the other clauses. -/
theorem sql_ordered (unordered : clauses.ordering = []) {order : Fragment} (given : order ≠ []) :
    sql { clauses with ordering := order } = clauses.sql ++ .space :: order := by
  let others : List Fragment := [clauses.source, clauses.joined, clauses.conditions,
    clauses.grouping, clauses.having]
  have head : clauses.keyword ++ .space :: clauses.columns ≠ [] := by simp
  have without : clauses.sql =
      Fragment.spaced ((clauses.keyword ++ .space :: clauses.columns) :: others) := by
    rw [sql, unordered]
    exact Fragment.spaced_concat_nil (_ :: others)
  rw [without, ← Fragment.spaced_concat head given]
  rfl

theorem orderStarts_keyOrder {catalog : Catalog} {entity : Entity} {order : Fragment}
    (keyed : keyOrder (.aliased catalog) entity = .ok order) :
    entity.OrdersByKey order ∧
      ∀ rest, orderStarts (order.squeezed ++ rest) = 1 + orderStarts rest := by
  rcases bind_eq_ok.mp keyed with ⟨columns, each, shown⟩
  cases shown
  have listed := forall₂_of_mapM_eq_ok each
  refine ⟨⟨columns, ?_, rfl⟩, ?_⟩
  · refine listed.imp fun column key found => ?_
    rcases Scope.columnUnder_eq_ok.mp found with ⟨name, mapped, rfl⟩
    exact ⟨name, mapped, rfl⟩
  · have keys : Unordered (Fragment.commaSeparated columns).squeezed := by
      apply Unordered.commaSeparated
      intro column member
      rcases exists_mem_of_forall₂ listed column member with ⟨key, -, found⟩
      exact Scope.unordered_columnUnder found
    simpa [Fragment.words] using orderStarts_order keys

theorem orderStarts_noOrder (rest : List Token) :
    orderStarts (noOrder.squeezed ++ rest) = 1 + orderStarts rest := by
  have nothing : Unordered
      [.symbol .openParen, .word "SELECT", .word "NULL", .symbol .closeParen] :=
    ((((Unordered.single rfl).cons (by decide)).cons (by decide)).cons rfl)
  exact orderStarts_order nothing rest

/-- The order that nothing asks for is no order by a key. -/
theorem not_ordersByKey_noOrder (entity : Entity) : ¬ entity.OrdersByKey noOrder := by
  rintro ⟨columns, each, same⟩
  have behind := List.append_cancel_left same
  clear same
  generalize entity.keys = keys at each
  cases each with
  | nil => exact absurd behind (by decide)
  | @cons column key columns keys first rest =>
      rcases first with ⟨name, -, rfl⟩
      rw [Fragment.commaSeparated, Fragment.intercalate_cons_eq] at behind
      cases behind

theorem showsKey_iff {query : Query} {entity : Entity} :
    showsKey query entity = true ↔ query.PagesByKey entity := by
  have looked : showsKey query entity = true ↔ query.groups = [] ∧
      ¬ (query.distinct = true ∧ query.select.isSome = true) ∧ entity.keys ≠ [] := by
    cases repeated : query.distinct <;> simp [showsKey, repeated] <;> tauto
  rw [looked]
  constructor
  · rintro ⟨ungrouped, unrepeated, keyed⟩
    exact ⟨ungrouped, unrepeated, keyed⟩
  · rintro ⟨ungrouped, unrepeated, keyed⟩
    exact ⟨ungrouped, unrepeated, keyed⟩

/-- The order that a page goes by where none is asked for, between the clauses and what cuts
the page out. -/
theorem withDefaultOrder_of_unordered {catalog : Catalog} {query : Query}
    (unordered : clauses.ordering = [])
    (found : clauses.withDefaultOrder (.aliased catalog) query = .ok ordered) :
    ∃ order : Fragment,
      ordered.sql = clauses.sql ++ .space :: order ∧
      ordered.joins = clauses.joins ∧
      (∀ rest, orderStarts (order.squeezed ++ rest) = 1 + orderStarts rest) ∧
      (query.PagesByKey clauses.entity ∧ clauses.entity.OrdersByKey order ∨
        ¬ query.PagesByKey clauses.entity ∧ order = noOrder) := by
  have unasked : ¬ (!clauses.ordering.isEmpty) = true := by simp [unordered]
  rw [withDefaultOrder, if_neg unasked] at found
  split at found
  · next shown =>
      rcases bind_eq_ok.mp found with ⟨order, keyed, equal⟩
      cases equal
      rcases orderStarts_keyOrder keyed with ⟨byKey, starts⟩
      have given : order ≠ [] := by
        rcases byKey with ⟨columns, -, rfl⟩
        simp [Fragment.words]
      exact ⟨order, sql_ordered unordered given, rfl, starts,
        .inl ⟨showsKey_iff.mp shown, byKey⟩⟩
  · next hidden =>
      cases found
      exact ⟨noOrder, sql_ordered unordered (by decide), rfl, orderStarts_noOrder,
        .inr ⟨fun pages => hidden (showsKey_iff.mpr pages), rfl⟩⟩

end SelectClauses

/-- What cuts a page out of the rows starts no order. -/
theorem Fragment.unordered_offsetFetch (rows : RowRange) :
    Unordered (Fragment.squeezed (offsetFetch [] rows)) := by
  have last : Unordered [.word "ROWS", .word "ONLY"] :=
    (Unordered.single (by decide)).cons (by decide)
  have sized : Unordered [.word rows.size.toNat.repr, .word "ROWS", .word "ONLY"] :=
    last.cons_apart _ fun _ => (by decide : sameIgnoringCase "BY" "ROWS" = false)
  have fetched : Unordered [.word "ROWS", .word "FETCH", .word "NEXT",
      .word rows.size.toNat.repr, .word "ROWS", .word "ONLY"] :=
    ((sized.cons (by decide)).cons (by decide)).cons (by decide)
  have skipped : Unordered [.word rows.skip.toNat.repr, .word "ROWS", .word "FETCH",
      .word "NEXT", .word rows.size.toNat.repr, .word "ROWS", .word "ONLY"] :=
    fetched.cons_apart _ fun _ => (by decide : sameIgnoringCase "BY" "ROWS" = false)
  simpa [offsetFetch, words, number] using
    skipped.cons (by decide : startsWord "ORDER" [.word "OFFSET"] = false)

theorem Query.showsKey_iff {query : Query} {entity : Entity} :
    query.ShowsKey entity ↔ query.PagesByKey entity ∧
      query.having = [] ∧ query.select.any Expr.projectsAggregate = false := by
  constructor
  · rintro ⟨pages, unpicked, single⟩
    exact ⟨pages, unpicked, single⟩
  · rintro ⟨pages, unpicked, single⟩
    exact ⟨pages, unpicked, single⟩

/-- A page of a query that asks for no order: the statement for all rows, one order behind it
and what cuts the page out. -/
theorem Query.ordered_of_buildPage {catalog : Catalog} {query : Query} {index size : UInt32}
    (unordered : query.order = []) {built : Built} {later : Draft}
    (run : (query.buildPage catalog .sqlServer index size).runFrom {} = (.ok built, later)) :
    ∃ (entity : Entity) (rows : RowRange) (listing order : Fragment),
      catalog.entity query.entity = .ok entity ∧
      RowRange.ofPage index size = .ok rows ∧
      (query.uncapped.buildList catalog .sqlServer).runFrom {} =
        (.ok { sql := listing, joins := built.joins }, later) ∧
      built.sql = (listing ++ .space :: order).offsetFetch rows ∧
      orderStarts built.sql.squeezed = 1 ∧
      (query.PagesByKey entity ∧ entity.OrdersByKey order ∨
        ¬ query.PagesByKey entity ∧ order = SelectClauses.noOrder) := by
  simp only [buildPage, Build.runFrom_bind_eq_ok, Build.runFrom_lift_eq_ok,
    Build.runFrom_pure_eq_ok] at run
  rcases run with ⟨rows, _, ⟨found, rfl⟩, clauses, _, inner, ordered, _, ⟨default, rfl⟩, rfl,
    same⟩
  cases same
  rcases SelectClauses.unordered_sql unordered inner with ⟨unasked, silent⟩
  rcases SelectClauses.withDefaultOrder_of_unordered unasked default with
    ⟨order, whole, joins, starts, shape⟩
  have accepted : catalog.entity query.entity = .ok clauses.entity := by
    cases SelectClauses.run_of_build inner
    assumption
  refine ⟨clauses.entity, rows, clauses.sql, order, accepted, found, ?_, ?_, ?_, shape⟩
  · simp only [buildList, Build.runFrom_bind_eq_ok, Build.runFrom_pure_eq_ok]
    exact ⟨clauses, _, inner, by rw [joins], rfl⟩
  · rw [whole]
  · have tail : (ordered.sql.offsetFetch rows).squeezed =
        clauses.sql.squeezed ++ (order.squeezed ++ Fragment.squeezed (.offsetFetch [] rows)) := by
      simp [whole, Fragment.offsetFetch]
    have cut := Fragment.unordered_offsetFetch rows []
    rw [List.append_nil] at cut
    change orderStarts (ordered.sql.offsetFetch rows).squeezed = 1
    rw [tail, silent, starts, cut]
    rfl

/-- A page of a query that asks for no order has one, right before the page is cut out: that of
the key, unless the query groups, is `DISTINCT` with a projection, or is of an entity without
a key; then it is an order by nothing. The rows show the key that they are ordered by exactly
where, besides, no groups are picked and no aggregate is projected. -/
theorem default_page_order_iff (catalog : Catalog) (query : Query) (index size : UInt32)
    (unordered : query.order = []) {composition : Composition}
    (composed : ((Operation.page query index size).compose catalog .sqlServer).1 =
      .ok composition) :
    ∃ (entity : Entity) (rows : RowRange) (listing order : Fragment),
      catalog.entity query.entity = .ok entity ∧
      RowRange.ofPage index size = .ok rows ∧
      ((Operation.list query.uncapped).compose catalog .sqlServer).1 =
        .ok ⟨⟨listing.text Dialect.sqlServer.lexical, composition.statement.params⟩,
          composition.joins⟩ ∧
      composition.statement.sql =
        Fragment.text Dialect.sqlServer.lexical ((listing ++ .space :: order).offsetFetch rows) ∧
      (catalog.PlainProperties → query.PlainNames →
        Dialect.sqlServer.readTokens composition.statement.sql =
          some ((listing ++ .space :: order).offsetFetch rows)) ∧
      orderStarts (Fragment.squeezed ((listing ++ .space :: order).offsetFetch rows)) = 1 ∧
      (entity.OrdersByKey order ↔ query.PagesByKey entity) ∧
      (¬ entity.OrdersByKey order → order = SelectClauses.noOrder) ∧
      ((entity.OrdersByKey order → query.ShowsKey entity) ↔
        (query.PagesByKey entity →
          query.having = [] ∧ query.select.any Expr.projectsAggregate = false)) := by
  rcases Operation.exists_run_of_compose composed with ⟨built, later, run, -⟩
  cases ((Operation.page query index size).compose_of_runFrom .sqlServer run).symm.trans composed
  rcases Query.ordered_of_buildPage unordered run with
    ⟨entity, rows, listing, order, accepted, found, listed, whole, starts, shape⟩
  have byKey : entity.OrdersByKey order ↔ query.PagesByKey entity := by
    rcases shape with ⟨pages, byKey⟩ | ⟨hidden, rfl⟩
    · exact iff_of_true byKey pages
    · exact iff_of_false (SelectClauses.not_ordersByKey_noOrder entity) hidden
  refine ⟨entity, rows, listing, order, accepted, found, ?_, ?_, ?_, ?_, byKey, ?_, ?_⟩
  · exact (Operation.list query.uncapped).compose_of_runFrom .sqlServer listed
  · rw [← whole]
  · intro plain names
    rw [← whole]
    have sound : (Operation.page query index size).Sound catalog .sqlServer built.sql
        later.params := by
      apply sound_build plain _ run
      exact names
    exact Dialect.sqlServer.readTokens_text sound.1
  · rw [← whole]
    exact starts
  · intro other
    rcases shape with ⟨-, byKey⟩ | ⟨-, rfl⟩
    · exact absurd byKey other
    · rfl
  · rw [Query.showsKey_iff, byKey]
    exact forall_congr' fun pages => and_iff_right pages

/-- The second page of a query for whole rows goes by their key. -/
theorem default_page_order_iff_minors :
    ∃ (composition : Composition) (entity : Entity) (rows : RowRange) (listing order : Fragment),
      ((Operation.page .minors 2 5).compose .people .sqlServer).1 = .ok composition ∧
      Catalog.people.entity "Person" = .ok entity ∧
      RowRange.ofPage 2 5 = .ok rows ∧
      Dialect.sqlServer.readTokens composition.statement.sql =
        some ((listing ++ .space :: order).offsetFetch rows) ∧
      orderStarts (Fragment.squeezed ((listing ++ .space :: order).offsetFetch rows)) = 1 ∧
      entity.OrdersByKey order ∧ Query.minors.ShowsKey entity := by
  rcases default_page_order_iff .people .minors 2 5 rfl rfl with
    ⟨entity, rows, listing, order, accepted, found, -, -, reads, starts, byKey, -, shows⟩
  have keyed : entity.OrdersByKey order := by
    refine byKey.mpr ⟨rfl, by decide, ?_⟩
    cases accepted
    decide
  exact ⟨_, entity, rows, listing, order, rfl, accepted, found,
    reads plainProperties_people ⟨by simp [Query.minors], by simp [Query.minors]⟩, starts, keyed,
    shows.mpr (fun _ => ⟨rfl, rfl⟩) keyed⟩

/-- The number of people, and the one group that all of them are, on a page. -/
def Query.numberOfPeople : Query :=
  { entity := "Person", select := some (.bareAggregate .count) }

def Query.manyPeople : Query :=
  { entity := "Person"
    having := [.comparison .greater (.bareAggregate .count) (.constant (.int 2))] }

/-- Neither has the key that it is ordered by. -/
theorem default_page_order_hidden_key :
    (∃ composition,
      ((Operation.page .numberOfPeople 1 10).compose .people .sqlServer).1 = .ok composition ∧
      composition.statement.sql =
        "SELECT COUNT(1) FROM [people] people WHERE 1=1 " ++
          "ORDER BY people.[id] OFFSET 0 ROWS FETCH NEXT 10 ROWS ONLY") ∧
    (∃ composition,
      ((Operation.page .manyPeople 1 10).compose .people .sqlServer).1 = .ok composition ∧
      composition.statement.sql =
        "SELECT people.[id] AS [Id], people.[full]]name] AS [Name], people.[Age] " ++
          "FROM [people] people WHERE 1=1 HAVING COUNT(1) > @param " ++
          "ORDER BY people.[id] OFFSET 0 ROWS FETCH NEXT 10 ROWS ONLY") ∧
    ∀ entity, ¬ Query.numberOfPeople.ShowsKey entity ∧ ¬ Query.manyPeople.ShowsKey entity := by
  refine ⟨⟨_, rfl, by decide +kernel⟩, ⟨_, rfl, by decide +kernel⟩, fun entity => ⟨?_, ?_⟩⟩
  · intro shows
    exact absurd shows.single (by decide)
  · intro shows
    cases shows.unpicked

end EntitySql
