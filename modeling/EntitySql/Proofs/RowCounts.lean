import EntitySql.Execution.Reader
import EntitySql.Proofs.RowQueryMeaning
import EntitySql.Proofs.Runs
import EntitySql.Proofs.Success
import EntitySql.Proofs.UpdatedRows

/-! Rows listed and rows counted. The number of rows, and whether there are any, is asked
of the tables and the conditions of a query alone. What the query lists can be fewer rows
than they pick, because rows are grouped, groups are dropped or repeats are left out, and
it can be one where they pick none. -/

namespace EntitySql

/-! What is asked of groups. -/

/-- Whether the value of a scalar is one that only a group has. -/
def Expr.aggregates : Expr → Bool
  | .aggregate .. | .bareAggregate _ => true
  | .arithmetic _ left right => left.aggregates || right.aggregates
  | .lambda _ inner => inner.aggregates
  | _ => false

def Expr.projectsAggregate (selector : Expr) : Bool :=
  match selector.body with
  | .record _ bindings => bindings.any (·.2.aggregates)
  | body => body.aggregates

/-- Whether the query shows or is ordered by anything that is asked of a group. -/
def Query.aggregates (query : Query) : Bool :=
  query.select.any Expr.projectsAggregate || query.order.any (·.expression.aggregates)

theorem any_of_mapM_eq_some {term? : α → Option γ} {flag : α → Bool} {shown : γ → Bool}
    (same : ∀ item term, term? item = some term → shown term = flag item) {items : List α}
    {terms : List γ} (found : items.mapM term? = some terms) : terms.any shown = items.any flag := by
  induction items generalizing terms with
  | nil =>
      cases found
      rfl
  | cons item items induction =>
      simp only [List.mapM_cons, Option.bind_eq_bind, Option.bind_eq_some_iff, Option.pure_def,
        Option.some.injEq] at found
      rcases found with ⟨first, head, rest, tail, rfl⟩
      rw [List.any_cons, List.any_cons, same item first head, induction tail]

theorem Expr.aggregates_of_term? {scope : Scope} :
    ∀ (expression : Expr) (term : Formula), expression.term? scope = some term →
      term.aggregates = expression.aggregates
  | .member path, term, found => by
      rcases Option.map_eq_some_iff.mp found with ⟨reference, -, rfl⟩
      rfl
  | .constant value, term, found => by
      cases found
      rfl
  | .arithmetic operator left right, term, found => by
      simp only [term?, Option.bind_eq_bind, Option.bind_eq_some_iff] at found
      rcases found with ⟨first, head, second, tail, result⟩
      cases result
      rw [Formula.aggregates, aggregates, aggregates_of_term? left first head,
        aggregates_of_term? right second tail]
  | .aggregate function operand, term, found => by
      rcases Option.map_eq_some_iff.mp found with ⟨argument, -, rfl⟩
      rfl
  | .bareAggregate .count, term, found => by
      cases found
      rfl
  | .lambda entity inner, term, found => by
      have innerFound : inner.term? scope = some term := found
      exact aggregates_of_term? inner term innerFound

theorem Expr.projectsAggregate_eq {scope : Scope} {selector : Expr} {items : List Formula}
    (found : selector.projectedTerms? scope = some items) :
    items.any Formula.aggregates = selector.projectsAggregate := by
  unfold projectedTerms? at found
  unfold projectsAggregate
  generalize selector.body = body at found
  split at found
  · exact any_of_mapM_eq_some (fun binding => aggregates_of_term? (Prod.snd binding)) found
  · rcases Option.map_eq_some_iff.mp found with ⟨term, told, rfl⟩
    simpa using aggregates_of_term? _ term told

theorem Catalog.aggregates_of_fieldTerms? {catalog : Catalog} {entity aliasName : String}
    {terms : List Formula} (found : catalog.fieldTerms? entity aliasName = some terms) :
    terms.any Formula.aggregates = false := by
  have columns : ∀ field term, catalog.fieldTerm? ⟨entity, Field.property field⟩ aliasName =
      some term → term.aggregates = false := by
    intro field term told
    rcases Option.map_eq_some_iff.mp told with ⟨name, -, rfl⟩
    rfl
  rw [any_of_mapM_eq_some columns found]
  simp

theorem Query.aggregates_of_itemTerms? {catalog : Catalog} {query : Query} {items : List Formula}
    (found : query.itemTerms? catalog = some items) :
    items.any Formula.aggregates = query.select.any Expr.projectsAggregate := by
  unfold itemTerms? at found
  cases shape : query.select with
  | some selector =>
      rw [shape] at found
      simpa using Expr.projectsAggregate_eq found
  | none =>
      simp only [shape, Option.bind_eq_bind, Option.bind_eq_some_iff, Option.pure_def,
        Option.some.injEq] at found
      rcases found with ⟨own, told, joined, others, rfl⟩
      have more : ∀ join terms, catalog.joinedTerms? join = some terms →
          terms.any Formula.aggregates = false := by
        intro join terms listed
        unfold Catalog.joinedTerms? at listed
        split at listed
        · exact Catalog.aggregates_of_fieldTerms? listed
        · cases listed
          rfl
      rw [List.any_append, Catalog.aggregates_of_fieldTerms? told, List.any_flatten,
        any_of_mapM_eq_some more others]
      simp

namespace RowQuery.Means

variable {rows : RowQuery} {catalog : Catalog} {query : Query} (means : rows.Means catalog query)

include means

theorem aggregates_eq :
    (rows.items ++ rows.order).any Formula.aggregates = query.aggregates := by
  have ordered := any_of_mapM_eq_some
    (fun item => Expr.aggregates_of_term? (SortKey.expression item)) means.order
  rw [List.any_append, Query.aggregates_of_itemTerms? means.items, ordered, Query.aggregates]

theorem groups_eq_nil (ungrouped : query.groups = []) : rows.groups = [] := by
  have found := means.groups
  rw [ungrouped] at found
  exact (Option.some.inj found).symm

theorem groups_ne_nil (grouped : query.groups ≠ []) : rows.groups ≠ [] :=
  ne_nil_of_mapM_eq_some means.groups grouped (List.forall₂_same.mpr fun _ _ => rfl)

/-- Rows are put into one group only for something that is asked of groups. -/
theorem oneGroup_eq_false (server : RowServer) (unasked : query.having = [])
    (apart : query.groups ≠ [] ∨ query.aggregates = false) : rows.oneGroup server = false := by
  rw [RowQuery.oneGroup, means.unasked unasked]
  rcases apart with grouped | single
  · have given := means.groups_ne_nil grouped
    simp [given]
  · rw [Option.toList_none, List.append_nil, means.aggregates_eq, single]
    simp

/-- Without keys, conditions on groups, aggregates and `DISTINCT`, each row is shown. -/
theorem showsEach (server : RowServer) (unasked : query.having = [])
    (ungrouped : query.groups = []) (single : query.aggregates = false)
    (unrepeated : query.distinct = false) (picked : List JoinedRow) :
    rows.ShowsEach server picked where
  groups := rows.groupsOf_of_ungrouped server (means.groups_eq_nil ungrouped)
    (means.unasked unasked) (means.aggregates_eq.trans single) picked
  keeps row _ := rows.keeps_of_unasked server (means.unasked unasked) [row]
  apart distinct := by
    rw [means.distinct, unrepeated] at distinct
    cases distinct

theorem rows_eq_picked (server : RowServer) (tables : String → List TableRow) :
    rows.source.rows server tables = rows.source.picked server tables :=
  RowSource.rows_of_uncapped server tables means.uncapped

end RowQuery.Means

/-! The number of rows on all pages. -/

/-- The first column of the first row, or null. -/
def firstValue (rows : List (List Value)) : Json :=
  ((rows.head?.bind List.head?).map Value.toJson).getD .null

/-- The executor answers with what the server makes of a query. -/
def Executor.Serves (executor : Executor σ) (dialect : Dialect) (server : RowServer)
    (tables : String → List TableRow) : Prop :=
  ∀ statement query state, dialect.rowQueryOf statement = some query →
    ((executor.scalar statement).run state).1 = .ok (firstValue (query.run server tables))

/-- A number of rows that fits into a word is read as it was told. -/
theorem readCount_ofInteger {count : Nat} (fits : count < UInt64.size) :
    readCount (Value.ofInteger count).toJson = .ok (UInt64.ofNat count) := by
  have unsigned : fitsUnsigned count = true := by
    simp only [fitsUnsigned, Bool.and_eq_true, decide_eq_true_eq]
    exact ⟨Int.natCast_nonneg count, Int.ofNat_lt.mpr fits⟩
  unfold Value.ofInteger
  split_ifs with signed
  · simp only [fitsSigned, Bool.and_eq_true, decide_eq_true_eq] at signed
    have whole : (Int64.ofInt count).toInt = count :=
      Int64.toInt_ofInt_of_le (by omega) (Int.lt_of_le_of_lt signed.2 (by decide))
    simp [Value.toJson, whole, readCount, unsigned]
  · have whole : (UInt64.ofNat count).toNat = count := UInt64.toNat_ofNat_of_lt' fits
    simp [Value.toJson, whole, readCount, unsigned]

namespace Reader

variable {reader : Reader σ} {session later : Session σ}

theorem exists_count_of_page {index size : UInt32} {page : Page Json}
    (run : (reader.page index size).runFrom session = (.ok page, later)) :
    ∃ before after, reader.count.runFrom before = (.ok page.total, after) := by
  simp only [Reader.page, Run.runFrom_bind_eq_ok] at run
  rcases run with ⟨statement, before, -, total, after, counted, rows, _, -, items, _, -, shown⟩
  cases shown
  exact ⟨before, after, counted⟩

/-- The number that comes out is the one that the executor answers the statement with. -/
theorem readCount_of_count {total : UInt64} {composition : Composition}
    (unchanged : ∀ statement, reader.database.hooks.executing statement = statement)
    (composed : ((Operation.count reader.query).compose reader.database.catalog
      reader.database.dialect).1 = .ok composition)
    (run : reader.count.runFrom session = (.ok total, later)) :
    ∃ state result, ((reader.database.executor.scalar composition.statement).run state).1 =
      .ok result ∧ readCount result = .ok total := by
  simp only [Reader.count, Database.scalar, Database.call, Run.runFrom_bind_eq_ok,
    Database.runFrom_statement, Run.runFrom_record, Run.runFrom_perform, Run.runFrom_lift,
    unchanged, composed, Prod.mk.injEq] at run
  rcases run with ⟨statement, _, ⟨built, -⟩, result, _, ⟨_, called, -, answer, _, ⟨answered, -⟩,
    _, _, -, told, -⟩, read, -⟩
  cases built
  exact ⟨called.state, result, (Except.ok.inj answered).trans told, read⟩

variable (reader) in
/-- Where the executor answers with the number of some rows, a page has that total. -/
theorem total_of_page {dialect : Dialect} {composition : Composition} {counted : RowQuery}
    {server : RowServer} {tables : String → List TableRow} {count : Nat}
    (unchanged : ∀ statement, reader.database.hooks.executing statement = statement)
    (composed : ((Operation.count reader.query).compose reader.database.catalog
      reader.database.dialect).1 = .ok composition)
    (read : dialect.rowQueryOf composition.statement = some counted)
    (told : counted.run server tables = [[.ofInteger count]])
    (serves : reader.database.executor.Serves dialect server tables) (fits : count < UInt64.size)
    {index size : UInt32} {page : Page Json}
    (run : (reader.page index size).runFrom session = (.ok page, later)) :
    page.total.toNat = count := by
  rcases exists_count_of_page run with ⟨before, after, counting⟩
  rcases readCount_of_count unchanged composed counting with ⟨state, result, answered, number⟩
  have answer := (serves _ _ state read).symm.trans answered
  rw [told] at answer
  cases answer
  have same := (readCount_ofInteger fits).symm.trans number
  rw [← Except.ok.inj same]
  exact UInt64.toNat_ofNat_of_lt' fits

end Reader

/-! Lists, numbers of rows and looking for any. -/

/-- How what a query lists stands to the number of its rows and to whether there are any,
which two other queries ask for. -/
structure RowQuery.Tallies (rows counting probing : RowQuery) (query : Query)
    (server : RowServer) (tables : String → List TableRow) : Prop where
  counted : counting.run server tables = [[.ofInteger (rows.source.picked server tables).length]]
  probed : probing.run server tables = [] ↔ rows.source.picked server tables = []
  /-- Nothing is listed just where no group is kept. -/
  listed : rows.run server tables = [] ↔
    ∀ group ∈ rows.groupsOf server (rows.source.picked server tables),
      rows.keeps server group = false
  /-- The number is right just where each row that is picked is shown. -/
  exact : rows.source.picked server tables ≠ [] →
    ((rows.run server tables).length = (rows.source.picked server tables).length ↔
      rows.ShowsEach server (rows.source.picked server tables))
  /-- Looking for any row is right without conditions on groups, unless no rows at all
  make a group. -/
  some : query.having = [] → query.groups ≠ [] ∨ query.aggregates = false →
    (probing.run server tables = [] ↔ rows.run server tables = [])
  all : query.having = [] → query.groups = [] → query.aggregates = false →
    query.distinct = false →
    counting.run server tables = [[.ofInteger (rows.run server tables).length]]

theorem RowQuery.Means.tallies {rows : RowQuery} {catalog : Catalog} {query : Query}
    (means : rows.Means catalog query) {counted probed : RowSource}
    (same : counted.Means catalog query) (uncapped : counted.cap? = none)
    (alike : probed.Means catalog query) (open' : probed.cap? ≠ some 0) {limit? : Option Nat}
    (some' : limit? ≠ some 0) (server : RowServer) (tables : String → List TableRow) :
    rows.Tallies (.counting counted) (.probing probed limit?) query server tables := by
  have picked := means.rows_eq_picked server tables
  have number : (RowQuery.counting counted).run server tables =
      [[.ofInteger (rows.source.picked server tables).length]] := by
    rw [run_counting, RowSource.rows_of_uncapped server tables uncapped,
      same.picked_eq server means.source tables]
  have probe : (RowQuery.probing probed limit?).run server tables = [] ↔
      rows.source.picked server tables = [] := by
    rw [run_probing_eq_nil_iff probed some', RowSource.rows_eq_nil_iff server tables open',
      alike.picked_eq server means.source tables]
  refine ⟨number, probe, ?_, ?_, ?_, ?_⟩
  · rw [run_eq_nil_iff means.unlimited, picked]
  · rw [← picked]
    exact length_run_eq_iff means.unlimited
  · intro unasked apart
    rw [probe, run_eq_nil_iff_of_unasked means.unlimited (means.unasked unasked)
      (means.oneGroup_eq_false server unasked apart), picked]
  · intro unasked ungrouped single unrepeated
    have shows := means.showsEach server unasked ungrouped single unrepeated
    rw [number, ← picked, (shows _).length_run_eq means.unlimited]

theorem Dialect.rowQueryOf_text (dialect : Dialect) {fragment : Fragment} (legible : fragment.Legible)
    (params : Params) :
    dialect.rowQueryOf ⟨fragment.text dialect.lexical, params⟩ =
      readRowQuery params fragment.squeezed := by
  rw [rowQueryOf, dialect.readTokens_text legible]
  rfl

theorem Operation.rowQueryOf_of_runFrom (operation : Operation) {catalog : Catalog}
    {dialect : Dialect} (plain : catalog.PlainProperties) (names : operation.query.PlainNames)
    {built : Built} {later : Draft}
    (run : (operation.build catalog dialect).runFrom {} = (.ok built, later))
    {query : RowQuery} (reads : query.Reads later.params built.sql.squeezed) :
    dialect.rowQueryOf ⟨built.sql.text dialect.lexical, later.params⟩ = some query := by
  rw [dialect.rowQueryOf_text (sound_build plain names run).1]
  exact readRowQuery_complete reads

/-- Where a query can list its rows, it can count them and look for any. -/
theorem Query.succeeds_of_buildList {catalog : Catalog} {dialect : Dialect} {query : Query}
    {draft later : Draft} {built : Built}
    (run : (query.buildList catalog dialect).runFrom draft = (.ok built, later)) :
    ((Operation.count query).build catalog dialect).Succeeds ∧
      ((Operation.any query).build catalog dialect).Succeeds := by
  simp only [buildList, Build.runFrom_bind_eq_ok] at run
  rcases run with ⟨clauses, last, inner, -⟩
  have headed := ScalarClauses.succeeds_of_words inner
  refine ⟨(headed _).bind fun _ => Build.succeeds_pure _, (headed _).bind fun _ => ?_⟩
  cases dialect <;> exact Build.succeeds_pure _

/-- Where a query without a cap lists its rows, its number of rows and whether there are
any are asked of the same source of rows. They agree with the list where each row that is
picked is shown; the number of rows on all pages is that of the rows that are picked. -/
theorem listed_rows_counted (database : Database σ) (query : Query)
    (plain : database.catalog.PlainProperties) (names : query.PlainNames)
    (whole : query.top = none) {listing : Composition}
    (composed : ((Operation.list query).compose database.catalog database.dialect).1 =
      .ok listing) :
    ∃ (counting probing : Composition) (rows counted probed : RowQuery),
      ((Operation.count query).compose database.catalog database.dialect).1 = .ok counting ∧
      ((Operation.any query).compose database.catalog database.dialect).1 = .ok probing ∧
      database.dialect.rowQueryOf listing.statement = some rows ∧
      database.dialect.rowQueryOf counting.statement = some counted ∧
      database.dialect.rowQueryOf probing.statement = some probed ∧
      rows.Means database.catalog query ∧
      ∀ (server : RowServer) (tables : String → List TableRow),
        rows.Tallies counted probed query server tables ∧
        ((∀ statement, database.hooks.executing statement = statement) →
          database.executor.Serves database.dialect server tables →
          (rows.source.picked server tables).length < UInt64.size →
          ∀ (index size : UInt32) (session later : Session σ) (page : Page Json),
            ((Reader.mk database query).page index size).runFrom session = (.ok page, later) →
            page.total.toNat = (rows.source.picked server tables).length) := by
  rcases Operation.exists_run_of_compose composed with ⟨built, draft, run, listed⟩
  rcases (Query.succeeds_of_buildList run).1 {} with ⟨total, totalDraft, totalRun⟩
  rcases (Query.succeeds_of_buildList run).2 {} with ⟨probe, probeDraft, probeRun⟩
  rcases Query.reads_buildList plain names whole run with ⟨rows, means, reads⟩
  rcases Query.reads_buildCount plain names totalRun with ⟨source, same, uncapped, countReads⟩
  rcases Query.reads_buildAny plain names probeRun with
    ⟨probed, limit?, alike, open', some', probeReads⟩
  have countComposed : ((Operation.count query).compose database.catalog database.dialect).1 =
      .ok ⟨⟨total.sql.text database.dialect.lexical, totalDraft.params⟩, total.joins⟩ :=
    (Operation.count query).compose_of_runFrom database.dialect totalRun
  have countRead := (Operation.count query).rowQueryOf_of_runFrom plain names totalRun countReads
  refine ⟨_, _, rows, _, _, countComposed,
    (Operation.any query).compose_of_runFrom database.dialect probeRun,
    listed ▸ (Operation.list query).rowQueryOf_of_runFrom plain names run reads, countRead,
    (Operation.any query).rowQueryOf_of_runFrom plain names probeRun probeReads, means, ?_⟩
  intro server tables
  have tallies := means.tallies same uncapped alike open' some' server tables
  exact ⟨tallies, fun unchanged serves fits _ _ _ _ _ =>
    Reader.total_of_page ⟨database, query⟩ unchanged countComposed countRead tallies.counted serves fits⟩

/-! People of three ages. -/

/-- A server that compares whole numbers and takes values for one that are the same. -/
def RowServer.wholeNumbers : RowServer :=
  { engine := Server.wholeNumbers.engine
    fold := fun _ _ => .null
    stray := fun _ _ _ => .null
    same := fun left right => left = right
    havingGroups := true }

def TableRow.ages (_ : String) : List TableRow :=
  [.person 17, .person 17, .person 40]

/-- Answers with what a server makes of a query, and with no rows on whatever page. -/
def Executor.serving (dialect : Dialect) (server : RowServer)
    (tables : String → List TableRow) : Executor Unit where
  query _ := return .ok []
  scalar statement :=
    return .ok (match dialect.rowQueryOf statement with
      | some query => firstValue (query.run server tables)
      | none => .null)
  execute _ := return .ok 0

theorem Executor.serves_serving (dialect : Dialect) (server : RowServer)
    (tables : String → List TableRow) :
    (Executor.serving dialect server tables).Serves dialect server tables := by
  intro statement query state read
  simp only [serving, read]
  rfl

def Database.served : Database Unit :=
  { executor := .serving .oracle .wholeNumbers TableRow.ages
    catalog := .people
    dialect := .oracle }

def RowQuery.minors : RowQuery :=
  { items :=
      [.column ⟨some "people", "id"⟩, .column ⟨some "people", "full]name"⟩,
        .column ⟨some "people", "Age"⟩]
    source :=
      { first := ⟨"people", "people"⟩
        joins := []
        condition := .logical .and (.comparison .equal (.constant (.int 1)) (.constant (.int 1)))
          (.comparison .less (.column ⟨some "people", "Age"⟩) (.constant (.int 18))) } }

/-- Two people are under age; the page behind them has no items and tells their number. -/
theorem listed_rows_counted_minors :
    ∃ (listing counting : Composition) (rows counted : RowQuery) (page : Page Json)
        (later : Session Unit),
      ((Operation.list .minors).compose .people .oracle).1 = .ok listing ∧
      ((Operation.count .minors).compose .people .oracle).1 = .ok counting ∧
      Dialect.oracle.rowQueryOf listing.statement = some rows ∧
      Dialect.oracle.rowQueryOf counting.statement = some counted ∧
      (rows.run .wholeNumbers TableRow.ages).length = 2 ∧
      counted.run .wholeNumbers TableRow.ages = [[.int 2]] ∧
      ((Reader.mk .served .minors).page 2 5).runFrom ⟨(), []⟩ = (.ok page, later) ∧
      page.total.toNat = 2 := by
  have names : Query.minors.PlainNames := ⟨by decide, by simp [Query.minors]⟩
  rcases listed_rows_counted .served .minors plainProperties_people names rfl rfl with
    ⟨counting, probing, rows, counted, probed, countComposed, -, read, countRead, -, -, told⟩
  rcases told .wholeNumbers TableRow.ages with ⟨tallies, total⟩
  have same : rows = .minors := Option.some.inj (read.symm.trans (by decide +kernel))
  subst same
  have listed : (RowQuery.minors.run .wholeNumbers TableRow.ages).length = 2 := by decide
  have number := tallies.all rfl rfl (by decide) rfl
  rw [listed] at number
  have paged : (((Reader.mk .served .minors).page 2 5).runFrom ⟨(), []⟩).1.toOption.isSome =
      true := by
    decide +kernel
  have succeeds : ∀ outcome : Except Error (Page Json) × Session Unit,
      outcome.1.toOption.isSome = true → ∃ page later, outcome = (.ok page, later) := by
    rintro ⟨_ | page, later⟩ given
    · cases given
    · exact ⟨page, later, rfl⟩
  rcases succeeds _ paged with ⟨page, later, run⟩
  have pageTotal := total (fun _ => rfl) (Executor.serves_serving _ _ _) (by decide) 2 5 _ _ _ run
  exact ⟨_, counting, _, counted, page, later, rfl, countComposed, read, countRead, listed,
    number, run, pageTotal⟩

/-- The ages of more than two people each. -/
def Query.crowded : Query :=
  { entity := "Person"
    select := some (.column "Person" "Age")
    groups := [.column "Person" "Age"]
    having := [.comparison .less (.constant (.int 2)) (.bareAggregate .count)] }

def RowSource.people : RowSource :=
  { first := ⟨"people", "people"⟩
    joins := []
    condition := .comparison .equal (.constant (.int 1)) (.constant (.int 1)) }

def RowQuery.crowded : RowQuery :=
  { items := [.column ⟨some "people", "Age"⟩]
    source := .people
    groups := [.column ⟨some "people", "Age"⟩]
    having? := some (.comparison .less (.constant (.int 2))
      (.aggregate .count (.constant (.int 1)))) }

/-- No age is listed, and yet three are counted and some are there. -/
theorem dropped_rows_counted :
    ∃ listing counting probing : Composition,
      ((Operation.list .crowded).compose .people .sqlServer).1 = .ok listing ∧
      ((Operation.count .crowded).compose .people .sqlServer).1 = .ok counting ∧
      ((Operation.any .crowded).compose .people .sqlServer).1 = .ok probing ∧
      Dialect.sqlServer.rowQueryOf listing.statement = some .crowded ∧
      Dialect.sqlServer.rowQueryOf counting.statement = some (.counting .people) ∧
      Dialect.sqlServer.rowQueryOf probing.statement = some (.probing .people (some 1)) ∧
      RowQuery.crowded.run .wholeNumbers TableRow.ages = [] ∧
      (RowQuery.counting .people).run .wholeNumbers TableRow.ages = [[.int 3]] ∧
      (RowQuery.probing .people (some 1)).run .wholeNumbers TableRow.ages = [[.int 1]] := by
  refine ⟨_, _, _, rfl, rfl, rfl, by decide +kernel, by decide +kernel, by cbv, ?_, ?_, ?_⟩
  all_goals decide

end EntitySql
