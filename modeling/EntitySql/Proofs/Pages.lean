import EntitySql.Proofs.RowCaps

/-! Pages. Whatever the dialect, a read that is capped keeps one and the same part of the
rows that it has without the cap, and the pages of one size are the rows cut into pieces. -/

namespace EntitySql

/-! Bounds of a page. -/

/-- The bounds are the numbers that they stand for: no operation on words of the machine
leaves their range. -/
structure RowRange.Exact (range : RowRange) (number rows : Nat) : Prop where
  skip : range.skip.toNat = (number - 1) * rows
  first : range.first.toNat = (number - 1) * rows + 1
  last : range.last.toNat = (number - 1) * rows + rows
  size : range.size.toNat = rows
  fits : (number - 1) * rows + rows < UInt64.size

theorem page_end_lt (index size : UInt32) :
    (index.toNat - 1) * size.toNat + size.toNat < UInt64.size := by
  have indexFits : index.toNat - 1 ≤ 2 ^ 32 - 2 := by
    have bound := index.toNat_lt
    omega
  have sizeFits : size.toNat ≤ 2 ^ 32 - 1 := Nat.le_sub_one_of_lt size.toNat_lt
  calc (index.toNat - 1) * size.toNat + size.toNat
      ≤ (2 ^ 32 - 2) * (2 ^ 32 - 1) + (2 ^ 32 - 1) :=
        Nat.add_le_add (Nat.mul_le_mul indexFits sizeFits) sizeFits
    _ < UInt64.size := by decide

theorem RowRange.exists_ofPage {index size : UInt32} (numbered : 1 ≤ index.toNat)
    (given : 1 ≤ size.toNat) :
    ∃ range, ofPage index size = .ok range ∧ range.Exact index.toNat size.toNat := by
  have fits := page_end_lt index size
  have proper : ¬ (index < 1 || size < 1) = true := by
    simp only [Bool.or_eq_true, decide_eq_true_eq, UInt32.lt_iff_toNat_lt, UInt32.toNat_one]
    omega
  have before : (index.toUInt64 - 1).toNat = index.toNat - 1 := by
    rw [UInt64.toNat_sub_of_le _ _ (by rw [UInt64.le_iff_toNat_le]; simpa using numbered)]
    rfl
  have skip : ((index.toUInt64 - 1) * size.toUInt64).toNat = (index.toNat - 1) * size.toNat := by
    rw [UInt64.toNat_mul, before, UInt32.toNat_toUInt64]
    exact Nat.mod_eq_of_lt (Nat.lt_of_le_of_lt (Nat.le_add_right _ _) fits)
  refine ⟨_, if_neg proper, skip, ?_, ?_, UInt32.toNat_toUInt64 size, fits⟩
  · rw [UInt64.toNat_add, skip]
    exact Nat.mod_eq_of_lt (by change _ + 1 < UInt64.size; omega)
  · rw [UInt64.toNat_add, skip, UInt32.toNat_toUInt64]
    exact Nat.mod_eq_of_lt fits

/-- A page without a number or without rows is refused. -/
theorem RowRange.numbered_of_ofPage {index size : UInt32} {range : RowRange}
    (found : ofPage index size = .ok range) : 1 ≤ index.toNat ∧ 1 ≤ size.toNat := by
  unfold ofPage at found
  split at found
  · cases found
  · next proper =>
      simp only [Bool.or_eq_true, decide_eq_true_eq, UInt32.lt_iff_toNat_lt,
        UInt32.toNat_one] at proper
      omega

/-! Statements for rows with a cap around them. -/

namespace SelectClauses

/-- The tokens behind `SELECT` and what goes with it. -/
def behindKeyword (clauses : SelectClauses) : List Token :=
  clauses.columns.squeezed ++ (clauses.source.squeezed ++ (clauses.joined.squeezed ++
    (clauses.conditions.squeezed ++ (clauses.grouping.squeezed ++ (clauses.having.squeezed ++
      clauses.ordering.squeezed)))))

theorem squeezed_sql (clauses : SelectClauses) :
    clauses.sql.squeezed = clauses.keyword.squeezed ++ clauses.behindKeyword := by
  simp [sql, behindKeyword, Fragment.squeezed_spaced]

def orderedBy (clauses : SelectClauses) (keys : Fragment) : SelectClauses :=
  { clauses with ordering := Fragment.words ["ORDER", "BY"] ++ .space :: keys }

theorem squeezed_sql_orderedBy {clauses : SelectClauses} (unordered : clauses.ordering = [])
    (keys : Fragment) :
    (clauses.orderedBy keys).sql.squeezed =
      clauses.sql.squeezed ++ .word "ORDER" :: .word "BY" :: keys.squeezed := by
  simp [sql, orderedBy, Fragment.squeezed_spaced, Fragment.words, unordered]

/-- A default order goes where there is none. -/
theorem eq_orderedBy_of_withDefaultOrder {scope : Scope} {query : Query}
    {clauses ordered : SelectClauses} (found : clauses.withDefaultOrder scope query = .ok ordered) :
    ordered = clauses ∨ clauses.ordering = [] ∧ ∃ keys, ordered = clauses.orderedBy keys := by
  unfold withDefaultOrder at found
  split_ifs at found with given shown
  · cases found
    exact .inl rfl
  · rcases bind_eq_ok.mp found with ⟨ordering, keyed, equal⟩
    rcases bind_eq_ok.mp keyed with ⟨columns, -, shape⟩
    cases shape
    cases equal
    exact .inr ⟨by simpa using given, _, rfl⟩
  · cases found
    exact .inr ⟨by simpa using given, _, rfl⟩

end SelectClauses

theorem Dialect.squeezed_selectKeyword_top (distinct : Bool) (count : UInt32) :
    (sqlServer.selectKeyword distinct (some count)).squeezed =
      .word "SELECT" :: ((if distinct then [.word "DISTINCT"] else []) ++
        [.word "TOP", .word count.toNat.repr]) := by
  cases distinct <;> simp [selectKeyword, Fragment.words, Fragment.number]

/-- Where the order of a query is empty, none was asked for. -/
theorem Scope.orderClause_eq_nil {scope : Scope} {items : List SortKey} {draft later : Draft}
    (run : (scope.orderClause items).runFrom draft = (.ok [], later)) : items = [] := by
  unfold orderClause at run
  split at run
  · next none => simpa using none
  · simp only [Build.runFrom_bind_eq_ok, Build.runFrom_pure_eq_ok] at run
    rcases run with ⟨_, _, -, impossible, -⟩
    cases impossible

namespace Query

variable {catalog : Catalog} {query : Query} {draft later : Draft} {clauses : SelectClauses}

/-- The query without a cap. -/
def uncapped (query : Query) : Query :=
  { query with top := none }

theorem runFrom_buildList_uncapped (dialect : Dialect)
    (run : (query.rowClauses catalog).runFrom draft = (.ok clauses, later)) :
    (query.uncapped.buildList catalog dialect).runFrom draft =
      (.ok { sql := (clauses.inDialect dialect query none).sql, joins := clauses.joins },
        later) := by
  have run : (query.uncapped.rowClauses catalog).runFrom draft = (.ok clauses, later) := run
  simp only [buildList, SelectClauses.build_eq, bind_assoc, pure_bind, Build.runFrom_bind_eq_ok]
  refine ⟨clauses, later, run, ?_⟩
  cases dialect <;> rfl

theorem startsScalar_columns
    (run : (query.rowClauses catalog).runFrom draft = (.ok clauses, later)) :
    StartsScalar clauses.columns.squeezed := by
  rcases SelectClauses.run_of_build run with
    ⟨entity, selected, tables, _, _, _, _, accepted, select⟩
  have starts :=
    Scope.startsScalar_selectList (Catalog.fields_ne_nil_of_entity accepted) select
  dsimp only
  split
  · rw [Fragment.squeezed_append]
    exact starts.append _
  · exact starts

end Query

/-- Read as a cap around a statement, the tokens keep so many rows of that, behind so many
that are skipped. -/
def Dialect.Caps (dialect : Dialect) (tokens body : List Token) (skip count : Nat) : Prop :=
  ∃ cap, dialect.readCapped tokens = some (cap, body) ∧
    ∀ {α : Type} (rows : List α), cap.keep rows = (rows.drop skip).take count

namespace Dialect

theorem caps_top {clauses : SelectClauses} {query : Query} (count : UInt32) :
    sqlServer.Caps (clauses.inDialect .sqlServer query (some count)).sql.squeezed
      (clauses.inDialect .sqlServer query none).sql.squeezed 0 count.toNat := by
  refine ⟨.first count.toNat, ?_, fun rows => rfl⟩
  simp only [readCapped, SelectClauses.squeezed_sql, SelectClauses.inDialect,
    squeezed_selectKeyword_top, squeezed_selectKeyword, List.cons_append, List.append_assoc,
    List.nil_append, readTop_of_top, Option.some_or]
  rfl

theorem caps_limit (sql : Fragment) (count : Nat) :
    mysql.Caps (sql.limit count).squeezed sql.squeezed 0 count :=
  ⟨_, readCapped_limit sql count, fun _ => rfl⟩

theorem caps_firstRows (sql : Fragment) (count : Nat) :
    oracle.Caps (sql.firstRows count).squeezed sql.squeezed 0 count :=
  ⟨_, readCapped_firstRows sql count, fun rows => RowCap.keep_numberAtMost count rows⟩

variable {range : RowRange} {number rows : Nat} (bounds : range.Exact number rows)

include bounds

theorem caps_offsetLimit (sql : Fragment) :
    mysql.Caps (sql.offsetLimit range).squeezed sql.squeezed ((number - 1) * rows) rows := by
  refine ⟨_, readCapped_offsetLimit sql range, fun shown => ?_⟩
  rw [bounds.skip, bounds.size, RowCap.keep]

theorem caps_rowsBetween (sql : Fragment) :
    oracle.Caps (sql.rowsBetween range).squeezed sql.squeezed ((number - 1) * rows) rows := by
  refine ⟨_, readCapped_rowsBetween sql range, fun shown => ?_⟩
  rw [bounds.first, bounds.last, RowCap.keep_numberBetween, RowCap.keep]

theorem caps_offsetFetch {sql : Fragment}
    (noTop : readTop (sql.offsetFetch range).squeezed = none) :
    sqlServer.Caps (sql.offsetFetch range).squeezed sql.squeezed ((number - 1) * rows) rows := by
  refine ⟨.window range.skip.toNat range.size.toNat, ?_, fun shown => ?_⟩
  · rw [readCapped, noTop, Option.none_or, readFetched_offsetFetch]
  · rw [bounds.skip, bounds.size, RowCap.keep]

end Dialect

namespace Query

variable {catalog : Catalog} {query : Query} {draft later : Draft} {clauses : SelectClauses}

theorem order_eq_nil (run : (query.rowClauses catalog).runFrom draft = (.ok clauses, later))
    (unordered : clauses.ordering = []) : query.order = [] := by
  rcases SelectClauses.run_of_build run with
    ⟨entity, _, _, _, _, _, ordering, -, -, -, -, -, -, order⟩
  have empty : ordering = [] := unordered
  subst empty
  exact Scope.orderClause_eq_nil order

/-- Where no cap stands behind the keyword, none is read there. -/
theorem readTop_append (run : (query.rowClauses catalog).runFrom draft = (.ok clauses, later))
    (dialect : Dialect) (rest : List Token) :
    readTop ((clauses.inDialect dialect query none).sql.squeezed ++ rest) = none := by
  have starts := startsScalar_columns run
  simp only [SelectClauses.squeezed_sql, SelectClauses.inDialect,
    Dialect.squeezed_selectKeyword, List.cons_append, List.append_assoc]
  apply readTop_of_startsScalar
  exact (starts.append _).append _

/-- The statement for all rows, ended by an order where one is needed to cap it. -/
theorem caps_page_sqlServer {range : RowRange} {number rows : Nat}
    (bounds : range.Exact number rows)
    (run : (query.rowClauses catalog).runFrom draft = (.ok clauses, later))
    {ordered : SelectClauses}
    (found : (clauses.inDialect .sqlServer query none).withDefaultOrder (.aliased catalog) query =
      .ok ordered) :
    ∃ ordering : List Token,
      Dialect.sqlServer.Caps (ordered.sql.offsetFetch range).squeezed
        ((clauses.inDialect .sqlServer query none).sql.squeezed ++ ordering)
        ((number - 1) * rows) rows ∧
      (ordering = [] ∨ query.order = [] ∧
        ∃ keys, ordering = .word "ORDER" :: .word "BY" :: keys) := by
  have noTop := readTop_append run .sqlServer
  rcases SelectClauses.eq_orderedBy_of_withDefaultOrder found with
    rfl | ⟨unordered, keys, rfl⟩
  · refine ⟨[], ?_, .inl rfl⟩
    rw [List.append_nil]
    apply Dialect.caps_offsetFetch bounds
    simpa only [Fragment.offsetFetch, Fragment.squeezed_append, List.append_assoc] using noTop _
  · have shape := SelectClauses.squeezed_sql_orderedBy unordered keys
    refine ⟨.word "ORDER" :: .word "BY" :: keys.squeezed, ?_,
      .inr ⟨order_eq_nil run unordered, _, rfl⟩⟩
    rw [← shape]
    apply Dialect.caps_offsetFetch bounds
    simpa only [Fragment.offsetFetch, Fragment.squeezed_append, shape, List.append_assoc]
      using noTop _

/-- The body of a capped statement: the statement for all rows and what orders it. -/
structure CapsBody (catalog : Catalog) (dialect : Dialect) (query : Query) (built : Built)
    (later : Draft) (skip count : Nat) (listing ordering : Fragment) : Prop where
  listed : (query.uncapped.buildList catalog dialect).runFrom {} =
    (.ok { sql := listing, joins := built.joins }, later)
  caps : dialect.Caps built.sql.squeezed (listing.squeezed ++ ordering) skip count
  ordered : ordering = [] ∨ dialect = .sqlServer ∧ query.order = [] ∧
    ∃ keys, ordering = .word "ORDER" :: .word "BY" :: keys

theorem capsBody_buildGet {dialect : Dialect} {built : Built}
    (run : (query.buildGet catalog dialect).runFrom {} = (.ok built, later)) :
    ∃ listing ordering, CapsBody catalog dialect query built later 0 1 listing ordering := by
  unfold buildGet at run
  cases dialect <;>
    simp only [SelectClauses.build_eq, bind_assoc, pure_bind, Build.runFrom_bind_eq_ok,
      Build.runFrom_pure_eq_ok] at run <;>
    rcases run with ⟨clauses, _, inner, rfl, rfl⟩ <;>
    have listed := fun dialect => runFrom_buildList_uncapped dialect inner
  case mysql => exact ⟨_, [], listed _, by simpa using Dialect.caps_limit _ 1, .inl rfl⟩
  case sqlServer => exact ⟨_, [], listed _, by simpa using Dialect.caps_top 1, .inl rfl⟩
  case oracle => exact ⟨_, [], listed _, by simpa using Dialect.caps_firstRows _ 1, .inl rfl⟩

theorem capsBody_buildList {dialect : Dialect} {built : Built} {count : UInt32}
    (capped : query.top = some count)
    (run : (query.buildList catalog dialect).runFrom {} = (.ok built, later)) :
    ∃ listing ordering,
      CapsBody catalog dialect query built later 0 count.toNat listing ordering := by
  simp only [buildList, capped, SelectClauses.build_eq, bind_assoc, pure_bind,
    Build.runFrom_bind_eq_ok, Build.runFrom_pure_eq_ok] at run
  rcases run with ⟨clauses, _, inner, rfl, rfl⟩
  have listed := runFrom_buildList_uncapped dialect inner
  refine ⟨_, [], listed, ?_, .inl rfl⟩
  rw [List.append_nil]
  cases dialect with
  | mysql => exact Dialect.caps_limit _ count.toNat
  | sqlServer => exact Dialect.caps_top count
  | oracle => exact Dialect.caps_firstRows _ count.toNat

theorem capsBody_buildPage {dialect : Dialect} {built : Built} {index size : UInt32}
    (run : (query.buildPage catalog dialect index size).runFrom {} = (.ok built, later)) :
    ∃ listing ordering, CapsBody catalog dialect query built later
      ((index.toNat - 1) * size.toNat) size.toNat listing ordering := by
  simp only [buildPage, SelectClauses.build_eq, bind_assoc, pure_bind,
    Build.runFrom_bind_eq_ok, Build.runFrom_lift_eq_ok] at run
  rcases run with ⟨range, _, ⟨found, rfl⟩, clauses, last, inner, run⟩
  rcases RowRange.numbered_of_ofPage found with ⟨numbered, given⟩
  rcases RowRange.exists_ofPage numbered given with ⟨_, again, bounds⟩
  rw [found] at again
  cases again
  have listed := runFrom_buildList_uncapped dialect inner
  cases dialect with
  | mysql =>
      rw [Build.runFrom_pure_eq_ok] at run
      rcases run with ⟨rfl, rfl⟩
      exact ⟨_, [], listed, by simpa using Dialect.caps_offsetLimit bounds _, .inl rfl⟩
  | sqlServer =>
      simp only [Build.runFrom_bind_eq_ok, Build.runFrom_lift_eq_ok,
        Build.runFrom_pure_eq_ok] at run
      rcases run with ⟨ordered, _, ⟨default, rfl⟩, rfl, rfl⟩
      rcases caps_page_sqlServer bounds inner default with ⟨ordering, caps, shape⟩
      rcases SelectClauses.eq_orderedBy_of_withDefaultOrder default with rfl | ⟨-, keys, rfl⟩ <;>
      exact ⟨_, ordering, listed, caps, shape.imp_right fun asked => ⟨rfl, asked⟩⟩
  | oracle =>
      rw [Build.runFrom_pure_eq_ok] at run
      rcases run with ⟨rfl, rfl⟩
      exact ⟨_, [], listed, by simpa using Dialect.caps_rowsBetween bounds _, .inl rfl⟩

end Query

/-! The rows cut into pages. -/

/-- The rows of a page. -/
def pageRows (size number : Nat) (rows : List α) : List α :=
  (rows.drop ((number - 1) * size)).take size

/-- The first pages together are the first rows. -/
theorem flatMap_pageRows (size pages : Nat) (rows : List α) :
    (List.range pages).flatMap (fun before => pageRows size (before + 1) rows) =
      rows.take (pages * size) := by
  induction pages with
  | zero => simp
  | succ pages induction =>
      rw [List.range_succ, List.flatMap_append, induction, Nat.succ_mul, List.take_add]
      simp [pageRows]

namespace Page

variable {page : Page β}

/-- A page comes before another one where rows are left behind it. -/
theorem lt_totalPages_iff (given : 1 ≤ page.size.toNat) (number : Nat) :
    number < page.totalPages ↔ number * page.size.toNat < page.total.toNat := by
  have divisor : max page.size.toNat 1 = page.size.toNat := Nat.max_eq_left given
  rw [totalPages, divisor, Nat.lt_iff_add_one_le, Nat.le_div_iff_mul_le given, Nat.succ_mul]
  omega

/-- The rows are cut into the pages of a size. -/
structure Tiles (page : Page β) (rows : List α) : Prop where
  whole : (List.range page.totalPages).flatMap
    (fun before => pageRows page.size.toNat (before + 1) rows) = rows
  full : ∀ number, 1 ≤ number → number < page.totalPages →
    (pageRows page.size.toNat number rows).length = page.size.toNat
  next : page.hasNext = true ↔ pageRows page.size.toNat (page.index.toNat + 1) rows ≠ []

theorem tiles {rows : List α} (given : 1 ≤ page.size.toNat)
    (counted : page.total.toNat = rows.length) : page.Tiles rows := by
  refine ⟨?_, ?_, ?_⟩
  · rw [flatMap_pageRows]
    apply List.take_of_length_le
    have last := (page.lt_totalPages_iff given page.totalPages).not.mp (Nat.lt_irrefl _)
    omega
  · intro number numbered more
    have left := (page.lt_totalPages_iff given number).mp more
    have rest : number * page.size.toNat = (number - 1) * page.size.toNat + page.size.toNat := by
      rw [← Nat.succ_mul]
      congr 1
      omega
    rw [pageRows, List.length_take, List.length_drop]
    omega
  · rw [hasNext, decide_eq_true_iff, page.lt_totalPages_iff given, counted, pageRows, Ne,
      List.take_eq_nil_iff, List.drop_eq_nil_iff, Nat.add_sub_cancel]
    omega

end Page

/-- What a read is to keep of its rows: how many it skips and how many it takes then. -/
def Operation.window? : Operation → Option (Nat × Nat)
  | .get _ => some (0, 1)
  | .list query => query.top.map fun count => (0, count.toNat)
  | .page _ index size => some ((index.toNat - 1) * size.toNat, size.toNat)
  | _ => none

theorem Operation.exists_capsBody {catalog : Catalog} {dialect : Dialect}
    {operation : Operation} {skip count : Nat} (window : operation.window? = some (skip, count))
    {built : Built} {later : Draft}
    (run : (operation.build catalog dialect).runFrom {} = (.ok built, later)) :
    ∃ listing ordering,
      Query.CapsBody catalog dialect operation.query built later skip count listing ordering := by
  cases operation with
  | get query =>
      cases window
      exact Query.capsBody_buildGet run
  | list query =>
      rcases Option.map_eq_some_iff.mp window with ⟨top, capped, same⟩
      cases same
      exact Query.capsBody_buildList capped run
  | page query index size =>
      cases window
      exact Query.capsBody_buildPage run
  | _ => cases window

/-- The first row, the first rows and a page are the same part of the rows of a query in all
dialects, whatever these rows are: each statement is that for all rows, in SQL Server with
an order behind it where a page needs one, with a cap around it that keeps that part. The
bounds of a page fit in a word for every number and size. The pages of one size are the
rows, each but the last is full, and there is a next page just where it has rows. -/
theorem row_caps_agree (catalog : Catalog) :
    (∀ (dialect : Dialect) (operation : Operation) (skip count : Nat)
        (composition : Composition), operation.window? = some (skip, count) →
      (operation.compose catalog dialect).1 = .ok composition →
      ∃ (tokens listing ordering : Fragment) (cap : RowCap),
        composition.statement.sql = tokens.text dialect.lexical ∧
        (catalog.PlainProperties → operation.query.PlainNames →
          dialect.readTokens composition.statement.sql = some tokens) ∧
        ((Operation.list operation.query.uncapped).compose catalog dialect).1 =
          .ok ⟨⟨listing.text dialect.lexical, composition.statement.params⟩,
            composition.joins⟩ ∧
        (ordering = [] ∨ dialect = .sqlServer ∧ operation.query.order = [] ∧
          ∃ keys, ordering = .word "ORDER" :: .word "BY" :: keys) ∧
        dialect.readCapped tokens.squeezed = some (cap, listing.squeezed ++ ordering) ∧
        ∀ {α : Type} (rows : List α), cap.keep rows = (rows.drop skip).take count) ∧
    (∀ index size : UInt32, 1 ≤ index.toNat → 1 ≤ size.toNat →
      ∃ range, RowRange.ofPage index size = .ok range ∧
        range.Exact index.toNat size.toNat) ∧
    ∀ {α β : Type} (page : Page β) (rows : List α), 1 ≤ page.size.toNat →
      page.total.toNat = rows.length → page.Tiles rows := by
  refine ⟨?_, fun _ _ => RowRange.exists_ofPage, fun page rows => page.tiles⟩
  intro dialect operation skip count composition window composed
  rcases Operation.exists_run_of_compose composed with ⟨built, later, run, -⟩
  cases (operation.compose_of_runFrom dialect run).symm.trans composed
  rcases Operation.exists_capsBody window run with ⟨listing, ordering, listed, caps, ordered⟩
  rcases caps with ⟨cap, read, keeps⟩
  refine ⟨built.sql, listing, ordering, cap, rfl, ?_, ?_, ordered, read, keeps⟩
  · intro plain names
    exact dialect.readTokens_text (sound_build plain names run).1
  · exact (Operation.list operation.query.uncapped).compose_of_runFrom dialect listed

/-- The second page of five rows, two on a page, and the page behind it. -/
theorem row_caps_agree_minors :
    ∃ (composition : Composition) (tokens body : Fragment) (cap : RowCap),
      ((Operation.page .minors 2 2).compose .people .oracle).1 = .ok composition ∧
      Dialect.oracle.readTokens composition.statement.sql = some tokens ∧
      Dialect.oracle.readCapped tokens.squeezed = some (cap, body) ∧
      cap.keep [1, 2, 3, 4, 5] = [3, 4] ∧
      (∃ range, RowRange.ofPage 2 2 = .ok range ∧ range.Exact 2 2) ∧
      ({ index := 2, size := 2, total := 5, items := [3, 4] } : Page Nat).Tiles
        [1, 2, 3, 4, 5] := by
  have names : Query.minors.PlainNames := ⟨by simp [Query.minors], by simp [Query.minors]⟩
  rcases row_caps_agree .people with ⟨caps, bounds, tiles⟩
  rcases caps .oracle (.page .minors 2 2) 2 2 _ rfl rfl with
    ⟨tokens, listing, ordering, cap, -, reads, -, -, read, keeps⟩
  exact ⟨_, tokens, _, cap, rfl, reads plainProperties_people names, read,
    keeps [1, 2, 3, 4, 5], bounds 2 2 (by decide) (by decide), tiles _ _ (by decide) rfl⟩

end EntitySql
