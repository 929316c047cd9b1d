import EntitySql.Proofs.RowQuery

/-! What queries for rows do. Rows are joined one table after the other, picked, put into
groups and shown. How many rows come out is told from the rows that are picked: a query
can show each of them, or show fewer because it takes several for one or keeps some back. -/

namespace EntitySql

/-! Rows of several tables. A table that has no row in it shows nulls. -/

/-- Rows by the aliases of their tables. -/
abbrev JoinedRow := List (String × TableRow)

def JoinedRow.value? (row : JoinedRow) (reference : ColumnReference) : Option Value := do
  let aliasName ← reference.qualifier?
  let (_, found) ← List.find? (·.1 == aliasName) row
  return found reference.name

def JoinedRow.value (row : JoinedRow) (reference : ColumnReference) : Value :=
  (row.value? reference).getD .null

structure RowServer where
  engine : Engine
  /-- What an aggregate makes of the values in a group that are not null. A count counts
  them, whatever stands here. -/
  fold : Aggregate → List Value → Value
  /-- What the call of an aggregate is where there is no group. -/
  stray : JoinedRow → Aggregate → Formula → Value
  /-- Whether grouping and `DISTINCT` take values for one. -/
  same : Value → Value → Bool
  /-- Whether `HAVING` without keys makes one group of all rows. Else it is asked of each. -/
  havingGroups : Bool

namespace Formula

variable (formula : Formula) (engine : Engine) (valuation : Valuation)

def shown : Value :=
  (formula.value? engine valuation).getD .null

/-- Whether the condition is true, which is more than not to be false. -/
def accepted : Bool :=
  formula.truth? engine valuation = some .yes

/-- Whether the value is one that only a group has. -/
def aggregates : Formula → Bool
  | .aggregate .. => true
  | .arithmetic _ left right | .comparison _ left right | .logical _ left right
  | .like left right _ => left.aggregates || right.aggregates
  | .nullTest operand _ | .inList operand _ _ | .negation operand => operand.aggregates
  | .between operand low high _ => operand.aggregates || low.aggregates || high.aggregates
  | .column _ | .constant _ => false

end Formula

namespace RowServer

variable (server : RowServer)

def valuation (row : JoinedRow) : Valuation :=
  { column := row.value, aggregate := server.stray row }

/-- A column is what it is in a row of the group. -/
def groupValuation (group : List JoinedRow) : Valuation :=
  { column := fun reference => (group.head?.map (·.value reference)).getD .null
    aggregate := fun function argument =>
      let values := (group.map fun row => argument.shown server.engine (server.valuation row)).filter
        (!·.isNull)
      match function with
      | .count => .ofInteger values.length
      | _ => server.fold function values }

def picks (condition : Formula) (row : JoinedRow) : Bool :=
  condition.accepted server.engine (server.valuation row)

/-- Whether several values are taken for the others, each for its counterpart. -/
def sameAll (left right : List Value) : Bool :=
  (left.zip right).all fun (first, second) => server.same first second

end RowServer

/-! Tables. -/

namespace SourceJoin

variable (join : SourceJoin) (server : RowServer) (candidates : List TableRow)

def extend (row : JoinedRow) (candidate : TableRow) : JoinedRow :=
  row ++ [(join.source.aliasName, candidate)]

def partners (row : JoinedRow) : List JoinedRow :=
  (candidates.map (join.extend row)).filter (server.picks join.condition)

/-- The candidates that go with no row. -/
def unmatched (rows : List JoinedRow) : List JoinedRow :=
  (candidates.filter fun candidate =>
    rows.all fun row => !server.picks join.condition (join.extend row candidate)).map
      (join.extend [])

def run (rows : List JoinedRow) : List JoinedRow :=
  match join.kind with
  | .inner => rows.flatMap (join.partners server candidates)
  | .left =>
      rows.flatMap fun row =>
        match join.partners server candidates row with
        | [] => [row]
        | found => found
  | .right =>
      rows.flatMap (join.partners server candidates) ++ join.unmatched server candidates rows

end SourceJoin

namespace RowSource

variable (source : RowSource) (server : RowServer) (tables : String → List TableRow)

def joined : List JoinedRow :=
  source.joins.foldl (fun rows join => join.run server (tables join.source.table) rows)
    ((tables source.first.table).map fun row => [(source.first.aliasName, row)])

def picked : List JoinedRow :=
  (source.joined server tables).filter (server.picks source.condition)

def rows : List JoinedRow :=
  match source.cap? with
  | some count => (source.picked server tables).take count
  | none => source.picked server tables

variable {source}

theorem rows_of_uncapped (uncapped : source.cap? = none) :
    source.rows server tables = source.picked server tables := by
  rw [rows, uncapped]

theorem rows_eq_nil_iff (some' : source.cap? ≠ some 0) :
    source.rows server tables = [] ↔ source.picked server tables = [] := by
  unfold rows
  split
  · next count capped =>
      have positive : count ≠ 0 := fun zero => some' (zero ▸ capped)
      simp [positive]
  · rfl

end RowSource

/-! Groups, and rows without repeats. -/

section

variable {α : Type} (same : α → α → Bool)

def withoutRepeats : List α → List α
  | [] => []
  | row :: rest =>
      let kept := withoutRepeats rest
      if kept.any (same row) then kept else row :: kept

/-- A row goes with the first of a group. -/
def belongs (row : α) (group : List α) : Bool :=
  group.head?.any (same row)

def addToGroup (row : α) : List (List α) → List (List α)
  | [] => []
  | group :: rest =>
      if belongs same row group then (group ++ [row]) :: rest
      else group :: addToGroup row rest

def grouped : List α → List (List α)
  | [] => []
  | row :: rest =>
      let groups := grouped rest
      if groups.any (belongs same row) then addToGroup same row groups else [row] :: groups

/-- No two of the list, one before the other, are taken for one. -/
def Apart (rows : List α) : Prop :=
  rows.Pairwise fun first second => same first second = false

instance (rows : List α) : Decidable (Apart same rows) :=
  inferInstanceAs (Decidable (rows.Pairwise _))

theorem length_withoutRepeats_le (rows : List α) :
    (withoutRepeats same rows).length ≤ rows.length := by
  induction rows with
  | nil => exact Nat.le_refl _
  | cons row rest induction =>
      simp only [withoutRepeats]
      split_ifs <;> simp only [List.length_cons] <;> omega

variable {same}

theorem withoutRepeats_of_apart {rows : List α} (apart : Apart same rows) :
    withoutRepeats same rows = rows := by
  induction rows with
  | nil => rfl
  | cons row rest induction =>
      rcases List.pairwise_cons.mp apart with ⟨first, others⟩
      simpa [withoutRepeats, induction others] using first

theorem length_withoutRepeats_eq_iff {rows : List α} :
    (withoutRepeats same rows).length = rows.length ↔ Apart same rows := by
  refine ⟨fun full => ?_, fun apart => by rw [withoutRepeats_of_apart apart]⟩
  induction rows with
  | nil => exact .nil
  | cons row rest induction =>
      have fewer := length_withoutRepeats_le same rest
      simp only [withoutRepeats] at full
      split_ifs at full with repeated
      · simp only [List.length_cons] at full
        omega
      · have apart := induction (by simpa using full)
        rw [withoutRepeats_of_apart apart] at repeated
        exact .cons (by simpa using repeated) apart

theorem withoutRepeats_eq_nil_iff {rows : List α} : withoutRepeats same rows = [] ↔ rows = [] := by
  induction rows with
  | nil => exact Iff.rfl
  | cons row rest induction =>
      simp only [withoutRepeats]
      split_ifs with repeated
      · have given : withoutRepeats same rest ≠ [] := by
          intro none
          rw [none] at repeated
          cases repeated
        simpa using given
      · simp

theorem head?_addToGroup (row : α) (groups : List (List α)) :
    (addToGroup same row groups).map List.head? = groups.map List.head? := by
  induction groups with
  | nil => rfl
  | cons group rest induction =>
      rw [addToGroup]
      split_ifs with belonging
      · cases group with
        | nil => cases belonging
        | cons first others => rfl
      · rw [List.map_cons, List.map_cons, induction]

variable (same) in
/-- The first rows of the groups are those that stay where repeats go. -/
theorem head?_grouped (rows : List α) :
    (grouped same rows).map List.head? = (withoutRepeats same rows).map some := by
  induction rows with
  | nil => rfl
  | cons row rest induction =>
      have opens : (grouped same rest).any (belongs same row) =
          (withoutRepeats same rest).any (same row) := by
        have heads := congrArg (List.any · (Option.any (same row))) induction
        simp only [List.any_map] at heads
        exact heads
      simp only [grouped, withoutRepeats, opens]
      split_ifs
      · rw [head?_addToGroup, induction]
      · rw [List.map_cons, List.map_cons, induction]
        rfl

variable (same) in
theorem length_grouped (rows : List α) :
    (grouped same rows).length = (withoutRepeats same rows).length := by
  simpa using congrArg List.length (head?_grouped same rows)

theorem grouped_eq_nil_iff {rows : List α} : grouped same rows = [] ↔ rows = [] := by
  rw [← List.length_eq_zero_iff, length_grouped, List.length_eq_zero_iff,
    withoutRepeats_eq_nil_iff]

theorem grouped_of_apart {rows : List α} (apart : Apart same rows) :
    grouped same rows = rows.map ([·]) := by
  induction rows with
  | nil => rfl
  | cons row rest induction =>
      rcases List.pairwise_cons.mp apart with ⟨first, others⟩
      have opens : (rest.map ([·])).any (belongs same row) = false := by
        simpa [belongs] using first
      rw [grouped, induction others, opens]
      rfl

end

/-! Queries. -/

namespace RowQuery

variable (query : RowQuery) (server : RowServer)

def sameGroup (first second : JoinedRow) : Bool :=
  let key row := query.groups.map (·.shown server.engine (server.valuation row))
  server.sameAll (key first) (key second)

/-- Without keys, all rows are one group where something is asked of a group. -/
def oneGroup : Bool :=
  query.groups.isEmpty &&
    ((query.items ++ query.having?.toList ++ query.order).any Formula.aggregates ||
      (query.having?.isSome && server.havingGroups))

/-- A row that is in no group stands for itself. -/
def groupsOf (rows : List JoinedRow) : List (List JoinedRow) :=
  if query.oneGroup server then [rows]
  else if query.groups.isEmpty then rows.map ([·])
  else grouped (query.sameGroup server) rows

def keeps (group : List JoinedRow) : Bool :=
  query.having?.all (·.accepted server.engine (server.groupValuation group))

def shown (group : List JoinedRow) : List Value :=
  query.items.map (·.shown server.engine (server.groupValuation group))

/-- The rows that a query yields, as they come: an order moves rows about and makes them
no more or fewer. -/
def run (tables : String → List TableRow) : List (List Value) :=
  let groups := (query.groupsOf server (query.source.rows server tables)).filter
    (query.keeps server)
  let shown := groups.map (query.shown server)
  let rows := if query.distinct then withoutRepeats server.sameAll shown else shown
  match query.limit? with
  | some count => rows.take count
  | none => rows

/-- Each row that is picked makes a row that is shown. -/
structure ShowsEach (rows : List JoinedRow) : Prop where
  groups : query.groupsOf server rows = rows.map ([·])
  keeps : ∀ row ∈ rows, query.keeps server [row] = true
  apart : query.distinct = true →
    Apart server.sameAll (rows.map fun row => query.shown server [row])

variable {rows : List JoinedRow}

/-- There are no more groups than rows, and as many only where each row is one. -/
theorem length_groupsOf_le (given : rows ≠ []) :
    (query.groupsOf server rows).length ≤ rows.length ∧
      ((query.groupsOf server rows).length = rows.length →
        query.groupsOf server rows = rows.map ([·])) := by
  unfold groupsOf
  split_ifs
  · have some := List.length_pos_of_ne_nil given
    refine ⟨some, ?_⟩
    intro single
    rcases List.length_eq_one_iff.mp single.symm with ⟨row, rfl⟩
    rfl
  · simp
  · rw [length_grouped]
    exact ⟨length_withoutRepeats_le _ rows, fun full =>
      grouped_of_apart (length_withoutRepeats_eq_iff.mp full)⟩

/-- A query without keys and without anything that is asked of a group shows each row. -/
theorem groupsOf_of_ungrouped (keys : query.groups = []) (unasked : query.having? = none)
    (single : (query.items ++ query.order).any Formula.aggregates = false)
    (rows : List JoinedRow) : query.groupsOf server rows = rows.map ([·]) := by
  have apart : query.oneGroup server = false := by
    rw [oneGroup, unasked, Option.toList_none, List.append_nil, single]
    simp
  simp [groupsOf, apart, keys]

theorem keeps_of_unasked (unasked : query.having? = none) (group : List JoinedRow) :
    query.keeps server group = true := by
  simp [keeps, unasked]

theorem groupsOf_eq_nil_iff (apart : query.oneGroup server = false) :
    query.groupsOf server rows = [] ↔ rows = [] := by
  unfold groupsOf
  split_ifs with one
  · rw [apart] at one
    cases one
  · exact List.map_eq_nil_iff
  · exact grouped_eq_nil_iff

variable {query server} {tables : String → List TableRow}

theorem run_eq_nil_iff (unlimited : query.limit? = none) :
    query.run server tables = [] ↔
      ∀ group ∈ query.groupsOf server (query.source.rows server tables),
        query.keeps server group = false := by
  simp only [run, unlimited]
  split_ifs <;>
    simp [withoutRepeats_eq_nil_iff, List.filter_eq_nil_iff]

/-- A query that keeps all groups yields some row for some row, unless it makes a group of
no rows at all. -/
theorem run_eq_nil_iff_of_unasked (unlimited : query.limit? = none)
    (unasked : query.having? = none) (apart : query.oneGroup server = false) :
    query.run server tables = [] ↔ query.source.rows server tables = [] := by
  rw [run_eq_nil_iff unlimited, ← query.groupsOf_eq_nil_iff server apart]
  simp only [query.keeps_of_unasked server unasked, Bool.true_eq_false, imp_false,
    List.eq_nil_iff_forall_not_mem]

theorem ShowsEach.length_run_eq (unlimited : query.limit? = none)
    (shows : query.ShowsEach server (query.source.rows server tables)) :
    (query.run server tables).length = (query.source.rows server tables).length := by
  rcases shows with ⟨each, kept, apart⟩
  have all : ∀ group ∈ query.groupsOf server (query.source.rows server tables),
      query.keeps server group = true := by
    rw [each]
    simpa using kept
  simp only [run, unlimited]
  rw [List.filter_eq_self.mpr all, each, List.map_map]
  split_ifs with distinct
  · have separate := withoutRepeats_of_apart (apart distinct)
    simp only [Function.comp_def, separate, List.length_map]
  · simp

/-- Where some row is picked, as many rows come out as are picked just where each of them
is shown. -/
theorem length_run_eq_iff (unlimited : query.limit? = none)
    (given : query.source.rows server tables ≠ []) :
    (query.run server tables).length = (query.source.rows server tables).length ↔
      query.ShowsEach server (query.source.rows server tables) := by
  refine ⟨?_, ShowsEach.length_run_eq unlimited⟩
  generalize source : query.source.rows server tables = rows at given ⊢
  rcases query.length_groupsOf_le server given with ⟨fewer, singles⟩
  simp only [run, unlimited, source]
  generalize collected : query.groupsOf server rows = groups at fewer singles ⊢
  intro full
  have keptFewer := List.length_filter_le (query.keeps server) groups
  have length : ((groups.filter (query.keeps server)).map (query.shown server)).length =
      (groups.filter (query.keeps server)).length := List.length_map _
  have shownFewer : (if query.distinct then
      withoutRepeats server.sameAll ((groups.filter (query.keeps server)).map (query.shown server))
      else (groups.filter (query.keeps server)).map (query.shown server)).length ≤
      (groups.filter (query.keeps server)).length := by
    split_ifs
    · exact length ▸ length_withoutRepeats_le _ _
    · exact Nat.le_of_eq length
  have each := singles (by omega)
  have kept : ∀ group ∈ groups, query.keeps server group = true :=
    List.length_filter_eq_length_iff.mp (by omega)
  rw [List.filter_eq_self.mpr kept, each] at full
  refine ⟨collected.trans each, fun row listed => kept _ ?_, fun distinct => ?_⟩
  · exact each ▸ List.mem_map_of_mem listed
  · rw [if_pos distinct, List.map_map] at full
    apply length_withoutRepeats_eq_iff.mp
    simpa [Function.comp_def] using full

/-! Counting rows, and asking for any. -/

def counting (source : RowSource) : RowQuery :=
  { items := [.aggregate .count (.constant (.int 1))], source }

def probing (source : RowSource) (limit? : Option Nat) : RowQuery :=
  { items := [.constant (.int 1)], source, limit? }

theorem run_counting (source : RowSource) :
    (counting source).run server tables =
      [[.ofInteger (source.rows server tables).length]] := by
  have kept := (counting source).keeps_of_unasked server rfl
  have groups : (counting source).groupsOf server (source.rows server tables) =
      [source.rows server tables] := rfl
  have count : (counting source).shown server (source.rows server tables) =
      [.ofInteger (source.rows server tables).length] := by
    simp [shown, counting, Formula.shown, Formula.value?, RowServer.groupValuation, Value.isNull]
  simp only [run]
  rw [show (counting source).source = source from rfl, groups,
    List.filter_eq_self.mpr fun group _ => kept group, List.map_singleton, count]
  rfl

theorem run_probing_eq_nil_iff (source : RowSource) {limit? : Option Nat}
    (some' : limit? ≠ some 0) :
    (probing source limit?).run server tables = [] ↔ source.rows server tables = [] := by
  have kept := (probing source limit?).keeps_of_unasked server rfl
  have groups : (probing source limit?).groupsOf server (source.rows server tables) =
      (source.rows server tables).map ([·]) := rfl
  simp only [run]
  rw [show (probing source limit?).source = source from rfl, groups,
    List.filter_eq_self.mpr fun group _ => kept group]
  cases limit? with
  | none => simp [probing]
  | some count =>
      have positive : count ≠ 0 := fun zero => some' (congrArg some zero)
      simp [probing, positive]

end RowQuery

end EntitySql
