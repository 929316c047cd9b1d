import EntitySql.Proofs.ClauseMentions
import EntitySql.Proofs.FreshName

/-! The aliases of joined tables. A table keeps the alias of its entity or takes the name of its
navigation while these are free, and is numbered otherwise. What counts as free are the names
that differ from the alias of the root and from those lent before in more than the case of their
letters, so that no two aliases of a statement are the same. -/

namespace EntitySql

/-! The rule. -/

/-- The alias that a table gets where these are taken: the one of its entity, the name of its
navigation, or that with a number. -/
inductive Lends (taken : List String) (own navigation : String) : String → Prop where
  | own (free : Free taken own) : Lends taken own navigation own
  | navigation (used : ¬ Free taken own) (free : Free taken navigation) :
      Lends taken own navigation navigation
  | numbered {number : Nat} (used : ¬ Free taken own) (usedToo : ¬ Free taken navigation)
      (least : LeastFree taken navigation number) :
      Lends taken own navigation (numberedName navigation number)

/-- The aliases that joins lend, one after the other, where these are taken. -/
inductive LendsAll (catalog : Catalog) : List String → List Navigation → List String → Prop where
  | nil {taken : List String} : LendsAll catalog taken [] []
  | cons {taken aliases : List String} {navigation : Navigation} {navigations : List Navigation}
      {aliasName : String}
      (first : Lends taken (catalog.aliasName navigation.target) navigation.name aliasName)
      (rest : LendsAll catalog (taken ++ [aliasName]) navigations aliases) :
      LendsAll catalog taken (navigation :: navigations) (aliasName :: aliases)

theorem lends_joinAlias (taken : List String) (own navigation : String) :
    Lends taken own navigation (joinAlias taken own navigation) := by
  unfold joinAlias freshName
  split
  · next used =>
      have used := isTaken_eq_true_iff.mp used
      split
      · next usedToo =>
          rcases exists_leastFree_freshNumbered taken navigation with ⟨number, least, shape⟩
          rw [shape]
          exact .numbered used (isTaken_eq_true_iff.mp usedToo) least
      · next free =>
          exact .navigation used (isTaken_eq_false_iff.mp (Bool.not_eq_true _ ▸ free))
  · next free => exact .own (isTaken_eq_false_iff.mp (Bool.not_eq_true _ ▸ free))

/-- Aliases that look numbered count as well, in whatever case. -/
example : joinAlias ["users", "U", "boss", "BOSS_1", "boss_3"] "u" "Boss" = "Boss_2" := by
  decide +kernel

theorem Lends.free {taken : List String} {own navigation aliasName : String}
    (lends : Lends taken own navigation aliasName) : Free taken aliasName := by
  cases lends with
  | own free => exact free
  | navigation used free => exact free
  | numbered used usedToo least => exact least.free

/-- What is lent follows the rule join by join. -/
theorem lendsAll_joinViews (catalog : Catalog) (root : String) (taken : List String)
    (navigations : List Navigation) :
    LendsAll catalog taken navigations
      ((catalog.joinViews root taken navigations).map (·.2.aliasName)) := by
  induction navigations generalizing taken with
  | nil => exact .nil
  | cons navigation navigations induction => exact .cons (lends_joinAlias ..) (induction _)

/-- No two of the names are the same, also where case is ignored. -/
def DifferentNames (names : List String) : Prop :=
  names.Pairwise fun earlier later => sameIgnoringCase earlier later = false

/-- Aliases that are lent behind different ones are different from them and from each other. -/
theorem LendsAll.different {catalog : Catalog} {taken aliases : List String}
    {navigations : List Navigation} (lends : LendsAll catalog taken navigations aliases)
    (different : DifferentNames taken) : DifferentNames (taken ++ aliases) := by
  induction lends with
  | nil => rwa [List.append_nil]
  | cons first rest induction =>
      rw [List.append_cons]
      apply induction
      refine List.pairwise_append.mpr ⟨different, List.pairwise_singleton _ _, ?_⟩
      intro earlier listed later single
      rw [List.mem_singleton.mp single]
      exact first.free earlier listed

/-- The clause of a joined table shows the alias of the table, behind the name of it. -/
def JoinedTable.Shows (table : JoinedTable) (catalog : Catalog) (navigation : Navigation) : Prop :=
  ∃ target condition, catalog.entity navigation.target = .ok target ∧
    target.aliasName = catalog.aliasName navigation.target ∧
    table.clause = Fragment.words navigation.kind.keywords ++ .space :: target.tableName ++
      [.space, .word table.aliasName, .space, .word "ON", .space] ++ condition

theorem aliases_of_joinTables {scope : Scope} {root : Entity} {navigations : List Navigation}
    {taken : List String} {draft later : Draft} {tables : List JoinedTable}
    (run : (scope.joinTables root taken navigations).runFrom draft = (.ok tables, later)) :
    tables.map (·.aliasName) =
      (scope.catalog.joinViews root.name taken navigations).map (·.2.aliasName) := by
  have each := Scope.runs_of_joinTables run
  rw [← List.forall₂_eq_eq_eq, List.forall₂_map_left_iff, List.forall₂_map_right_iff]
  refine each.imp ?_
  rintro table _ ⟨navigation, before, known, after, -, rfl⟩
  rfl

theorem navigations_joinViews (catalog : Catalog) (root : String) (taken : List String)
    (navigations : List Navigation) :
    (catalog.joinViews root taken navigations).map (·.1) = navigations := by
  induction navigations generalizing taken with
  | nil => rfl
  | cons navigation navigations induction => exact congrArg (navigation :: ·) (induction _)

theorem shows_of_joinTables {scope : Scope} {root : Entity} {navigations : List Navigation}
    {taken : List String} {draft later : Draft} {tables : List JoinedTable}
    (run : (scope.joinTables root taken navigations).runFrom draft = (.ok tables, later)) :
    List.Forall₂ (fun table navigation => JoinedTable.Shows table scope.catalog navigation)
      tables navigations := by
  rw [← navigations_joinViews scope.catalog root.name taken navigations,
    List.forall₂_map_right_iff]
  refine (Scope.runs_of_joinTables run).imp ?_
  rintro table _ ⟨navigation, before, known, after, own, rfl⟩
  rcases Scope.joinTable_eq_ok own with ⟨target, condition, accepted, -, -, clause, -⟩
  exact ⟨target, condition, accepted, Catalog.aliasName_of_entity accepted, clause⟩

/-- The alias of the root and those that joins lend are different from each other, and each of
these is what the rule gives where the ones before it are taken. The search for a number that
the rule speaks of always ends with one: among one more candidate than there are names taken
there is one that is free, and the first such is what is found however many are looked at. The
joins of a statement show these aliases. -/
theorem join_aliases_differ (catalog : Catalog) (root : Entity) (navigations : List Navigation) :
    ∃ aliases, LendsAll catalog [root.aliasName] navigations aliases ∧
      DifferentNames (root.aliasName :: aliases) ∧
      (∀ taken name, ∃ number, LeastFree taken name number ∧
        ∀ candidates, taken.length < candidates →
          searched taken name candidates = some (numberedName name number)) ∧
      ∀ (scope : Scope) (draft later : Draft) (tables : List JoinedTable),
        scope.catalog = catalog →
        (scope.joins root navigations).runFrom draft = (.ok tables, later) →
        tables.map (·.aliasName) = aliases ∧
        List.Forall₂ (fun table navigation => JoinedTable.Shows table catalog navigation)
          tables navigations := by
  have lends := lendsAll_joinViews catalog root.name [root.aliasName] navigations
  refine ⟨_, lends, lends.different (List.pairwise_singleton _ _), ?_, ?_⟩
  · intro taken name
    rcases exists_leastFree_freshNumbered taken name with ⟨number, least, -⟩
    exact ⟨number, least, fun candidates enough => least.searched_eq enough⟩
  · rintro scope draft later tables rfl run
    exact ⟨aliases_of_joinTables run, shows_of_joinTables run⟩

end EntitySql
