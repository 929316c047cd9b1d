import EntitySql.Proofs.QueryMentions
import EntitySql.Proofs.RowQueryGrammar

/-! Queries for rows read back as what they ask for: the items that they show, the tables
that they join, and the conditions and keys that go with them. -/

namespace EntitySql

/-! What a query asks for, told without its text. -/

namespace Catalog

def fieldTerm? (catalog : Catalog) (path : MemberPath) (aliasName : String) : Option Formula :=
  (catalog.columnName? path).map fun name => .column { qualifier? := some aliasName, name }

/-- The columns of an entity under an alias. -/
def fieldTerms? (catalog : Catalog) (entity aliasName : String) : Option (List Formula) :=
  (catalog.descriptor entity).fields.mapM fun field =>
    catalog.fieldTerm? ⟨entity, field.property⟩ aliasName

def joinedTerms? (catalog : Catalog) (join : Navigation × JoinView) : Option (List Formula) :=
  if join.1.withFields then catalog.fieldTerms? join.2.target join.2.aliasName else some []

end Catalog

def Expr.projectedTerms? (scope : Scope) (selector : Expr) : Option (List Formula) :=
  match selector.body with
  | .record _ bindings => bindings.mapM (·.2.term? scope)
  | body => (body.term? scope).map ([·])

/-- The items of a query: its projection, or the columns of all its tables. -/
def Query.itemTerms? (catalog : Catalog) (query : Query) : Option (List Formula) :=
  match query.select with
  | none => do
      let own ← catalog.fieldTerms? query.entity (catalog.aliasName query.entity)
      let joined ← (query.joinViews catalog).mapM catalog.joinedTerms?
      return own ++ joined.flatten
  | some selector => selector.projectedTerms? (.aliased catalog)

theorem Expr.term?_body (scope : Scope) :
    ∀ expression : Expr, expression.body.term? scope = expression.term? scope
  | .lambda _ inner => term?_body scope inner
  | .member _ | .constant _ | .comparison .. | .arithmetic .. | .logical .. | .negation _
  | .nullTest .. | .inList .. | .like .. | .between .. | .aggregate .. | .bareAggregate _
  | .record .. => rfl

/-! Results that are built one after the other. -/

/-- Each result is built somewhere on the way, where no parameter had been bound that the
end has not. -/
theorem Build.forall₂_steps {step : α → Build β} {items : List α}
    (grows : ∀ item ∈ items, ∀ {draft later result},
      (step item).runFrom draft = (.ok result, later) → later.params.Extends draft.params)
    {draft later : Draft} {results : List β}
    (run : (items.mapM step).runFrom draft = (.ok results, later)) :
    later.params.Extends draft.params ∧
    List.Forall₂ (fun result item => item ∈ items ∧ ∃ before after,
      (step item).runFrom before = (.ok result, after) ∧ later.params.Extends after.params)
      results items := by
  induction items generalizing draft results with
  | nil =>
      rw [List.mapM_nil, runFrom_pure_eq_ok] at run
      rcases run with ⟨rfl, rfl⟩
      exact ⟨draft.params.extends_refl, .nil⟩
  | cons item items induction =>
      simp only [List.mapM_cons, runFrom_bind_eq_ok, runFrom_pure_eq_ok] at run
      rcases run with ⟨first, middle, head, rest, last, tail, rfl, rfl⟩
      rcases induction (fun other listed => grows other (List.mem_cons_of_mem _ listed)) tail with
        ⟨kept, others⟩
      refine ⟨kept.trans (grows item List.mem_cons_self head), .cons ?_ ?_⟩
      · exact ⟨List.mem_cons_self, draft, middle, head, kept⟩
      · exact others.imp fun _ _ each => ⟨List.mem_cons_of_mem _ each.1, each.2⟩

theorem exists_between {first : γ → α → Prop} {second : β → γ → Prop} {items : List α}
    {results : List β}
    (each : List.Forall₂ (fun result item => ∃ middle, first middle item ∧ second result middle)
      results items) :
    ∃ middles, List.Forall₂ first middles items ∧ List.Forall₂ second results middles := by
  induction each with
  | nil => exact ⟨[], .nil, .nil⟩
  | cons both _ induction =>
      rcases both with ⟨middle, head, reads⟩
      rcases induction with ⟨middles, tail, others⟩
      exact ⟨middle :: middles, .cons head tail, .cons reads others⟩

theorem exists_mapM_eq_some {term? : α → Option γ} {reads : β → γ → Prop} {items : List α}
    {results : List β}
    (each : List.Forall₂ (fun result item => ∃ term, term? item = some term ∧ reads result term)
      results items) :
    ∃ terms, items.mapM term? = some terms ∧ List.Forall₂ reads results terms := by
  rcases exists_between each with ⟨terms, found, reads⟩
  refine ⟨terms, ?_, reads⟩
  clear reads each
  induction found with
  | nil => rfl
  | cons head _ induction => simp [List.mapM_cons, head, induction]

theorem ne_nil_of_mapM_eq_some {term? : α → Option γ} {reads : β → γ → Prop} {items : List α}
    {terms : List γ} (found : items.mapM term? = some terms) (given : items ≠ [])
    {results : List β} (each : List.Forall₂ reads results terms) : results ≠ [] := by
  rintro rfl
  cases each
  rcases List.exists_cons_of_ne_nil given with ⟨item, rest, rfl⟩
  simp [List.mapM_cons, Option.bind_eq_some_iff] at found

namespace Scope

theorem scalars_eq_mapM (scope : Scope) (expressions : List Expr) :
    scope.scalars expressions = expressions.mapM (·.scalar scope Expr.unnamed) := by
  induction expressions with
  | nil => rfl
  | cons expression expressions induction => simp [scalars, induction]

def sortKey (scope : Scope) (item : SortKey) : Build Fragment := do
  let key ← item.expression.scalar scope Expr.unnamed
  return key ++ [.space, .word (match item.direction with
    | .ascending => "ASC"
    | .descending => "DESC")]

theorem sortKeys_eq_mapM (scope : Scope) (items : List SortKey) :
    scope.sortKeys items = items.mapM scope.sortKey := by
  induction items with
  | nil => rfl
  | cons item items induction =>
      cases direction : item.direction <;> simp [sortKeys, sortKey, induction, direction]

def selectedBinding (scope : Scope) (binding : String × Expr) : Build Fragment := do
  let value ← binding.2.scalar scope binding.1
  return Fragment.renamed value binding.1

theorem selectedBindings_eq_mapM (scope : Scope) (bindings : List (String × Expr)) :
    scope.selectedBindings bindings = bindings.mapM scope.selectedBinding := by
  induction bindings with
  | nil => rfl
  | cons binding bindings induction => simp [selectedBindings, selectedBinding, induction]

end Scope

/-! Clauses. -/

theorem itemReads_renamed {bag : Params} {column : Fragment} {term : Formula}
    (reads : Reads bag .sum column.squeezed term) (name : String) :
    ItemReads bag (Fragment.renamed column name).squeezed term :=
  .inr ⟨column.squeezed, name, reads, by simp [Fragment.renamed]⟩

namespace Scope

open EntitySql.Expr

variable {scope : Scope} {bag : Params} {draft later : Draft}

theorem reads_scalars {expressions : List Expr} {fragments : List Fragment}
    (run : (scope.scalars expressions).runFrom draft = (.ok fragments, later))
    (grown : bag.Extends later.params) :
    ∃ terms, expressions.mapM (term? scope) = some terms ∧
      List.Forall₂ (fun fragment => Reads bag .sum (Fragment.squeezed fragment))
        fragments terms := by
  rw [scalars_eq_mapM] at run
  have grows : ∀ expression ∈ expressions, ∀ {draft later result},
      (expression.scalar scope unnamed).runFrom draft = (.ok result, later) →
        later.params.Extends draft.params := fun _ _ _ _ _ step =>
    (scalarRun_of_scalar step).extends
  apply exists_mapM_eq_some
  refine (Build.forall₂_steps grows run).2.imp ?_
  rintro fragment expression ⟨-, before, after, step, kept⟩
  rcases reads_scalar step with ⟨term, found, reads⟩
  exact ⟨term, found, reads_sum_of_primary (reads bag (grown.trans kept))⟩

theorem reads_sortKeys {items : List SortKey} {fragments : List Fragment}
    (run : (scope.sortKeys items).runFrom draft = (.ok fragments, later))
    (grown : bag.Extends later.params) :
    ∃ terms, items.mapM (·.expression.term? scope) = some terms ∧
      List.Forall₂ (fun fragment => SortReads bag (Fragment.squeezed fragment))
        fragments terms := by
  rw [sortKeys_eq_mapM] at run
  have inner : ∀ {item : SortKey} {draft later : Draft} {fragment : Fragment},
      (scope.sortKey item).runFrom draft = (.ok fragment, later) →
      ∃ key, (item.expression.scalar scope unnamed).runFrom draft = (.ok key, later) ∧
        ∃ direction, fragment.squeezed = key.squeezed ++ [.word direction] ∧
          (direction = "ASC" ∨ direction = "DESC") := by
    intro item draft later fragment step
    simp only [sortKey, Build.runFrom_bind_eq_ok, Build.runFrom_pure_eq_ok] at step
    rcases step with ⟨key, _, step, rfl, rfl⟩
    refine ⟨key, step, _, by simp; rfl, ?_⟩
    cases item.direction
    · exact .inl rfl
    · exact .inr rfl
  have grows : ∀ item ∈ items, ∀ {draft later result},
      (scope.sortKey item).runFrom draft = (.ok result, later) →
        later.params.Extends draft.params := by
    intro item _ draft later result step
    rcases inner step with ⟨key, step, -⟩
    exact (scalarRun_of_scalar step).extends
  apply exists_mapM_eq_some
  refine (Build.forall₂_steps grows run).2.imp ?_
  rintro fragment item ⟨-, before, after, step, kept⟩
  rcases inner step with ⟨key, step, direction, shape, known⟩
  rcases reads_scalar step with ⟨term, found, reads⟩
  exact ⟨term, found, key.squeezed, direction,
    reads_sum_of_primary (reads bag (grown.trans kept)), shape, known⟩

/-- The columns of a record are its values, each built somewhere on the way and renamed. -/
theorem steps_of_selectedBindings {bindings : List (String × Expr)} {fragments : List Fragment}
    (run : (scope.selectedBindings bindings).runFrom draft = (.ok fragments, later)) :
    List.Forall₂ (fun fragment binding => ∃ before value after,
      ScalarRun scope (Prod.fst binding) (Prod.snd binding) before value after ∧
        later.params.Extends after.params ∧ fragment = Fragment.renamed value (Prod.fst binding))
      fragments bindings := by
  rw [selectedBindings_eq_mapM] at run
  have inner : ∀ {binding : String × Expr} {draft later : Draft} {fragment : Fragment},
      (scope.selectedBinding binding).runFrom draft = (.ok fragment, later) →
      ∃ value, ScalarRun scope binding.1 binding.2 draft value later ∧
        fragment = Fragment.renamed value binding.1 := by
    intro binding draft later fragment step
    simp only [selectedBinding, Build.runFrom_bind_eq_ok, Build.runFrom_pure_eq_ok] at step
    rcases step with ⟨value, _, step, rfl, rfl⟩
    exact ⟨value, scalarRun_of_scalar step, rfl⟩
  have grows : ∀ binding ∈ bindings, ∀ {draft later result},
      (scope.selectedBinding binding).runFrom draft = (.ok result, later) →
        later.params.Extends draft.params := by
    intro binding _ draft later result step
    rcases inner step with ⟨value, steps, -⟩
    exact steps.extends
  refine (Build.forall₂_steps grows run).2.imp ?_
  rintro fragment binding ⟨-, before, after, step, kept⟩
  rcases inner step with ⟨value, steps, shown⟩
  exact ⟨before, value, after, steps, kept, shown⟩

theorem reads_selectedBindings {bindings : List (String × Expr)} {fragments : List Fragment}
    (run : (scope.selectedBindings bindings).runFrom draft = (.ok fragments, later))
    (grown : bag.Extends later.params) :
    ∃ terms, bindings.mapM (·.2.term? scope) = some terms ∧
      List.Forall₂ (fun fragment => ItemReads bag (Fragment.squeezed fragment))
        fragments terms := by
  apply exists_mapM_eq_some
  refine (steps_of_selectedBindings run).imp ?_
  rintro fragment binding ⟨before, value, after, steps, kept, rfl⟩
  rcases steps.reads with ⟨term, found, reads⟩
  exact ⟨term, found, itemReads_renamed (reads_sum_of_primary (reads bag (grown.trans kept))) _⟩

theorem reads_groupClause {keys : List Expr} {fragment : Fragment}
    (run : (scope.groupClause keys).runFrom draft = (.ok fragment, later))
    (grown : bag.Extends later.params) :
    ∃ terms, keys.mapM (term? scope) = some terms ∧ GroupsRead bag fragment.squeezed terms := by
  rcases scope.groupClause_cases run with ⟨rfl, rfl, -⟩ | ⟨given, fragments, inner, rfl⟩
  · exact ⟨[], rfl, .inl ⟨rfl, rfl⟩⟩
  · rcases reads_scalars inner grown with ⟨terms, found, reads⟩
    refine ⟨terms, found, .inr ⟨fragments.map Fragment.squeezed, ?_, ?_, ?_⟩⟩
    · simpa using ne_nil_of_mapM_eq_some found given reads
    · exact List.forall₂_map_left_iff.mpr reads
    · simp [Fragment.words, Fragment.squeezed_commaSeparated]

theorem reads_orderClause {items : List SortKey} {fragment : Fragment}
    (run : (scope.orderClause items).runFrom draft = (.ok fragment, later))
    (grown : bag.Extends later.params) :
    ∃ terms, items.mapM (·.expression.term? scope) = some terms ∧
      OrderReads bag fragment.squeezed terms := by
  rcases scope.orderClause_cases run with ⟨rfl, rfl, -⟩ | ⟨given, fragments, inner, rfl⟩
  · exact ⟨[], rfl, .inl ⟨rfl, rfl⟩⟩
  · rcases reads_sortKeys inner grown with ⟨terms, found, reads⟩
    refine ⟨terms, found, .inr ⟨fragments.map Fragment.squeezed, ?_, ?_, ?_⟩⟩
    · simpa using ne_nil_of_mapM_eq_some found given reads
    · exact List.forall₂_map_left_iff.mpr reads
    · simp [Fragment.words, Fragment.squeezed_commaSeparated]

/-- With conditions, a having clause is the conjunction of them. -/
theorem reads_havingClause (joins : scope.PlainJoin) (plain : scope.catalog.PlainProperties)
    {conditions : List Expr} {fragment : Fragment}
    (run : (scope.havingClause conditions).runFrom draft = (.ok fragment, later))
    (grown : bag.Extends later.params) :
    ∃ having?, HavingReads bag fragment.squeezed having? ∧ (conditions = [] → having? = none) ∧
      (conditions ≠ [] → ∃ condition, having? = some condition ∧
        condition.Agrees (jointTruth? scope · · conditions)) := by
  cases conditions with
  | nil =>
      rw [havingClause, if_pos List.isEmpty_nil, Build.runFrom_pure_eq_ok] at run
      rcases run with ⟨rfl, rfl⟩
      exact ⟨none, .inl ⟨rfl, rfl⟩, fun _ => rfl, fun given => absurd rfl given⟩
  | cons expression conditions =>
      simp only [havingClause, List.isEmpty_cons, Bool.false_eq_true, if_false, conjuncts,
        conjunct, Build.runFrom_bind_eq_ok, Build.runFrom_pure_eq_ok] at run
      rcases run with ⟨_, _, ⟨_, middle, ⟨condition, _, head, rfl, rfl⟩, others, last, tail,
        rfl, rfl⟩, rfl, rfl⟩
      have kept := (writtenAll_conjuncts joins (fun _ _ => plain.members _) tail).binds.extends
      rcases (readsBack_predicate joins (plain.members expression) head _
        (grown.trans kept)).bracketed .and with ⟨start, startAgrees, startChain⟩
      rcases connected_conjuncts joins (fun _ _ => plain.members _) tail grown startAgrees
        startChain with ⟨formula, connected, agrees⟩
      refine ⟨some formula, .inr ⟨_, formula, reads_connected connected, ?_, rfl⟩, by simp, ?_⟩
      · rw [Fragment.intercalate_cons_eq, ← Fragment.squeezed_append]
        rfl
      · refine fun _ => ⟨formula, rfl, fun engine valuation => ?_⟩
        rcases agrees engine valuation with ⟨truth, read, same⟩
        refine ⟨truth, read, ?_⟩
        simp only [Option.bind_eq_bind, Option.bind_eq_some_iff, Option.pure_def,
          Option.some.injEq] at same
        rcases same with ⟨_, firstSame, _, restSame, rfl⟩
        exact jointTruth?_cons _ engine valuation firstSame restSame

end Scope

/-! Select lists. -/

/-- A list of items, with commas between them. -/
def ListReads (bag : Params) (tokens : List Token) (items : List Formula) : Prop :=
  ∃ pieces, pieces ≠ [] ∧ tokens = [Token.symbol .comma].intercalate pieces ∧
    List.Forall₂ (ItemReads bag) pieces items

/-- Items that carry on a list, each behind a comma. -/
def MoreRead (bag : Params) (tokens : List Token) (items : List Formula) : Prop :=
  ∃ pieces, tokens = pieces.flatMap ([Token.symbol .comma] ++ ·) ∧
    List.Forall₂ (ItemReads bag) pieces items

section

variable {bag : Params} {tokens : List Token}

theorem listReads_single {item : Formula} (reads : ItemReads bag tokens item) :
    ListReads bag tokens [item] :=
  ⟨[tokens], by simp, by simp [List.intercalate_singleton], .cons reads .nil⟩

theorem listReads_commaSeparated {fragments : List Fragment} {items : List Formula}
    (reads : List.Forall₂ (fun fragment => ItemReads bag (Fragment.squeezed fragment))
      fragments items) (given : fragments ≠ []) :
    ListReads bag (Fragment.commaSeparated fragments).squeezed items :=
  ⟨fragments.map Fragment.squeezed, by simpa using given,
    Fragment.squeezed_commaSeparated fragments, List.forall₂_map_left_iff.mpr reads⟩

theorem ListReads.append {more : List Token} {items others : List Formula}
    (reads : ListReads bag tokens items) (rest : MoreRead bag more others) :
    ListReads bag (tokens ++ more) (items ++ others) := by
  rcases reads with ⟨pieces, given, rfl, each⟩
  rcases rest with ⟨further, rfl, all⟩
  rcases List.exists_cons_of_ne_nil given with ⟨first, pieces, rfl⟩
  refine ⟨first :: pieces ++ further, by simp, ?_, List.rel_append each all⟩
  rw [List.cons_append, Fragment.intercalate_cons_eq, Fragment.intercalate_cons_eq]
  simp

theorem moreRead_flatten {fragments : List Fragment} {items : List (List Formula)}
    (reads : List.Forall₂ (fun fragment => MoreRead bag (Fragment.squeezed fragment))
      fragments items) : MoreRead bag (Fragment.squeezed fragments.flatten) items.flatten := by
  induction reads with
  | nil => exact ⟨[], rfl, .nil⟩
  | cons first _ induction =>
      rcases first with ⟨pieces, shape, each⟩
      rcases induction with ⟨further, rest, all⟩
      exact ⟨pieces ++ further, by simp [shape, rest], List.rel_append each all⟩

theorem ListReads.head {items : List Formula} (reads : ListReads bag tokens items)
    {caps : List Token} {top? : Option Nat}
    (capped : caps = [] ∧ top? = none ∨
      ∃ digits count, digits.toNat? = some count ∧ caps = [.word "TOP", .word digits] ∧
        top? = some count) (distinct : Bool) :
    HeadReads bag ((if distinct then [.word "DISTINCT"] else []) ++ (caps ++ tokens)) distinct
      top? items := by
  rcases reads with ⟨pieces, given, rfl, each⟩
  exact ⟨caps, pieces, rfl, capped, given, each⟩

end

namespace Scope

variable {catalog : Catalog} {bag : Params}

theorem reads_columnUnder (bag : Params) {name aliasName property : String} {entity : Entity}
    {column : Fragment} (accepted : catalog.entity name = .ok entity)
    (found : (aliased catalog).columnUnder aliasName entity property = .ok column) :
    ∃ term, catalog.fieldTerm? ⟨name, property⟩ aliasName = some term ∧
      Reads bag .sum column.squeezed term := by
  rcases columnUnder_eq_ok.mp found with ⟨shown, mapped, rfl⟩
  refine ⟨.column ⟨some aliasName, shown⟩, ?_, ?_⟩
  · simp [Catalog.fieldTerm?, Catalog.columnName?, accepted, mapped, Except.toOption]
  · exact reads_columnFragment bag _

theorem reads_fieldList (bag : Params) {name : String} {entity : Entity} {columns : Fragment}
    (accepted : catalog.entity name = .ok entity)
    (found : (aliased catalog).fieldList entity = .ok columns) :
    ∃ terms, catalog.fieldTerms? name (catalog.aliasName name) = some terms ∧
      ListReads bag columns.squeezed terms := by
  rcases fieldList_cases found with ⟨fragments, rfl, each⟩
  have given : fragments ≠ [] := by
    rintro rfl
    exact Catalog.fields_ne_nil_of_entity accepted (List.forall₂_nil_left_iff.mp each)
  have told : ∃ terms, entity.fields.mapM (fun field =>
        catalog.fieldTerm? ⟨name, field.property⟩ (catalog.aliasName name)) = some terms ∧
      List.Forall₂ (fun fragment => ItemReads bag (Fragment.squeezed fragment))
        fragments terms := by
    apply exists_mapM_eq_some
    refine each.imp ?_
    rintro fragment field ⟨column, reached, shown⟩
    rw [Scope.column, Catalog.aliasName_of_entity accepted] at reached
    rcases reads_columnUnder bag accepted reached with ⟨term, told, reads⟩
    refine ⟨term, told, ?_⟩
    rcases shown with ⟨-, rfl⟩ | rfl
    · exact .inl reads
    · exact itemReads_renamed reads _
  rcases told with ⟨terms, told, reads⟩
  rw [Catalog.fields_of_entity accepted] at told
  exact ⟨terms, told, listReads_commaSeparated reads given⟩

theorem reads_selectedMember (bag : Params) {path : MemberPath} {fragment : Fragment}
    (found : (aliased catalog).selectedMember path = .ok fragment) :
    ∃ term, (Expr.member path).term? (aliased catalog) = some term ∧
      ItemReads bag fragment.squeezed term := by
  rcases selectedMember_cases found with ⟨entity, column, accepted, reached, shown⟩
  have member : (aliased catalog).member path = .ok column := by
    rw [Scope.member]
    exact bind_eq_ok.mpr ⟨entity, accepted, reached⟩
  rcases member_eq_ok.mp member with ⟨reference, resolved, rfl⟩
  refine ⟨.column reference, by simp [Expr.term?, resolved], ?_⟩
  rcases shown with rfl | rfl
  · exact .inl (reads_columnFragment bag reference)
  · exact itemReads_renamed (reads_columnFragment bag reference) _

theorem reads_projection {selector : Expr} {draft later : Draft} {fragment : Fragment}
    (run : ((aliased catalog).projection selector).runFrom draft = (.ok fragment, later))
    (grown : bag.Extends later.params) :
    ∃ terms, selector.projectedTerms? (aliased catalog) = some terms ∧
      ListReads bag fragment.squeezed terms := by
  cases projectionRun_of_projection run with
  | member path shape found =>
      rcases reads_selectedMember bag found with ⟨term, found, reads⟩
      rw [Expr.projectedTerms?, shape]
      exact ⟨[term], by simp [found], listReads_single reads⟩
  | record name bindings fragments shape given inner =>
      rcases reads_selectedBindings inner grown with ⟨terms, found, reads⟩
      rw [Expr.projectedTerms?, shape]
      have listed := ne_nil_of_mapM_eq_some found given reads
      exact ⟨terms, found, listReads_commaSeparated reads listed⟩
  | scalar single inner =>
      rcases Expr.reads_scalar inner with ⟨term, found, reads⟩
      unfold Expr.projectedTerms?
      split
      · next name bindings shape => exact absurd shape (single name bindings)
      · rw [Expr.term?_body, found]
        exact ⟨[term], rfl, listReads_single (.inl (reads_sum_of_primary (reads bag grown)))⟩

end Scope

end EntitySql
