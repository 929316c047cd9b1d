import EntitySql.Proofs.ClauseStarts
import EntitySql.Proofs.JoinClauses

/-! Aliases outside parentheses. Names of tables and columns are quoted, so that any name will
do; aliases are not, and one that passes for a keyword cuts a clause in two wherever it stands
outside parentheses. -/

namespace EntitySql

/-- The aliases that columns stand under in the text of an expression, but for those in
parentheses. -/
def Expr.outerAliases (scope : Scope) : Expr → List String
  | .member path => [scope.aliasFor path.entity]
  | .comparison _ left right =>
      if right.isNullConstant then left.outerAliases scope
      else if left.isNullConstant then right.outerAliases scope
      else left.outerAliases scope ++ right.outerAliases scope.inRightOperand
  | .logical connective left right =>
      (if left.mixesWith connective then [] else left.outerAliases scope) ++
        (if right.mixesWith connective then [] else right.outerAliases scope)
  | .inList operand items _ => if items.isEmpty then [] else operand.outerAliases scope
  | .nullTest operand _ | .like operand _ _ _ | .between operand _ _ => operand.outerAliases scope
  | .lambda _ inner => inner.outerAliases scope
  | .constant _ | .arithmetic .. | .negation _ | .aggregate .. | .bareAggregate _ | .record .. => []

/-- In a conjunction, a disjunction stands in parentheses. -/
def Expr.conjunctAliases (scope : Scope) (expression : Expr) : List String :=
  if expression.mixesWith .and then [] else expression.outerAliases scope

def Expr.projectedAliases (scope : Scope) (selector : Expr) : List String :=
  match selector.body with
  | .record _ bindings => bindings.flatMap (·.2.outerAliases scope)
  | _ => selector.outerAliases scope

namespace Catalog

/-- One alias for each column of an entity. -/
def fieldAliases (catalog : Catalog) (entity aliasName : String) : List String :=
  (catalog.descriptor entity).fields.map fun _ => aliasName

def joinedAliases (catalog : Catalog) (join : Navigation × JoinView) : List String :=
  if join.1.withFields then catalog.fieldAliases join.2.target join.2.aliasName else []

def joinAliases (catalog : Catalog) (join : Navigation × JoinView) : List String :=
  join.2.aliasName :: join.1.condition.outerAliases (.ofJoin catalog join.2)

end Catalog

namespace Query

def selectAliases (catalog : Catalog) (query : Query) : List String :=
  match query.select with
  | none =>
      catalog.fieldAliases query.entity (catalog.aliasName query.entity) ++
        (query.joinViews catalog).flatMap catalog.joinedAliases
  | some selector => selector.projectedAliases (.aliased catalog)

/-- The aliases that the clauses behind the select list show outside parentheses. -/
def clauseAliases (catalog : Catalog) (query : Query) : List String :=
  catalog.aliasName query.entity :: (query.joinViews catalog).flatMap catalog.joinAliases ++
    query.filters.flatMap (Expr.conjunctAliases (.aliased catalog)) ++
    query.groups.flatMap (Expr.outerAliases (.aliased catalog)) ++
    query.having.flatMap (Expr.conjunctAliases (.aliased catalog)) ++
    query.order.flatMap fun item => item.expression.outerAliases (.aliased catalog)

/-- The aliases that a query for rows shows outside parentheses. -/
def outerAliases (catalog : Catalog) (query : Query) : List String :=
  query.selectAliases catalog ++ query.clauseAliases catalog

end Query

theorem Expr.outerAliases_body (scope : Scope) :
    ∀ expression : Expr, expression.body.outerAliases scope = expression.outerAliases scope
  | .lambda _ inner => outerAliases_body scope inner
  | .member _ | .constant _ | .comparison .. | .arithmetic .. | .logical .. | .negation _
  | .nullTest .. | .inList .. | .like .. | .between .. | .aggregate .. | .bareAggregate _
  | .record .. => rfl

/-! Expressions. -/

theorem body_always : Body Fragment.always.squeezed [] :=
  ((body_word (by decide)).cons_mark rfl).cons_word (by decide)

theorem body_never : Body Fragment.never.squeezed [] :=
  ((body_word (by decide)).cons_mark rfl).cons_word (by decide)

theorem body_operatorWord {word : String} (still : quiet word = true) (negated : Bool) :
    Body (Fragment.operatorWord word negated).squeezed [] := by
  rw [Fragment.squeezed_operatorWord]
  cases negated
  · exact body_word still
  · exact (body_word still).cons_word (by decide)

theorem body_input {base : String} {value : Value} {draft later : Draft} {fragment : Fragment}
    (run : (Build.input base value).runFrom draft = (.ok fragment, later)) :
    Body fragment.squeezed [] := by
  rw [Build.runFrom_input] at run
  cases run
  exact body_mark rfl

theorem body_inputs {base : String} {values : List Value} {draft later : Draft}
    {fragments : List Fragment}
    (run : (Build.inputs base values).runFrom draft = (.ok fragments, later)) :
    List.Forall₂ (fun fragment _ => Body (Fragment.squeezed fragment) []) fragments values := by
  refine (Build.placeholders_of_inputs run).imp ?_
  rintro _ _ ⟨name, rfl⟩
  exact body_mark rfl

theorem body_commaSeparated {fragments : List Fragment} {aliases : List (List String)}
    (each : List.Forall₂ (fun fragment shown => Body (Fragment.squeezed fragment) shown)
      fragments aliases) :
    Body (Fragment.commaSeparated fragments).squeezed aliases.flatten := by
  rw [Fragment.squeezed_commaSeparated]
  exact body_intercalate (body_mark rfl) (List.forall₂_map_left_iff.mpr each)

namespace Body

variable {fragment : Fragment} {aliases : List String} (inner : Body fragment.squeezed aliases)

include inner

theorem nullTest (negated : Bool) : Body (Fragment.nullTest fragment negated).squeezed aliases := by
  have none : Body [.word "NULL"] [] := body_word (by decide)
  have is : Body [.word "IS"] [] := body_word (by decide)
  rw [Fragment.squeezed_nullTest]
  cases negated
  · simpa using inner.joined is none
  · simpa using inner.joined is (none.cons_word (by decide : quiet "NOT" = true))

theorem bracketed (bracket : Bool) :
    Body (Fragment.squeezed (if bracket then Fragment.parenthesized fragment else fragment))
      (if bracket then [] else aliases) := by
  cases bracket
  · exact inner
  · simpa using inner.parenthesized

theorem renamed (name : String) : Body (Fragment.renamed fragment name).squeezed aliases := by
  have quoted : Body [.identifier name] [] := body_mark rfl
  simpa [Fragment.renamed] using
    inner.append (quoted.cons_word (by decide : quiet "AS" = true))

theorem called {function : String} (still : quiet function = true) :
    Body (Fragment.call function fragment).squeezed [] := by
  rw [Fragment.squeezed_call]
  exact inner.parenthesized.cons_word still

end Body

namespace Scope

variable (scope : Scope)

theorem body_columnUnder (qualified : scope.qualified = true) {aliasName : String}
    {entity : Entity} {property : String} {column : Fragment}
    (found : scope.columnUnder aliasName entity property = .ok column) :
    Body column.squeezed [aliasName] := by
  rcases columnUnder_eq_ok.mp found with ⟨name, -, rfl⟩
  simp only [qualifierUnder, qualified, if_true, Fragment.squeezed_fragment]
  exact body_column aliasName name

theorem body_member (qualified : scope.qualified = true) {path : MemberPath} {column : Fragment}
    (found : scope.member path = .ok column) :
    Body column.squeezed [scope.aliasFor path.entity] := by
  rcases scope.columnUnder_of_member found with ⟨entity, -, under⟩
  exact scope.body_columnUnder qualified under

theorem body_column (qualified : scope.qualified = true) {name : String} {entity : Entity}
    {property : String} {column : Fragment} (accepted : scope.catalog.entity name = .ok entity)
    (found : scope.column entity property = .ok column) :
    Body column.squeezed [scope.catalog.aliasName name] := by
  rw [Scope.column, Catalog.aliasName_of_entity accepted] at found
  exact scope.body_columnUnder qualified found

end Scope

namespace Expr

variable {scope : Scope} {draft later : Draft} {fragment : Fragment}
  (qualified : scope.qualified = true)

include qualified

theorem ScalarRun.body {expression : Expr} {hint : String}
    (steps : ScalarRun scope hint expression draft fragment later) :
    Body fragment.squeezed (expression.outerAliases scope) := by
  induction steps with
  | member path found => exact scope.body_member qualified found
  | constant value bound => exact body_input bound
  | arithmetic operator _ _ head tail =>
      rw [Fragment.squeezed_parenthesized, Fragment.squeezed_joined]
      have between : Body [.symbol operator.symbol] [] := by cases operator <;> exact body_mark rfl
      exact (head.joined between tail).parenthesized
  | aggregate function _ inner =>
      exact inner.called (by cases function <;> decide)
  | count =>
      have one : Body (Fragment.squeezed [.word "1"]) [] := body_word (by decide)
      exact one.called (by decide)
  | lambda _ inner => exact inner

theorem CompareRun.body {operator : Comparison} {left right : Expr}
    (steps : CompareRun scope operator left right draft fragment later) :
    Body fragment.squeezed ((Expr.comparison operator left right).outerAliases scope) := by
  rw [outerAliases]
  cases steps with
  | nullOnRight null _ inner =>
      rw [if_pos null]
      exact (inner.body qualified).nullTest _
  | nullOnLeft other null _ inner =>
      rw [if_neg other, if_pos null]
      exact (inner.body qualified).nullTest _
  | sides noRight noLeft head tail =>
      rw [if_neg noRight, if_neg noLeft, Fragment.squeezed_joined]
      have rightQualified : scope.inRightOperand.qualified = true := qualified
      have between : Body [.symbol operator.symbol] [] := by cases operator <;> exact body_mark rfl
      exact (head.body qualified).joined between (tail.body rightQualified)

theorem PredicateRun.body {expression : Expr}
    (steps : PredicateRun scope expression draft fragment later) :
    Body fragment.squeezed (expression.outerAliases scope) := by
  induction steps with
  | member path found bound =>
      rw [Fragment.squeezed_joined]
      have between : Body [.symbol .equal] [] := body_mark rfl
      simpa [outerAliases] using
        (scope.body_member qualified found).joined between (body_input bound)
  | always => exact body_always
  | never => exact body_never
  | comparison sides => exact sides.body qualified
  | logical connective left right _ _ head tail =>
      rw [Fragment.squeezed_connected]
      have between : Body [.word connective.keyword] [] :=
        body_word (by cases connective <;> decide)
      exact (head.bracketed _).joined between (tail.bracketed _)
  | negation operand _ inner =>
      have word : quiet "NOT" = true := by decide
      simpa [outerAliases] using inner.parenthesized.cons_word word
  | nullTest negated inner => exact (inner.body qualified).nullTest negated
  | emptyList negated =>
      cases negated with
      | false => exact body_never
      | true => exact body_always
  | inList item items negated inner binding =>
      have bound : List.Forall₂ (fun fragment shown => Body (Fragment.squeezed fragment) shown) _
          ((item :: items).map fun _ => []) :=
        List.forall₂_map_right_iff.mpr (body_inputs binding)
      have word := body_operatorWord (by decide : quiet "IN" = true) negated
      simpa [outerAliases] using
        (inner.body qualified).append (word.append (body_commaSeparated bound).parenthesized)
  | like pattern anchor negated inner binding =>
      have word := body_operatorWord (by decide : quiet "LIKE" = true) negated
      simpa [outerAliases] using
        (inner.body qualified).append (word.append (body_input binding))
  | between low high inner lower upper =>
      have and : Body [.word "AND"] [] := body_word (by decide)
      have ranged : Body [.word "BETWEEN"] [] := body_word (by decide)
      simpa [outerAliases, Connective.keyword] using
        (inner.body qualified).joined ranged ((body_input lower).joined and (body_input upper))
  | lambda _ inner => exact inner

end Expr

/-! Clauses, each with the aliases that it shows. -/

/-- The pieces are clauses, which show these aliases all together. -/
def Clauses (pieces : List (List Token)) (aliases : List String) : Prop :=
  ∃ shown, List.Forall₂ Clause pieces shown ∧ shown.flatten = aliases

namespace Clauses

theorem single {tokens : List Token} {aliases : List String} (clause : Clause tokens aliases) :
    Clauses [tokens] aliases :=
  ⟨[aliases], .cons clause .nil, List.append_nil _⟩

theorem append {left right : List (List Token)} {first second : List String}
    (head : Clauses left first) (tail : Clauses right second) :
    Clauses (left ++ right) (first ++ second) := by
  rcases head with ⟨shown, each, rfl⟩
  rcases tail with ⟨others, more, rfl⟩
  exact ⟨shown ++ others, List.rel_append each more, List.flatten_append⟩

end Clauses

namespace Scope

variable {scope : Scope} {draft later : Draft} (qualified : scope.qualified = true)

include qualified

theorem body_conjuncts {expressions : List Expr} {fragments : List Fragment}
    (run : (scope.conjuncts expressions).runFrom draft = (.ok fragments, later)) :
    List.Forall₂ (fun fragment expression =>
      Body (Fragment.squeezed fragment) (Expr.conjunctAliases scope expression))
      fragments expressions := by
  refine (runs_of_conjuncts run).imp ?_
  rintro _ expression ⟨before, condition, after, steps, rfl⟩
  exact (steps.body qualified).bracketed _

theorem clause_whereClause {filters : List Expr} {fragment : Fragment}
    (run : (scope.whereClause filters).runFrom draft = (.ok fragment, later)) :
    fragment ≠ [] ∧ Clause fragment.squeezed (filters.flatMap (Expr.conjunctAliases scope)) := by
  simp only [whereClause, Build.runFrom_bind_eq_ok, Build.runFrom_pure_eq_ok] at run
  rcases run with ⟨fragments, last, inner, rfl, rfl⟩
  have and : quiet "AND" = true := by decide
  have added : Body (Fragment.squeezed (fragments.flatMap fun condition =>
      [.space, .word "AND", .space] ++ condition))
      (filters.flatMap (Expr.conjunctAliases scope)) := by
    have each := body_conjuncts qualified inner
    clear inner
    induction each with
    | nil => exact body_nil
    | cons first _ induction =>
        simpa using (first.cons_word and).append induction
  refine ⟨List.cons_ne_nil _ _, ?_⟩
  simpa using Clause.of_keyword (by decide : startsAlone "WHERE" = true) (by decide)
    (body_always.append added)

theorem clause_havingClause {conditions : List Expr} {fragment : Fragment}
    (run : (scope.havingClause conditions).runFrom draft = (.ok fragment, later)) :
    fragment = [] ∧ conditions = [] ∨
    fragment ≠ [] ∧ Clause fragment.squeezed
      (conditions.flatMap (Expr.conjunctAliases scope)) := by
  rcases scope.havingClause_cases run with ⟨rfl, rfl, -⟩ | ⟨-, fragments, inner, rfl⟩
  · exact .inl ⟨rfl, rfl⟩
  · have each : List.Forall₂ Body (fragments.map Fragment.squeezed)
        (conditions.map (Expr.conjunctAliases scope)) := by
      simpa using body_conjuncts qualified inner
    have listed := body_intercalate (body_word (by decide : quiet "AND" = true)) each
    refine .inr ⟨List.cons_ne_nil _ _, ?_⟩
    simpa [Fragment.squeezed_intercalate, List.flatMap] using
      Clause.of_keyword (by decide : startsAlone "HAVING" = true) (by decide) listed

theorem clause_groupClause {keys : List Expr} {fragment : Fragment}
    (run : (scope.groupClause keys).runFrom draft = (.ok fragment, later)) :
    fragment = [] ∧ keys = [] ∨
    fragment ≠ [] ∧ Clause fragment.squeezed (keys.flatMap (Expr.outerAliases scope)) := by
  rcases scope.groupClause_cases run with ⟨rfl, rfl, -⟩ | ⟨-, fragments, inner, rfl⟩
  · exact .inl ⟨rfl, rfl⟩
  · have each : List.Forall₂ (fun fragment shown => Body (Fragment.squeezed fragment) shown)
        fragments (keys.map (Expr.outerAliases scope)) := by
      rw [List.forall₂_map_right_iff]
      refine (runs_of_scalars inner).imp ?_
      rintro fragment expression ⟨before, after, steps⟩
      exact steps.body qualified
    refine .inr ⟨List.cons_ne_nil _ _, ?_⟩
    simpa [Fragment.words, List.flatMap] using
      Clause.of_pair (by decide : startTogether "GROUP" "BY" = true) (by decide) (by decide)
        (body_commaSeparated each)

theorem clause_orderClause {items : List SortKey} {fragment : Fragment}
    (run : (scope.orderClause items).runFrom draft = (.ok fragment, later)) :
    fragment = [] ∧ items = [] ∨
    fragment ≠ [] ∧ Clause fragment.squeezed
      (items.flatMap fun item => item.expression.outerAliases scope) := by
  rcases scope.orderClause_cases run with ⟨rfl, rfl, -⟩ | ⟨-, fragments, inner, rfl⟩
  · exact .inl ⟨rfl, rfl⟩
  · have each : List.Forall₂ (fun fragment shown => Body (Fragment.squeezed fragment) shown)
        fragments (items.map fun item => item.expression.outerAliases scope) := by
      rw [List.forall₂_map_right_iff]
      refine (runs_of_sortKeys inner).imp ?_
      rintro _ item ⟨before, key, after, direction, known, steps, rfl⟩
      have word : quiet direction = true := by rcases known with rfl | rfl <;> decide
      simpa using (steps.body qualified).append (body_word word)
    refine .inr ⟨List.cons_ne_nil _ _, ?_⟩
    simpa [Fragment.words, List.flatMap] using
      Clause.of_pair (by decide : startTogether "ORDER" "BY" = true) (by decide) (by decide)
        (body_commaSeparated each)

end Scope

/-! Tables. -/

theorem Dialect.clause_fromClause (dialect : Dialect) {catalog : Catalog} {name : String}
    {entity : Entity} (accepted : catalog.entity name = .ok entity) (noLock : Bool) :
    Clause (dialect.fromClause entity noLock).squeezed [catalog.aliasName name] := by
  rw [dialect.squeezed_fromClause accepted]
  have hint : Body (dialect.tableHint noLock).squeezed [] ∧
      ∀ rest, Unpaired rest → Unpaired ((dialect.tableHint noLock).squeezed ++ rest) := by
    unfold tableHint
    split
    · have word : Body (Fragment.squeezed [.word "NOLOCK"]) [] := body_word (by decide)
      exact ⟨word.called (by decide), fun rest _ => unpaired_word (by decide) _⟩
    · exact ⟨body_nil, fun rest given => given⟩
  exact Clause.of_source _ _ hint.1 hint.2

theorem Scope.clause_joinTable {catalog : Catalog} {root : Entity} {taken : List String}
    {navigation : Navigation} {draft later : Draft} {table : JoinedTable}
    (run : ((aliased catalog).joinTable root taken navigation).runFrom draft =
      (.ok table, later)) :
    Clause table.clause.squeezed
      (catalog.joinAliases (navigation, navigation.view root table.aliasName)) := by
  rcases joinTable_eq_ok run with ⟨target, condition, accepted, -, on, clause, -⟩
  have holds : Body condition.squeezed (navigation.condition.outerAliases
      (.ofJoin catalog (navigation.view root table.aliasName))) :=
    (Expr.predicateRun_of_predicate on).body rfl
  have word : Body [.word "ON"] [] := body_word (by decide)
  have named := (body_alias table.aliasName (fun rest => unpaired_word (by decide) _) word).append
    holds
  have quoted : Body [.identifier target.table] [] := body_mark rfl
  rw [clause]
  cases navigation.kind <;>
    simpa [Catalog.joinAliases, Navigation.view, JoinKind.keywords, Fragment.words,
      Entity.tableName] using
      Clause.of_pair (by decide) (by decide) (by decide) (quoted.append named)

namespace Query

variable {catalog : Catalog} {query : Query} {entity : Entity}
  (accepted : catalog.entity query.entity = .ok entity) {draft later : Draft}
  {tables : List JoinedTable}
  (run : ((Scope.aliased catalog).joins entity (query.joins ++ entity.navigations)).runFrom
    draft = (.ok tables, later))

include accepted run

theorem runs_of_joins :
    List.Forall₂ (fun table join => ∃ navigation before known after,
      ((Scope.aliased catalog).joinTable entity known navigation).runFrom before =
        (.ok table, after) ∧ join = (navigation, navigation.view entity table.aliasName))
      tables (query.joinViews catalog) := by
  have runs := Scope.runs_of_joinTables run
  rw [Catalog.aliasName_of_entity accepted] at runs
  rcases Catalog.entity_eq_ok.mp accepted with ⟨-, rfl⟩
  exact runs

theorem clauses_joins :
    Clauses (tables.map (·.clause.squeezed))
      ((query.joinViews catalog).flatMap catalog.joinAliases) := by
  refine ⟨(query.joinViews catalog).map catalog.joinAliases, ?_, List.flatMap_def.symm⟩
  rw [List.forall₂_map_left_iff, List.forall₂_map_right_iff]
  refine (runs_of_joins accepted run).imp ?_
  rintro table _ ⟨navigation, before, known, after, one, rfl⟩
  exact Scope.clause_joinTable one

end Query

end EntitySql
