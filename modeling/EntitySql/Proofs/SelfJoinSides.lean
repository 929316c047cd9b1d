import EntitySql.Proofs.JoinScopes
import EntitySql.Proofs.Rendering
import EntitySql.Proofs.ShownMembers

/-! The sides of a join of an entity with itself. Both sides have the same members; those in the
right operand of a comparison are to be read under the alias of the join, all others under that
of the entity. They are, but for the operand of a comparison that has the null constant on its
left. -/

namespace EntitySql

namespace Expr

/-- The members that the text of a condition shows, in its order, each with whether it is read as
one in the right operand of a comparison. `besideNull` tells whether the operand on the right of
the null constant is taken for one. -/
def sides (besideNull : Bool) : Expr → List (MemberPath × Bool)
  | .comparison _ left right =>
      left.shown.map (·, false) ++
        right.shown.map (·, if left.isNullConstant then besideNull else true)
  | .logical _ left right => left.sides besideNull ++ right.sides besideNull
  | .negation operand | .lambda _ operand => operand.sides besideNull
  | other => other.shown.map (·, false)

/-- The members on the right of the null constant. -/
def besideNull : Expr → List MemberPath
  | .comparison _ left right => if left.isNullConstant then right.shown else []
  | .logical _ left right => left.besideNull ++ right.besideNull
  | .negation operand | .lambda _ operand => operand.besideNull
  | _ => []

theorem map_fst_sides (flag : Bool) : ∀ expression : Expr,
    (expression.sides flag).map Prod.fst = expression.shown
  | .comparison _ left right => by simp [sides, shown, Function.comp_def]
  | .logical _ left right => by
      rw [sides, shown, List.map_append, map_fst_sides flag left, map_fst_sides flag right]
  | .negation operand | .lambda _ operand => map_fst_sides flag operand
  | .member _ | .constant _ | .arithmetic .. | .nullTest .. | .inList .. | .like .. | .between ..
  | .aggregate .. | .bareAggregate _ | .record .. => by simp [sides, Function.comp_def]

end Expr

/-- A member as a column: under the alias of the join where it is one of the joined entity in a
right operand, and else under the alias of its own entity. -/
def JoinView.mentionOn (join : JoinView) (catalog : Catalog) (side : MemberPath × Bool) : Mention :=
  .column side.1
    (if side.1.entity = join.target ∧ side.2 = true then join.aliasName
      else catalog.aliasName side.1.entity)

theorem Scope.mention_eq_mentionOn {scope : Scope} {join : JoinView}
    (joined : scope.join? = some join) (self : join.selfJoin = true) (path : MemberPath) :
    scope.mention path = join.mentionOn scope.catalog (path, scope.rightOperand) := by
  unfold Scope.mention Scope.aliasFor Scope.joinedAlias? JoinView.mentionOn
  rw [joined]
  by_cases target : join.target = path.entity
  · cases scope.rightOperand <;> simp [self, target]
  · simp [target, Ne.symm target]

namespace Expr

variable {scope : Scope} {draft later : Draft} {fragment : Fragment}

theorem ScalarRun.mentions_eq {expression : Expr} {hint : String}
    (steps : ScalarRun scope hint expression draft fragment later) :
    expression.mentions scope = expression.shown.map scope.mention := by
  induction steps with
  | member path found => rfl
  | constant value bound => rfl
  | arithmetic operator _ _ head tail => rw [mentions, shown, List.map_append, head, tail]
  | aggregate function _ inner => exact inner
  | count => rfl
  | lambda _ inner => exact inner

variable {join : JoinView} (joined : scope.join? = some join) (self : join.selfJoin = true)

include joined self

theorem ScalarRun.mentions_eq_mentionOn {expression : Expr} {hint : String} {right : Bool}
    (side : scope.rightOperand = right)
    (steps : ScalarRun scope hint expression draft fragment later) :
    expression.mentions scope =
      (expression.shown.map (·, right)).map (join.mentionOn scope.catalog) := by
  rw [steps.mentions_eq, List.map_map]
  exact List.map_congr_left fun path _ => side ▸ scope.mention_eq_mentionOn joined self path

theorem CompareRun.mentions_eq_sides (outside : scope.rightOperand = false)
    {operator : Comparison} {left right : Expr}
    (steps : CompareRun scope operator left right draft fragment later) :
    (Expr.comparison operator left right).mentions scope =
      ((Expr.comparison operator left right).sides false).map (join.mentionOn scope.catalog) := by
  rw [mentions, Expr.sides]
  cases steps with
  | nullOnRight null _ inner =>
      rw [if_pos null, shown_of_isNullConstant null, List.map_nil, List.append_nil]
      exact inner.mentions_eq_mentionOn joined self outside
  | nullOnLeft other null _ inner =>
      rw [if_neg other, if_pos null, if_pos null, shown_of_isNullConstant null, List.map_nil,
        List.nil_append]
      exact inner.mentions_eq_mentionOn joined self outside
  | sides noRight noLeft head tail =>
      have rightJoined : scope.inRightOperand.join? = some join := joined
      rw [if_neg noRight, if_neg noLeft, if_neg noLeft, List.map_append,
        head.mentions_eq_mentionOn joined self outside,
        tail.mentions_eq_mentionOn rightJoined self rfl]
      rfl

/-- The members of a condition stand on the sides that they are read on. -/
theorem PredicateRun.mentions_eq_sides (outside : scope.rightOperand = false) {expression : Expr}
    (steps : PredicateRun scope expression draft fragment later) :
    expression.mentions scope =
      (expression.sides false).map (join.mentionOn scope.catalog) := by
  induction steps with
  | member path found bound =>
      exact congrArg ([·]) (outside ▸ scope.mention_eq_mentionOn joined self path)
  | always => rfl
  | never => rfl
  | comparison steps => exact steps.mentions_eq_sides joined self outside
  | logical connective left right _ _ head tail =>
      rw [mentions, Expr.sides, List.map_append, head, tail]
  | negation operand _ inner => exact inner
  | nullTest negated inner =>
      exact (inner.mentions_eq_mentionOn joined self outside :)
  | emptyList negated => rfl
  | inList item items negated inner bound =>
      exact (inner.mentions_eq_mentionOn joined self outside :)
  | like pattern anchor negated inner bound =>
      exact (inner.mentions_eq_mentionOn joined self outside :)
  | between low high inner lower upper =>
      exact (inner.mentions_eq_mentionOn joined self outside :)
  | lambda _ inner => exact inner

end Expr

/-! Where the two readings differ. -/

namespace Expr

variable {catalog : Catalog} {join : JoinView}

theorem mentionOn_eq_iff {path : MemberPath} :
    join.mentionOn catalog (path, true) = join.mentionOn catalog (path, false) ↔
      (path.entity = join.target → join.aliasName = catalog.aliasName join.target) := by
  by_cases target : path.entity = join.target <;> simp [JoinView.mentionOn, target]

theorem length_sides (flag : Bool) (expression : Expr) :
    (expression.sides flag).length = expression.shown.length := by
  rw [← map_fst_sides flag, List.length_map]

/-- Members are read on the side that they stand on, but for those on the right of the null
constant, and there it makes no difference where the alias of the join is that of the entity. -/
theorem sides_eq_iff : ∀ expression : Expr,
    (expression.sides true).map (join.mentionOn catalog) =
        (expression.sides false).map (join.mentionOn catalog) ↔
      ∀ path ∈ expression.besideNull,
        path.entity = join.target → join.aliasName = catalog.aliasName join.target
  | .comparison operator left right => by
      simp only [sides, besideNull, List.map_append, List.append_cancel_left_eq, List.map_map]
      split_ifs
      · rw [List.map_inj_left]
        exact forall₂_congr fun path _ => mentionOn_eq_iff
      · simp
  | .logical operator left right => by
      have lengths : ((left.sides true).map (join.mentionOn catalog)).length =
          ((left.sides false).map (join.mentionOn catalog)).length := by
        rw [List.length_map, List.length_map, length_sides, length_sides]
      simp only [sides, besideNull, List.map_append, List.forall_mem_append,
        ← sides_eq_iff left, ← sides_eq_iff right]
      exact ⟨fun same => List.append_inj same lengths, fun same => by rw [same.1, same.2]⟩
  | .negation operand | .lambda _ operand => sides_eq_iff operand
  | .member _ | .constant _ | .arithmetic .. | .nullTest .. | .inList .. | .like .. | .between ..
  | .aggregate .. | .bareAggregate _ | .record .. => by simp [sides, besideNull]

end Expr

theorem Mention.eq_of_naming? {catalog : Catalog} {mention other : Mention} {path : MemberPath}
    (member : mention.path? = some path) (same : other.path? = some path) {naming : Naming}
    (named : mention.naming? catalog = some naming) (again : other.naming? catalog = some naming) :
    mention = other := by
  cases mention <;> cases member
  cases other <;> cases same
  rcases Option.map_eq_some_iff.mp named with ⟨name, -, rfl⟩
  rcases Option.map_eq_some_iff.mp again with ⟨_, -, equal⟩
  cases equal
  rfl

/-- Columns of the same members that some tokens mention are mentioned under the same aliases. -/
theorem Mentions.eq_of_members {catalog : Catalog} {tokens : List Token}
    {first second : List Mention} (one : Mentions catalog tokens first)
    (other : Mentions catalog tokens second) {paths : List MemberPath}
    (members : first.map Mention.path? = paths.map some)
    (same : second.map Mention.path? = paths.map some) : first = second := by
  have named := one.map_namings
  have again := other.map_namings
  clear one other
  generalize namings tokens = namings at named again
  induction paths generalizing first second namings with
  | nil => rw [List.map_eq_nil_iff.mp members, List.map_eq_nil_iff.mp same]
  | cons path paths induction =>
      rw [List.map_cons, List.map_eq_cons_iff] at members same
      rcases members with ⟨mention, first, rfl, own, members⟩
      rcases same with ⟨mention', second, rfl, own', same⟩
      cases namings with
      | nil => cases named
      | cons naming namings =>
          simp only [List.map_cons, List.cons.injEq] at named again
          rw [Mention.eq_of_naming? own own' named.1.symm again.1.symm,
            induction members same _ named.2 again.2]

theorem JoinView.paths_sides (join : JoinView) (catalog : Catalog) (flag : Bool)
    (expression : Expr) :
    ((expression.sides flag).map (join.mentionOn catalog)).map Mention.path? =
      expression.shown.map some := by
  rw [← Expr.map_fst_sides flag, List.map_map, List.map_map]
  rfl

/-- In the condition of a join of an entity with itself, its members stand under the alias of the
join in the right operands of comparisons and under that of the entity elsewhere, just where none
of them stands on the right of the null constant, unless both aliases are the same. Rendered step
by step, with or without success, a condition leaves the context as it was but for what it binds
and logs. -/
theorem self_join_sides_iff (catalog : Catalog) (target aliasName : String) :
    (∀ (expression : Expr) (draft later : Draft) (fragment : Fragment),
      (expression.predicate (.ofJoin catalog ⟨target, aliasName, true⟩)).runFrom draft =
        (.ok fragment, later) →
      Mentions catalog fragment.squeezed
        ((expression.sides false).map (JoinView.mentionOn ⟨target, aliasName, true⟩ catalog)) ∧
      (Mentions catalog fragment.squeezed
          ((expression.sides true).map (JoinView.mentionOn ⟨target, aliasName, true⟩ catalog)) ↔
        ∀ path ∈ expression.besideNull,
          path.entity = target → aliasName = catalog.aliasName target) ∧
      (catalog.PlainProperties → isPlainIdentifier aliasName = true →
        ∀ dialect : Dialect, dialect.readTokens (fragment.text dialect.lexical) = some fragment)) ∧
    ∀ (expression : Expr) (context : Context),
      runOn (Rendering.predicate expression) context =
        (((expression.predicate context.scope).runFrom context.draft).1,
          { context with
            draft := ((expression.predicate context.scope).runFrom context.draft).2 }) := by
  refine ⟨?_, Rendering.follows_predicate⟩
  intro expression draft later fragment run
  let join : JoinView := ⟨target, aliasName, true⟩
  have steps := Expr.predicateRun_of_predicate run
  have sides : expression.mentions (.ofJoin catalog join) =
      (expression.sides false).map (join.mentionOn catalog) :=
    steps.mentions_eq_sides rfl rfl rfl
  have mentioned := steps.mentioned rfl
  rw [sides] at mentioned
  have agree : (expression.sides true).map (join.mentionOn catalog) =
        (expression.sides false).map (join.mentionOn catalog) ↔
      ∀ path ∈ expression.besideNull,
        path.entity = target → aliasName = catalog.aliasName target :=
    expression.sides_eq_iff
  refine ⟨mentioned, ?_, ?_⟩
  · rw [← agree]
    constructor
    · intro sided
      exact sided.eq_of_members mentioned (join.paths_sides catalog true expression)
        (join.paths_sides catalog false expression)
    · intro same
      rw [same]
      exact mentioned
  · intro plain named dialect
    exact dialect.readTokens_text
      (Expr.written_predicate (Scope.plainJoin_ofJoin catalog named) (plain.members expression)
        run).legible

/-- People joined with others: who is older, of a known age. -/
theorem self_join_sides_iff_people :
    ∃ expression fragment later,
      (Expr.predicate (.ofJoin .people ⟨"Person", "other", true⟩) expression).runFrom {} =
        (.ok fragment, later) ∧
      Dialect.mysql.readTokens (fragment.text Dialect.mysql.lexical) = some fragment ∧
      fragment.text Dialect.mysql.lexical =
        "people.\x60Age\x60 > other.\x60Age\x60 AND people.\x60Age\x60 IS NOT NULL" ∧
      Mentions .people fragment.squeezed
        [.column ⟨"Person", "Age"⟩ "people", .column ⟨"Person", "Age"⟩ "other",
          .column ⟨"Person", "Age"⟩ "people"] ∧
      runOn (Rendering.predicate expression)
          ⟨.ofJoin .people ⟨"Person", "other", true⟩, {}⟩ =
        (.ok fragment, ⟨.ofJoin .people ⟨"Person", "other", true⟩, later⟩) := by
  let age : Expr := .column "Person" "Age"
  let older : Expr := .logical .and (.comparison .greater age age)
    (.comparison .notEqual age (.constant .null))
  rcases self_join_sides_iff .people "Person" "other" with ⟨sides, rendered⟩
  have run : (older.predicate (.ofJoin .people ⟨"Person", "other", true⟩)).runFrom {} =
    (.ok _, _) := rfl
  rcases sides older {} _ _ run with ⟨-, sided, reads⟩
  exact ⟨older, _, _, run, reads plainProperties_people (by decide) .mysql, by decide +kernel,
    sided.mpr (by decide), rendered older _⟩

/-- On the right of the null constant, the age is not that of the other person. -/
theorem self_join_side_missed :
    ∃ fragment later,
      ((Expr.comparison .equal (.constant .null) (.column "Person" "Age")).predicate
        (.ofJoin .people ⟨"Person", "other", true⟩)).runFrom {} = (.ok fragment, later) ∧
      fragment.text Dialect.mysql.lexical = "people.\x60Age\x60 IS NULL" ∧
      ¬ Mentions .people fragment.squeezed [.column ⟨"Person", "Age"⟩ "other"] := by
  refine ⟨_, _, rfl, by decide +kernel, ?_⟩
  intro mentioned
  exact absurd mentioned.map_namings (by decide +kernel)

end EntitySql
