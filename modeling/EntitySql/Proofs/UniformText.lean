import EntitySql.Proofs.UniformBuild

/-! Conditions, scalars and what is made of them are built uniformly from expressions
that are alike: the text is one for all variants. A branch that is taken on a value is
taken on one that no variant replaces. -/

namespace EntitySql

variable {Variant : Type u} {replaced : (Variant → Value) → Prop}

namespace Expr

theorem steady_scalar (scope : Scope) (hint : String) {expression : Variant → Expr}
    (alike : Alike replaced expression) :
    Build.Steady replaced fun variant => (expression variant).scalar scope hint := by
  induction alike generalizing hint with
  | member reference =>
      simp only [scalar]
      exact Build.steady_lift _
  | constant value =>
      simp only [scalar]
      exact Build.steady_input hint (.inl ⟨value, fun _ => rfl⟩)
  | replacement own ordinary =>
      simp only [scalar]
      exact Build.steady_input hint (.inr own)
  | arithmetic operator left right first second =>
      rcases left.hint? with ⟨leftHint, leftHints⟩
      rcases right.hint? with ⟨rightHint, rightHints⟩
      simp only [scalar, leftHints, rightHints]
      apply (first _).bind
      intro firstText
      apply (second _).bind
      intro secondText
      exact Build.steady_pure _
  | aggregate function operand induction =>
      rcases operand.hint? with ⟨operandHint, operandHints⟩
      simp only [scalar, operandHints]
      apply (induction _).bind
      intro argument
      exact Build.steady_pure _
  | bareAggregate function =>
      cases function with
      | count =>
          simp only [scalar]
          exact Build.steady_pure _
      | _ =>
          simp only [scalar]
          exact Build.uniform_fail _
  | lambda entity inner induction =>
      simp only [scalar]
      exact induction hint
  | _ =>
      simp only [scalar, Expr.kind]
      exact Build.uniform_fail _

theorem steady_nullComparison (scope : Scope) (operator : Comparison)
    {operand : Variant → Expr} (alike : Alike replaced operand) :
    Build.Steady replaced fun variant => nullComparison scope operator (operand variant) := by
  simp only [nullComparison]
  apply (steady_scalar scope unnamed alike).bind
  intro tested
  cases operator with
  | equal | notEqual => exact Build.steady_pure _
  | _ => exact Build.uniform_fail _

theorem steady_compare (scope : Scope) (operator : Comparison) {left right : Variant → Expr}
    (leftAlike : Alike replaced left) (rightAlike : Alike replaced right) :
    Build.Steady replaced fun variant =>
      compare scope operator (left variant) (right variant) := by
  rcases leftAlike.isNullConstant with ⟨leftNull, leftNulls⟩
  rcases rightAlike.isNullConstant with ⟨rightNull, rightNulls⟩
  rcases leftAlike.hint? with ⟨leftHint, leftHints⟩
  rcases rightAlike.hint? with ⟨rightHint, rightHints⟩
  simp only [compare, leftNulls, rightNulls, leftHints, rightHints]
  cases rightNull with
  | true => exact steady_nullComparison scope operator leftAlike
  | false =>
      cases leftNull with
      | true => exact steady_nullComparison scope operator rightAlike
      | false =>
          apply (steady_scalar scope _ leftAlike).bind
          intro first
          apply (steady_scalar scope.inRightOperand _ rightAlike).bind
          intro second
          exact Build.steady_pure _

/-- A constant that may be replaced is no condition. -/
theorem predicate_of_isOrdinary (scope : Scope) {value : Value}
    (ordinary : value.isOrdinary = true) :
    (constant value).predicate scope = Build.fail (.unsupported (.node .constant) .predicate) := by
  cases value with
  | null | boolean value => cases ordinary
  | _ => simp only [predicate, Expr.kind]

theorem steady_predicate (scope : Scope) {expression : Variant → Expr}
    (alike : Alike replaced expression) :
    Build.Steady replaced fun variant => (expression variant).predicate scope := by
  induction alike with
  | member reference =>
      simp only [predicate]
      apply (Build.steady_lift _).bind
      intro column
      apply (Build.steady_input _ (.inl ⟨.boolean true, fun _ => rfl⟩)).bind
      intro truth
      exact Build.steady_pure _
  | constant value =>
      cases ordinary : value.isOrdinary with
      | true =>
          simp only [predicate_of_isOrdinary scope ordinary]
          exact Build.uniform_fail _
      | false =>
          cases value with
          | null =>
              simp only [predicate]
              exact Build.uniform_fail _
          | boolean truth =>
              cases truth <;> simp only [predicate] <;> exact Build.steady_pure _
          | _ => cases ordinary
  | replacement own ordinary =>
      simp only [predicate_of_isOrdinary scope (ordinary _)]
      exact Build.uniform_fail _
  | comparison operator left right _ _ =>
      simp only [predicate]
      exact steady_compare scope operator left right
  | logical connective left right first second =>
      rcases left.mixesWith connective with ⟨leftMixed, leftMixes⟩
      rcases right.mixesWith connective with ⟨rightMixed, rightMixes⟩
      simp only [predicate, leftMixes, rightMixes]
      apply first.bind
      intro firstText
      apply second.bind
      intro secondText
      exact Build.steady_pure _
  | negation operand induction =>
      simp only [predicate]
      apply induction.bind
      intro inner
      exact Build.steady_pure _
  | nullTest negated operand _ =>
      simp only [predicate]
      apply (steady_scalar scope unnamed operand).bind
      intro tested
      exact Build.steady_pure _
  | inList items negated operand varies _ =>
      rcases operand.hint? with ⟨hint, hints⟩
      simp only [predicate, hints, List.isEmpty_map]
      cases items.isEmpty with
      | true => exact Build.steady_pure _
      | false =>
          apply (steady_scalar scope _ operand).bind
          intro subject
          apply (Build.steady_inputs _ varies).bind
          intro bound
          exact Build.steady_pure _
  | like pattern anchor negated operand varies _ =>
      rcases operand.hint? with ⟨hint, hints⟩
      simp only [predicate, hints]
      apply (steady_scalar scope _ operand).bind
      intro subject
      apply (Build.steady_input _ varies).bind
      intro bound
      exact Build.steady_pure _
  | between operand lowVaries highVaries _ =>
      rcases operand.hint? with ⟨hint, hints⟩
      simp only [predicate, hints]
      apply (steady_scalar scope _ operand).bind
      intro subject
      apply (Build.steady_input _ lowVaries).bind
      intro least
      apply (Build.steady_input _ highVaries).bind
      intro greatest
      exact Build.steady_pure _
  | lambda entity inner induction =>
      simp only [predicate]
      exact induction
  | _ =>
      simp only [predicate, Expr.kind]
      exact Build.uniform_fail _

theorem steady_conjunct (scope : Scope) {expression : Variant → Expr}
    (alike : Alike replaced expression) :
    Build.Steady replaced fun variant => (expression variant).conjunct scope := by
  rcases alike.mixesWith .and with ⟨mixed, mixes⟩
  simp only [conjunct, mixes]
  apply (steady_predicate scope alike).bind
  intro condition
  exact Build.steady_pure _

end Expr

/-! Clauses. -/

namespace Scope

variable (scope : Scope)

theorem steady_conjuncts {expressions : List (Variant → Expr)}
    (alike : ∀ expression ∈ expressions, Expr.Alike replaced expression) :
    Build.Steady replaced fun variant => scope.conjuncts (expressions.map (· variant)) := by
  induction expressions with
  | nil => exact Build.steady_pure []
  | cons expression expressions induction =>
      simp only [List.map_cons, conjuncts]
      apply (Expr.steady_conjunct scope (alike expression List.mem_cons_self)).bind
      intro first
      apply (induction fun other listed => alike other (List.mem_cons_of_mem _ listed)).bind
      intro rest
      exact Build.steady_pure _

theorem steady_scalars {expressions : List (Variant → Expr)}
    (alike : ∀ expression ∈ expressions, Expr.Alike replaced expression) :
    Build.Steady replaced fun variant => scope.scalars (expressions.map (· variant)) := by
  induction expressions with
  | nil => exact Build.steady_pure []
  | cons expression expressions induction =>
      simp only [List.map_cons, scalars]
      apply (Expr.steady_scalar scope _ (alike expression List.mem_cons_self)).bind
      intro first
      apply (induction fun other listed => alike other (List.mem_cons_of_mem _ listed)).bind
      intro rest
      exact Build.steady_pure _

theorem steady_sortKeys {keys : List (SortDirection × (Variant → Expr))}
    (alike : ∀ key ∈ keys, Expr.Alike replaced key.2) :
    Build.Steady replaced fun variant =>
      scope.sortKeys (keys.map fun key => ⟨key.2 variant, key.1⟩) := by
  induction keys with
  | nil => exact Build.steady_pure []
  | cons key keys induction =>
      simp only [List.map_cons, sortKeys]
      apply (Expr.steady_scalar scope _ (alike key List.mem_cons_self)).bind
      intro first
      apply (induction fun other listed => alike other (List.mem_cons_of_mem _ listed)).bind
      intro rest
      exact Build.steady_pure _

theorem steady_whereClause {filters : List (Variant → Expr)}
    (alike : ∀ filter ∈ filters, Expr.Alike replaced filter) :
    Build.Steady replaced fun variant => scope.whereClause (filters.map (· variant)) := by
  simp only [whereClause]
  apply (scope.steady_conjuncts alike).bind
  intro conditions
  exact Build.steady_pure _

theorem steady_groupClause {keys : List (Variant → Expr)}
    (alike : ∀ key ∈ keys, Expr.Alike replaced key) :
    Build.Steady replaced fun variant => scope.groupClause (keys.map (· variant)) := by
  simp only [groupClause, List.isEmpty_map]
  cases keys.isEmpty with
  | true => exact Build.steady_pure _
  | false =>
      apply (scope.steady_scalars alike).bind
      intro fragments
      exact Build.steady_pure _

theorem steady_havingClause {conditions : List (Variant → Expr)}
    (alike : ∀ condition ∈ conditions, Expr.Alike replaced condition) :
    Build.Steady replaced fun variant => scope.havingClause (conditions.map (· variant)) := by
  simp only [havingClause, List.isEmpty_map]
  cases conditions.isEmpty with
  | true => exact Build.steady_pure _
  | false =>
      apply (scope.steady_conjuncts alike).bind
      intro fragments
      exact Build.steady_pure _

theorem steady_orderClause {keys : List (SortDirection × (Variant → Expr))}
    (alike : ∀ key ∈ keys, Expr.Alike replaced key.2) :
    Build.Steady replaced fun variant =>
      scope.orderClause (keys.map fun key => ⟨key.2 variant, key.1⟩) := by
  simp only [orderClause, List.isEmpty_map]
  cases keys.isEmpty with
  | true => exact Build.steady_pure _
  | false =>
      apply (scope.steady_sortKeys alike).bind
      intro fragments
      exact Build.steady_pure _

/-! Select lists. -/

theorem steady_selectedBindings {bindings : List (String × (Variant → Expr))}
    (alike : ∀ binding ∈ bindings, Expr.Alike replaced binding.2) :
    Build.Steady replaced fun variant =>
      scope.selectedBindings (bindings.map fun binding => (binding.1, binding.2 variant)) := by
  induction bindings with
  | nil => exact Build.steady_pure []
  | cons binding bindings induction =>
      simp only [List.map_cons, selectedBindings]
      apply (Expr.steady_scalar scope _ (alike binding List.mem_cons_self)).bind
      intro value
      apply (induction fun other listed => alike other (List.mem_cons_of_mem _ listed)).bind
      intro rest
      exact Build.steady_pure _

theorem steady_projection {selector : Variant → Expr} (alike : Expr.Alike replaced selector) :
    Build.Steady replaced fun variant => scope.projection (selector variant) := by
  have given := Expr.steady_scalar scope Expr.unnamed alike
  induction alike with
  | member reference => exact Build.steady_lift _
  | record entity bindings alike _ =>
      simp only [projection, Expr.body, List.isEmpty_map]
      cases bindings.isEmpty with
      | true => exact Build.uniform_fail _
      | false =>
          apply (scope.steady_selectedBindings alike).bind
          intro fragments
          exact Build.steady_pure _
  | aggregate | bareAggregate | comparison | arithmetic => exact given
  | lambda entity inner induction => exact induction given
  | _ =>
      simp only [projection, Expr.body, Expr.kind]
      exact Build.uniform_fail _

theorem steady_selectList (entity : Entity) {select : Option (Variant → Expr)}
    (alike : ∀ selector ∈ select, Expr.Alike replaced selector) :
    Build.Steady replaced fun variant => scope.selectList entity (select.map (· variant)) := by
  cases select with
  | none => exact Build.steady_lift _
  | some selector => exact scope.steady_projection (alike selector rfl)

theorem steady_summarizedColumn {select : Option (Variant → Expr)}
    (alike : ∀ selector ∈ select, Expr.Alike replaced selector) :
    Build.Steady replaced fun variant => scope.summarizedColumn (select.map (· variant)) := by
  cases select with
  | none => exact Build.uniform_fail _
  | some selector =>
      have given := alike selector rfl
      clear alike
      induction given with
      | member reference => exact Build.steady_lift _
      | lambda entity inner induction => exact induction
      | _ =>
          simp only [Option.map_some, summarizedColumn, Expr.body, Expr.kind]
          exact Build.uniform_fail _

/-! Joins. -/

theorem steady_joinTable (root : Entity) (taken : List String)
    {navigation : Variant → Navigation} (alike : Navigation.Alike replaced navigation) :
    Build.Steady replaced fun variant => scope.joinTable root taken (navigation variant) := by
  cases alike with
  | intro fixed alike =>
      simp only [joinTable]
      apply (Build.steady_lift _).bind
      intro target
      have joined := Expr.steady_predicate
        (.ofJoin scope.catalog
          { target := fixed.target
            aliasName := joinAlias taken target.aliasName fixed.name
            selfJoin := fixed.target = root.name })
        alike
      apply joined.bind
      intro condition
      apply (Build.steady_lift (scope.joinedColumns _ fixed target)).bind
      intro columns
      exact Build.steady_pure _

theorem steady_joinTables (root : Entity) (taken : List String)
    {navigations : List (Variant → Navigation)}
    (alike : ∀ navigation ∈ navigations, Navigation.Alike replaced navigation) :
    Build.Steady replaced fun variant =>
      scope.joinTables root taken (navigations.map (· variant)) := by
  induction navigations generalizing taken with
  | nil => exact Build.steady_pure []
  | cons navigation navigations induction =>
      simp only [List.map_cons, joinTables]
      apply (scope.steady_joinTable root taken (alike navigation List.mem_cons_self)).bind
      intro first
      apply (induction _ fun other listed => alike other (List.mem_cons_of_mem _ listed)).bind
      intro rest
      exact Build.steady_pure _

/-! Assignments. -/

theorem steady_boundAssignments (entity : Entity) {bindings : List (String × (Variant → Expr))}
    (alike : ∀ binding ∈ bindings, Expr.Alike replaced binding.2) :
    Build.Steady replaced fun variant =>
      scope.boundAssignments entity
        (bindings.map fun binding => (binding.1, binding.2 variant)) := by
  induction bindings with
  | nil => exact Build.steady_pure []
  | cons binding bindings induction =>
      simp only [List.map_cons, boundAssignments]
      apply (Build.steady_lift _).bind
      intro column
      apply (Expr.steady_scalar scope _ (alike binding List.mem_cons_self)).bind
      intro value
      apply (induction fun other listed => alike other (List.mem_cons_of_mem _ listed)).bind
      intro rest
      exact Build.steady_pure _

theorem steady_setClause {updater : Variant → Expr} (alike : Expr.Alike replaced updater) :
    Build.Steady replaced fun variant => scope.setClause (updater variant) := by
  induction alike with
  | record name bindings alike _ =>
      simp only [setClause, Expr.body, List.isEmpty_map]
      cases bindings.isEmpty with
      | true => exact Build.uniform_fail _
      | false =>
          apply (Build.steady_lift _).bind
          intro entity
          apply (scope.steady_boundAssignments entity alike).bind
          intro assignments
          exact Build.steady_pure _
  | lambda entity inner induction => exact induction
  | _ =>
      simp only [setClause, Expr.body, Expr.kind]
      exact Build.uniform_fail _

section

variable {record : Variant → Record}
  (varies : ∀ property, Value.Varies replaced fun variant => (record variant).value property)

include varies

theorem steady_boundFields (entity : Entity) (fields : List Field) :
    Build.Steady replaced fun variant => scope.boundFields entity (record variant) fields := by
  induction fields with
  | nil => exact Build.steady_pure []
  | cons field fields induction =>
      simp only [boundFields]
      apply (Build.steady_lift _).bind
      intro column
      apply (Build.steady_input _ (varies field.property)).bind
      intro placeholder
      apply induction.bind
      intro rest
      exact Build.steady_pure _

theorem steady_recordSetClause (entity : Entity) (exclude : List String) :
    Build.Steady replaced fun variant =>
      scope.recordSetClause entity (record variant) exclude := by
  simp only [recordSetClause]
  apply (scope.steady_boundFields varies entity _).bind
  intro bound
  cases bound.isEmpty with
  | true => exact Build.uniform_fail _
  | false => exact Build.steady_pure _

theorem steady_insertLists (entity : Entity) (exclude : List String) :
    Build.Steady replaced fun variant => scope.insertLists entity (record variant) exclude := by
  simp only [insertLists]
  apply (scope.steady_boundFields varies entity _).bind
  intro bound
  cases bound.isEmpty with
  | true => exact Build.uniform_fail _
  | false => exact Build.steady_pure _

/-- Whether a key is null decides between a failure and a comparison, so it has to be
so in every variant or in none. -/
theorem steady_keyComparisons (entity : Entity) {keys : List String}
    (nulls : ∀ key ∈ keys, Same fun variant => ((record variant).value key).isNull) :
    Build.Steady replaced fun variant => scope.keyComparisons entity (record variant) keys := by
  induction keys with
  | nil => exact Build.steady_pure []
  | cons key keys induction =>
      rcases nulls key List.mem_cons_self with ⟨null, same⟩
      simp only [keyComparisons, same]
      cases null with
      | true => exact Build.uniform_fail _
      | false =>
          apply (Build.steady_lift _).bind
          intro column
          apply (Build.steady_input _ (varies key)).bind
          intro bound
          apply (induction fun other listed => nulls other (List.mem_cons_of_mem _ listed)).bind
          intro rest
          exact Build.steady_pure _

theorem steady_keyConditions {entity : Entity}
    (nulls : ∀ key ∈ entity.keys, Same fun variant => ((record variant).value key).isNull) :
    Build.Steady replaced fun variant => scope.keyConditions entity (record variant) := by
  simp only [keyConditions]
  cases entity.keys.isEmpty with
  | true => exact Build.uniform_fail _
  | false =>
      apply (scope.steady_keyComparisons varies entity nulls).bind
      intro comparisons
      exact Build.steady_pure _

end

/-! Returned columns, which no parameter is bound for. -/

theorem same_returnedBinding (name : String) {expression : Variant → Expr}
    (alike : Expr.Alike replaced expression) :
    Same fun variant => scope.returnedBinding (name, expression variant) := by
  rcases alike.asMember? with ⟨member?, members⟩
  rcases alike.kind with ⟨kind, kinds⟩
  apply same_of_eq
  intro variant
  simp only [returnedBinding, members, kinds]
  rfl

theorem same_mapM_returnedBinding {bindings : List (String × (Variant → Expr))}
    (alike : ∀ binding ∈ bindings, Expr.Alike replaced binding.2) :
    Same fun variant =>
      (bindings.map fun binding => (binding.1, binding.2 variant)).mapM scope.returnedBinding := by
  induction bindings with
  | nil => exact ⟨_, fun _ => rfl⟩
  | cons binding bindings induction =>
      rcases scope.same_returnedBinding binding.1 (alike binding List.mem_cons_self) with
        ⟨first, firsts⟩
      rcases induction fun other listed => alike other (List.mem_cons_of_mem _ listed) with
        ⟨rest, rests⟩
      apply same_of_eq
      intro variant
      simp only [List.map_cons, List.mapM_cons, firsts, rests]
      rfl

theorem same_returnedColumns (entity : Entity) {select : Option (Variant → Expr)}
    (alike : ∀ selector ∈ select, Expr.Alike replaced selector) :
    Same fun variant => scope.returnedColumns entity (select.map (· variant)) := by
  cases select with
  | none => exact ⟨_, fun _ => rfl⟩
  | some selector =>
      have given := alike selector rfl
      clear alike
      induction given with
      | record name bindings alike _ =>
          rcases scope.same_mapM_returnedBinding alike with ⟨columns, found⟩
          apply same_of_eq
          intro variant
          simp only [Option.map_some, returnedColumns, Expr.body, List.isEmpty_map, found,
            Expr.kind]
          rfl
      | lambda entity inner induction => exact induction
      | _ =>
          simp only [Option.map_some, returnedColumns, Expr.body, Expr.kind]
          exact ⟨_, fun _ => rfl⟩

end Scope

theorem Build.steady_outputs (properties : List String) :
    Steady replaced fun _ : Variant => outputs properties := by
  induction properties with
  | nil => exact steady_pure []
  | cons property properties induction =>
      simp only [outputs]
      apply (steady_output _).bind
      intro first
      apply induction.bind
      intro rest
      exact steady_pure _

theorem Dialect.steady_returningClause (dialect : Dialect) (entity : Entity)
    (columns : List ReturnedColumn) :
    Build.Steady replaced fun _ : Variant => returningClause dialect entity columns := by
  cases dialect with
  | mysql => exact Build.steady_pure _
  | sqlServer => exact Build.steady_pure _
  | oracle =>
      simp only [returningClause]
      apply (Build.steady_outputs _).bind
      intro outputs
      exact Build.steady_pure _

end EntitySql
