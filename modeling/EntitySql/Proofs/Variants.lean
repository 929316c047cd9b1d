import EntitySql.Operation

/-! Inputs of one shape. The inputs that are compared form a family, one for each
variant: two of them, or as many as there are ways to fill the shape. What differs
between them is a family of values, and the variants of everything else are alike
where they are the same but for such values. Which families of values may differ is
left open. -/

namespace EntitySql

/-- What does not depend on the variant. -/
def Same {Variant : Type u} {α : Type v} (results : Variant → α) : Prop :=
  ∃ result, ∀ variant, results variant = result

theorem same_of_eq {Variant : Type u} {α : Type v} {results : Variant → α} {result : α}
    (equal : ∀ variant, results variant = result) : Same results :=
  ⟨result, equal⟩

namespace Value

/-- Values whose kind the shape of a statement does not depend on: neither the null
value nor a truth value. -/
def isOrdinary : Value → Bool
  | .null => false
  | .boolean _ => false
  | _ => true

end Value

variable {Variant : Type u}

section

variable (replaced : (Variant → Value) → Prop)

/-- A value of each variant: the same in all of them unless it may be replaced. -/
def Value.Varies (value : Variant → Value) : Prop :=
  Same value ∨ replaced value

/-- Expressions that are the same but for constants, items of lists, patterns and
bounds. A constant is replaced by ordinary ones only. -/
inductive Expr.Alike : (Variant → Expr) → Prop
  | member (reference : MemberPath) : Alike fun _ => .member reference
  | constant (value : Value) : Alike fun _ => .constant value
  | replacement {value : Variant → Value} :
      replaced value →
      (∀ variant, (value variant).isOrdinary = true) →
      Alike fun variant => .constant (value variant)
  | comparison (operator : Comparison) {left right : Variant → Expr} :
      Alike left →
      Alike right →
      Alike fun variant => .comparison operator (left variant) (right variant)
  | arithmetic (operator : Arithmetic) {left right : Variant → Expr} :
      Alike left →
      Alike right →
      Alike fun variant => .arithmetic operator (left variant) (right variant)
  | logical (operator : Connective) {left right : Variant → Expr} :
      Alike left →
      Alike right →
      Alike fun variant => .logical operator (left variant) (right variant)
  | negation {operand : Variant → Expr} :
      Alike operand →
      Alike fun variant => .negation (operand variant)
  | nullTest (negated : Bool) {operand : Variant → Expr} :
      Alike operand →
      Alike fun variant => .nullTest (operand variant) negated
  | inList (items : List (Variant → Value)) (negated : Bool) {operand : Variant → Expr} :
      Alike operand →
      (∀ item ∈ items, Value.Varies replaced item) →
      Alike fun variant => .inList (operand variant) (items.map (· variant)) negated
  | like (pattern : Variant → String) (anchor : Anchor) (negated : Bool)
      {operand : Variant → Expr} :
      Alike operand →
      Value.Varies replaced (fun variant => .text (anchor.wrap (pattern variant))) →
      Alike fun variant => .like (operand variant) (pattern variant) anchor negated
  | between {low high : Variant → Value} {operand : Variant → Expr} :
      Alike operand →
      Value.Varies replaced low →
      Value.Varies replaced high →
      Alike fun variant => .between (operand variant) (low variant) (high variant)
  | aggregate (function : Aggregate) {operand : Variant → Expr} :
      Alike operand →
      Alike fun variant => .aggregate function (operand variant)
  | bareAggregate (function : Aggregate) : Alike fun _ => .bareAggregate function
  | record (entity : String) (bindings : List (String × (Variant → Expr))) :
      (∀ binding ∈ bindings, Alike binding.2) →
      Alike fun variant =>
        .record entity (bindings.map fun binding => (binding.1, binding.2 variant))
  | lambda (entity : String) {inner : Variant → Expr} :
      Alike inner →
      Alike fun variant => .lambda entity (inner variant)

/-- Joins that are the same but for their conditions, which are alike. -/
inductive Navigation.Alike : (Variant → Navigation) → Prop
  | intro (fixed : Navigation) {condition : Variant → Expr} :
      Expr.Alike replaced condition →
      Alike fun variant => { fixed with condition := condition variant }

/-- Queries that are the same but for their expressions, which are alike one by one. -/
inductive Query.Alike : (Variant → Query) → Prop
  | intro (fixed : Query) (filters groups having : List (Variant → Expr))
      (select : Option (Variant → Expr)) (order : List (SortDirection × (Variant → Expr)))
      (joins : List (Variant → Navigation)) :
      (∀ filter ∈ filters, Expr.Alike replaced filter) →
      (∀ key ∈ groups, Expr.Alike replaced key) →
      (∀ condition ∈ having, Expr.Alike replaced condition) →
      (∀ selector ∈ select, Expr.Alike replaced selector) →
      (∀ key ∈ order, Expr.Alike replaced key.2) →
      (∀ join ∈ joins, Navigation.Alike replaced join) →
      Alike fun variant =>
        { fixed with
          filters := filters.map (· variant)
          groups := groups.map (· variant)
          having := having.map (· variant)
          select := select.map (· variant)
          order := order.map fun key => ⟨key.2 variant, key.1⟩
          joins := joins.map (· variant) }

/-- The keys of the entity that a query is about. -/
def Query.keys (catalog : Catalog) (query : Query) : List String :=
  (catalog.descriptor query.entity).keys

/-- Records whose properties may have any values, except that a key is null in all of
them or in none. -/
structure Record.Alike (catalog : Catalog) (query : Variant → Query)
    (record : Variant → Record) : Prop where
  values : ∀ property, Value.Varies replaced fun variant => (record variant).value property
  keys : ∀ key, (∀ variant, key ∈ (query variant).keys catalog) →
    Same fun variant => ((record variant).value key).isNull

/-- Operations of one kind whose queries, expressions and records are alike. -/
inductive Operation.Alike (catalog : Catalog) : (Variant → Operation) → Prop
  | get {query : Variant → Query} :
      Query.Alike replaced query →
      Alike catalog fun variant => .get (query variant)
  | list {query : Variant → Query} :
      Query.Alike replaced query →
      Alike catalog fun variant => .list (query variant)
  | page (index size : UInt32) {query : Variant → Query} :
      Query.Alike replaced query →
      Alike catalog fun variant => .page (query variant) index size
  | any {query : Variant → Query} :
      Query.Alike replaced query →
      Alike catalog fun variant => .any (query variant)
  | count {query : Variant → Query} :
      Query.Alike replaced query →
      Alike catalog fun variant => .count (query variant)
  | summarize (summary : Summary) (selector : Option (Variant → Expr))
      {query : Variant → Query} :
      Query.Alike replaced query →
      (∀ expression ∈ selector, Expr.Alike replaced expression) →
      Alike catalog fun variant =>
        .summarize summary (query variant) (selector.map (· variant))
  | insert (exclude : List String) {query : Variant → Query} {record : Variant → Record} :
      Query.Alike replaced query →
      Record.Alike replaced catalog query record →
      Alike catalog fun variant => .insert (query variant) (record variant) exclude
  | insertIdentity (exclude : List String) {query : Variant → Query}
      {record : Variant → Record} :
      Query.Alike replaced query →
      Record.Alike replaced catalog query record →
      Alike catalog fun variant => .insertIdentity (query variant) (record variant) exclude
  | update {query : Variant → Query} {updater : Variant → Expr} :
      Query.Alike replaced query →
      Expr.Alike replaced updater →
      Alike catalog fun variant => .update (query variant) (updater variant)
  | updateSelect {query : Variant → Query} {updater : Variant → Expr} :
      Query.Alike replaced query →
      Expr.Alike replaced updater →
      Alike catalog fun variant => .updateSelect (query variant) (updater variant)
  | updateRecord (exclude : List String) (everyRow : Bool) {query : Variant → Query}
      {record : Variant → Record} :
      Query.Alike replaced query →
      Record.Alike replaced catalog query record →
      Alike catalog fun variant =>
        .updateRecord (query variant) (record variant) exclude everyRow
  | delete {query : Variant → Query} :
      Query.Alike replaced query →
      Alike catalog fun variant => .delete (query variant)

end

/-! What a build looks at in an expression does not depend on the variant. -/

namespace Expr

variable {replaced : (Variant → Value) → Prop} {expression : Variant → Expr}

theorem Alike.kind (alike : Alike replaced expression) :
    Same fun variant => (expression variant).kind := by
  induction alike <;> exact ⟨_, fun _ => rfl⟩

theorem Alike.hint? (alike : Alike replaced expression) :
    Same fun variant => (expression variant).hint? := by
  induction alike with
  | comparison operator left right first second =>
      rcases first with ⟨leftHint, first⟩
      rcases second with ⟨rightHint, second⟩
      apply same_of_eq
      intro variant
      simp only [Expr.hint?, first, second]
      rfl
  | arithmetic operator left right first second =>
      rcases first with ⟨leftHint, first⟩
      rcases second with ⟨rightHint, second⟩
      apply same_of_eq
      intro variant
      simp only [Expr.hint?, first, second]
      rfl
  | aggregate function operand induction => exact induction
  | lambda entity inner induction => exact induction
  | _ => exact ⟨_, fun _ => rfl⟩

theorem isNullConstant_of_isOrdinary {value : Value} (ordinary : value.isOrdinary = true) :
    (constant value).isNullConstant = false := by
  cases value with
  | null => cases ordinary
  | _ => rfl

theorem Alike.isNullConstant (alike : Alike replaced expression) :
    Same fun variant => (expression variant).isNullConstant := by
  induction alike with
  | replacement replaced ordinary =>
      exact ⟨false, fun variant => isNullConstant_of_isOrdinary (ordinary variant)⟩
  | lambda entity inner induction => exact induction
  | _ => exact ⟨_, fun _ => rfl⟩

theorem Alike.mixesWith (alike : Alike replaced expression) (connective : Connective) :
    Same fun variant => (expression variant).mixesWith connective := by
  induction alike with
  | lambda entity inner induction => exact induction
  | _ => exact ⟨_, fun _ => rfl⟩

theorem Alike.asMember? (alike : Alike replaced expression) :
    Same fun variant => (expression variant).asMember? := by
  induction alike with
  | lambda entity inner induction => exact induction
  | _ => exact ⟨_, fun _ => rfl⟩

/-! An expression is like itself. -/

mutual

theorem alike_same : ∀ expression : Expr, Alike replaced fun _ => expression
  | .member reference => .member reference
  | .constant value => .constant value
  | .comparison operator left right =>
      .comparison operator (alike_same left) (alike_same right)
  | .arithmetic operator left right =>
      .arithmetic operator (alike_same left) (alike_same right)
  | .logical operator left right => .logical operator (alike_same left) (alike_same right)
  | .negation operand => .negation (alike_same operand)
  | .nullTest operand negated => .nullTest negated (alike_same operand)
  | .inList operand items negated => by
      have fixed : ∀ item ∈ items.map fun item (_ : Variant) => item,
          Value.Varies replaced item := by
        intro family member
        rcases List.mem_map.mp member with ⟨item, -, rfl⟩
        exact .inl ⟨item, fun _ => rfl⟩
      simpa [Function.comp_def] using Alike.inList _ negated (alike_same operand) fixed
  | .like operand pattern anchor negated =>
      .like (fun _ => pattern) anchor negated (alike_same operand) (.inl ⟨_, fun _ => rfl⟩)
  | .between operand low high =>
      .between (alike_same operand) (.inl ⟨low, fun _ => rfl⟩) (.inl ⟨high, fun _ => rfl⟩)
  | .aggregate function operand => .aggregate function (alike_same operand)
  | .bareAggregate function => .bareAggregate function
  | .record entity bindings => by
      simpa [Function.comp_def] using Alike.record entity _ (alike_bindings bindings)
  | .lambda entity inner => .lambda entity (alike_same inner)

theorem alike_bindings : ∀ bindings : List (String × Expr),
    ∀ binding ∈ bindings.map (fun binding => (binding.1, fun _ : Variant => binding.2)),
      Alike replaced binding.2
  | [], _, listed => by cases listed
  | (name, expression) :: rest, binding, listed => by
      rcases List.mem_cons.mp listed with rfl | listed
      · exact alike_same expression
      · exact alike_bindings rest binding listed

end

end Expr

end EntitySql
