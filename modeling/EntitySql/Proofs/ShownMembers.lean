import EntitySql.Proofs.Mentions

/-! The members that the text of an expression shows. They are those that the expression
consists of, except that a list without items hides its operand, and that no text stands
for a record. -/

namespace EntitySql

/-- In the order of the text. -/
def Expr.shown : Expr → List MemberPath
  | .member path => [path]
  | .comparison _ left right => left.shown ++ right.shown
  | .arithmetic _ left right => left.shown ++ right.shown
  | .logical _ left right => left.shown ++ right.shown
  | .negation operand => operand.shown
  | .nullTest operand _ => operand.shown
  | .inList operand items _ => if items.isEmpty then [] else operand.shown
  | .like operand _ _ _ => operand.shown
  | .between operand _ _ => operand.shown
  | .aggregate _ operand => operand.shown
  | .lambda _ inner => inner.shown
  | .constant _ | .bareAggregate _ | .record .. => []

namespace Expr

theorem shown_body : ∀ expression : Expr, expression.body.shown = expression.shown
  | .lambda _ inner => shown_body inner
  | .member _ | .constant _ | .comparison .. | .arithmetic .. | .logical .. | .negation _
  | .nullTest .. | .inList .. | .like .. | .between .. | .aggregate .. | .bareAggregate _
  | .record .. => rfl

theorem shown_of_isNullConstant {expression : Expr} (null : expression.isNullConstant = true) :
    expression.shown = [] := by
  unfold isNullConstant at null
  split at null
  · next shape =>
      rw [← shown_body, shape]
      rfl
  · cases null

end Expr

/-! Under whichever aliases they stand. -/

def Mention.path? : Mention → Option MemberPath
  | .table .. => none
  | .column path _ => some path

theorem Expr.paths_mentions : ∀ (expression : Expr) (scope : Scope),
    (expression.mentions scope).filterMap Mention.path? = expression.shown
  | .member path, scope => rfl
  | .comparison operator left right, scope => by
      rw [mentions, shown]
      split_ifs with rightNull leftNull
      · rw [shown_of_isNullConstant rightNull, List.append_nil]
        exact paths_mentions left scope
      · rw [shown_of_isNullConstant leftNull, List.nil_append]
        exact paths_mentions right scope
      · rw [List.filterMap_append, paths_mentions left, paths_mentions right]
  | .arithmetic operator left right, scope | .logical operator left right, scope => by
      rw [mentions, shown, List.filterMap_append, paths_mentions left, paths_mentions right]
  | .inList operand items negated, scope => by
      rw [mentions, shown]
      split_ifs
      · rfl
      · exact paths_mentions operand scope
  | .negation operand, scope | .nullTest operand _, scope | .like operand _ _ _, scope
  | .between operand _ _, scope | .aggregate _ operand, scope | .lambda _ operand, scope => by
      rw [mentions, shown]
      exact paths_mentions operand scope
  | .constant _, scope | .bareAggregate _, scope | .record .., scope => rfl

theorem Expr.mem_shown_iff {expression : Expr} {path : MemberPath} (scope : Scope) :
    path ∈ expression.shown ↔ ∃ aliasName, .column path aliasName ∈ expression.mentions scope := by
  rw [← paths_mentions expression scope, List.mem_filterMap]
  constructor
  · rintro ⟨_ | ⟨other, aliasName⟩, listed, same⟩
    · cases same
    · cases same
      exact ⟨aliasName, listed⟩
  · rintro ⟨aliasName, listed⟩
    exact ⟨_, listed, rfl⟩

end EntitySql
