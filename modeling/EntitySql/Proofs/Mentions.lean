import EntitySql.Operation
import EntitySql.Proofs.ConditionReader
import EntitySql.Proofs.ReadText

/-! What a statement names: the tables it takes rows from, each under an alias, and the
columns it refers to, each under the alias of a table. Both can be told from the tokens
of the statement, and what they are follows from the query: a member is named wherever it
stands in an expression, in the order of the text. -/

namespace EntitySql

/-! Tables and columns, as tokens name them. -/

inductive Naming where
  | table (name aliasName : String)
  | column (reference : ColumnReference)
  deriving DecidableEq, Repr

/-- What the tokens name at their start. -/
def namingAt? : List Token → Option Naming
  | .word aliasName :: .symbol .dot :: .identifier name :: _ =>
      some (.column { qualifier? := some aliasName, name })
  | .word keyword :: .identifier name :: .word aliasName :: _ =>
      if keyword = "FROM" ∨ keyword = "JOIN" then some (.table name aliasName) else none
  | _ => none

def namings : List Token → List Naming
  | [] => []
  | token :: rest => (namingAt? (token :: rest)).toList ++ namings rest

/-- The token makes no name together with one before it. -/
def Token.solid : Token → Bool
  | .symbol .dot => false
  | .identifier _ => false
  | _ => true

/-- The tokens do not carry on what a word before them starts. -/
def Opens (tokens : List Token) : Prop :=
  ∀ token ∈ tokens.head?, token.solid = true

theorem opens_cons {token : Token} {rest : List Token} (solid : token.solid = true) :
    Opens (token :: rest) := by
  intro first head
  exact Option.some.inj head ▸ solid

theorem Opens.append {left right : List Token} (first : Opens left) (second : Opens right) :
    Opens (left ++ right) := by
  cases left with
  | nil => exact second
  | cons token rest => exact opens_cons (first token rfl)

theorem namingAt?_eq_none {token : Token} (solid : token.solid = true) {rest : List Token}
    (opens : Opens rest) : namingAt? (token :: rest) = none := by
  cases rest with
  | nil => cases token <;> rfl
  | cons next rest =>
      have nextSolid := opens next rfl
      unfold namingAt?
      split
      · next equal =>
          cases equal
          cases nextSolid
      · next equal =>
          cases equal
          cases nextSolid
      · rfl

/-- The tokens name these, whatever stands behind them that does not carry them on. -/
structure Names (tokens : List Token) (named : List Naming) : Prop where
  opens : Opens tokens
  names : ∀ rest, Opens rest → namings (tokens ++ rest) = named ++ namings rest

theorem names_nil : Names [] [] :=
  ⟨fun _ head => absurd head (Option.not_mem_none _), fun _ _ => rfl⟩

theorem Names.append {left right : List Token} {first second : List Naming}
    (head : Names left first) (tail : Names right second) :
    Names (left ++ right) (first ++ second) := by
  refine ⟨head.opens.append tail.opens, ?_⟩
  intro rest opens
  rw [List.append_assoc, head.names _ (tail.opens.append opens), tail.names rest opens,
    List.append_assoc]

theorem names_token (token : Token) (solid : token.solid = true) : Names [token] [] := by
  refine ⟨opens_cons solid, ?_⟩
  intro rest opens
  rw [List.singleton_append, namings, namingAt?_eq_none solid opens]
  rfl

theorem names_column (aliasName name : String) :
    Names [.word aliasName, .symbol .dot, .identifier name]
      [.column { qualifier? := some aliasName, name }] := by
  refine ⟨opens_cons rfl, ?_⟩
  intro rest opens
  rfl

theorem names_table {keyword : String} (known : keyword = "FROM" ∨ keyword = "JOIN")
    (name aliasName : String) :
    Names [.word keyword, .identifier name, .word aliasName] [.table name aliasName] := by
  refine ⟨opens_cons rfl, ?_⟩
  intro rest opens
  have last := (names_token (.word aliasName) rfl).names rest opens
  simp only [List.singleton_append, List.nil_append] at last
  simp only [List.cons_append, List.nil_append, namings, namingAt?, known, if_true] at last ⊢
  simp [last]

theorem names_label (name : String) : Names [.word "AS", .identifier name] [] := by
  refine ⟨opens_cons rfl, ?_⟩
  intro rest opens
  cases rest with
  | nil => rfl
  | cons token rest => cases token <;> rfl

/-- All the columns of a table are none of its own. -/
theorem names_allOf (aliasName : String) : Names (Fragment.allOf aliasName) [] := by
  refine ⟨opens_cons rfl, ?_⟩
  intro rest opens
  have last := (names_token (.symbol .times) rfl).names rest opens
  exact last

/-! Tables and columns, as a query asks for them. -/

inductive Mention where
  | table (entity aliasName : String)
  | column (path : MemberPath) (aliasName : String)
  deriving DecidableEq, Repr

namespace Catalog

def tableName (catalog : Catalog) (entity : String) : String :=
  (catalog.descriptor entity).table

/-- The alias that an entity goes by unless a join lends it another. -/
def aliasName (catalog : Catalog) (entity : String) : String :=
  (catalog.descriptor entity).aliasName

def columnName? (catalog : Catalog) (path : MemberPath) : Option String := do
  let entity ← (catalog.entity path.entity).toOption
  (entity.column path.member).toOption

theorem aliasName_of_entity {catalog : Catalog} {name : String} {entity : Entity}
    (accepted : catalog.entity name = .ok entity) : entity.aliasName = catalog.aliasName name := by
  rcases entity_eq_ok.mp accepted with ⟨-, rfl⟩
  rfl

end Catalog

/-- How tokens name what is mentioned. -/
def Mention.naming? (catalog : Catalog) : Mention → Option Naming
  | .table entity aliasName => some (.table (catalog.tableName entity) aliasName)
  | .column path aliasName =>
      (catalog.columnName? path).map fun name => .column { qualifier? := some aliasName, name }

/-- The tokens name what is mentioned, in the same order, and nothing else. -/
def Mentions (catalog : Catalog) (tokens : List Token) (mentions : List Mention) : Prop :=
  ∃ named, Names tokens named ∧ named.map some = mentions.map (Mention.naming? catalog)

namespace Mentions

variable {catalog : Catalog}

theorem nil : Mentions catalog [] [] :=
  ⟨[], names_nil, rfl⟩

theorem of_names {tokens : List Token} (names : Names tokens []) : Mentions catalog tokens [] :=
  ⟨[], names, rfl⟩

theorem append {left right : List Token} {first second : List Mention}
    (head : Mentions catalog left first) (tail : Mentions catalog right second) :
    Mentions catalog (left ++ right) (first ++ second) := by
  rcases head with ⟨named, names, same⟩
  rcases tail with ⟨others, namesToo, sameToo⟩
  exact ⟨named ++ others, names.append namesToo, by simp [same, sameToo]⟩

theorem token (token : Token) (solid : token.solid = true) : Mentions catalog [token] [] :=
  of_names (names_token token solid)

theorem cons {tokens : List Token} {mentions : List Mention}
    (rest : Mentions catalog tokens mentions) (first : Token) (solid : first.solid = true) :
    Mentions catalog (first :: tokens) mentions :=
  (token first solid).append rest

/-- A token between two pieces. -/
theorem joined {left right : List Token} {first second : List Mention}
    (head : Mentions catalog left first) (between : Token) (solid : between.solid = true)
    (tail : Mentions catalog right second) :
    Mentions catalog (left ++ between :: right) (first ++ second) :=
  head.append (tail.cons between solid)

theorem parenthesized {tokens : List Token} {mentions : List Mention}
    (inner : Mentions catalog tokens mentions) :
    Mentions catalog (.symbol .openParen :: tokens ++ [.symbol .closeParen]) mentions := by
  simpa using (inner.cons (.symbol .openParen) rfl).append (token (.symbol .closeParen) rfl)

theorem intercalate (between : Token) (solid : between.solid = true)
    {pieces : List (List Token)} {mentions : List (List Mention)}
    (each : List.Forall₂ (Mentions catalog) pieces mentions) :
    Mentions catalog ([between].intercalate pieces) mentions.flatten := by
  induction each with
  | nil => exact nil
  | @cons piece mentioned pieces _ first rest induction =>
      cases rest with
      | nil => simpa [List.intercalate_singleton] using first
      | @cons second _ pieces _ head tail =>
          rw [List.intercalate_cons_cons, List.append_assoc]
          exact first.joined between solid induction

theorem commaSeparated {fragments : List Fragment} {mentions : List (List Mention)}
    (each : List.Forall₂ (fun fragment mentioned =>
      Mentions catalog (Fragment.squeezed fragment) mentioned) fragments mentions) :
    Mentions catalog (Fragment.commaSeparated fragments).squeezed mentions.flatten := by
  rw [Fragment.commaSeparated, Fragment.squeezed_intercalate]
  exact intercalate (.symbol .comma) rfl (List.forall₂_map_left_iff.mpr each)

theorem flatten {pieces : List (List Token)} {mentions : List (List Mention)}
    (each : List.Forall₂ (Mentions catalog) pieces mentions) :
    Mentions catalog pieces.flatten mentions.flatten := by
  induction each with
  | nil => exact nil
  | cons first _ induction => exact first.append induction

end Mentions

namespace Mentions

variable {catalog : Catalog}

theorem always : Mentions catalog Fragment.always.squeezed [] :=
  ((token (.word "1") rfl).cons (.symbol .equal) rfl).cons (.word "1") rfl

theorem never : Mentions catalog Fragment.never.squeezed [] :=
  ((token (.word "0") rfl).cons (.symbol .equal) rfl).cons (.word "1") rfl

theorem operatorWord (catalog : Catalog) (word : String) (negated : Bool) :
    Mentions catalog (Fragment.operatorWord word negated).squeezed [] := by
  rw [Fragment.squeezed_operatorWord]
  cases negated
  · exact token (.word word) rfl
  · exact (token (.word word) rfl).cons (.word "NOT") rfl

variable {fragment : Fragment} {mentions : List Mention}
  (inner : Mentions catalog fragment.squeezed mentions)

include inner

theorem nullTest (negated : Bool) :
    Mentions catalog (Fragment.nullTest fragment negated).squeezed mentions := by
  rw [Fragment.squeezed_nullTest]
  cases negated
  · simpa using inner.joined (.word "IS") rfl (token (.word "NULL") rfl)
  · simpa using inner.joined (.word "IS") rfl
      ((token (.word "NULL") rfl).cons (.word "NOT") rfl)

theorem bracketed (bracket : Bool) :
    Mentions catalog (Fragment.squeezed
      (if bracket then Fragment.parenthesized fragment else fragment)) mentions := by
  cases bracket
  · exact inner
  · simpa using inner.parenthesized

theorem renamed (name : String) :
    Mentions catalog (Fragment.renamed fragment name).squeezed mentions := by
  simpa [Fragment.renamed] using inner.append (of_names (names_label name))

end Mentions

/-! Expressions. -/

namespace Scope

/-- The alias that a member of an entity is qualified by here. -/
def aliasFor (scope : Scope) (entity : String) : String :=
  (scope.joinedAlias? entity).getD (scope.catalog.aliasName entity)

def mention (scope : Scope) (path : MemberPath) : Mention :=
  .column path (scope.aliasFor path.entity)

variable (scope : Scope)

theorem mentions_columnUnder (qualified : scope.qualified = true) {name aliasName : String}
    {entity : Entity} {property : String} {column : Fragment}
    (accepted : scope.catalog.entity name = .ok entity)
    (found : scope.columnUnder aliasName entity property = .ok column) :
    Mentions scope.catalog column.squeezed [.column ⟨name, property⟩ aliasName] := by
  rcases columnUnder_eq_ok.mp found with ⟨shown, mapped, rfl⟩
  refine ⟨[.column { qualifier? := some aliasName, name := shown }], ?_, ?_⟩
  · simp only [qualifierUnder, qualified, if_true, Fragment.squeezed_fragment]
    exact names_column aliasName shown
  · simp [Mention.naming?, Catalog.columnName?, accepted, mapped, Except.toOption]

/-- A member is a column of its entity under the alias that is for it here. -/
theorem columnUnder_of_member {path : MemberPath} {column : Fragment}
    (found : scope.member path = .ok column) :
    ∃ entity, scope.catalog.entity path.entity = .ok entity ∧
      scope.columnUnder (scope.aliasFor path.entity) entity path.member = .ok column := by
  rcases bind_eq_ok.mp found with ⟨entity, accepted, found⟩
  refine ⟨entity, accepted, ?_⟩
  rw [aliasFor, ← Catalog.aliasName_of_entity accepted]
  split at found
  · next aliasName lent => rwa [lent]
  · next none => rwa [none]

theorem mentions_member (qualified : scope.qualified = true) {path : MemberPath}
    {column : Fragment} (found : scope.member path = .ok column) :
    Mentions scope.catalog column.squeezed [scope.mention path] := by
  rcases scope.columnUnder_of_member found with ⟨entity, accepted, under⟩
  exact scope.mentions_columnUnder qualified accepted under

theorem mentions_column (qualified : scope.qualified = true) {name : String} {entity : Entity}
    {property : String} {column : Fragment} (accepted : scope.catalog.entity name = .ok entity)
    (found : scope.column entity property = .ok column) :
    Mentions scope.catalog column.squeezed
      [.column ⟨name, property⟩ (scope.catalog.aliasName name)] := by
  rw [Scope.column, Catalog.aliasName_of_entity accepted] at found
  exact scope.mentions_columnUnder qualified accepted found

end Scope

namespace Expr

/-- The columns that an expression mentions, in the order of its text. A comparison with
the null constant shows its other operand only, and a list without items no operand. -/
def mentions (scope : Scope) : Expr → List Mention
  | .member path => [scope.mention path]
  | .comparison _ left right =>
      if right.isNullConstant then left.mentions scope
      else if left.isNullConstant then right.mentions scope
      else left.mentions scope ++ right.mentions scope.inRightOperand
  | .arithmetic _ left right => left.mentions scope ++ right.mentions scope
  | .logical _ left right => left.mentions scope ++ right.mentions scope
  | .negation operand => operand.mentions scope
  | .nullTest operand _ => operand.mentions scope
  | .inList operand items _ => if items.isEmpty then [] else operand.mentions scope
  | .like operand _ _ _ => operand.mentions scope
  | .between operand _ _ => operand.mentions scope
  | .aggregate _ operand => operand.mentions scope
  | .lambda _ inner => inner.mentions scope
  | .constant _ | .bareAggregate _ | .record .. => []

end Expr

theorem mentions_input (catalog : Catalog) {base : String} {value : Value}
    {draft later : Draft} {fragment : Fragment}
    (run : (Build.input base value).runFrom draft = (.ok fragment, later)) :
    Mentions catalog fragment.squeezed [] := by
  rw [Build.runFrom_input] at run
  cases run
  exact Mentions.token _ rfl

theorem mentions_inputs (catalog : Catalog) {base : String} {values : List Value}
    {draft later : Draft} {fragments : List Fragment}
    (run : (Build.inputs base values).runFrom draft = (.ok fragments, later)) :
    List.Forall₂ (fun fragment _ => Mentions catalog (Fragment.squeezed fragment) [])
      fragments values := by
  refine (Build.placeholders_of_inputs run).imp ?_
  rintro _ _ ⟨name, rfl⟩
  exact Mentions.token _ rfl

namespace Expr

section

variable {scope : Scope} (qualified : scope.qualified = true)

include qualified

theorem ScalarRun.mentioned {expression : Expr} {hint : String} {draft later : Draft}
    {fragment : Fragment} (steps : ScalarRun scope hint expression draft fragment later) :
    Mentions scope.catalog fragment.squeezed (expression.mentions scope) := by
  induction steps with
  | member path found => exact scope.mentions_member qualified found
  | constant value bound => exact mentions_input scope.catalog bound
  | arithmetic operator _ _ head tail =>
      rw [Fragment.squeezed_parenthesized, Fragment.squeezed_joined]
      have solid : (Token.symbol operator.symbol).solid = true := by cases operator <;> rfl
      exact (head.joined _ solid tail).parenthesized
  | aggregate function _ inner =>
      rw [Fragment.squeezed_call]
      exact inner.parenthesized.cons (.word function.keyword) rfl
  | count => exact (Mentions.token (.word "1") rfl).parenthesized.cons (.word "COUNT") rfl
  | lambda _ inner => exact inner

theorem CompareRun.mentioned {operator : Comparison} {left right : Expr} {draft later : Draft}
    {fragment : Fragment} (steps : CompareRun scope operator left right draft fragment later) :
    Mentions scope.catalog fragment.squeezed
      ((Expr.comparison operator left right).mentions scope) := by
  rw [mentions]
  cases steps with
  | nullOnRight null _ inner =>
      rw [if_pos null]
      exact (inner.mentioned qualified).nullTest _
  | nullOnLeft other null _ inner =>
      rw [if_neg other, if_pos null]
      exact (inner.mentioned qualified).nullTest _
  | sides noRight noLeft head tail =>
      rw [if_neg noRight, if_neg noLeft, Fragment.squeezed_joined]
      have rightQualified : scope.inRightOperand.qualified = true := qualified
      have solid : (Token.symbol operator.symbol).solid = true := by cases operator <;> rfl
      exact (head.mentioned qualified).joined _ solid (tail.mentioned rightQualified)

theorem PredicateRun.mentioned {expression : Expr} {draft later : Draft} {fragment : Fragment}
    (steps : PredicateRun scope expression draft fragment later) :
    Mentions scope.catalog fragment.squeezed (expression.mentions scope) := by
  induction steps with
  | member path found bound =>
      rw [Fragment.squeezed_joined]
      simpa [mentions] using (scope.mentions_member qualified found).joined (.symbol .equal) rfl
        (mentions_input scope.catalog bound)
  | always => exact Mentions.always
  | never => exact Mentions.never
  | comparison sides => exact sides.mentioned qualified
  | logical connective left right _ _ head tail =>
      rw [Fragment.squeezed_connected]
      exact (head.bracketed _).joined (.word connective.keyword) rfl (tail.bracketed _)
  | negation operand _ inner =>
      simpa [mentions] using inner.parenthesized.cons (.word "NOT") rfl
  | nullTest negated inner => exact (inner.mentioned qualified).nullTest negated
  | emptyList negated =>
      cases negated with
      | false => exact Mentions.never
      | true => exact Mentions.always
  | inList item items negated inner binding =>
      have bound : List.Forall₂ (fun fragment mentioned =>
          Mentions scope.catalog (Fragment.squeezed fragment) mentioned) _
          ((item :: items).map fun _ => []) :=
        List.forall₂_map_right_iff.mpr (mentions_inputs scope.catalog binding)
      have listed := Mentions.commaSeparated bound
      have word := Mentions.operatorWord scope.catalog "IN" negated
      simpa [mentions] using (inner.mentioned qualified).append (word.append listed.parenthesized)
  | like pattern anchor negated inner binding =>
      have word := Mentions.operatorWord scope.catalog "LIKE" negated
      simpa [mentions] using (inner.mentioned qualified).append
        (word.append (mentions_input scope.catalog binding))
  | between low high inner lower upper =>
      have range := (mentions_input scope.catalog lower).joined (.word "AND") rfl
        (mentions_input scope.catalog upper)
      simpa [mentions, Connective.keyword] using
        (inner.mentioned qualified).joined (.word "BETWEEN") rfl range
  | lambda _ inner => exact inner

end

variable (scope : Scope) (qualified : scope.qualified = true)

include qualified

theorem mentions_scalar {expression : Expr} {hint : String} {draft later : Draft}
    {fragment : Fragment}
    (run : (expression.scalar scope hint).runFrom draft = (.ok fragment, later)) :
    Mentions scope.catalog fragment.squeezed (expression.mentions scope) :=
  (scalarRun_of_scalar run).mentioned qualified

theorem mentions_predicate {expression : Expr} {draft later : Draft} {fragment : Fragment}
    (run : (expression.predicate scope).runFrom draft = (.ok fragment, later)) :
    Mentions scope.catalog fragment.squeezed (expression.mentions scope) :=
  (predicateRun_of_predicate run).mentioned qualified

end Expr

end EntitySql
