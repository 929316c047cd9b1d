import EntitySql.Proofs.ConditionReader

/-! Where the clauses of a statement start. Statements are cut before the keywords that stand
outside parentheses, words compared regardless of case. Keywords of two words start a clause
only together, so that an alias can pass for one of the others alone: `FROM`, `WHERE` or
`HAVING`. -/

namespace EntitySql

/-- The word starts a clause whatever is behind it. -/
def startsAlone (text : String) : Bool :=
  ["FROM", "WHERE", "HAVING"].any (sameIgnoringCase · text)

/-- The word starts a clause where the right word is behind it. -/
def opensPair (text : String) : Bool :=
  ["INNER", "LEFT", "RIGHT", "GROUP", "ORDER"].any (sameIgnoringCase · text)

/-- The two words are a keyword that starts a clause. -/
def startTogether (first second : String) : Bool :=
  (["INNER", "LEFT", "RIGHT"].any (sameIgnoringCase · first) && sameIgnoringCase "JOIN" second) ||
    (["GROUP", "ORDER"].any (sameIgnoringCase · first) && sameIgnoringCase "BY" second)

/-- The tokens begin with a keyword that starts a clause. -/
def startsClause : List Token → Bool
  | .word first :: .word second :: _ => startsAlone first || startTogether first second
  | .word first :: _ => startsAlone first
  | _ => false

def Token.depthAfter (depth : Nat) : Token → Nat
  | .symbol .openParen => depth + 1
  | .symbol .closeParen => depth - 1
  | _ => depth

/-- How many parentheses are open behind the tokens. -/
def depthAfter (depth : Nat) (tokens : List Token) : Nat :=
  tokens.foldl Token.depthAfter depth

/-- The tokens, cut before each keyword that starts a clause outside parentheses; `depth`
parentheses are open before them. -/
def splitClauses : (depth : Nat) → List Token → List (List Token)
  | _, [] => [[]]
  | depth, token :: rest =>
      let pieces := (splitClauses (token.depthAfter depth) rest).modifyHead (token :: ·)
      if depth = 0 ∧ startsClause (token :: rest) then [] :: pieces else pieces

/-- How often the tokens are cut. -/
def clauseStarts : (depth : Nat) → List Token → Nat
  | _, [] => 0
  | depth, token :: rest =>
      (if depth = 0 ∧ startsClause (token :: rest) then 1 else 0) +
        clauseStarts (token.depthAfter depth) rest

theorem length_splitClauses (depth : Nat) (tokens : List Token) :
    (splitClauses depth tokens).length = clauseStarts depth tokens + 1 := by
  induction tokens generalizing depth with
  | nil => rfl
  | cons token rest induction =>
      rw [splitClauses, clauseStarts]
      split
      · rw [List.length_cons, List.length_modifyHead, induction]
        omega
      · rw [List.length_modifyHead, induction, Nat.zero_add]

theorem clauseStarts_append_le (depth : Nat) (tokens rest : List Token) :
    clauseStarts (depthAfter depth tokens) rest ≤ clauseStarts depth (tokens ++ rest) := by
  induction tokens generalizing depth with
  | nil => exact le_refl _
  | cons token tokens induction =>
      rw [List.cons_append, clauseStarts]
      exact (induction (token.depthAfter depth)).trans (Nat.le_add_left _ _)

/-- Tokens that are not cut stay before the first piece of what is behind them. -/
theorem splitClauses_append {depth : Nat} {tokens rest : List Token}
    (uncut : clauseStarts depth (tokens ++ rest) = clauseStarts (depthAfter depth tokens) rest) :
    splitClauses depth (tokens ++ rest) =
      (splitClauses (depthAfter depth tokens) rest).modifyHead (tokens ++ ·) := by
  induction tokens generalizing depth with
  | nil =>
      have same : (([] : List Token) ++ ·) = id := rfl
      rw [same, List.modifyHead_id]
      rfl
  | cons token tokens induction =>
      have least := clauseStarts_append_le (token.depthAfter depth) tokens rest
      rw [List.cons_append, clauseStarts] at uncut
      change _ = clauseStarts (depthAfter (token.depthAfter depth) tokens) rest at uncut
      have whole : ¬ (depth = 0 ∧ startsClause (token :: (tokens ++ rest)) = true) := by
        intro start
        rw [if_pos start] at uncut
        omega
      rw [if_neg whole, Nat.zero_add] at uncut
      rw [List.cons_append, splitClauses, if_neg whole, induction uncut, List.modifyHead_modifyHead]
      rfl

/-! Stretches of a statement between two keywords. -/

/-- Outside parentheses the tokens are cut at these aliases and nowhere else, and they close
the parentheses that they open. -/
structure Body (tokens : List Token) (aliases : List String) : Prop where
  balanced : ∀ depth, depthAfter depth tokens = depth
  starts : ∀ depth rest, clauseStarts depth (tokens ++ rest) =
    (if depth = 0 then aliases.countP startsAlone else 0) + clauseStarts depth rest

theorem body_nil : Body [] [] :=
  ⟨fun _ => rfl, fun _ _ => by simp⟩

theorem Body.append {left right : List Token} {first second : List String}
    (head : Body left first) (tail : Body right second) :
    Body (left ++ right) (first ++ second) := by
  refine ⟨fun depth => ?_, fun depth rest => ?_⟩
  · rw [depthAfter, List.foldl_append]
    exact (congrArg (depthAfter · right) (head.balanced depth)).trans (tail.balanced depth)
  · rw [List.append_assoc, head.starts, tail.starts, List.countP_append]
    split <;> omega

/-- Tokens that are neither words nor parentheses. -/
def Token.isMark : Token → Bool
  | .word _ | .symbol .openParen | .symbol .closeParen => false
  | _ => true

theorem body_mark {token : Token} (mark : token.isMark = true) : Body [token] [] := by
  have level : ∀ depth, token.depthAfter depth = depth := by
    intro depth
    unfold Token.depthAfter
    split
    · cases mark
    · cases mark
    · rfl
  have silent : ∀ rest, startsClause (token :: rest) = false := by
    intro rest
    unfold startsClause
    split
    · next equal => cases equal; cases mark
    · next equal => cases equal; cases mark
    · rfl
  exact ⟨level, fun depth rest => by simp [clauseStarts, silent, level]⟩

/-- Words that start no clause, alone or with another one. -/
def quiet (text : String) : Bool :=
  !startsAlone text && !opensPair text

theorem startTogether_of_quiet {first : String} (still : quiet first = true) (second : String) :
    startTogether first second = false := by
  simp only [quiet, opensPair, Bool.and_eq_true, Bool.not_eq_true', List.any_cons, List.any_nil,
    Bool.or_eq_false_iff] at still
  simp [startTogether, still]

theorem startsClause_of_quiet {text : String} (still : quiet text = true) (rest : List Token) :
    startsClause (.word text :: rest) = false := by
  have alone : startsAlone text = false := by
    rw [quiet, Bool.and_eq_true, Bool.not_eq_true'] at still
    exact still.1
  unfold startsClause
  split
  · next equal =>
      cases equal
      rw [alone, startTogether_of_quiet still]
      rfl
  · next equal =>
      cases equal
      exact alone
  · rfl

theorem body_word {text : String} (still : quiet text = true) : Body [.word text] [] :=
  ⟨fun _ => rfl, fun depth rest => by
    simp [clauseStarts, startsClause_of_quiet still, Token.depthAfter]⟩

/-! Aliases. -/

/-- The tokens do not complete a keyword of two words. -/
def Unpaired (tokens : List Token) : Prop :=
  ∀ aliasName, startsClause (.word aliasName :: tokens) = startsAlone aliasName

theorem unpaired_nil : Unpaired [] :=
  fun _ => rfl

/-- `JOIN` and `BY` complete keywords; no other word does. -/
theorem unpaired_word {text : String}
    (other : (sameIgnoringCase "JOIN" text || sameIgnoringCase "BY" text) = false)
    (rest : List Token) : Unpaired (.word text :: rest) := by
  intro aliasName
  rw [Bool.or_eq_false_iff] at other
  simp [startsClause, startTogether, other]

theorem clauseStarts_alias (aliasName : String) (depth : Nat) {rest : List Token}
    (unpaired : Unpaired rest) :
    clauseStarts depth (.word aliasName :: rest) =
      (if depth = 0 then [aliasName].countP startsAlone else 0) + clauseStarts depth rest := by
  rw [clauseStarts, unpaired aliasName, List.countP_singleton]
  change _ + clauseStarts depth rest = _
  cases startsAlone aliasName <;> simp

theorem body_alias (aliasName : String) {tokens : List Token}
    (unpaired : ∀ rest, Unpaired (tokens ++ rest)) (after : Body tokens []) :
    Body (.word aliasName :: tokens) [aliasName] := by
  refine ⟨after.balanced, fun depth rest => ?_⟩
  rw [List.cons_append, clauseStarts_alias aliasName depth (unpaired rest), after.starts,
    List.countP_nil, ite_self, Nat.zero_add]

theorem body_column (aliasName name : String) :
    Body [.word aliasName, .symbol .dot, .identifier name] [aliasName] :=
  body_alias aliasName (fun _ _ => rfl) ((body_mark rfl).append (body_mark rfl))

/-! Bodies put together. -/

namespace Body

variable {tokens : List Token} {aliases : List String} (inner : Body tokens aliases)

include inner

theorem cons_mark {token : Token} (mark : token.isMark = true) : Body (token :: tokens) aliases :=
  (body_mark mark).append inner

theorem cons_word {text : String} (still : quiet text = true) :
    Body (.word text :: tokens) aliases :=
  (body_word still).append inner

/-- Nothing is cut in parentheses. -/
theorem parenthesized : Body (.symbol .openParen :: tokens ++ [.symbol .closeParen]) [] := by
  refine ⟨fun depth => ?_, fun depth rest => ?_⟩
  · change depthAfter (depth + 1) (tokens ++ [.symbol .closeParen]) = depth
    rw [depthAfter, List.foldl_append]
    change (depthAfter (depth + 1) tokens) - 1 = depth
    rw [inner.balanced, Nat.add_sub_cancel]
  · have opened := inner.starts (depth + 1) (.symbol .closeParen :: rest)
    rw [if_neg (Nat.succ_ne_zero depth), Nat.zero_add] at opened
    have behind : (.symbol .openParen :: tokens ++ [.symbol .closeParen]) ++ rest =
        Token.symbol .openParen :: (tokens ++ .symbol .closeParen :: rest) := by simp
    rw [behind, clauseStarts]
    change _ + clauseStarts (depth + 1) (tokens ++ .symbol .closeParen :: rest) = _
    rw [opened, clauseStarts]
    simp [startsClause, Token.depthAfter]

/-- A token between two bodies. -/
theorem joined {token : Token} (between : Body [token] []) {right : List Token}
    {others : List String} (tail : Body right others) :
    Body (tokens ++ token :: right) (aliases ++ others) :=
  inner.append (between.append tail)

end Body

theorem body_intercalate {token : Token} (between : Body [token] []) {pieces : List (List Token)}
    {aliases : List (List String)} (each : List.Forall₂ Body pieces aliases) :
    Body ([token].intercalate pieces) aliases.flatten := by
  induction each with
  | nil => exact body_nil
  | cons first rest induction =>
      cases rest with
      | nil => simpa [List.intercalate_singleton] using first
      | cons head tail =>
          rw [List.intercalate_cons_cons, List.append_assoc]
          exact first.joined between induction

theorem body_flatten {pieces : List (List Token)} {aliases : List (List String)}
    (each : List.Forall₂ Body pieces aliases) : Body pieces.flatten aliases.flatten := by
  induction each with
  | nil => exact body_nil
  | cons first _ induction => exact first.append induction

/-! Clauses, each with the keyword that starts it. -/

/-- The tokens are cut before their first one and at these aliases, whatever clauses stand
behind them. -/
structure Clause (tokens : List Token) (aliases : List String) : Prop where
  nonempty : tokens ≠ []
  headed : ∀ rest, startsClause (tokens ++ rest) = true
  unpaired : ∀ rest, Unpaired (tokens ++ rest)
  balanced : depthAfter 0 tokens = 0
  starts : ∀ rest, Unpaired rest →
    clauseStarts 0 (tokens ++ rest) = 1 + aliases.countP startsAlone + clauseStarts 0 rest

theorem startsClause_of_startsAlone {keyword : String} (known : startsAlone keyword = true)
    (rest : List Token) : startsClause (.word keyword :: rest) = true := by
  unfold startsClause
  split
  · next equal =>
      cases equal
      rw [known]
      rfl
  · next equal =>
      cases equal
      exact known
  · next none => exact absurd rfl (none keyword rest)

theorem clauseStarts_of_startsClause {keyword : String} {rest : List Token}
    (starts : startsClause (.word keyword :: rest) = true) :
    clauseStarts 0 (.word keyword :: rest) = 1 + clauseStarts 0 rest := by
  rw [clauseStarts, if_pos ⟨rfl, starts⟩]
  rfl

namespace Clause

variable {body : List Token} {aliases : List String}

theorem of_keyword {keyword : String} (known : startsAlone keyword = true)
    (other : (sameIgnoringCase "JOIN" keyword || sameIgnoringCase "BY" keyword) = false)
    (inner : Body body aliases) : Clause (.word keyword :: body) aliases := by
  refine ⟨List.cons_ne_nil _ _, fun rest => startsClause_of_startsAlone known _,
    fun rest => unpaired_word other _, inner.balanced 0, fun rest _ => ?_⟩
  rw [List.cons_append, clauseStarts_of_startsClause (startsClause_of_startsAlone known _),
    inner.starts, if_pos rfl, Nat.add_assoc]

theorem of_pair {first second : String} (known : startTogether first second = true)
    (other : (sameIgnoringCase "JOIN" first || sameIgnoringCase "BY" first) = false)
    (still : quiet second = true) (inner : Body body aliases) :
    Clause (.word first :: .word second :: body) aliases := by
  have head : ∀ rest, startsClause (.word first :: .word second :: rest) = true := by
    intro rest
    rw [startsClause, known, Bool.or_true]
  have behind := inner.cons_word still
  refine ⟨List.cons_ne_nil _ _, fun rest => head _, fun rest => unpaired_word other _,
    behind.balanced 0, fun rest _ => ?_⟩
  rw [List.cons_append, List.cons_append, clauseStarts_of_startsClause (head _),
    ← List.cons_append, behind.starts, if_pos rfl, Nat.add_assoc]

/-- The table that rows are taken from. Where nothing stands behind its alias, the next clause
does. -/
theorem of_source (table aliasName : String) {hint : List Token} (silent : Body hint [])
    (unpaired : ∀ rest, Unpaired rest → Unpaired (hint ++ rest)) :
    Clause (.word "FROM" :: .identifier table :: .word aliasName :: hint) [aliasName] := by
  have known : startsAlone "FROM" = true := by decide
  refine ⟨List.cons_ne_nil _ _, fun rest => startsClause_of_startsAlone known _,
    fun rest => unpaired_word (by decide) _, silent.balanced 0, fun rest follows => ?_⟩
  have named := clauseStarts_alias aliasName 0 (unpaired rest follows)
  have quoted : Body [.identifier table] [] := body_mark rfl
  have mark := quoted.starts 0 (.word aliasName :: (hint ++ rest))
  rw [List.singleton_append] at mark
  rw [List.cons_append, List.cons_append, List.cons_append,
    clauseStarts_of_startsClause (startsClause_of_startsAlone known _), mark, named, silent.starts]
  simp [Nat.add_assoc]

theorem unpaired_flatten {pieces : List (List Token)} {aliases : List (List String)}
    (each : List.Forall₂ Clause pieces aliases) : Unpaired pieces.flatten := by
  cases each with
  | nil => exact unpaired_nil
  | cons first _ => exact first.unpaired _

theorem clauseStarts_flatten {pieces : List (List Token)} {aliases : List (List String)}
    (each : List.Forall₂ Clause pieces aliases) :
    clauseStarts 0 pieces.flatten = pieces.length + aliases.flatten.countP startsAlone := by
  induction each with
  | nil => rfl
  | cons first rest induction =>
      rw [List.flatten_cons, first.starts _ (unpaired_flatten rest), induction, List.length_cons,
        List.flatten_cons, List.countP_append]
      omega

/-- Where no alias cuts, the clauses are cut from each other and nowhere else. -/
theorem splitClauses_flatten {pieces : List (List Token)} {aliases : List (List String)}
    (each : List.Forall₂ Clause pieces aliases)
    (silent : aliases.flatten.countP startsAlone = 0) :
    splitClauses 0 pieces.flatten = [] :: pieces := by
  induction each with
  | nil => rfl
  | @cons tokens names pieces aliases first rest induction =>
      rw [List.flatten_cons, List.countP_append, Nat.add_eq_zero_iff] at silent
      have counted := first.starts _ (unpaired_flatten rest)
      have headed := first.headed pieces.flatten
      rw [silent.1, Nat.add_zero] at counted
      rw [List.flatten_cons]
      cases tokens with
      | nil => exact absurd rfl first.nonempty
      | cons token tokens =>
          rw [List.cons_append] at counted headed ⊢
          rw [clauseStarts, if_pos ⟨rfl, headed⟩, Nat.add_left_cancel_iff] at counted
          have level : depthAfter (token.depthAfter 0) tokens = 0 := first.balanced
          rw [splitClauses, if_pos ⟨rfl, headed⟩, splitClauses_append (by rw [counted, level]),
            level, induction silent.2, List.modifyHead_modifyHead]
          simp

end Clause

/-- The clauses behind a head can be told from its text just where no alias that stands outside
parentheses starts a clause by itself. -/
theorem splitClauses_eq_iff {head : List Token} {shown : List String} (first : Body head shown)
    {pieces : List (List Token)} {aliases : List (List String)}
    (each : List.Forall₂ Clause pieces aliases) :
    splitClauses 0 (head ++ pieces.flatten) = head :: pieces ↔
      ∀ aliasName ∈ shown ++ aliases.flatten, startsAlone aliasName = false := by
  have counted := first.starts 0 pieces.flatten
  rw [if_pos rfl, Clause.clauseStarts_flatten each] at counted
  have silent : (∀ aliasName ∈ shown ++ aliases.flatten, startsAlone aliasName = false) ↔
      shown.countP startsAlone = 0 ∧ aliases.flatten.countP startsAlone = 0 := by
    simp only [List.forall_mem_append, List.countP_eq_zero, Bool.not_eq_true]
  rw [silent]
  constructor
  · intro split
    have length := congrArg List.length split
    rw [length_splitClauses, counted, List.length_cons] at length
    omega
  · rintro ⟨none, others⟩
    rw [none, Nat.zero_add] at counted
    rw [splitClauses_append (by
        rw [counted, first.balanced, Clause.clauseStarts_flatten each]), first.balanced,
      Clause.splitClauses_flatten each others]
    simp

end EntitySql
