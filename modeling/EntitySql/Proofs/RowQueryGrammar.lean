import EntitySql.Proofs.RowQuery
import EntitySql.Proofs.ScriptText

/-! What the reader of queries makes of tokens that are put together by its rules, part by
part: each part is read in front of whatever can stand behind it. -/

namespace EntitySql

variable {bag : Params} {size : Nat}

/-! Scalars and lists of them. -/

theorem Reads.ne_nil {tokens : List Token} {formula : Formula}
    (reads : Reads bag .sum tokens formula) : tokens ≠ [] := by
  rintro rfl
  have read := reads 0 [] (Nat.le_refl _) (stops_nil _)
  cases read

theorem readScalar_of_reads {tokens rest : List Token} {formula : Formula}
    (reads : Reads bag .sum tokens formula) (fits : tokens.length ≤ size) (stops : Stops 4 rest) :
    readScalar bag size (tokens ++ rest) = some (formula, rest) :=
  reads size rest fits stops

theorem takes_scalar {tokens : List Token} {formula : Formula}
    (reads : Reads bag .sum tokens formula) (fits : tokens.length ≤ size) :
    (readScalar bag size).Takes tokens formula :=
  ⟨reads.ne_nil, fun _ ends => readScalar_of_reads reads fits (ends.stops.weaken (by decide))⟩

/-- A scalar, renamed or not. -/
def ItemReads (bag : Params) (tokens : List Token) (formula : Formula) : Prop :=
  Reads bag .sum tokens formula ∨
    ∃ value name, Reads bag .sum value formula ∧
      tokens = value ++ [.word "AS", .identifier name]

theorem takes_item {tokens : List Token} {formula : Formula}
    (reads : ItemReads bag tokens formula) (fits : tokens.length ≤ size) :
    (readItem bag size).Takes tokens formula := by
  rcases reads with reads | ⟨value, name, reads, rfl⟩
  · refine ⟨reads.ne_nil, ?_⟩
    intro rest ends
    have read := readScalar_of_reads reads fits (ends.stops.weaken (by decide))
    have plain := ends.skipToken (show (Token.word "AS").delimits = false by decide)
    simp [readItem, read, plain]
  · refine ⟨by simp, ?_⟩
    intro rest ends
    rw [List.length_append] at fits
    have stops : Stops 4 (.word "AS" :: .identifier name :: rest) := stops_cons (by decide)
    have read := readScalar_of_reads reads (by omega : _ ≤ size) stops
    simp [readItem, read, takeIdentifier]

def SortReads (bag : Params) (tokens : List Token) (formula : Formula) : Prop :=
  ∃ value direction, Reads bag .sum value formula ∧ tokens = value ++ [.word direction] ∧
    (direction = "ASC" ∨ direction = "DESC")

theorem takes_sortItem {tokens : List Token} {formula : Formula}
    (reads : SortReads bag tokens formula) (fits : tokens.length ≤ size) :
    (readSortItem bag size).Takes tokens formula := by
  rcases reads with ⟨value, direction, reads, rfl, known⟩
  refine ⟨by simp, ?_⟩
  intro rest ends
  rw [List.length_append] at fits
  have stops : Stops 4 (.word direction :: rest) := by
    rcases known with rfl | rfl <;> exact stops_cons (by decide)
  have read := readScalar_of_reads reads (by omega : _ ≤ size) stops
  simp [readSortItem, read, known]

/-- A list whose items are taken each by itself. -/
theorem readList_of_takes {item : TokenReader α} {reads : List Token → α → Prop}
    (takes : ∀ tokens value, reads tokens value → tokens.length ≤ size → item.Takes tokens value)
    {pieces : List (List Token)} {values : List α} (each : List.Forall₂ reads pieces values)
    (given : pieces ≠ []) (fits : ([Token.symbol .comma].intercalate pieces).length ≤ size)
    {rest : List Token} (ends : Ends rest) (last : rest.head? ≠ some (.symbol .comma)) :
    readList item size ([Token.symbol .comma].intercalate pieces ++ rest) =
      some (values, rest) := by
  have taken : List.Forall₂ item.Takes pieces values := by
    have short : ∀ piece ∈ pieces, piece.length ≤ size := fun piece listed =>
      Nat.le_trans (length_le_length_intercalate piece listed) fits
    apply ((List.forall₂_and_left _ _).mpr ⟨short, each⟩).imp
    intro piece value both
    exact takes piece value both.2 both.1
  exact readList_intercalate taken given fits ends last

/-! Keywords in front of the select list. -/

section

variable {tokens : List Token} {result : Formula × List Token}
  (read : readScalar bag size tokens = some result)

include read

/-- A word of the query at the start of a scalar can only be an alias. -/
theorem not_startsWith_of_readScalar {keyword : String} (noNumber : readNumber? keyword = none)
    (noFunction : Aggregate.ofKeyword? keyword = none) : startsWith keyword tokens = false := by
  by_contra starts
  rw [Bool.not_eq_false] at starts
  unfold startsWith at starts
  split at starts
  · next word rest =>
      simp only [Bool.and_eq_true, decide_eq_true_eq] at starts
      rcases starts with ⟨rfl, notDot⟩
      have fails : FormulaReader.primary bag (readFormula bag size) (.word word :: rest) = none := by
        by_cases paren : rest.head? = some (.symbol .openParen)
        · rcases List.head?_eq_some_iff.mp paren with ⟨_, rfl⟩
          simp [FormulaReader.primary, noFunction]
        · rw [primary_word notDot paren, noNumber]
          rfl
      have none : readScalar bag size (.word word :: rest) = none :=
        chained_eq_none (chained_eq_none fails)
      rw [none] at read
      cases read
  · cases starts

theorem head?_ne_dot_of_readScalar : tokens.head? ≠ some (.symbol .dot) := by
  intro dot
  rcases List.head?_eq_some_iff.mp dot with ⟨rest, rfl⟩
  have none : readScalar bag size (.symbol .dot :: rest) = none :=
    chained_eq_none (chained_eq_none rfl)
  rw [none] at read
  cases read

end

/-- A select list, with `DISTINCT` and a cap in front of it where they are asked for. -/
def HeadReads (bag : Params) (tokens : List Token) (distinct : Bool) (top? : Option Nat)
    (items : List Formula) : Prop :=
  ∃ caps pieces,
    tokens = (if distinct then [.word "DISTINCT"] else []) ++
      (caps ++ [Token.symbol .comma].intercalate pieces) ∧
    (caps = [] ∧ top? = none ∨
      ∃ digits count, digits.toNat? = some count ∧ caps = [.word "TOP", .word digits] ∧
        top? = some count) ∧
    pieces ≠ [] ∧ List.Forall₂ (ItemReads bag) pieces items

theorem exists_readScalar {tokens : List Token} {formula : Formula}
    (reads : ItemReads bag tokens formula) (fits : tokens.length ≤ size) {rest : List Token}
    (ends : Ends rest) : ∃ result, readScalar bag size (tokens ++ rest) = some result := by
  have taken := (takes_item reads fits).reads rest ends
  simp only [readItem, Option.bind_eq_bind, Option.bind_eq_some_iff] at taken
  rcases taken with ⟨result, read, -⟩
  exact ⟨result, read⟩

theorem exists_readScalar_intercalate {pieces : List (List Token)} {items : List Formula}
    (reads : List.Forall₂ (ItemReads bag) pieces items) (given : pieces ≠ [])
    (fits : ([Token.symbol .comma].intercalate pieces).length ≤ size) {rest : List Token}
    (ends : Ends rest) :
    ∃ result, readScalar bag size ([Token.symbol .comma].intercalate pieces ++ rest) =
      some result := by
  cases reads with
  | nil => exact absurd rfl given
  | @cons piece item pieces items first others =>
      have short := Nat.le_trans (length_le_length_intercalate piece List.mem_cons_self) fits
      cases pieces with
      | nil =>
          rw [List.intercalate_singleton]
          exact exists_readScalar first short ends
      | cons second pieces =>
          rw [List.intercalate_cons_cons, List.append_assoc, List.append_assoc]
          exact exists_readScalar first short (ends_cons (by decide))

theorem readHead_complete {tokens : List Token} {distinct : Bool} {top? : Option Nat}
    {items : List Formula} (reads : HeadReads bag tokens distinct top? items)
    (fits : tokens.length ≤ size) {rest : List Token} (ends : Ends rest)
    (last : rest.head? ≠ some (.symbol .comma)) :
    readHead bag size (tokens ++ rest) = some ((distinct, top?, items), rest) := by
  rcases reads with ⟨caps, pieces, rfl, capped, given, each⟩
  simp only [List.length_append] at fits
  have listed := readList_of_takes (fun _ _ => takes_item) each given
    (by omega : _ ≤ size) ends last
  rcases exists_readScalar_intercalate each given (by omega : _ ≤ size) ends with ⟨result, read⟩
  have noDistinct := not_startsWith_of_readScalar read
    (by decide : readNumber? "DISTINCT" = _) (by decide)
  have noTop := not_startsWith_of_readScalar read (by decide : readNumber? "TOP" = _) (by decide)
  have noDot := head?_ne_dot_of_readScalar read
  rw [List.append_assoc, List.append_assoc]
  generalize [Token.symbol .comma].intercalate pieces ++ rest = remaining at *
  have distinctStarts : ∀ tokens : List Token, tokens.head? ≠ some (.symbol .dot) →
      startsWith "DISTINCT" (.word "DISTINCT" :: tokens) = true := by
    intro tokens different
    simpa [startsWith] using different
  rcases capped with ⟨rfl, rfl⟩ | ⟨digits, count, known, rfl, rfl⟩ <;> cases distinct
  · simp [readHead, noDistinct, noTop, listed]
  · simp [readHead, distinctStarts remaining noDot, noTop, listed]
  · simp [readHead, startsWith, readCap, known, listed]
  · simp [readHead, startsWith, readCap, known, listed]

/-! Tables and conditions. -/

def SourceTable.tokens (source : SourceTable) : List Token :=
  [.identifier source.table, .word source.aliasName]

def JoinReads (bag : Params) (tokens : List Token) (join : SourceJoin) : Prop :=
  ∃ condition, Reads bag .disjunction condition join.condition ∧
    tokens = join.kind.keywords.map .word ++ join.source.tokens ++ .word "ON" :: condition

theorem readJoin_complete {tokens : List Token} {join : SourceJoin}
    (reads : JoinReads bag tokens join) (fits : tokens.length ≤ size) {rest : List Token}
    (stops : Stops 1 rest) : readJoin bag size (tokens ++ rest) = some (join, rest) := by
  rcases join with ⟨kind, ⟨table, aliasName⟩, condition⟩
  rcases reads with ⟨conditionTokens, reads, rfl⟩
  simp only [List.length_append, List.length_cons] at fits
  have read := readFormula_of_reads reads (by omega : _ ≤ size) stops
  have known : ∀ word, kind.keywords = [word, "JOIN"] → JoinKind.ofKeyword? word = some kind := by
    cases kind <;> (intro word same; cases same; rfl)
  cases kind <;>
    simp [JoinKind.keywords, SourceTable.tokens, readJoin, readTable, known _ rfl, read]

/-- What can stand behind the joins. -/
theorem readJoin_where (rest : List Token) :
    readJoin bag size (.word "WHERE" :: rest) = none := by
  unfold readJoin
  split
  · next equal =>
      cases equal
      rfl
  · rfl

theorem readJoins_complete {pieces : List (List Token)} {joins : List SourceJoin}
    (reads : List.Forall₂ (JoinReads bag) pieces joins) (fits : pieces.flatten.length ≤ size)
    {limit : Nat} (enough : joins.length ≤ limit) (rest : List Token) :
    readJoins bag size limit (pieces.flatten ++ .word "WHERE" :: rest) =
      some (joins, .word "WHERE" :: rest) := by
  induction reads generalizing limit with
  | nil =>
      cases limit with
      | zero => rfl
      | succ limit => simp [readJoins, readJoin_where]
  | @cons piece join pieces joins first others induction =>
      simp only [List.flatten_cons, List.length_append, List.length_cons] at fits enough
      rcases Nat.exists_eq_add_of_le' (Nat.one_le_of_lt enough) with ⟨fewer, rfl⟩
      have stops : Stops 1 (pieces.flatten ++ .word "WHERE" :: rest) := by
        cases others with
        | nil => exact stops_cons (by decide)
        | @cons second next _ _ head _ =>
            rcases head with ⟨condition, -, rfl⟩
            cases kind : next.kind <;> exact stops_cons (by decide)
      have head := readJoin_complete first (by omega : _ ≤ size) stops
      have tail := induction (by omega) (by omega : _ ≤ fewer)
      rw [List.flatten_cons, List.append_assoc]
      simp [readJoins, head, tail]

/-- A condition, alone or with a cap on the row number as its last part. -/
def WhereReads (bag : Params) (tokens : List Token) (condition : Formula) (cap? : Option Nat) :
    Prop :=
  Reads bag .disjunction tokens condition ∧ cap? = none ∨
    ∃ chain digits count, Connected bag .and chain condition ∧ digits.toNat? = some count ∧
      tokens = chain ++ [.word "AND", .word "ROWNUM", .symbol .lessOrEqual, .word digits] ∧
      cap? = some count

theorem splitRowCap_append {digits : String} {count : Nat} (known : digits.toNat? = some count)
    (tokens : List Token) :
    splitRowCap (tokens ++
      [.word "AND", .word "ROWNUM", .symbol .lessOrEqual, .word digits]) = some (tokens, count) := by
  simp [splitRowCap, known]

/-- The row number is no operand that a condition could have. -/
theorem readFormula_capped {chain : List Token} {condition : Formula}
    (connected : Connected bag .and chain condition) (fits : chain.length ≤ size)
    (rest : List Token) :
    readFormula bag (size + 1) (chain ++ .word "AND" :: .word "ROWNUM" :: .symbol .lessOrEqual ::
      rest) = none := by
  have stops : Stops 3 (.word "AND" :: .word "ROWNUM" :: .symbol .lessOrEqual :: rest) :=
    stops_cons (by decide)
  rcases FormulaReader.chained_chain
      (fun tokens formula rest reads fits stops => reads size rest fits stops)
      links_conjunction.looser connected fits stops with ⟨limit, enough, read⟩
  rcases Nat.exists_eq_add_of_le' (Nat.le_trans (Nat.succ_le_succ (Nat.zero_le _)) enough) with
    ⟨fewer, rfl⟩
  have noSum : FormulaReader.sum bag (readFormula bag size)
      (.word "ROWNUM" :: .symbol .lessOrEqual :: rest) = none :=
    chained_eq_none (chained_eq_none rfl)
  have operand : Level.test.reader bag (readFormula bag size)
      (.word "ROWNUM" :: .symbol .lessOrEqual :: rest) = none := by
    simp [Level.reader, FormulaReader.test, FormulaReader.negated, FormulaReader.tested, noSum]
  have fails : FormulaReader.conjunction bag (readFormula bag size)
      (chain ++ .word "AND" :: .word "ROWNUM" :: .symbol .lessOrEqual :: rest) = none := by
    refine Eq.trans read ?_
    simp only [FormulaReader.readChain, Operator.connective, Connective.keyword, if_true, operand,
      Option.bind_eq_bind, Option.bind_none]
  exact chained_eq_none fails

theorem readWhere_complete {tokens : List Token} {condition : Formula} {cap? : Option Nat}
    (reads : WhereReads bag tokens condition cap?) (fits : tokens.length ≤ size)
    {rest : List Token} (stops : Stops 1 rest) (ended : cap? ≠ none → rest = []) :
    readWhere bag size (tokens ++ rest) = some ((condition, cap?), rest) := by
  rcases reads with ⟨reads, rfl⟩ | ⟨chain, digits, count, connected, known, rfl, rfl⟩
  · simp [readWhere, readFormula_of_reads reads fits stops]
  · have last := ended (by simp)
    subst last
    rw [List.length_append] at fits
    have whole := readFormula_capped connected (by omega : _ ≤ size) [.word digits]
    have read := reads_of_chain links_conjunction connected size [] (by omega) (stops_nil _)
    rw [List.append_nil] at read ⊢
    have condition : FormulaReader.conjunction bag (readFormula bag size) chain =
        some (condition, []) := read
    simp [readWhere, whole, splitRowCap_append known, condition]

def SourceReads (bag : Params) (tokens : List Token) (source : RowSource) : Prop :=
  ∃ hint pieces condition,
    tokens = .word "FROM" :: (source.first.tokens ++
      (hint ++ (pieces.flatten ++ .word "WHERE" :: condition))) ∧
    (hint = [] ∨
      hint = [.word "WITH", .symbol .openParen, .word "NOLOCK", .symbol .closeParen]) ∧
    List.Forall₂ (JoinReads bag) pieces source.joins ∧
    WhereReads bag condition source.condition source.cap?

theorem length_le_length_flatten {pieces : List (List Token)} {joins : List SourceJoin}
    (reads : List.Forall₂ (JoinReads bag) pieces joins) :
    joins.length ≤ pieces.flatten.length := by
  induction reads with
  | nil => exact Nat.le_refl _
  | cons first _ induction =>
      rcases first with ⟨condition, -, rfl⟩
      simp only [List.flatten_cons, List.length_append, List.length_cons]
      omega

theorem skipHint_of_joins {pieces : List (List Token)} {joins : List SourceJoin}
    (reads : List.Forall₂ (JoinReads bag) pieces joins) (rest : List Token) :
    skipHint (pieces.flatten ++ .word "WHERE" :: rest) =
      pieces.flatten ++ .word "WHERE" :: rest := by
  cases reads with
  | nil => rfl
  | @cons piece join _ _ first _ =>
      rcases first with ⟨condition, -, rfl⟩
      cases kind : join.kind <;> rfl

theorem readSource_complete {tokens : List Token} {source : RowSource}
    (reads : SourceReads bag tokens source) (fits : tokens.length ≤ size) {rest : List Token}
    (stops : Stops 1 rest) (ended : source.cap? ≠ none → rest = []) :
    readSource bag size (tokens ++ rest) = some (source, rest) := by
  rcases source with ⟨⟨table, aliasName⟩, joins, condition, cap?⟩
  rcases reads with ⟨hint, pieces, conditionTokens, rfl, hinted, joined, filtered⟩
  simp only [List.length_append, List.length_cons] at fits
  have few := length_le_length_flatten joined
  have tables := readJoins_complete joined (by omega : _ ≤ size) (by omega : _ ≤ size)
    (conditionTokens ++ rest)
  have picked := readWhere_complete filtered (by omega : _ ≤ size) stops ended
  have skipped := skipHint_of_joins joined (conditionTokens ++ rest)
  rcases hinted with rfl | rfl
  · simp [readSource, SourceTable.tokens, readTable, skipped, tables, picked]
  · simp [readSource, SourceTable.tokens, readTable, skipHint, tables, picked]

/-! What stands behind the conditions. A clause starts with its keyword. -/

def StartsClause (keywords : List String) (tokens : List Token) : Prop :=
  ∀ token ∈ tokens.head?, ∃ keyword ∈ keywords, token = .word keyword

section

variable {keywords : List String} {tokens : List Token} (starts : StartsClause keywords tokens)

include starts

theorem StartsClause.stops (loose : ∀ keyword ∈ keywords, (Token.word keyword).rank = 0)
    (bound : Nat) : Stops (bound + 1) tokens := by
  intro token head
  rcases starts token head with ⟨keyword, listed, rfl⟩
  rw [loose keyword listed]
  exact Nat.succ_pos bound

theorem StartsClause.ends (delimit : ∀ keyword ∈ keywords, (Token.word keyword).delimits = true) :
    Ends tokens := by
  intro token head
  rcases starts token head with ⟨keyword, listed, rfl⟩
  exact delimit keyword listed

theorem StartsClause.head?_ne_comma : tokens.head? ≠ some (.symbol .comma) := by
  intro comma
  rcases starts _ comma with ⟨keyword, -, equal⟩
  cases equal

theorem StartsClause.weaken {wider : List String} (subset : keywords ⊆ wider) :
    StartsClause wider tokens := by
  intro token head
  rcases starts token head with ⟨keyword, listed, equal⟩
  exact ⟨keyword, subset listed, equal⟩

theorem readClause_absent {keyword : String} (other : keyword ∉ keywords) (absent : α)
    (present : TokenReader α) :
    readClause keyword absent present tokens = some (absent, tokens) := by
  cases tokens with
  | nil => rfl
  | cons token rest =>
      rcases starts token rfl with ⟨first, listed, rfl⟩
      have different : first ≠ keyword := fun same => other (same ▸ listed)
      simp [readClause, skipToken, different]

end

theorem startsClause_nil (keywords : List String) : StartsClause keywords [] :=
  fun _ head => absurd head (Option.not_mem_none _)

theorem startsClause_cons {keywords : List String} {keyword : String}
    (listed : keyword ∈ keywords) (rest : List Token) :
    StartsClause keywords (.word keyword :: rest) := by
  intro token head
  cases head
  exact ⟨keyword, listed, rfl⟩

theorem readClause_present (keyword : String) (absent : α) (present : TokenReader α)
    (rest : List Token) : readClause keyword absent present (.word keyword :: rest) = present rest := by
  simp [readClause]

def GroupsRead (bag : Params) (tokens : List Token) (groups : List Formula) : Prop :=
  tokens = [] ∧ groups = [] ∨
    ∃ pieces, pieces ≠ [] ∧ List.Forall₂ (Reads bag .sum) pieces groups ∧
      tokens = .word "GROUP" :: .word "BY" :: [Token.symbol .comma].intercalate pieces

def HavingReads (bag : Params) (tokens : List Token) (having? : Option Formula) : Prop :=
  tokens = [] ∧ having? = none ∨
    ∃ inner condition, Reads bag .disjunction inner condition ∧
      tokens = .word "HAVING" :: inner ∧ having? = some condition

def OrderReads (bag : Params) (tokens : List Token) (order : List Formula) : Prop :=
  tokens = [] ∧ order = [] ∨
    ∃ pieces, pieces ≠ [] ∧ List.Forall₂ (SortReads bag) pieces order ∧
      tokens = .word "ORDER" :: .word "BY" :: [Token.symbol .comma].intercalate pieces

def LimitReads (tokens : List Token) (limit? : Option Nat) : Prop :=
  tokens = [] ∧ limit? = none ∨
    ∃ digits count, digits.toNat? = some count ∧ tokens = [.word "LIMIT", .word digits] ∧
      limit? = some count

theorem readGroups_complete {tokens : List Token} {groups : List Formula}
    (reads : GroupsRead bag tokens groups) (fits : tokens.length ≤ size) {rest : List Token}
    (starts : StartsClause ["HAVING", "ORDER", "LIMIT"] rest) :
    readGroups bag size (tokens ++ rest) = some (groups, rest) := by
  rcases reads with ⟨rfl, rfl⟩ | ⟨pieces, given, each, rfl⟩
  · exact readClause_absent starts (by decide) _ _
  · simp only [List.length_cons] at fits
    have listed := readList_of_takes (fun _ _ => takes_scalar) each given (by omega : _ ≤ size)
      (starts.ends (by decide)) starts.head?_ne_comma
    simp [readGroups, readClause_present, listed]

theorem readHaving_complete {tokens : List Token} {having? : Option Formula}
    (reads : HavingReads bag tokens having?) (fits : tokens.length ≤ size) {rest : List Token}
    (starts : StartsClause ["ORDER", "LIMIT"] rest) :
    readHaving bag size (tokens ++ rest) = some (having?, rest) := by
  rcases reads with ⟨rfl, rfl⟩ | ⟨inner, condition, reads, rfl, rfl⟩
  · exact readClause_absent starts (by decide) _ _
  · simp only [List.length_cons] at fits
    have read := readFormula_of_reads reads (by omega : _ ≤ size) (starts.stops (by decide) 0)
    simp [readHaving, readClause_present, read]

theorem readOrder_complete {tokens : List Token} {order : List Formula}
    (reads : OrderReads bag tokens order) (fits : tokens.length ≤ size) {rest : List Token}
    (starts : StartsClause ["LIMIT"] rest) :
    readOrder bag size (tokens ++ rest) = some (order, rest) := by
  rcases reads with ⟨rfl, rfl⟩ | ⟨pieces, given, each, rfl⟩
  · exact readClause_absent starts (by decide) _ _
  · simp only [List.length_cons] at fits
    have listed := readList_of_takes (fun _ _ => takes_sortItem) each given (by omega : _ ≤ size)
      (starts.ends (by decide)) starts.head?_ne_comma
    simp [readOrder, readClause_present, listed]

theorem readLimit_complete {tokens : List Token} {limit? : Option Nat}
    (reads : LimitReads tokens limit?) : readLimit tokens = some (limit?, []) := by
  rcases reads with ⟨rfl, rfl⟩ | ⟨digits, count, known, rfl, rfl⟩
  · rfl
  · simp [readLimit, readClause_present, readCap, known]

/-! Whole queries. -/

section

variable {tokens rest : List Token} {keywords : List String}

theorem LimitReads.starts {limit? : Option Nat} (reads : LimitReads tokens limit?) :
    StartsClause ["LIMIT"] tokens := by
  rcases reads with ⟨rfl, -⟩ | ⟨digits, count, -, rfl, -⟩
  · exact startsClause_nil _
  · exact startsClause_cons (by decide) _

theorem OrderReads.starts {order : List Formula} (reads : OrderReads bag tokens order)
    (starts : StartsClause keywords rest) : StartsClause ("ORDER" :: keywords) (tokens ++ rest) := by
  rcases reads with ⟨rfl, -⟩ | ⟨pieces, -, -, rfl⟩
  · exact starts.weaken (List.subset_cons_self _ _)
  · exact startsClause_cons List.mem_cons_self _

theorem HavingReads.starts {having? : Option Formula} (reads : HavingReads bag tokens having?)
    (starts : StartsClause keywords rest) :
    StartsClause ("HAVING" :: keywords) (tokens ++ rest) := by
  rcases reads with ⟨rfl, -⟩ | ⟨inner, condition, -, rfl, -⟩
  · exact starts.weaken (List.subset_cons_self _ _)
  · exact startsClause_cons List.mem_cons_self _

theorem GroupsRead.starts {groups : List Formula} (reads : GroupsRead bag tokens groups)
    (starts : StartsClause keywords rest) : StartsClause ("GROUP" :: keywords) (tokens ++ rest) := by
  rcases reads with ⟨rfl, -⟩ | ⟨pieces, -, -, rfl⟩
  · exact starts.weaken (List.subset_cons_self _ _)
  · exact startsClause_cons List.mem_cons_self _

theorem SourceReads.starts {source : RowSource} (reads : SourceReads bag tokens source)
    (rest : List Token) : StartsClause ["FROM"] (tokens ++ rest) := by
  rcases reads with ⟨hint, pieces, condition, rfl, -⟩
  exact startsClause_cons (by decide) _

end

/-- The tokens are made up of the parts of the query. A cap on the row number stands at
their end. -/
def RowQuery.Reads (query : RowQuery) (bag : Params) (tokens : List Token) : Prop :=
  ∃ head source groups having order limit top? bottom?,
    tokens = .word "SELECT" :: (head ++ (source ++ (groups ++ (having ++ (order ++ limit))))) ∧
    HeadReads bag head query.distinct top? query.items ∧
    SourceReads bag source query.source ∧
    GroupsRead bag groups query.groups ∧
    HavingReads bag having query.having? ∧
    OrderReads bag order query.order ∧
    LimitReads limit bottom? ∧
    query.limit? = bottom?.or top? ∧
    (query.source.cap? ≠ none → groups ++ (having ++ (order ++ limit)) = [])

theorem readRowQuery_complete {tokens : List Token} {query : RowQuery}
    (reads : query.Reads bag tokens) : readRowQuery bag tokens = some query := by
  rcases query with ⟨distinct, items, source, groups, having?, order, limit?⟩
  rcases reads with ⟨headTokens, sourceTokens, groupTokens, havingTokens, orderTokens,
    limitTokens, top?, bottom?, rfl, headed, sourced, grouped, kept, ordered, limited, capped,
    ended⟩
  dsimp only at headed sourced grouped kept ordered capped ended
  subst capped
  unfold readRowQuery
  generalize length : List.length _ = total
  simp only [List.length_cons, List.length_append] at length
  have limitStarts := limited.starts
  have orderStarts := ordered.starts limitStarts
  have havingStarts := kept.starts orderStarts
  have groupStarts := grouped.starts havingStarts
  have sourceStarts := sourced.starts (groupTokens ++ (havingTokens ++ (orderTokens ++ limitTokens)))
  have head := readHead_complete headed (by omega : _ ≤ total) (sourceStarts.ends (by decide))
    sourceStarts.head?_ne_comma
  have tables := readSource_complete sourced (by omega : _ ≤ total)
    (groupStarts.stops (by decide) 0) ended
  have keys := readGroups_complete grouped (by omega : _ ≤ total) havingStarts
  have asked := readHaving_complete kept (by omega : _ ≤ total) orderStarts
  have sorted := readOrder_complete ordered (by omega : _ ≤ total) limitStarts
  simp [head, tables, keys, asked, sorted, readLimit_complete limited]

end EntitySql
