import EntitySql.MySql.Connection
import EntitySql.Proofs.Segments
import EntitySql.Proofs.Steps

/-! What the server gets of a statement that lacks a value. The parts of a statement are
prepared and sent one at a time, so that the lack shows only when it is the turn of the part
with the placeholder: the parts before it have been sent by then, and none is sent from there
on. -/

namespace EntitySql

namespace MySql

/-! Placeholders without a value. -/

/-- The part has a placeholder that no parameter holds a value for. -/
def Lacks (params : Params) (part : List Char) : Prop :=
  ∃ name, .placeholder name ∈ segments part ∧ params.get? (String.ofList name) = none

def Segment.unbound? (params : Params) : Segment → Option String
  | .placeholder name =>
      if params.get? (String.ofList name) = none then some (String.ofList name) else none
  | .doubledMark | .character _ => none

/-- The first placeholder of a part that no parameter holds a value for. -/
def unbound? (params : Params) (part : List Char) : Option String :=
  (segments part).findSome? (Segment.unbound? params)

theorem Segment.unbound?_isSome_iff {params : Params} {segment : Segment} :
    (segment.unbound? params).isSome = true ↔
      ∃ name, segment = .placeholder name ∧ params.get? (String.ofList name) = none := by
  cases segment with
  | placeholder name => simp [unbound?]
  | doubledMark | character value => simp [unbound?]

theorem lacks_iff {params : Params} {part : List Char} :
    Lacks params part ↔ (unbound? params part).isSome = true := by
  simp only [unbound?, List.findSome?_isSome_iff, Segment.unbound?_isSome_iff, Lacks]
  constructor
  · rintro ⟨name, listed, absent⟩
    exact ⟨_, listed, name, rfl, absent⟩
  · rintro ⟨_, listed, name, rfl, absent⟩
    exact ⟨name, listed, absent⟩

theorem Segment.prepare_of_unbound?_eq_none {params : Params} {segment : Segment}
    (bound : segment.unbound? params = none) :
    ∃ prepared, segment.prepare params = .ok prepared := by
  cases segment with
  | doubledMark | character value => exact ⟨_, rfl⟩
  | placeholder name =>
      cases found : params.get? (String.ofList name) with
      | none => simp [unbound?, found] at bound
      | some value => exact ⟨_, by rw [prepare, found]⟩

theorem Segment.prepare_of_unbound?_eq_some {params : Params} {segment : Segment} {name : String}
    (unbound : segment.unbound? params = some name) :
    segment.prepare params = .error (.execution (.unboundParameter name)) := by
  cases segment with
  | doubledMark | character value => cases unbound
  | placeholder own =>
      rcases Option.ite_none_right_eq_some.mp unbound with ⟨absent, same⟩
      cases Option.some.inj same
      rw [prepare, absent]

theorem prepareSegments_of_findSome?_eq_none {params : Params} {cut : List Segment}
    (bound : cut.findSome? (Segment.unbound? params) = none) :
    ∃ prepared, prepareSegments params cut = .ok prepared := by
  induction cut with
  | nil => exact ⟨_, rfl⟩
  | cons segment cut induction =>
      rw [List.findSome?_cons] at bound
      split at bound
      · cases bound
      · next own =>
          rcases Segment.prepare_of_unbound?_eq_none own with ⟨first, head⟩
          rcases induction bound with ⟨others, tail⟩
          exact ⟨_, prepareSegments_cons_eq_ok.mpr ⟨first, others, head, tail, rfl⟩⟩

theorem prepareSegments_of_findSome?_eq_some {params : Params} {cut : List Segment} {name : String}
    (unbound : cut.findSome? (Segment.unbound? params) = some name) :
    prepareSegments params cut = .error (.execution (.unboundParameter name)) := by
  induction cut with
  | nil => cases unbound
  | cons segment cut induction =>
      rw [List.findSome?_cons] at unbound
      rw [prepareSegments]
      split at unbound
      · next own =>
          cases unbound
          rw [Segment.prepare_of_unbound?_eq_some own]
          rfl
      · next own =>
          rcases Segment.prepare_of_unbound?_eq_none own with ⟨first, head⟩
          rw [head, induction unbound]
          rfl

/-- A part is prepared where each of its placeholders has a value. -/
theorem prepare_of_not_lacks {params : Params} {part : List Char} (bound : ¬ Lacks params part) :
    ∃ prepared, prepare params part = .ok prepared := by
  rw [lacks_iff, Bool.not_eq_true, Option.isSome_eq_false_iff, Option.isNone_iff_eq_none] at bound
  exact prepareSegments_of_findSome?_eq_none bound

/-- Otherwise the first one without a value is the error. -/
theorem prepare_of_lacks {params : Params} {part : List Char} (lacks : Lacks params part) :
    ∃ name, unbound? params part = some name ∧
      prepare params part = .error (.execution (.unboundParameter name)) := by
  rcases Option.isSome_iff_exists.mp (lacks_iff.mp lacks) with ⟨name, first⟩
  exact ⟨name, first, prepareSegments_of_findSome?_eq_some first⟩

/-! Sending. -/

/-- The reply to the next statement. -/
def nextReply (replies : List Reply) : Reply :=
  replies.head?.getD (.done 0)

/-- The error that a reply amounts to, if the server refuses the statement by it. -/
def Reply.refusal? : Reply → Option Error
  | .refused code state message => some (refusal code state message)
  | .done _ | .resultSet .. => none

/-- How many of some statements in a row reach the server: none does behind the first that it
refuses. -/
def reached : (count : Nat) → List Reply → Nat
  | 0, _ => 0
  | count + 1, replies =>
      if (nextReply replies).refusal?.isSome then 1 else reached count replies.tail + 1

/-- The first refusal among the replies to some statements in a row. -/
def firstRefusal? (count : Nat) (replies : List Reply) : Option Error :=
  (replies.take count).findSome? Reply.refusal?

theorem reached_eq_zero_iff {count : Nat} {replies : List Reply} :
    reached count replies = 0 ↔ count = 0 := by
  cases count with
  | zero => simp [reached]
  | succ count =>
      rw [reached]
      split <;> simp

theorem firstRefusal?_succ (count : Nat) (replies : List Reply) :
    firstRefusal? (count + 1) replies =
      (nextReply replies).refusal?.or (firstRefusal? count replies.tail) := by
  cases replies with
  | nil => simp [firstRefusal?, nextReply, Reply.refusal?]
  | cons reply replies =>
      rw [firstRefusal?, List.take_succ_cons, List.findSome?_cons]
      change _ = reply.refusal?.or (firstRefusal? count replies)
      cases reply.refusal? <;> rfl

/-- The connection after these statements have been sent. -/
def Connection.past (connection : Connection) (statements : List Prepared) : Connection :=
  let count := reached statements.length connection.replies
  { replies := connection.replies.drop count
    sent := connection.sent ++ statements.take count }

namespace Exchange

theorem runOn_lift (result : Except Error α) (connection : Connection) :
    runOn (lift result) connection = (result, connection) := by
  cases result <;> rfl

theorem runOn_send (prepared : Prepared) (connection : Connection) :
    runOn (send prepared) connection =
      ((nextReply connection.replies).refusal?.elim (.ok (nextReply connection.replies)) .error,
        { replies := connection.replies.tail, sent := connection.sent ++ [prepared] }) := by
  rcases connection with ⟨_ | ⟨reply, replies⟩, sent⟩
  · rfl
  · cases reply <;> rfl

theorem runOn_sendPart {params : Params} {part : List Char} {prepared : Prepared}
    (ready : prepare params part = .ok prepared) (connection : Connection) :
    runOn (sendPart params part) connection = runOn (send prepared) connection := by
  rw [sendPart, runOn_bind, runOn_lift, ready]

/-- Sends parts one after the other, and keeps all replies. -/
def sendAll (params : Params) : List (List Char) → Exchange (List Reply)
  | [] => return []
  | part :: rest => do
      let reply ← sendPart params part
      let others ← sendAll params rest
      return reply :: others

/-- Executing a statement is sending all its parts and adding up the replies. -/
theorem executeParts_eq (params : Params) (parts : List (List Char)) :
    executeParts params parts =
      (fun replies => (replies.map affected).foldr (· + ·) 0) <$> sendAll params parts := by
  induction parts with
  | nil => rfl
  | cons part rest induction => simp [executeParts, sendAll, induction]

/-- Asking for the last reply is sending all parts as well. -/
theorem runParts_eq (params : Params) {parts : List (List Char)} (given : parts ≠ []) :
    runParts params parts =
      (fun replies => replies.getLastD (.done 0)) <$> sendAll params parts := by
  induction parts with
  | nil => exact absurd rfl given
  | cons part rest induction =>
      cases rest with
      | nil => simp [runParts, sendAll]
      | cons second rest =>
          rw [runParts, induction (List.cons_ne_nil _ _)]
          · simp [sendAll]
          · intro empty
            cases empty

/-- Parts that are prepared are sent up to one that is not, or up to one that the server
refuses. -/
theorem runOn_sendAll {params : Params} {before : List (List Char)} {ready : List Prepared}
    (prepared : List.Forall₂ (fun part statement => prepare params part = .ok statement)
      before ready)
    {part : List Char} {error : Error} (fails : prepare params part = .error error)
    (after : List (List Char)) (connection : Connection) :
    runOn (sendAll params (before ++ part :: after)) connection =
      (.error ((firstRefusal? ready.length connection.replies).getD error),
        connection.past ready) := by
  induction prepared generalizing connection with
  | nil =>
      have unsent : runOn (sendPart params part) connection = (.error error, connection) := by
        rw [sendPart, runOn_bind, runOn_lift, fails]
      rw [List.nil_append, sendAll, runOn_bind_of_error unsent]
      simp [Connection.past, reached, firstRefusal?]
  | @cons first statement before ready head tail induction =>
      rw [List.cons_append, sendAll, runOn_bind, runOn_sendPart head, runOn_send,
        List.length_cons, firstRefusal?_succ]
      cases refused : (nextReply connection.replies).refusal? with
      | some refusal => simp [Connection.past, reached, refused]
      | none =>
          simp only [Option.elim_none, Option.none_or, runOn_bind, induction]
          simp [Connection.past, reached, refused]

end Exchange

/-! Statements of several parts. -/

/-- Parts with one that lacks a value are some that lack none, prepared, and then the first
that does. -/
theorem exists_first_lacking {params : Params} {parts : List (List Char)}
    (lacking : ∃ part ∈ parts, Lacks params part) :
    ∃ before part after ready, parts = before ++ part :: after ∧ Lacks params part ∧
      List.Forall₂ (fun earlier statement => prepare params earlier = .ok statement)
        before ready := by
  induction parts with
  | nil => simp at lacking
  | cons first rest induction =>
      by_cases lacks : Lacks params first
      · exact ⟨[], first, rest, [], rfl, lacks, .nil⟩
      · have later : ∃ part ∈ rest, Lacks params part := by
          rcases lacking with ⟨part, listed, own⟩
          rcases List.mem_cons.mp listed with rfl | listed
          · exact absurd own lacks
          · exact ⟨part, listed, own⟩
        rcases induction later with ⟨before, part, after, ready, rfl, own, prepared⟩
        rcases prepare_of_not_lacks lacks with ⟨statement, head⟩
        exact ⟨first :: before, part, after, statement :: ready, rfl, own, .cons head prepared⟩

theorem firstRefusal?_eq_execution {count : Nat} {replies : List Reply} {error : Error}
    (refused : firstRefusal? count replies = some error) : ∃ fault, error = .execution fault := by
  rcases List.exists_of_findSome?_eq_some refused with ⟨reply, -, own⟩
  cases reply with
  | refused code state message => exact ⟨_, (Option.some.inj own).symm⟩
  | done affected | resultSet columns rows => cases own

theorem sent_past_iff {connection : Connection} {ready : List Prepared} :
    (connection.past ready).sent = connection.sent ↔ ready = [] := by
  simp [Connection.past, reached_eq_zero_iff]

/-- A statement fails where one of its parts has a placeholder without a value. By then the
server has been sent the parts before the first such part, up to one that it refuses, and
nothing from there on, so that it has been sent nothing only where that part is the first. -/
theorem sent_parts_precede_missing_value (statement : Statement) (connection : Connection)
    (lacking : ∃ part ∈ splitStatements statement.sql.toList, Lacks statement.params part) :
    ∃ before part after ready name fault,
      splitStatements statement.sql.toList = before ++ part :: after ∧
      List.Forall₂ (fun earlier prepared => prepare statement.params earlier = .ok prepared)
        before ready ∧
      unbound? statement.params part = some name ∧
      (firstRefusal? ready.length connection.replies).getD
        (.execution (.unboundParameter name)) = .execution fault ∧
      (executor.query statement).run connection =
        (.error (.execution fault), connection.past ready) ∧
      (executor.scalar statement).run connection =
        (.error (.execution fault), connection.past ready) ∧
      (executor.execute statement).run connection =
        (.error (.execution fault), connection.past ready) ∧
      ((connection.past ready).sent = connection.sent ↔ before = []) := by
  rcases exists_first_lacking lacking with ⟨before, part, after, ready, cut, lacks, prepared⟩
  rcases prepare_of_lacks lacks with ⟨name, unbound, fails⟩
  have failed : ∃ fault, (firstRefusal? ready.length connection.replies).getD
      (.execution (.unboundParameter name)) = .execution fault := by
    cases refused : firstRefusal? ready.length connection.replies with
    | none => exact ⟨_, rfl⟩
    | some error => exact firstRefusal?_eq_execution refused
  rcases failed with ⟨fault, failed⟩
  have sent := Exchange.runOn_sendAll prepared fails after connection
  rw [← cut, failed] at sent
  have given : splitStatements statement.sql.toList ≠ [] := by simp [cut]
  refine ⟨before, part, after, ready, name, fault, cut, prepared, unbound, failed, ?_, ?_, ?_, ?_⟩
  · change runOn (Reply.rows <$> Exchange.runParts _ _) connection = _
    rw [Exchange.runParts_eq _ given, runOn_map, runOn_map, sent]
    rfl
  · change runOn (Reply.firstValue <$> Exchange.runParts _ _) connection = _
    rw [Exchange.runParts_eq _ given, runOn_map, runOn_map, sent]
    rfl
  · change runOn (Exchange.executeParts _ _) connection = _
    rw [Exchange.executeParts_eq, runOn_map, sent]
    rfl
  · rw [sent_past_iff, ← List.length_eq_zero_iff, ← prepared.length_eq, List.length_eq_zero_iff]

/-- The value of the second part of three is missing: the first one is sent, and its refusal
would be told instead. -/
theorem sent_parts_precede_missing_value_of_three :
    ∃ statement : Statement, ∃ connection : Connection,
      statement.sql = "DELETE FROM a WHERE n = @n; DELETE FROM b WHERE id = @id; DELETE FROM c" ∧
      connection.replies = [.done 2, .refused 1064 "42000" "syntax"] ∧
      ∃ part ∈ splitStatements statement.sql.toList, Lacks statement.params part ∧
      ∃ before part after ready name fault,
        splitStatements statement.sql.toList = before ++ part :: after ∧
        List.Forall₂ (fun earlier prepared => prepare statement.params earlier = .ok prepared)
          before ready ∧
        unbound? statement.params part = some name ∧
        (firstRefusal? ready.length connection.replies).getD
          (.execution (.unboundParameter name)) = .execution fault ∧
        (executor.query statement).run connection =
          (.error (.execution fault), connection.past ready) ∧
        (executor.scalar statement).run connection =
          (.error (.execution fault), connection.past ready) ∧
        (executor.execute statement).run connection =
          (.error (.execution fault), connection.past ready) ∧
        ((connection.past ready).sent = connection.sent ↔ before = []) := by
  refine ⟨⟨_, ⟨[⟨"n", .int 1, .input⟩]⟩⟩, ⟨_, []⟩, rfl, rfl, "DELETE FROM b WHERE id = @id".toList,
    by decide +kernel, ⟨"id".toList, by decide +kernel, by decide +kernel⟩, ?_⟩
  exact sent_parts_precede_missing_value _ _
    ⟨"DELETE FROM b WHERE id = @id".toList, by decide +kernel, "id".toList, by decide +kernel,
      by decide +kernel⟩

/-- Not nothing: of two parts the first is sent though the second lacks a value. -/
theorem part_sent_despite_missing_value :
    ¬ ∀ (statement : Statement) (connection : Connection),
      (∃ part ∈ splitStatements statement.sql.toList, Lacks statement.params part) →
      ((executor.query statement).run connection).2.sent = connection.sent ∧
      ((executor.scalar statement).run connection).2.sent = connection.sent ∧
      ((executor.execute statement).run connection).2.sent = connection.sent := by
  intro unsent
  have claimed := (unsent { sql := "DELETE FROM a;DELETE FROM b WHERE id = @id" } {}
    ⟨"DELETE FROM b WHERE id = @id".toList, by decide +kernel, "id".toList, by decide +kernel,
      by decide +kernel⟩).1
  exact absurd claimed (by decide +kernel)

end MySql

end EntitySql
