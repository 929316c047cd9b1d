import Mathlib
import EntitySql.Proofs.KeyedUpdates
import EntitySql.Proofs.Success

/-! Building comes before calling. Everything that a reader or a writer does against its
database is one plan: statements to build, calls to make with them, and a result to read
from the replies. Whatever the plan, all statements are built first, out of the catalog and
the dialect alone, and the calls are made in turn between the hooks. -/

namespace EntitySql

/-! Replies, whatever the call. -/

/-- What an executor answers to a call. -/
inductive Reply where
  | rows (rows : List Row)
  | value (value : Json)
  | affected (count : UInt64)

namespace Reply

def rowsOf : Reply → List Row
  | .rows found => found
  | _ => []

def valueOf : Reply → Json
  | .value result => result
  | _ => .null

def countOf : Reply → UInt64
  | .affected count => count
  | _ => 0

/-- The rows affected by all calls. -/
def total : List Reply → UInt64
  | [] => 0
  | reply :: rest => reply.countOf + total rest

end Reply

def Executor.reply (executor : Executor σ) (kind : CallKind) (statement : Statement) :
    StateM σ (Except Error Reply) :=
  match kind with
  | .query => return (← executor.query statement).map .rows
  | .scalar => return (← executor.scalar statement).map .value
  | .execute => return (← executor.execute statement).map .affected

/-! What building and calling come to. -/

/-- What building operations in turn gives and the log lines that it leaves. The first one
that cannot be built is the last one that is looked at. -/
def Catalog.composeAll (catalog : Catalog) (dialect : Dialect) :
    List (Except Error Operation) → Except Error (List Statement) × List LogLine
  | [] => (.ok [], [])
  | .error error :: _ => (.error error, [])
  | .ok operation :: rest =>
      match operation.compose catalog dialect with
      | (.error error, lines) => (.error error, lines)
      | (.ok composition, lines) =>
          let (statements, more) := catalog.composeAll dialect rest
          (statements.map (composition.statement :: ·), lines ++ more)

/-- Each hook in turn makes over what the one before it made of a statement. -/
inductive Hooks.Prepares : Hooks → Statement → Statement → Prop
  | done : Prepares [] statement statement
  | hook (rest : Prepares hooks (hook.executing statement) prepared) :
      Prepares (hook :: hooks) statement prepared

/-- Calls made in turn: what they leave in the journal, what they come to and the state of
the executor behind them. A call gets its statement as the hooks prepare it, and then each
hook in turn is shown just that, whatever the reply is. No call is made behind one that
fails, or whose reply does not let the calls go on. -/
inductive Database.Calls (database : Database σ) (goesOn : CallKind → Reply → Except Error Unit) :
    σ → List (CallKind × Statement) → List Event → Except Error (List Reply) → σ → Prop
  | none : Calls database goesOn state [] [] (.ok []) state
  | stopped {state later : σ} {statement prepared : Statement}
      (prepares : Hooks.Prepares database.hooks statement prepared)
      (replied : (database.executor.reply kind prepared).run state = (reply, later))
      (stops : (reply >>= goesOn kind) = .error error) :
      Calls database goesOn state ((kind, statement) :: rest)
        (.called kind prepared :: database.hooks.flatMap (·.executed prepared))
        (.error error) later
  | answered {state middle later : σ} {statement prepared : Statement} {reply : Reply}
      (prepares : Hooks.Prepares database.hooks statement prepared)
      (replied : (database.executor.reply kind prepared).run state = (.ok reply, middle))
      (on : goesOn kind reply = .ok ())
      (others : Calls database goesOn middle rest events outcome later) :
      Calls database goesOn state ((kind, statement) :: rest)
        (.called kind prepared :: database.hooks.flatMap (·.executed prepared) ++ events)
        (outcome.map (reply :: ·)) later

theorem Hooks.prepares_executing (hooks : Hooks) (statement : Statement) :
    hooks.Prepares statement (hooks.executing statement) := by
  induction hooks generalizing statement with
  | nil => exact .done
  | cons hook hooks induction => exact .hook (induction (hook.executing statement))

/-! What there is to do against a database. -/

inductive Terminal (σ : Type) : Type → Type
  | get (reader : Reader σ) (type : ResultType) : Terminal σ (Option Json)
  | toList (reader : Reader σ) (type : ResultType) : Terminal σ (List Json)
  | page (reader : Reader σ) (index size : UInt32) : Terminal σ (Page Json)
  | count (reader : Reader σ) : Terminal σ UInt64
  | any (reader : Reader σ) : Terminal σ Bool
  | summarize (reader : Reader σ) (summary : Summary) (selector : Expr) (type : ResultType) :
      Terminal σ Json
  | insert (writer : Writer σ) (item : Json) : Terminal σ UInt64
  | insertMany (writer : Writer σ) (items : List Json) : Terminal σ UInt64
  | insertIdentity (writer : Writer σ) (item : Json) : Terminal σ Json
  | update (writer : Writer σ) (item : Json) : Terminal σ UInt64
  | updateBatch (writer : Writer σ) (item : Json) : Terminal σ UInt64
  | updateMany (writer : Writer σ) (items : List Json) : Terminal σ UInt64
  | updateWith (writer : Writer σ) (updater : Expr) : Terminal σ UInt64
  | updateSelect (writer : Writer σ) (updater : Expr) (type : ResultType) :
      Terminal σ (List Json)
  | delete (writer : Writer σ) : Terminal σ UInt64

namespace Terminal

def run : Terminal σ α → Run σ α
  | .get reader type => reader.get type
  | .toList reader type => reader.toList type
  | .page reader index size => reader.page index size
  | .count reader => reader.count
  | .any reader => reader.any
  | .summarize reader summary selector type => reader.summarize summary selector type
  | .insert writer item => writer.insert item
  | .insertMany writer items => writer.insertMany items
  | .insertIdentity writer item => writer.insertIdentity item
  | .update writer item => writer.update item
  | .updateBatch writer item => writer.updateBatch item
  | .updateMany writer items => writer.updateMany items
  | .updateWith writer updater => writer.updateWith updater
  | .updateSelect writer updater type => writer.updateSelect updater type
  | .delete writer => writer.delete

def database : Terminal σ α → Database σ
  | .get reader _ | .toList reader _ | .page reader _ _ | .count reader | .any reader
  | .summarize reader _ _ _ => reader.database
  | .insert writer _ | .insertMany writer _ | .insertIdentity writer _ | .update writer _
  | .updateBatch writer _ | .updateMany writer _ | .updateWith writer _
  | .updateSelect writer _ _ | .delete writer => writer.database

/-- The statements to build, in the order in which they are built. -/
def needs : Terminal σ α → List (Except Error Operation)
  | .get reader _ => [.ok (.get reader.query)]
  | .toList reader _ => [.ok (.list reader.query)]
  | .page reader index size => [.ok (.page reader.query index size), .ok (.count reader.query)]
  | .count reader => [.ok (.count reader.query)]
  | .any reader => [.ok (.any reader.query)]
  | .summarize reader summary selector _ =>
      [.ok (.summarize summary reader.query (some selector))]
  | .insert writer item => [writer.inserting item]
  | .insertMany writer items => items.map writer.inserting
  | .insertIdentity writer item => [writer.insertingIdentity item]
  | .update writer item => [writer.updating false item]
  | .updateBatch writer item => [writer.updating true item]
  | .updateMany writer items => items.map (writer.updating false)
  | .updateWith writer updater => [.ok (.update writer.query updater)]
  | .updateSelect writer updater _ => [.ok (.updateSelect writer.query updater)]
  | .delete writer => [.ok (.delete writer.query)]

/-- The calls to make with the statements. The rows of a page are counted before they are
asked for. -/
def calls (terminal : Terminal σ α) (statements : List Statement) :
    List (CallKind × Statement) :=
  match terminal with
  | .page .. => [CallKind.scalar, .query].zip statements.reverse
  | .get .. | .toList .. | .any _ | .updateSelect .. => statements.map (.query, ·)
  | .count _ | .summarize .. | .insertIdentity .. => statements.map (.scalar, ·)
  | .insert .. | .insertMany .. | .update .. | .updateBatch .. | .updateMany ..
  | .updateWith .. | .delete _ => statements.map (.execute, ·)

/-- A page is asked for only once its rows are counted. -/
def goesOn (terminal : Terminal σ α) (kind : CallKind) (reply : Reply) : Except Error Unit :=
  match terminal, kind with
  | .page .., .scalar => do
      let _ ← readCount reply.valueOf
  | _, _ => .ok ()

/-- What is made of the replies. -/
def answer (terminal : Terminal σ α) (replies : List Reply) : Except Error α :=
  let rows := (replies.map Reply.rowsOf).getLastD []
  let value := (replies.map Reply.valueOf).headD .null
  match terminal with
  | .get _ type => rows.head?.mapM fun row => type.read row.fold
  | .toList _ type | .updateSelect _ _ type => readRows type rows
  | .page _ index size => do
      let total ← readCount value
      let items ← readRows .json rows
      return { index, size, total, items }
  | .count _ => readCount value
  | .any _ => .ok !rows.isEmpty
  | .summarize _ _ _ type => type.read value
  | .insertIdentity .. => .ok value
  | .insert .. | .insertMany .. | .update .. | .updateBatch .. | .updateMany ..
  | .updateWith .. | .delete _ => .ok (Reply.total replies)

/-- The number of affected rows, where that is the result. -/
def affected? : Terminal σ α → α → Option UInt64
  | .insert .., number | .insertMany .., number | .update .., number | .updateBatch .., number
  | .updateMany .., number | .updateWith .., number | .delete _, number => some number
  | _, _ => none

end Terminal

/-! Plans. -/

namespace Database

def ask (database : Database σ) (kind : CallKind) (statement : Statement) : Run σ Reply :=
  database.call kind (database.executor.reply kind) statement

def askAll (database : Database σ) (goesOn : CallKind → Reply → Except Error Unit) :
    List (CallKind × Statement) → Run σ (List Reply)
  | [] => return []
  | (kind, statement) :: rest => do
      let reply ← database.ask kind statement
      Run.lift (goesOn kind reply)
      return reply :: (← database.askAll goesOn rest)

end Database

/-- Builds all statements, makes all calls and reads the replies. -/
def Terminal.conduct (terminal : Terminal σ α) : Run σ α := do
  let statements ← terminal.database.statements terminal.needs
  let replies ← terminal.database.askAll terminal.goesOn (terminal.calls statements)
  Run.lift (terminal.answer replies)

namespace Run

theorem ext {first second : Run σ α}
    (same : ∀ session, first.runFrom session = second.runFrom session) : first = second :=
  funext same

theorem lift_ok (value : α) : (lift (.ok value) : Run σ α) = pure value :=
  rfl

theorem lift_bind (result : Except Error α) (next : α → Except Error β) :
    (lift (result >>= next) : Run σ β) = lift result >>= fun value => lift (next value) := by
  cases result <;> rfl

theorem lift_mapM (transform : α → Except Error β) (item? : Option α) :
    (lift (item?.mapM transform) : Run σ (Option β)) =
      match item? with
      | some item => do return some (← lift (transform item))
      | none => return none := by
  cases item? with
  | none => rfl
  | some item => exact lift_bind (transform item) fun value => .ok (some value)

end Run

namespace Database

variable (database : Database σ)

theorem call_eq_ask {kind : CallKind} {action : Statement → StateM σ (Except Error α)}
    {wrap : α → Reply} {read : Reply → α} (reads : ∀ value, read (wrap value) = value)
    (replies : ∀ statement, database.executor.reply kind statement = do
      return (← action statement).map wrap) (statement : Statement) :
    database.call kind action statement = do
      return read (← database.ask kind statement) := by
  apply Run.ext
  intro session
  simp only [ask, call, replies, bind_assoc, Run.runFrom_bind, Run.runFrom_record,
    Run.runFrom_perform, Run.runFrom_lift, StateT.run_bind, StateT.run_pure]
  generalize (action (database.hooks.executing statement)).run session.state = outcome
  rcases outcome with ⟨error | value, later⟩
  · rfl
  · exact Prod.ext (congrArg Except.ok (reads value).symm) rfl

theorem query_eq_ask (statement : Statement) :
    database.query statement = do return (← database.ask .query statement).rowsOf :=
  database.call_eq_ask (fun _ => rfl) (fun _ => rfl) statement

theorem scalar_eq_ask (statement : Statement) :
    database.scalar statement = do return (← database.ask .scalar statement).valueOf :=
  database.call_eq_ask (fun _ => rfl) (fun _ => rfl) statement

theorem execute_eq_ask (statement : Statement) :
    database.execute statement = do return (← database.ask .execute statement).countOf :=
  database.call_eq_ask (fun _ => rfl) (fun _ => rfl) statement

theorem executeAll_eq_askAll (goesOn : CallKind → Reply → Except Error Unit)
    (on : ∀ kind reply, goesOn kind reply = .ok ()) (statements : List Statement) :
    database.executeAll statements = do
      return Reply.total (← database.askAll goesOn (statements.map (.execute, ·))) := by
  induction statements with
  | nil => rfl
  | cons statement statements induction =>
      simp only [executeAll, List.map_cons, askAll, execute_eq_ask, induction, on, Run.lift_ok,
        bind_assoc, pure_bind]
      rfl

/-! The rules of building and calling. -/

theorem runFrom_statements (operations : List (Except Error Operation)) (session : Session σ) :
    (database.statements operations).runFrom session =
      ((database.catalog.composeAll database.dialect operations).1,
        { session with
          journal := session.journal ++
            (database.catalog.composeAll database.dialect operations).2.map .logged }) := by
  induction operations generalizing session with
  | nil => simp [statements, Catalog.composeAll]
  | cons operation operations induction =>
      cases operation with
      | error error => simp [statements, Catalog.composeAll, Run.runFrom_bind]
      | ok operation =>
          simp only [statements, Run.runFrom_bind, Run.runFrom_lift, runFrom_statement,
            Catalog.composeAll]
          rcases operation.compose database.catalog database.dialect with
            ⟨error | composition, lines⟩
          · rfl
          · simp only [Except.map, induction, Run.runFrom_pure]
            rcases database.catalog.composeAll database.dialect operations with
              ⟨error | statements, more⟩ <;> simp [List.append_assoc]

theorem runFrom_ask {kind : CallKind} {statement : Statement} {session : Session σ}
    {reply : Except Error Reply} {later : σ}
    (replied : (database.executor.reply kind (database.hooks.executing statement)).run
      session.state = (reply, later)) :
    (database.ask kind statement).runFrom session =
      (reply,
        { state := later
          journal := session.journal ++
            .called kind (database.hooks.executing statement) ::
              database.hooks.executed (database.hooks.executing statement) }) := by
  simp [ask, call, Run.runFrom_bind, replied]

/-- Calls in turn, by induction on what is left to call. -/
theorem calls_askAll (goesOn : CallKind → Reply → Except Error Unit)
    (calls : List (CallKind × Statement)) (session : Session σ) :
    ∃ events outcome state,
      database.Calls goesOn session.state calls events outcome state ∧
      (database.askAll goesOn calls).runFrom session =
        (outcome, ⟨state, session.journal ++ events⟩) := by
  induction calls generalizing session with
  | nil => exact ⟨[], .ok [], session.state, .none, by simp [askAll]⟩
  | cons call calls induction =>
      rcases call with ⟨kind, statement⟩
      have prepares := database.hooks.prepares_executing statement
      rcases replied : (database.executor.reply kind
        (database.hooks.executing statement)).run session.state with ⟨error | reply, middle⟩
      · refine ⟨_, .error error, middle, .stopped prepares replied rfl, ?_⟩
        simp only [askAll, Run.runFrom_bind, database.runFrom_ask replied]
        rfl
      · cases on : goesOn kind reply with
        | error error =>
            refine ⟨_, .error error, middle, .stopped prepares replied on, ?_⟩
            simp only [askAll, Run.runFrom_bind, database.runFrom_ask replied, on,
              Run.runFrom_lift]
            rfl
        | ok going =>
            rcases induction ⟨middle, session.journal ++
              .called kind (database.hooks.executing statement) ::
                database.hooks.executed (database.hooks.executing statement)⟩ with
              ⟨events, outcome, later, others, rest⟩
            refine ⟨_, _, later, .answered prepares replied on others, ?_⟩
            simp only [askAll, Run.runFrom_bind, database.runFrom_ask replied, on,
              Run.runFrom_lift, rest]
            cases outcome <;> simp [Except.map, Hooks.executed]

end Database

namespace Terminal

theorem conduct_of_single (terminal : Terminal σ α) {asked : Except Error Operation}
    {kind : CallKind} (needs : terminal.needs = [asked])
    (calls : ∀ statement, terminal.calls [statement] = [(kind, statement)])
    (on : ∀ kind reply, terminal.goesOn kind reply = .ok ()) :
    terminal.conduct = (do
      let operation ← Run.lift asked
      let statement ← terminal.database.statement operation
      let reply ← terminal.database.ask kind statement
      Run.lift (terminal.answer [reply])) := by
  simp only [conduct, needs, Database.statements, calls, Database.askAll, on, Run.lift_ok,
    bind_assoc, pure_bind]

/-- All statements are executed, and the rows affected by them are the result. -/
structure Executes (terminal : Terminal σ UInt64) : Prop where
  calls : ∀ statements, terminal.calls statements = statements.map (.execute, ·)
  on : ∀ kind reply, terminal.goesOn kind reply = .ok ()
  answers : ∀ replies, terminal.answer replies = .ok (Reply.total replies)

theorem conduct_of_many (terminal : Terminal σ UInt64) (executes : terminal.Executes)
    {operations : List (Except Error Operation)} (needs : terminal.needs = operations) :
    terminal.conduct =
      terminal.database.statements operations >>= terminal.database.executeAll := by
  simp only [conduct, needs, executes.calls, executes.answers, Run.lift_ok,
    funext (terminal.database.executeAll_eq_askAll terminal.goesOn executes.on)]

theorem conduct_of_write (terminal : Terminal σ UInt64) (executes : terminal.Executes)
    {asked : Except Error Operation} (needs : terminal.needs = [asked]) :
    terminal.conduct = (do
      let operation ← Run.lift asked
      let statement ← terminal.database.statement operation
      terminal.database.execute statement) := by
  simp only [terminal.conduct_of_single needs (fun statement => executes.calls [statement])
    executes.on, executes.answers, Reply.total, Database.execute_eq_ask, Run.lift_ok,
    UInt64.add_zero]

/-- Whatever there is to do is done by its plan. -/
theorem run_eq_conduct (terminal : Terminal σ α) : terminal.run = terminal.conduct := by
  cases terminal with
  | get reader type =>
      rw [(Terminal.get reader type).conduct_of_single rfl (fun _ => rfl) fun _ _ => rfl]
      simp only [run, Reader.get, Database.query_eq_ask, bind_assoc, pure_bind, Run.lift_ok,
        answer, Run.lift_mapM, List.map_cons, List.map_nil, List.getLastD_cons, List.getLastD_nil]
      refine bind_congr fun statement => bind_congr fun reply => ?_
      cases reply.rowsOf.head? <;> rfl
  | toList reader type =>
      rw [(Terminal.toList reader type).conduct_of_single rfl (fun _ => rfl) fun _ _ => rfl]
      simp only [run, Reader.toList, Database.query_eq_ask, bind_assoc, pure_bind, Run.lift_ok]
      rfl
  | page reader index size =>
      simp only [run, Reader.page, Reader.count, conduct, needs, Database.statements, calls,
        Database.askAll, Database.query_eq_ask, Database.scalar_eq_ask, Run.lift_ok, bind_assoc,
        pure_bind, List.reverse_cons, List.reverse_nil, List.nil_append, List.cons_append,
        List.zip_cons_cons, List.zip_nil_left, goesOn, answer, Run.lift_bind, List.map_cons,
        List.map_nil, List.headD_cons, List.getLastD_cons, List.getLastD_nil]
      refine bind_congr fun statement => bind_congr fun counting => bind_congr fun reply => ?_
      cases readCount reply.valueOf <;> rfl
  | count reader =>
      rw [(Terminal.count reader).conduct_of_single rfl (fun _ => rfl) fun _ _ => rfl]
      simp only [run, Reader.count, Database.scalar_eq_ask, bind_assoc, pure_bind, Run.lift_ok]
      rfl
  | any reader =>
      rw [(Terminal.any reader).conduct_of_single rfl (fun _ => rfl) fun _ _ => rfl]
      simp only [run, Reader.any, Database.query_eq_ask, bind_assoc, pure_bind, Run.lift_ok]
      rfl
  | summarize reader summary selector type =>
      rw [(Terminal.summarize reader summary selector type).conduct_of_single rfl (fun _ => rfl)
        fun _ _ => rfl]
      simp only [run, Reader.summarize, Database.scalar_eq_ask, bind_assoc, pure_bind, Run.lift_ok]
      rfl
  | insert writer item =>
      rw [(Terminal.insert writer item).conduct_of_write
        ⟨fun _ => rfl, fun _ _ => rfl, fun _ => rfl⟩ rfl]
      simp only [run, Writer.insert, Writer.prepare, bind_assoc]
      rfl
  | insertMany writer items =>
      exact ((Terminal.insertMany writer items).conduct_of_many
        ⟨fun _ => rfl, fun _ _ => rfl, fun _ => rfl⟩ rfl).symm
  | insertIdentity writer item =>
      rw [(Terminal.insertIdentity writer item).conduct_of_single rfl (fun _ => rfl)
        fun _ _ => rfl]
      simp only [run, Writer.insertIdentity, Writer.prepare, Database.scalar_eq_ask, bind_assoc]
      rfl
  | update writer item =>
      rw [(Terminal.update writer item).conduct_of_write
        ⟨fun _ => rfl, fun _ _ => rfl, fun _ => rfl⟩ rfl]
      simp only [run, Writer.update, Writer.prepare, bind_assoc]
      rfl
  | updateBatch writer item =>
      rw [(Terminal.updateBatch writer item).conduct_of_write
        ⟨fun _ => rfl, fun _ _ => rfl, fun _ => rfl⟩ rfl]
      simp only [run, Writer.updateBatch, Writer.prepare, bind_assoc]
      rfl
  | updateMany writer items =>
      exact ((Terminal.updateMany writer items).conduct_of_many
        ⟨fun _ => rfl, fun _ _ => rfl, fun _ => rfl⟩ rfl).symm
  | updateWith writer updater =>
      rw [(Terminal.updateWith writer updater).conduct_of_write
        ⟨fun _ => rfl, fun _ _ => rfl, fun _ => rfl⟩ rfl]
      rfl
  | updateSelect writer updater type =>
      rw [(Terminal.updateSelect writer updater type).conduct_of_single rfl (fun _ => rfl)
        fun _ _ => rfl]
      simp only [run, Writer.updateSelect, Database.query_eq_ask, bind_assoc, pure_bind,
        Run.lift_ok]
      rfl
  | delete writer =>
      rw [(Terminal.delete writer).conduct_of_write
        ⟨fun _ => rfl, fun _ _ => rfl, fun _ => rfl⟩ rfl]
      rfl

theorem run_of_error {terminal : Terminal σ α} {error : Error} {lines : List LogLine}
    (refused : terminal.database.catalog.composeAll terminal.database.dialect terminal.needs =
      (.error error, lines)) (session : Session σ) :
    terminal.run.runFrom session =
      (.error error, { session with journal := session.journal ++ lines.map .logged }) := by
  simp only [run_eq_conduct, conduct, Run.runFrom_bind, Database.runFrom_statements, refused]

theorem exists_calls_of_ok {terminal : Terminal σ α} {statements : List Statement}
    {lines : List LogLine}
    (built : terminal.database.catalog.composeAll terminal.database.dialect terminal.needs =
      (.ok statements, lines)) (session : Session σ) :
    ∃ events outcome state,
      terminal.database.Calls terminal.goesOn session.state (terminal.calls statements) events
        outcome state ∧
      terminal.run.runFrom session =
        (outcome >>= terminal.answer,
          ⟨state, session.journal ++ lines.map .logged ++ events⟩) := by
  rcases terminal.database.calls_askAll terminal.goesOn (terminal.calls statements)
    ⟨session.state, session.journal ++ lines.map .logged⟩ with
    ⟨events, outcome, state, calls, run⟩
  refine ⟨events, outcome, state, calls, ?_⟩
  simp only [run_eq_conduct, conduct, Run.runFrom_bind, Database.runFrom_statements, built, run]
  cases outcome <;> simp [bind, Except.bind]

end Terminal

/-- A page that can be built can be counted. -/
theorem Query.exists_count_of_page {catalog : Catalog} {dialect : Dialect} {query : Query}
    {index size : UInt32} {page : Composition}
    (composed : ((Operation.page query index size).compose catalog dialect).1 = .ok page) :
    ∃ counting, ((Operation.count query).compose catalog dialect).1 = .ok counting := by
  rcases Operation.exists_run_of_compose composed with ⟨built, draft, run, -⟩
  have run : (query.buildPage catalog dialect index size).runFrom {} = (.ok built, draft) := run
  simp only [buildPage, Build.runFrom_bind_eq_ok] at run
  rcases run with ⟨_, _, -, clauses, _, rows, -⟩
  have counts : (query.buildCount catalog dialect).Succeeds :=
    (ScalarClauses.succeeds_of_words rows _).bind fun _ => Build.succeeds_pure _
  rcases counts {} with ⟨counting, later, counted⟩
  exact ⟨_, (Operation.count query).compose_of_runFrom dialect counted⟩

/-- What a page needs is refused just where the page itself is, and for its reason. -/
theorem Terminal.page_refused_iff {reader : Reader σ} {index size : UInt32} {error : Error} :
    (reader.database.catalog.composeAll reader.database.dialect
      (Terminal.page reader index size).needs).1 = .error error ↔
    ((Operation.page reader.query index size).compose reader.database.catalog
      reader.database.dialect).1 = .error error := by
  simp only [needs, Catalog.composeAll]
  rcases composed : (Operation.page reader.query index size).compose reader.database.catalog
    reader.database.dialect with ⟨refused | page, lines⟩
  · simp
  · rcases Query.exists_count_of_page (congrArg Prod.fst composed) with ⟨counting, counted⟩
    rcases whole : (Operation.count reader.query).compose reader.database.catalog
      reader.database.dialect with ⟨refused | _, more⟩
    · rw [whole] at counted
      cases counted
    · simp [Except.map]

/-- Numbers of rows are added up as long as the sum fits. -/
theorem Reply.toNat_total (replies : List Reply) :
    (total replies).toNat = (replies.map (·.countOf.toNat)).sum % UInt64.size := by
  induction replies with
  | nil => rfl
  | cons reply replies induction =>
      rw [total, UInt64.toNat_add, induction, List.map_cons, List.sum_cons, Nat.add_mod_mod]

/-- Nothing is called before everything is built. Where a statement cannot be built, its
error is the outcome whatever the executor and the hooks are: the executor is left alone,
and the log lines of building are all that the journal gains. Otherwise there is one call a
statement, in turn, between the hooks; what the calls come to is the outcome, where the
numbers of affected rows are added up. -/
theorem built_before_called (terminal : Terminal σ α) (session : Session σ) :
    (match terminal.database.catalog.composeAll terminal.database.dialect terminal.needs with
      | (.error error, lines) =>
          terminal.run.runFrom session =
            (.error error, { session with journal := session.journal ++ lines.map .logged })
      | (.ok statements, lines) => ∃ events outcome state,
          terminal.database.Calls terminal.goesOn session.state (terminal.calls statements)
            events outcome state ∧
          terminal.run.runFrom session =
            (outcome >>= terminal.answer,
              ⟨state, session.journal ++ lines.map .logged ++ events⟩)) ∧
    ∀ replies result number, terminal.answer replies = .ok result →
      terminal.affected? result = some number →
      number.toNat = (replies.map (·.countOf.toNat)).sum % UInt64.size := by
  refine ⟨?_, ?_⟩
  · split
    · next refused => exact Terminal.run_of_error refused session
    · next built => exact Terminal.exists_calls_of_ok built session
  · intro replies result number answered told
    cases terminal <;> cases told <;> cases answered <;> exact Reply.toNat_total replies

/-! Two people put in between two hooks. -/

def Database.hooked : Database Script :=
  { Database.people with
    hooks :=
      [Rewriting.hook { before := some "/* people */ ", tag := some "first" },
        Rewriting.hook { after := some " /* end */", tag := some "second" }] }

theorem built_before_called_people :
    ∃ statements lines events outcome state,
      Catalog.people.composeAll .oracle
        ([Json.ann, .bob].map (Database.hooked.writer "Person").inserting) =
          (.ok statements, lines) ∧
      Database.hooked.Calls (fun _ _ => .ok ()) { affected := [.ok 3, .ok 4] }
        (statements.map (.execute, ·)) events outcome state ∧
      ((Database.hooked.writer "Person").insertMany [.ann, .bob]).runFrom
        ⟨{ affected := [.ok 3, .ok 4] }, []⟩ = (.ok 7, ⟨state, lines.map .logged ++ events⟩) ∧
      (7 : UInt64).toNat = [3, 4].sum % UInt64.size := by
  rcases built_before_called
    (.insertMany (Database.hooked.writer "Person") [.ann, .bob])
    ⟨{ affected := [.ok 3, .ok 4] }, []⟩ with ⟨called, totals⟩
  have total := totals [.affected 3, .affected 4] 7 7 rfl rfl
  rcases called with ⟨events, outcome, state, calls, run⟩
  refine ⟨_, _, events, outcome, state, rfl, calls, ?_, total⟩
  have seven : (((Database.hooked.writer "Person").insertMany [.ann, .bob]).runFrom
    ⟨{ affected := [.ok 3, .ok 4] }, []⟩).1 = .ok 7 := rfl
  have first : (outcome >>= (Terminal.insertMany (Database.hooked.writer "Person")
    [.ann, .bob]).answer) = .ok 7 := (congrArg Prod.fst run).symm.trans seven
  exact run.trans (Prod.ext first rfl)

end EntitySql
