import EntitySql.Execution.Database
import EntitySql.Proofs.Steps
import Mathlib.Data.List.Forall2

/-! Runs against a database, step by step. The journal only ever grows: building a
statement adds its log lines, and executing one adds the call and what the hooks note. -/

namespace EntitySql

namespace Run

/-- The outcome and the session it leaves, starting from a session. -/
def runFrom (run : Run σ α) (session : Session σ) : Except Error α × Session σ :=
  (ExceptT.run run).run session

@[simp] theorem runFrom_pure (value : α) (session : Session σ) :
    (pure value : Run σ α).runFrom session = (.ok value, session) :=
  rfl

theorem runFrom_bind (run : Run σ α) (next : α → Run σ β) (session : Session σ) :
    (run >>= next).runFrom session =
      match run.runFrom session with
      | (.ok value, later) => (next value).runFrom later
      | (.error error, later) => (.error error, later) := by
  simp only [runFrom, ExceptT.run, bind, ExceptT.bind, ExceptT.mk, StateT.bind,
    StateT.run, ExceptT.bindCont]
  rcases run session with ⟨_ | _, later⟩ <;> rfl

@[simp] theorem runFrom_lift (result : Except Error α) (session : Session σ) :
    (Run.lift result).runFrom session = (result, session) := by
  cases result <;> rfl

@[simp] theorem runFrom_record (events : List Event) (session : Session σ) :
    (Run.record events).runFrom session =
      (.ok (), { session with journal := session.journal ++ events }) :=
  rfl

@[simp] theorem runFrom_perform (action : StateM σ α) (session : Session σ) :
    (Run.perform action).runFrom session =
      (.ok (action.run session.state).1,
        { session with state := (action.run session.state).2 }) :=
  rfl

/-- A successful run of two steps in a row is a successful run of each. -/
theorem runFrom_bind_eq_ok {run : Run σ α} {next : α → Run σ β} {session final : Session σ}
    {result : β} :
    (run >>= next).runFrom session = (.ok result, final) ↔
      ∃ value later, run.runFrom session = (.ok value, later) ∧
        (next value).runFrom later = (.ok result, final) :=
  runOn_bind_eq_ok

end Run

namespace Database

variable (database : Database σ)

/-! Building. -/

theorem runFrom_statement (operation : Operation) (session : Session σ) :
    (database.statement operation).runFrom session =
      ((operation.compose database.catalog database.dialect).1.map (·.statement),
        { session with
          journal := session.journal ++
            (operation.compose database.catalog database.dialect).2.map .logged }) := by
  simp only [statement, Run.runFrom_bind, Run.runFrom_record, Run.runFrom_lift]
  cases (operation.compose database.catalog database.dialect).1 <;> rfl

/-- Each statement is that of the operation in its place. -/
theorem forall₂_statements {operations : List (Except Error Operation)}
    {session later : Session σ} {statements : List Statement}
    (built : (database.statements operations).runFrom session = (.ok statements, later)) :
    List.Forall₂ (fun operation statement => ∃ asked composition, operation = .ok asked ∧
      (asked.compose database.catalog database.dialect).1 = .ok composition ∧
      composition.statement = statement) operations statements := by
  induction operations generalizing session statements with
  | nil =>
      cases built
      exact .nil
  | cons operation operations induction =>
      simp only [Database.statements, Run.runFrom_bind_eq_ok, Run.runFrom_lift,
        runFrom_statement, Prod.mk.injEq] at built
      rcases built with ⟨asked, _, ⟨found, -⟩, first, _, ⟨composed, -⟩, rest, _, tail, ended⟩
      cases ended
      cases outcome : (asked.compose database.catalog database.dialect).1 with
      | error error => simp [outcome, Except.map] at composed
      | ok composition =>
          rw [outcome] at composed
          exact .cons ⟨asked, composition, found, outcome, Except.ok.inj composed⟩
            (induction tail)

/-! Executing. -/

/-- What one execution leaves in the journal: the executor is called with the statement
as the hooks make it. -/
def executionEvents (statement : Statement) : List Event :=
  let prepared := database.hooks.executing statement
  .called .execute prepared :: database.hooks.executed prepared

theorem journal_execute (statement : Statement) (session : Session σ) :
    ((database.execute statement).runFrom session).2.journal =
      session.journal ++ database.executionEvents statement := by
  simp [execute, call, Run.runFrom_bind, executionEvents]

/-- Statements are executed in their order until one fails. -/
theorem journal_executeAll (statements : List Statement) (session : Session σ) :
    ∃ executed, executed <+: statements ∧
      ((database.executeAll statements).runFrom session).2.journal =
        session.journal ++ executed.flatMap database.executionEvents ∧
      ∀ affected, ((database.executeAll statements).runFrom session).1 = .ok affected →
        executed = statements := by
  induction statements generalizing session with
  | nil => exact ⟨[], List.prefix_rfl, by simp [executeAll], fun _ _ => rfl⟩
  | cons statement statements induction =>
      have first := database.journal_execute statement session
      simp only [executeAll, Run.runFrom_bind]
      rcases run : (database.execute statement).runFrom session with ⟨error | affected, later⟩
      · refine ⟨[statement], by simp, by simpa [run] using first, ?_⟩
        intro affected failed
        cases failed
      · rw [run] at first
        dsimp only at first
        rcases induction later with ⟨executed, start, journal, all⟩
        rcases rest : (database.executeAll statements).runFrom later with ⟨error | more, last⟩
        · refine ⟨statement :: executed, by simpa using start, by simpa [rest, first] using journal,
            ?_⟩
          intro total failed
          simp [rest] at failed
        · rw [rest] at all
          cases all more rfl
          refine ⟨statement :: statements, List.prefix_rfl, ?_, fun _ _ => rfl⟩
          simpa [rest, first] using journal

end Database

end EntitySql
