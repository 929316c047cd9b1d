import EntitySql.Operation
import EntitySql.Proofs.Steps

/-! Runs of builds, step by step. Every later fact about a build is a fact about
`runFrom`: these rules say what each step gives and what draft it leaves, so that
no other module looks inside the monad. -/

namespace EntitySql

namespace Build

@[simp] theorem runFrom_pure (value : α) (draft : Draft) :
    (pure value : Build α).runFrom draft = (.ok value, draft) :=
  rfl

theorem runFrom_bind (build : Build α) (next : α → Build β) (draft : Draft) :
    (build >>= next).runFrom draft =
      match build.runFrom draft with
      | (.ok value, later) => (next value).runFrom later
      | (.error error, later) => (.error error, later) := by
  simp only [runFrom, ExceptT.run, bind, ExceptT.bind, ExceptT.mk, StateT.bind,
    StateT.run, ExceptT.bindCont]
  rcases build draft with ⟨_ | _, later⟩ <;> rfl

@[simp] theorem runFrom_fail (error : Error) (draft : Draft) :
    (Build.fail error : Build α).runFrom draft = (.error error, draft) :=
  rfl

@[simp] theorem runFrom_lift (result : Except Error α) (draft : Draft) :
    (Build.lift result).runFrom draft = (result, draft) := by
  cases result <;> rfl

@[simp] theorem runFrom_input (base : String) (value : Value) (draft : Draft) :
    (Build.input base value).runFrom draft =
      (.ok [.placeholder (draft.params.nameFor base)],
        { draft with params := (draft.params.add base value).2 }) :=
  rfl

@[simp] theorem runFrom_output (base : String) (draft : Draft) :
    (Build.output base).runFrom draft =
      (.ok [.placeholder (draft.params.nameFor base)],
        { draft with params := (draft.params.addOutput base).2 }) :=
  rfl

@[simp] theorem runFrom_warn (message : String) (draft : Draft) :
    (Build.warn message).runFrom draft =
      (.ok (), { draft with log := draft.log ++ [⟨.warn, message⟩] }) :=
  rfl

/-! A successful run of two builds in a row is a successful run of each. -/

theorem runFrom_bind_eq_ok {build : Build α} {next : α → Build β}
    {draft final : Draft} {result : β} :
    (build >>= next).runFrom draft = (.ok result, final) ↔
      ∃ value later, build.runFrom draft = (.ok value, later) ∧
        (next value).runFrom later = (.ok result, final) :=
  runOn_bind_eq_ok

theorem runFrom_pure_eq_ok {value result : α} {draft final : Draft} :
    (pure value : Build α).runFrom draft = (.ok result, final) ↔
      value = result ∧ draft = final := by
  simp

theorem runFrom_lift_eq_ok {result : Except Error α} {value : α} {draft final : Draft} :
    (Build.lift result).runFrom draft = (.ok value, final) ↔
      result = .ok value ∧ draft = final := by
  simp

/-! What is so of every result. -/

/-- Whatever the build gives has the property. -/
def Gives (holds : α → Prop) (build : Build α) : Prop :=
  ∀ draft result later, build.runFrom draft = (.ok result, later) → holds result

theorem gives_pure {holds : α → Prop} {result : α} (given : holds result) :
    Gives holds (pure result) := by
  intro draft other later run
  rw [runFrom_pure_eq_ok] at run
  exact run.1 ▸ given

theorem Gives.bind {holds : β → Prop} {build : Build α} {next : α → Build β}
    (tail : ∀ result, (next result).Gives holds) : (build >>= next).Gives holds := by
  intro draft result later run
  rcases runFrom_bind_eq_ok.mp run with ⟨value, middle, -, rest⟩
  exact tail value middle result later rest

end Build

/-! Operations run their builds from an empty draft. -/

namespace Operation

theorem compose_of_runFrom (operation : Operation) {catalog : Catalog}
    (dialect : Dialect) {outcome : Except Error Built} {draft : Draft}
    (run : (operation.build catalog dialect).runFrom {} = (outcome, draft)) :
    (operation.compose catalog dialect).1 = outcome.map fun built =>
      ⟨⟨built.sql.text dialect.lexical, draft.params⟩, built.joins⟩ := by
  rw [compose, run]
  cases outcome <;> rfl

theorem exists_run_of_compose {catalog : Catalog} {dialect : Dialect}
    {operation : Operation} {composition : Composition}
    (composed : (operation.compose catalog dialect).1 = .ok composition) :
    ∃ built draft, (operation.build catalog dialect).runFrom {} = (.ok built, draft) ∧
      composition.statement = ⟨built.sql.text dialect.lexical, draft.params⟩ := by
  unfold compose at composed
  split at composed
  · next built draft run =>
      cases composed
      exact ⟨built, draft, run, rfl⟩
  · cases composed

end Operation

end EntitySql
