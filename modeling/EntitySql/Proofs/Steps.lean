import EntitySql.Error

/-! Steps that change a state and can fail. A failure ends the steps and keeps the state that
they came to. Builds, runs against a database, exchanges with a server and renderings in a
context are such steps, each over a state of its own. -/

namespace EntitySql

/-- The outcome of some steps and the state that they leave, starting from a state. -/
def runOn (steps : ExceptT Error (StateM σ) α) (state : σ) : Except Error α × σ :=
  (ExceptT.run steps).run state

theorem runOn_get (state : σ) :
    runOn (get : ExceptT Error (StateM σ) σ) state = (.ok state, state) :=
  rfl

theorem runOn_set (state later : σ) :
    runOn (set later : ExceptT Error (StateM σ) PUnit) state = (.ok ⟨⟩, later) :=
  rfl

theorem runOn_bind (steps : ExceptT Error (StateM σ) α) (next : α → ExceptT Error (StateM σ) β)
    (state : σ) :
    runOn (steps >>= next) state =
      match runOn steps state with
      | (.ok value, later) => runOn (next value) later
      | (.error error, later) => (.error error, later) := by
  simp only [runOn, ExceptT.run, bind, ExceptT.bind, ExceptT.mk, StateT.bind, StateT.run,
    ExceptT.bindCont]
  rcases steps state with ⟨_ | _, later⟩ <;> rfl

/-- Two steps in a row succeed where each does, the second from the state that the first one
leaves. -/
theorem runOn_bind_eq_ok {steps : ExceptT Error (StateM σ) α}
    {next : α → ExceptT Error (StateM σ) β} {state final : σ} {result : β} :
    runOn (steps >>= next) state = (.ok result, final) ↔
      ∃ value later, runOn steps state = (.ok value, later) ∧
        runOn (next value) later = (.ok result, final) := by
  rw [runOn_bind]
  rcases runOn steps state with ⟨error | value, later⟩
  · simp
  · constructor
    · exact fun rest => ⟨value, later, rfl, rest⟩
    · rintro ⟨_, _, equal, rest⟩
      cases equal
      exact rest

theorem runOn_bind_of_error {steps : ExceptT Error (StateM σ) α} {state later : σ} {error : Error}
    (fails : runOn steps state = (.error error, later))
    (next : α → ExceptT Error (StateM σ) β) :
    runOn (steps >>= next) state = (.error error, later) := by
  rw [runOn_bind, fails]

theorem runOn_map (change : α → β) (steps : ExceptT Error (StateM σ) α) (state : σ) :
    runOn (change <$> steps) state =
      ((runOn steps state).1.map change, (runOn steps state).2) := by
  rw [map_eq_pure_bind, runOn_bind]
  rcases runOn steps state with ⟨_ | _, later⟩ <;> rfl

end EntitySql
