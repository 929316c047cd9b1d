import EntitySql.Proofs.Build
import EntitySql.Proofs.Variants

/-! Builds that run alike in every variant. A sketch is the draft of all variants at
once: names, directions and log lines are those of each of them, and only values
differ. A build is uniform when it goes from one sketch to another and either fails
with one error or gives results that are alike. -/

namespace EntitySql

variable {Variant : Type u}

structure Slot (replaced : (Variant → Value) → Prop) where
  name : String
  value : Variant → Value
  direction : Direction
  varies : Value.Varies replaced value

structure Sketch (replaced : (Variant → Value) → Prop) where
  slots : List (Slot replaced) := []
  log : List LogLine := []

variable {replaced : (Variant → Value) → Prop}

def Slot.parameter (slot : Slot replaced) (variant : Variant) : Parameter :=
  ⟨slot.name, slot.value variant, slot.direction⟩

namespace Sketch

def params (sketch : Sketch replaced) (variant : Variant) : Params :=
  ⟨sketch.slots.map (·.parameter variant)⟩

def draft (sketch : Sketch replaced) (variant : Variant) : Draft :=
  { params := sketch.params variant, log := sketch.log }

/-- The name that a parameter gets next, which the values have no part in. -/
def nameFor (sketch : Sketch replaced) (base : String) : String :=
  freshName (sketch.slots.map (·.name)) (if base.isEmpty then "param" else base)

@[simp] theorem nameFor_params (sketch : Sketch replaced) (variant : Variant) (base : String) :
    (sketch.params variant).nameFor base = sketch.nameFor base := by
  simp [Params.nameFor, nameFor, Params.names, params, Function.comp_def, Slot.parameter]

def push (sketch : Sketch replaced) (slot : Slot replaced) : Sketch replaced :=
  { sketch with slots := sketch.slots ++ [slot] }

@[simp] theorem params_push (sketch : Sketch replaced) (slot : Slot replaced)
    (variant : Variant) :
    (sketch.push slot).params variant = (sketch.params variant).push (slot.parameter variant) := by
  simp [push, params, Params.push]

@[simp] theorem log_push (sketch : Sketch replaced) (slot : Slot replaced) :
    (sketch.push slot).log = sketch.log :=
  rfl

end Sketch

namespace Build

variable (replaced) in
def Uniform (alike : (Variant → α) → Prop) (builds : Variant → Build α) : Prop :=
  ∀ sketch : Sketch replaced, ∃ later : Sketch replaced,
    (∃ error, ∀ variant,
      (builds variant).runFrom (sketch.draft variant) = (.error error, later.draft variant)) ∨
    ∃ results, alike results ∧ ∀ variant,
      (builds variant).runFrom (sketch.draft variant) =
        (.ok (results variant), later.draft variant)

variable (replaced) in
/-- Uniform, and with one result for all variants. -/
def Steady (builds : Variant → Build α) : Prop :=
  Uniform replaced Same builds

theorem uniform_pure {alike : (Variant → α) → Prop} {results : Variant → α}
    (holds : alike results) : Uniform replaced alike fun variant => pure (results variant) := by
  intro sketch
  exact ⟨sketch, .inr ⟨results, holds, fun _ => rfl⟩⟩

theorem steady_pure (result : α) : Steady replaced fun _ : Variant => pure result :=
  uniform_pure ⟨result, fun _ => rfl⟩

theorem uniform_fail {alike : (Variant → α) → Prop} (error : Error) :
    Uniform replaced alike fun _ => Build.fail error := by
  intro sketch
  exact ⟨sketch, .inl ⟨error, fun _ => rfl⟩⟩

theorem steady_lift (result : Except Error α) :
    Steady replaced fun _ : Variant => Build.lift result := by
  cases result with
  | error error => exact uniform_fail error
  | ok value => exact steady_pure value

theorem uniform_bind {first : (Variant → α) → Prop} {second : (Variant → β) → Prop}
    {builds : Variant → Build α} {next : Variant → α → Build β}
    (head : Uniform replaced first builds)
    (tail : ∀ results, first results →
      Uniform replaced second fun variant => next variant (results variant)) :
    Uniform replaced second fun variant => builds variant >>= next variant := by
  intro sketch
  rcases head sketch with ⟨middle, ⟨error, failed⟩ | ⟨results, holds, given⟩⟩
  · refine ⟨middle, .inl ⟨error, ?_⟩⟩
    intro variant
    rw [runFrom_bind, failed]
  · rcases tail results holds middle with ⟨later, rest⟩
    refine ⟨later, ?_⟩
    simp only [runFrom_bind, given]
    exact rest

/-- After a steady build, the next one is handed the same result in every variant. -/
theorem Steady.bind {alike : (Variant → β) → Prop} {builds : Variant → Build α}
    {next : Variant → α → Build β} (head : Steady replaced builds)
    (tail : ∀ result, Uniform replaced alike fun variant => next variant result) :
    Uniform replaced alike fun variant => builds variant >>= next variant := by
  apply uniform_bind head
  intro results same
  rcases same with ⟨result, same⟩
  simpa only [same] using tail result

theorem steady_input (base : String) {value : Variant → Value}
    (varies : Value.Varies replaced value) :
    Steady replaced fun variant => input base (value variant) := by
  intro sketch
  refine ⟨sketch.push ⟨sketch.nameFor base, value, .input, varies⟩, .inr ?_⟩
  refine ⟨_, ⟨[.placeholder (sketch.nameFor base)], fun _ => rfl⟩, fun variant => ?_⟩
  simp [Sketch.draft, Slot.parameter, Params.add]

theorem steady_output (base : String) : Steady replaced fun _ : Variant => output base := by
  intro sketch
  refine ⟨sketch.push ⟨sketch.nameFor base, fun _ => .null, .output, .inl ⟨_, fun _ => rfl⟩⟩,
    .inr ⟨_, ⟨[.placeholder (sketch.nameFor base)], fun _ => rfl⟩, fun variant => ?_⟩⟩
  simp [Sketch.draft, Slot.parameter, Params.addOutput]

theorem steady_warn (message : String) : Steady replaced fun _ : Variant => warn message := by
  intro sketch
  exact ⟨{ sketch with log := sketch.log ++ [⟨.warn, message⟩] },
    .inr ⟨_, ⟨(), fun _ => rfl⟩, fun _ => rfl⟩⟩

theorem steady_inputs (base : String) {values : List (Variant → Value)}
    (varies : ∀ value ∈ values, Value.Varies replaced value) :
    Steady replaced fun variant => inputs base (values.map (· variant)) := by
  induction values with
  | nil => exact steady_pure []
  | cons value values induction =>
      simp only [List.map_cons, inputs]
      apply (steady_input base (varies value List.mem_cons_self)).bind
      intro first
      apply (induction fun other listed => varies other (List.mem_cons_of_mem _ listed)).bind
      intro rest
      exact steady_pure (first :: rest)

end Build

end EntitySql
