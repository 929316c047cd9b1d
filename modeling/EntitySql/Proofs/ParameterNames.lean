import EntitySql.Proofs.Binding

/-! Parameters that are bound one after the other. Whatever names are wanted for them, no two are
kept under names that differ in the case of their letters alone: a name that clashes is numbered,
and the parameter that a name was told for is found under it from then on, in whatever case. -/

namespace EntitySql

/-! The rule. -/

/-- How the search for a name ends where these are taken, and the number of candidates that it
has tried by then: the wanted name, and behind it the variants from the number one on. -/
inductive Settles (taken : List String) (wanted : String) : (tried : Nat) → String → Prop where
  | wanted (free : Free taken wanted) : Settles taken wanted 1 wanted
  | numbered {number : Nat} (used : ¬ Free taken wanted) (least : LeastFree taken wanted number) :
      Settles taken wanted (1 + number) (numberedName wanted number)

/-- The wanted name is one of the candidates, so that of as many numbers as there are taken names
one is enough. -/
theorem exists_settles_freshName (taken : List String) (wanted : String) :
    ∃ tried ≤ taken.length + 1, Settles taken wanted tried (freshName taken wanted) := by
  unfold freshName
  split
  · next used =>
      have used := isTaken_eq_true_iff.mp used
      rcases exists_leastFree_freshNumbered taken wanted with ⟨number, least, shape⟩
      have few := least.number_le used
      rw [shape]
      exact ⟨1 + number, by omega, .numbered used least⟩
  · next free =>
      have free := isTaken_eq_false_iff.mp (Bool.not_eq_true _ ▸ free)
      exact ⟨1, by omega, .wanted free⟩

namespace Params

/-- A parameter to bind: the name that it starts from, and its value unless the database is to
fill it. -/
inductive Request where
  | input (base : String) (value : Value)
  | output (base : String)

namespace Request

def base : Request → String
  | .input base _ => base
  | .output base => base

/-- Where no name is given, one is made up. -/
def wanted (request : Request) : String :=
  if request.base = "" then "param" else request.base

def value : Request → Value
  | .input _ value => value
  | .output _ => .null

def direction : Request → Direction
  | .input _ _ => .input
  | .output _ => .output

end Request

/-- Binds what is asked for and tells the name that it is bound under. -/
def bind (params : Params) : Request → String × Params
  | .input base value => params.add base value
  | .output base => params.addOutput base

def bindAll (params : Params) (requests : List Request) : Params :=
  requests.foldl (fun held request => (held.bind request).2) params

theorem distinct_empty : empty.Distinct :=
  List.nodup_nil

/-! One request. -/

section

variable (params : Params) (request : Request)

theorem bind_eq :
    params.bind request =
      (params.nameFor request.base,
        params.push ⟨params.nameFor request.base, request.value, request.direction⟩) := by
  cases request <;> rfl

theorem name_bind : (params.bind request).1 = freshName params.names request.wanted := by
  rw [bind_eq, nameFor, Request.wanted]
  simp only [String.isEmpty_iff]

/-- What is bound stands behind what was there, under the name that was told. -/
theorem held_bind :
    (params.bind request).2 =
      params.push ⟨(params.bind request).1, request.value, request.direction⟩ := by
  rw [bind_eq]

theorem contains_name_bind : params.contains (params.bind request).1 = false := by
  rw [bind_eq]
  exact params.contains_nameFor request.base

/-- The search for the name that is told comes to an end. -/
theorem exists_settles_bind :
    ∃ tried ≤ params.size + 1,
      Settles params.names request.wanted tried (params.bind request).1 := by
  have length : params.names.length = params.size := List.length_map ..
  rw [name_bind, ← length]
  exact exists_settles_freshName params.names request.wanted

theorem distinct_bind {params : Params} (distinct : params.Distinct) :
    (params.bind request).2.Distinct := by
  rw [held_bind]
  exact distinct_push (params.contains_name_bind request) distinct

end

/-! Requests one after the other. -/

theorem extends_bindAll (params : Params) (requests : List Request) :
    (params.bindAll requests).Extends params := by
  induction requests generalizing params with
  | nil => exact params.extends_refl
  | cons request requests induction =>
      have first : (params.bind request).2.Extends params := by
        rw [held_bind]
        exact List.prefix_append ..
      exact (induction (params.bind request).2).trans first

theorem distinct_bindAll {params : Params} (distinct : params.Distinct)
    (requests : List Request) : (params.bindAll requests).Distinct := by
  induction requests generalizing params with
  | nil => exact distinct
  | cons request requests induction => exact induction (distinct_bind request distinct)

theorem bindAll_append_cons (params : Params) (earlier later : List Request) (request : Request) :
    params.bindAll (earlier ++ request :: later) =
      ((params.bindAll earlier).bind request).2.bindAll later :=
  List.foldl_append ..

/-- A lookup does not see the case of letters. -/
theorem find?_congr (params : Params) {name other : String}
    (same : sameIgnoringCase name other = true) : params.find? name = params.find? other := by
  simp only [find?, sameIgnoringCase, sameIgnoringCase_iff.mp same]

/-- However many parameters are bound before one and after it, under whatever names they were
wanted: it is told the name that was wanted for it where that is free, else the variant with the
least number that is, and among one more candidate than there are parameters the search for it
comes to an end. It is kept under this name behind those bound before. No two names are the same
where case is ignored, and what is found under the name that was told, in whatever case it is
written, is the value that was given. -/
theorem told_apart (earlier later : List Request) (request : Request) :
    let before := empty.bindAll earlier
    let name := (before.bind request).1
    let after := empty.bindAll (earlier ++ request :: later)
    (∃ tried ≤ before.size + 1, Settles before.names request.wanted tried name) ∧
    after.Extends (before.push ⟨name, request.value, request.direction⟩) ∧
    after.Distinct ∧
    ∀ spelled, sameIgnoringCase spelled name = true →
      after.get? spelled = some request.value := by
  intro before name after
  have grown : after.Extends (before.push ⟨name, request.value, request.direction⟩) := by
    have whole : after = (before.bind request).2.bindAll later :=
      empty.bindAll_append_cons earlier later request
    rw [whole, held_bind]
    exact extends_bindAll _ later
  refine ⟨before.exists_settles_bind request, grown, distinct_bindAll distinct_empty _, ?_⟩
  intro spelled same
  have found := find?_of_extends_push ⟨name, request.value, request.direction⟩
    (before.contains_name_bind request) grown
  rw [get?, after.find?_congr same, found]
  rfl

/-- A name that looks numbered is in the way of one that is to be numbered, and the other way
round. -/
theorem told_apart_ids :
    let earlier : List Request := [.input "id_1" (.int 1), .input "id" (.int 2)]
    let later : List Request := [.input "id_2" (.int 4), .output ""]
    let before := empty.bindAll earlier
    let after := empty.bindAll (earlier ++ .input "ID" (.int 3) :: later)
    (before.bind (.input "ID" (.int 3))).1 = "ID_2" ∧
    after.names = ["id_1", "id", "ID_2", "id_2_1", "param"] ∧
    sameIgnoringCase "Id_2" "ID_2" = true ∧
    after.get? "Id_2" = some (.int 3) := by
  intro earlier later before after
  have told : (before.bind (.input "ID" (.int 3))).1 = "ID_2" := by decide +kernel
  have same : sameIgnoringCase "Id_2" "ID_2" = true := by decide
  rcases told_apart earlier later (.input "ID" (.int 3)) with ⟨-, -, -, found⟩
  exact ⟨told, by decide +kernel, same, found "Id_2" (told ▸ same)⟩

end Params

end EntitySql
