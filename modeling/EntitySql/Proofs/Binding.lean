import EntitySql.Proofs.Build
import EntitySql.Proofs.FreshName
import EntitySql.Proofs.Legible

/-! What a build leaves in the bag. Parameters are only ever added at the end and
under fresh names, so a name keeps standing for the value it was bound to, and
the names that a build adds can be told next to the text that it gives. -/

namespace EntitySql

namespace Params

/-- No two names denote the same parameter. -/
def Distinct (params : Params) : Prop :=
  (params.names.map foldCase).Nodup

/-- Everything that the earlier bag holds stands at the start of this one. -/
def Extends (params earlier : Params) : Prop :=
  earlier.entries <+: params.entries

theorem extends_refl (params : Params) : params.Extends params :=
  List.prefix_refl _

theorem Extends.trans {last middle first : Params} (second : last.Extends middle)
    (start : middle.Extends first) : last.Extends first :=
  List.IsPrefix.trans start second

theorem contains_nameFor (params : Params) (base : String) :
    params.contains (params.nameFor base) = false :=
  freshName_not_isTaken _ _

theorem distinct_push {params : Params} {parameter : Parameter}
    (fresh : params.contains parameter.name = false) (distinct : params.Distinct) :
    (params.push parameter).Distinct := by
  have notMember : foldCase parameter.name ∉ params.names.map foldCase := by
    rw [← isTaken_iff, ← contains, fresh]
    exact Bool.false_ne_true
  simp only [Distinct, push, names, List.map_append, List.map_cons, List.map_nil] at *
  refine List.nodup_append.mpr ⟨distinct, List.nodup_singleton _, ?_⟩
  intro folded member other single equal
  rw [List.mem_singleton.mp single] at equal
  exact notMember (equal ▸ member)

/-- A parameter added under a fresh name is the one found under that name, in every
later bag. -/
theorem find?_of_extends_push {params later : Params} (parameter : Parameter)
    (fresh : params.contains parameter.name = false)
    (extends' : later.Extends (params.push parameter)) :
    later.find? parameter.name = some parameter := by
  rcases extends' with ⟨added, entries⟩
  have earlier : params.entries.find? (sameIgnoringCase ·.name parameter.name) = none := by
    rw [List.find?_eq_none]
    intro entry member same
    have taken : params.contains parameter.name = true :=
      List.any_eq_true.mpr ⟨entry.name, List.mem_map_of_mem member, same⟩
    rw [fresh] at taken
    exact Bool.false_ne_true taken
  rw [find?, ← entries, push, List.append_assoc, List.find?_append, earlier]
  simp [sameIgnoringCase_self]

theorem get?_of_extends_add {params later : Params} {base : String} {value : Value}
    (extends' : later.Extends (params.add base value).2) :
    later.get? (params.nameFor base) = some value := by
  have found := find?_of_extends_push ⟨params.nameFor base, value, .input⟩
    (params.contains_nameFor base) extends'
  exact congrArg (Option.map Parameter.value) found

theorem isPlainIdentifier_nameFor (params : Params) {base : String}
    (plain : isPlainIdentifier base = true) :
    isPlainIdentifier (params.nameFor base) = true := by
  have named : base.isEmpty = false := by
    rw [Bool.eq_false_iff]
    intro empty
    rw [String.isEmpty_iff] at empty
    rw [empty] at plain
    exact absurd plain (by decide)
  rw [nameFor, named]
  exact isPlainIdentifier_freshName _ plain

end Params

namespace Draft

/-- The later draft holds parameters of one direction under the given names after
those of the earlier one, and has no clash that the earlier one has not. -/
def Binds (draft : Draft) (direction : Direction) (names : List String) (later : Draft) : Prop :=
  ∃ added : List Parameter,
    later.params.entries = draft.params.entries ++ added ∧
    added.map (·.name) = names ∧
    (∀ parameter ∈ added, parameter.direction = direction) ∧
    (draft.params.Distinct → later.params.Distinct)

theorem binds_nil {draft later : Draft} (direction : Direction)
    (same : draft.params = later.params) : draft.Binds direction [] later :=
  ⟨[], by simp [same], rfl, by simp, fun distinct => same ▸ distinct⟩

theorem Binds.trans {first middle last : Draft} {direction : Direction}
    {names others : List String} (start : first.Binds direction names middle)
    (rest : middle.Binds direction others last) :
    first.Binds direction (names ++ others) last := by
  rcases start with ⟨added, entries, named, directed, distinct⟩
  rcases rest with ⟨further, later, namedToo, directedToo, distinctToo⟩
  refine ⟨added ++ further, ?_, ?_, ?_, fun clean => distinctToo (distinct clean)⟩
  · rw [later, entries, List.append_assoc]
  · rw [List.map_append, named, namedToo]
  · intro parameter member
    rcases List.mem_append.mp member with member | member
    · exact directed parameter member
    · exact directedToo parameter member

theorem Binds.extends {draft later : Draft} {direction : Direction} {names : List String}
    (binds : draft.Binds direction names later) : later.params.Extends draft.params :=
  ⟨_, binds.choose_spec.1.symm⟩

theorem binds_push (draft : Draft) (base : String) (value : Value) (direction : Direction) :
    draft.Binds direction [draft.params.nameFor base]
      { draft with
        params := draft.params.push ⟨draft.params.nameFor base, value, direction⟩ } := by
  refine ⟨[⟨draft.params.nameFor base, value, direction⟩], rfl, rfl, by simp, ?_⟩
  exact Params.distinct_push (draft.params.contains_nameFor base)

/-- A build that gave this fragment bound one parameter for each of its placeholders,
in their order, and nothing else. -/
structure Written (draft : Draft) (fragment : Fragment) (later : Draft) : Prop where
  legible : fragment.Legible
  binds : draft.Binds .input fragment.placeholders later

theorem Written.bracketed {draft later : Draft} {fragment : Fragment}
    (written : draft.Written fragment later) (bracketed : Bool) :
    draft.Written (if bracketed then Fragment.parenthesized fragment else fragment) later := by
  cases bracketed with
  | false => exact written
  | true =>
      exact ⟨Fragment.legible_parenthesized.mpr written.legible, by
        simpa using written.binds⟩

/-- The same of several fragments, one after the other. -/
structure WrittenAll (draft : Draft) (fragments : List Fragment) (later : Draft) : Prop where
  legible : ∀ fragment ∈ fragments, fragment.Legible
  binds : draft.Binds .input (fragments.flatMap Fragment.placeholders) later

theorem writtenAll_nil (draft : Draft) : draft.WrittenAll [] draft :=
  ⟨by simp, binds_nil .input rfl⟩

theorem Written.cons {draft middle later : Draft} {first : Fragment} {rest : List Fragment}
    (head : draft.Written first middle) (tail : middle.WrittenAll rest later) :
    draft.WrittenAll (first :: rest) later := by
  refine ⟨?_, ?_⟩
  · intro fragment member
    rcases List.mem_cons.mp member with rfl | member
    · exact head.legible
    · exact tail.legible fragment member
  · rw [List.flatMap_cons]
    exact head.binds.trans tail.binds

/-- What stands around a fragment may change as long as it binds nothing. -/
theorem Written.within {draft later : Draft} {fragment whole : Fragment}
    (written : draft.Written fragment later) (legible : fragment.Legible → whole.Legible)
    (placeholders : whole.placeholders = fragment.placeholders) : draft.Written whole later :=
  ⟨legible written.legible, placeholders ▸ written.binds⟩

/-- A keyword in front of what was written. -/
theorem Written.after {draft later : Draft} {fragment keyword : Fragment}
    (written : draft.Written fragment later) (bare : keyword.Bare) :
    draft.Written (keyword ++ .space :: fragment) later :=
  written.within (fun inner => (Fragment.legible_append_cons rfl).mpr ⟨bare.legible, inner⟩)
    (by simp [bare.placeholders])

theorem written_bare {draft : Draft} {fragment : Fragment} (bare : fragment.Bare) :
    draft.Written fragment draft :=
  ⟨bare.legible, bare.placeholders ▸ binds_nil .input rfl⟩

theorem Written.append {draft later : Draft} {fragment suffix : Fragment}
    (written : draft.Written fragment later) (appendable : suffix.Appendable) :
    draft.Written (fragment ++ suffix) later :=
  written.within
    (fun legible => Fragment.legible_append legible appendable.bare.legible appendable.apart)
    (by simp [appendable.bare.placeholders])

/-- Something in front of the parentheses around what was written, and behind them. -/
theorem Written.enclosed {draft later : Draft} {fragment head tail : Fragment}
    (written : draft.Written fragment later) (first : head.Bare) (last : tail.Bare) :
    draft.Written (head ++ Fragment.parenthesized fragment ++ tail) later := by
  have shape : head ++ Fragment.parenthesized fragment ++ tail =
      head ++ .symbol .openParen :: (fragment ++ .symbol .closeParen :: tail) := by
    simp [Fragment.parenthesized]
  rw [shape]
  refine written.within (fun legible => ?_) (by simp [first.placeholders, last.placeholders])
  rw [Fragment.legible_append_cons rfl, Fragment.legible_append_cons rfl]
  exact ⟨first.legible, legible, last.legible⟩

theorem WrittenAll.spaced {draft later : Draft} {fragments : List Fragment}
    (written : draft.WrittenAll fragments later) :
    draft.Written (Fragment.spaced fragments) later :=
  ⟨Fragment.legible_spaced written.legible, by
    rw [Fragment.placeholders_spaced]
    exact written.binds⟩

theorem WrittenAll.commaSeparated {draft later : Draft} {fragments : List Fragment}
    (written : draft.WrittenAll fragments later) :
    draft.Written (Fragment.commaSeparated fragments) later :=
  ⟨Fragment.legible_commaSeparated written.legible, by
    rw [Fragment.placeholders_commaSeparated]
    exact written.binds⟩

end Draft

/-! The builds that bind. -/

namespace Build

theorem written_input {base : String} {value : Value} {draft later : Draft}
    {fragment : Fragment} (plain : isPlainIdentifier base = true)
    (run : (input base value).runFrom draft = (.ok fragment, later)) :
    draft.Written fragment later := by
  rw [runFrom_input] at run
  cases run
  refine ⟨?_, draft.binds_push base value .input⟩
  exact Fragment.legible_singleton.mpr <|
    proper_placeholder_of_isPlainIdentifier (draft.params.isPlainIdentifier_nameFor plain)

theorem writtenAll_inputs {base : String} (plain : isPlainIdentifier base = true)
    {values : List Value} {draft later : Draft} {fragments : List Fragment}
    (run : (inputs base values).runFrom draft = (.ok fragments, later)) :
    draft.WrittenAll fragments later := by
  induction values generalizing draft fragments with
  | nil =>
      rw [inputs, runFrom_pure_eq_ok] at run
      rcases run with ⟨rfl, rfl⟩
      exact draft.writtenAll_nil
  | cons value values induction =>
      simp only [inputs, runFrom_bind_eq_ok, runFrom_pure_eq_ok] at run
      rcases run with ⟨first, middle, head, rest, last, tail, rfl, rfl⟩
      exact (written_input plain head).cons (induction tail)

end Build

end EntitySql
