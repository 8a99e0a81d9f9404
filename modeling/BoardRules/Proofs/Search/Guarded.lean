import Mathlib
import BoardRules.Behaviour
import BoardRules.Proofs.Search.Enumeration

/-!
# Guards that cannot be used

A condition record has a text for its source, or none, which stands for the empty text; or its
source is something else (`StepRecord.source?`).  A source that does not compile makes a condition
that never lets pass, and wherever it stands among the steps, no run finishes
(`Query.enumerate_eq_nil`).  A source that is no text makes a step that is not run, and the others
are run as if the record were not there (`Behaviour.builtSteps_load_erase`).  So a guard that cannot
be used blocks its behaviour in the first case only (`Query.runs_of_unusable_guard`).
-/

namespace BoardRules

/-! ## Loading a condition -/

/-- The source of a condition record; none if it is no text. -/
def StepRecord.source? (r : StepRecord) : Option String :=
  match r.fields.get? "code" with
  | none | some .null => some ""
  | some (.string code) => some code
  | some _ => none

/-- A condition is read exactly if its source is a text. -/
theorem Condition.ofRecord_eq (vocabulary : Vocabulary) (r : StepRecord) :
    Condition.ofRecord vocabulary r =
      match r.source? with
      | some code => .ok (.ofCode vocabulary r.header code)
      | none => .error ⟨r.kind, "code"⟩ := by
  unfold Condition.ofRecord StepRecord.readOr StepRecord.read? StepRecord.source?
  cases r.fields.get? "code" with
  | none => rfl
  | some source => cases source <;> rfl

namespace Behaviour

variable {r : StepRecord} (vocabulary : Vocabulary) (id : BehaviourId)

/-- A condition record whose source is a text is loaded as a condition. -/
theorem loadStep_of_source (guards : r.kind = Condition.kind) {code : String}
    (source : r.source? = some code) :
    (loadStep .vanilla vocabulary id r).1 = .condition (.ofCode vocabulary r.header code) := by
  have known : StepTypes.vanilla.get? r.kind = StepTypes.vanilla.get? Condition.kind := by
    rw [guards]
  unfold loadStep Step.ofRecord
  rw [known, Condition.ofRecord_eq, source]
  rfl

/-- A condition record whose source is no text is kept as it is. -/
theorem loadStep_of_no_source (guards : r.kind = Condition.kind) (source : r.source? = none) :
    (loadStep .vanilla vocabulary id r).1 = .unresolved r := by
  have known : StepTypes.vanilla.get? r.kind = StepTypes.vanilla.get? Condition.kind := by
    rw [guards]
  unfold loadStep Step.ofRecord
  rw [known, Condition.ofRecord_eq, source]
  rfl

variable (data : Snapshot.Behaviour)

/-- The steps that are run are those of the records that could be built. -/
theorem builtSteps_load (types : StepTypes) :
    (load types vocabulary data).1.builtSteps =
      (data.actions.map fun r => (loadStep types vocabulary data.id r).1).filter Step.isBuilt := by
  have steps : (load types vocabulary data).1.steps =
      data.actions.map fun r => (loadStep types vocabulary data.id r).1 := List.map_map
  rw [builtSteps, steps]

/-- Without a record that could not be built, the same steps are run. -/
theorem builtSteps_load_erase (listed : r ∈ data.actions)
    (unbuilt : (loadStep .vanilla vocabulary data.id r).1 = .unresolved r) :
    (load .vanilla vocabulary { data with actions := data.actions.erase r }).1.builtSteps =
      (load .vanilla vocabulary data).1.builtSteps := by
  obtain ⟨before, behind, -, split, erased⟩ := List.exists_erase_eq listed
  have dropped : Step.isBuilt (loadStep .vanilla vocabulary data.id r).1 = false := by
    rw [unbuilt]
    rfl
  rw [builtSteps_load, builtSteps_load]
  dsimp only
  rw [erased, split, List.map_append, List.map_append, List.map_cons, List.filter_append,
    List.filter_append, List.filter_cons_of_neg (Bool.eq_false_iff.1 dropped)]

end Behaviour

/-! ## Blocking -/

/-- A condition whose source does not compile never lets pass. -/
theorem Condition.passes_of_fault {c : Condition} {refusal : Guard.Refusal}
    (fault : c.compiled = .error refusal) (context : Guard.Context) :
    c.passes context = false := by
  unfold passes guard?
  rw [fault]
  rfl

namespace Query

variable (q : Query)

/-- Where some condition never lets pass, no run finishes. -/
theorem enumerate_eq_nil {c : Condition} (blocks : ∀ context, c.passes context = false)
    {steps : List Step} (guarded : .condition c ∈ steps) (link : Link) :
    q.enumerate steps link = [] := by
  induction steps generalizing link with
  | nil => exact absurd guarded List.not_mem_nil
  | cons step rest ih =>
    rw [enumerate_cons]
    rcases List.mem_cons.1 guarded with rfl | later
    · rw [advance_condition, blocks]
      rfl
    · exact List.flatMap_eq_nil_iff.2 fun next _ => ih later next

/-- A guard that cannot be used blocks its behaviour if its source is a text, and is left out if it
is none. -/
theorem runs_of_unusable_guard (data : Snapshot.Behaviour) {r : StepRecord}
    (listed : r ∈ data.actions) (guards : r.kind = Condition.kind)
    (unusable : ∀ code, r.source? = some code → ∃ refusal,
      Guard.compile .vanilla code = .error refusal) :
    q.runs (Behaviour.load .vanilla .vanilla data).1 =
      if r.source?.isSome then []
      else q.runs
        (Behaviour.load .vanilla .vanilla { data with actions := data.actions.erase r }).1 := by
  cases source : r.source? with
  | some code =>
    obtain ⟨refusal, fault⟩ := unusable code source
    have loaded := Behaviour.loadStep_of_source .vanilla data.id guards source
    have guarded : .condition (.ofCode .vanilla r.header code) ∈
        (Behaviour.load .vanilla .vanilla data).1.builtSteps := by
      rw [Behaviour.builtSteps_load, ← loaded]
      refine List.mem_filter.2 ⟨List.mem_map_of_mem listed, ?_⟩
      rw [loaded]
      rfl
    rw [runs_eq_enumerate]
    exact q.enumerate_eq_nil (Condition.passes_of_fault fault) guarded _
  | none =>
    have unbuilt := Behaviour.loadStep_of_no_source .vanilla data.id guards source
    have steps := Behaviour.builtSteps_load_erase .vanilla data listed unbuilt
    rw [runs_eq_enumerate, ← steps]
    exact (q.runs_eq_enumerate _).symm

/-- The fall of the king, behind a guard with some source. -/
def guardedFall (source : Json) : Snapshot.Behaviour where
  name := "fall"
  trigger := .initiative
  id := ⟨"fall"⟩
  actions := [⟨Condition.kind, {}, [("code", source)]⟩, ⟨Action.loseKind, {}, []⟩]

/-- Behind a guard that is not closed nobody falls; a number in its place guards nothing. -/
theorem guardedFall_blocked_or_unguarded :
    (∃ refusal, Guard.compile .vanilla "(not (is-null" = .error refusal) ∧
      raid.runs (Behaviour.load .vanilla .vanilla (guardedFall (.string "(not (is-null"))).1 =
        [] ∧
      raid.runs (Behaviour.load .vanilla .vanilla (guardedFall (.int 5))).1 =
        raid.runs (Behaviour.load .vanilla .vanilla
          { guardedFall (.int 5) with actions := [⟨Action.loseKind, {}, []⟩] }).1 := by
  have fault : ∃ refusal, Guard.compile .vanilla "(not (is-null" = .error refusal := by
    cases compiled : Guard.compile .vanilla "(not (is-null" with
    | error refusal => exact ⟨refusal, rfl⟩
    | ok guard =>
      have failed : (Guard.compile .vanilla "(not (is-null").toOption.isNone = true := by cbv
      rw [compiled] at failed
      cases failed
  refine ⟨fault, ?_, ?_⟩
  · refine raid.runs_of_unusable_guard (guardedFall (.string "(not (is-null"))
      List.mem_cons_self rfl fun code source => ?_
    obtain rfl : "(not (is-null" = code := Option.some.inj source
    exact fault
  · exact raid.runs_of_unusable_guard (guardedFall (.int 5)) List.mem_cons_self rfl
      fun code source => absurd source.symm (Option.some_ne_none code)

/-- A number for a source: the guard is there and cannot be used, but white falls. -/
theorem guardedFall_unguarded :
    (∃ r ∈ (guardedFall (.int 5)).actions, r.kind = Condition.kind ∧ r.source? = none) ∧
      (raid.runs (Behaviour.load .vanilla .vanilla (guardedFall (.int 5))).1).map
        (·.deltas.loser?) = [some ⟨"white"⟩] := by
  refine ⟨⟨_, List.mem_cons_self, rfl, rfl⟩, ?_⟩
  cbv

end Query

end BoardRules
