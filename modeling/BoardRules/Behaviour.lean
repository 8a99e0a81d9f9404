import BoardRules.Issue

/-!
# Behaviours

A behaviour is a list of steps that fires in one of three situations. Loading keeps every record:
those that cannot be built stay as unresolved steps and are reported, and so are conditions that do
not compile.
-/

namespace BoardRules

/-- When a behaviour fires. -/
inductive Trigger where
  /-- As a reaction to another piece's move. -/
  | passive
  /-- As a further step of the piece that has just moved. -/
  | immediately
  /-- As the move a player chooses. -/
  | initiative
  deriving DecidableEq, Repr

namespace Trigger

/-- The word for a trigger. -/
def name : Trigger → String
  | .passive => "Passive"
  | .immediately => "Immediately"
  | .initiative => "Initiative"

/-- The trigger of a word. -/
def ofName? (word : String) : Option Trigger :=
  if word = "Passive" then some .passive
  else if word = "Immediately" then some .immediately
  else if word = "Initiative" then some .initiative
  else none

/-- A trigger is written as its word; an object whose one field is the word with `null` is read as
well. -/
instance : Wire Trigger where
  toJson t := .string t.name
  ofJson?
    | .string word => ofName? word
    | .object [(word, .null)] => ofName? word
    | _ => none

instance : LawfulWire Trigger where
  ofJson?_toJson t := by cases t <;> rfl

end Trigger

namespace Snapshot

/-- The stored form of a behaviour. -/
structure Behaviour where
  name : String
  trigger : Trigger
  id : BehaviourId
  actions : List StepRecord
  deriving DecidableEq, Repr

instance : Wire Behaviour where
  toJson b := .ofFields
    [("name", toJson b.name), ("type", toJson b.trigger), ("uuid", toJson b.id),
     ("actions", toJson b.actions)]
  ofJson? j := do
    let fields ← j.structure? ["name", "type", "uuid", "actions"]
    return { name := ← fields.withDefault "name" "",
             trigger := ← fields.withDefault "type" .initiative,
             id := ← fields.withDefault "uuid" .nil,
             actions := ← fields.withDefault "actions" [] }

end Snapshot

/-- A behaviour of a piece. -/
structure Behaviour where
  id : BehaviourId
  name : String
  trigger : Trigger
  steps : List Step

namespace Behaviour

/-- The steps that are run. -/
def builtSteps (b : Behaviour) : List Step := b.steps.filter Step.isBuilt

/-- Load one record of a behaviour, with the issue it raises. -/
def loadStep (types : StepTypes) (vocabulary : Vocabulary) (behaviour : BehaviourId)
    (r : StepRecord) : Step × Option Issue :=
  match Step.ofRecord types vocabulary r with
  | .ok (.condition c) =>
    (.condition c, c.fault?.map (.uncompiledCondition behaviour r.header.id))
  | .ok step => (step, none)
  | .error (.unknownType kind) =>
    (.unresolved r, some (.unknownStepType behaviour r.header.id kind))
  | .error (.invalidField fault) =>
    (.unresolved r, some (.unbuiltStep behaviour r.header.id fault))

/-- Load a behaviour, with the issues of its records in order. -/
def load (types : StepTypes) (vocabulary : Vocabulary) (data : Snapshot.Behaviour) :
    Behaviour × List Issue :=
  let loaded := data.actions.map (loadStep types vocabulary data.id)
  ({ id := data.id, name := data.name, trigger := data.trigger, steps := loaded.map Prod.fst },
    loaded.filterMap Prod.snd)

/-- The stored form of a behaviour. -/
def toSnapshot (b : Behaviour) : Snapshot.Behaviour :=
  { name := b.name, trigger := b.trigger, id := b.id, actions := b.steps.map Step.toRecord }

end Behaviour

end BoardRules
