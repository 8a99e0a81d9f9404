import BoardRules.Step.Condition
import BoardRules.Step.Form
import BoardRules.Step.Move

/-!
# Steps

A step of a behaviour is an action, a condition, or a record that no registered type could build.
Unbuilt records are kept, so that they are written back, and are not run.
-/

namespace BoardRules

/-- A branching step of this library. A game may bring further ones along, whose records are
unresolved here (`Extension`). -/
inductive Action where
  /-- Move the piece, taking others. -/
  | move (move : Move)
  /-- Eliminate the owner of the piece. -/
  | lose (header : StepHeader)
  deriving DecidableEq, Repr

namespace Action

/-- The type of lose records. -/
def loseKind : String := "vanilla.lose"

/-- The type of the action's records. -/
def kind : Action → String
  | .move _ => Move.kind
  | .lose _ => loseKind

/-- The name and the identity of the action. -/
def header : Action → StepHeader
  | .move m => m.header
  | .lose header => header

/-- The stored form of an action. -/
def toRecord : Action → StepRecord
  | .move m => m.toRecord
  | .lose header => ⟨loseKind, header, []⟩

end Action

/-- A step of a behaviour. -/
inductive Step where
  | action (action : Action)
  | condition (condition : Condition)
  | unresolved (record : StepRecord)

/-- What a type of step builds from its records. -/
inductive StepMaker where
  | condition
  | move
  | lose
  deriving DecidableEq, Repr

/-- A registered type of step. -/
structure StepType where
  maker : StepMaker
  form : List FormItem := []
  deriving DecidableEq, Repr

/-- The registered types of steps. -/
abbrev StepTypes := Catalogue StepType

/-- Why a record cannot be built. -/
inductive BuildFault where
  | unknownType (kind : String)
  | invalidField (fault : InvalidField)
  deriving DecidableEq, Repr

/-- The wording of the fault. -/
def BuildFault.message : BuildFault → String
  | .unknownType kind => "unknown action type `" ++ kind ++ "`"
  | .invalidField fault => fault.message

namespace Step

/-- The stored form of a step. -/
def toRecord : Step → StepRecord
  | .action a => a.toRecord
  | .condition c => c.toRecord
  | .unresolved r => r

/-- Whether the step is run. -/
def isBuilt : Step → Bool
  | .unresolved _ => false
  | _ => true

/-- Build the step of a record. -/
def ofRecord (types : StepTypes) (vocabulary : Vocabulary) (r : StepRecord) :
    Except BuildFault Step :=
  match types.get? r.kind with
  | none => .error (.unknownType r.kind)
  | some type =>
    match type.maker with
    | .condition =>
      ((Condition.ofRecord vocabulary r).mapError .invalidField).map .condition
    | .move => ((Move.ofRecord r).mapError .invalidField).map fun m => .action (.move m)
    | .lose => .ok (.action (.lose r.header))

end Step

/-- The form of move steps. -/
def Move.form : List FormItem :=
  [⟨"move type", "moveType", .bits [("move", 1), ("attack", 2), ("move_attack", 4)]⟩,
   ⟨"loop", "loop", .switch⟩,
   ⟨"loop times limit", "loopLimit", .number 1 none⟩,
   ⟨"step position", "stepPosition", .custom "move-position"⟩]

/-- Conditions, moves and eliminations. -/
def StepTypes.vanilla : StepTypes where
  entries :=
    [(Condition.kind,
        { maker := .condition, form := [⟨"condition code", "code", .custom "condition-code"⟩] }),
     (Move.kind, { maker := .move, form := Move.form }),
     (Action.loseKind, { maker := .lose })]
  nodup := by decide

end BoardRules
