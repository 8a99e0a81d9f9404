import BoardRules.Step.Basic

/-!
# Load issues

Problems of a snapshot that do not stop it from loading.
-/

namespace BoardRules

/-- A problem found while loading. -/
inductive Issue where
  | unknownStepType (behaviour : BehaviourId) (action : ActionId) (kind : String)
  | unbuiltStep (behaviour : BehaviourId) (action : ActionId) (fault : InvalidField)
  | uncompiledCondition (behaviour : BehaviourId) (action : ActionId) (fault : CompileFault)
  | strayPlacement (piece : PieceId)
  | offBoard (piece : PieceId) (square : Square)
  | sharedSquare (first second : PieceId) (square : Square)
  | multipleNations (piece : PieceId)
  | strayMember (nation : NationId) (piece : PieceId)
  | unknownBoardKind (kind : String)
  deriving DecidableEq, Repr

namespace Issue

/-- The wording of an issue. -/
def message : Issue → String
  | .unknownStepType behaviour action kind =>
    "behaviour " ++ behaviour.display ++ ": step " ++ action.display ++ " has unknown type `" ++
      kind ++ "` and was left out of the pipeline"
  | .unbuiltStep behaviour action fault =>
    "behaviour " ++ behaviour.display ++ ": step " ++ action.display ++ " could not be built: " ++
      fault.message
  | .uncompiledCondition behaviour action fault =>
    "behaviour " ++ behaviour.display ++ ": condition " ++ action.display ++
      " does not compile and will always block: " ++ fault.message
  | .strayPlacement piece => "state references missing piece " ++ piece.display
  | .offBoard piece square =>
    "piece " ++ piece.display ++ " is placed outside the board at " ++ square.display
  | .sharedSquare first second square =>
    "pieces " ++ first.display ++ " and " ++ second.display ++ " share square " ++ square.display
  | .multipleNations piece =>
    "piece " ++ piece.display ++ " belongs to more than one nation subtree"
  | .strayMember nation piece =>
    "nation " ++ nation.display ++ " references missing piece " ++ piece.display
  | .unknownBoardKind kind => "unknown board kind `" ++ kind ++ "`"

end Issue

end BoardRules
