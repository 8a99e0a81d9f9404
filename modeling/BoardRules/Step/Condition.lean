import BoardRules.Guard.Basic
import BoardRules.Step.Record

/-!
# Conditions

A condition step lets a behaviour go on or stops it. Its source is kept word for word. A condition
whose source does not compile is still a step, and always stops.
-/

namespace BoardRules

/-- Why a source does not compile, with the source. -/
structure CompileFault where
  code : String
  refusal : Guard.Refusal
  deriving DecidableEq, Repr

/-- The wording of the fault. -/
def CompileFault.message (f : CompileFault) : String :=
  "condition `" ++ f.code ++ "` rejected at byte " ++ toString f.refusal.offset ++ ": " ++
    f.refusal.reason.message

/-- A condition step. -/
structure Condition where
  header : StepHeader
  code : String
  compiled : Except Guard.Refusal Guard

namespace Condition

/-- The type of condition records. -/
def kind : String := "condition"

/-- A condition with a source. -/
def ofCode (vocabulary : Vocabulary) (header : StepHeader) (code : String) : Condition :=
  ⟨header, code, Guard.compile vocabulary code⟩

/-- Read a condition; an absent source is the empty one. -/
def ofRecord (vocabulary : Vocabulary) (r : StepRecord) : Except InvalidField Condition :=
  (r.readOr "code" "").map (ofCode vocabulary r.header)

/-- The stored form of a condition. -/
def toRecord (c : Condition) : StepRecord := ⟨kind, c.header, [("code", toJson c.code)]⟩

/-- The compiled source. -/
def guard? (c : Condition) : Option Guard := c.compiled.toOption

/-- Why the source does not compile. -/
def fault? (c : Condition) : Option CompileFault :=
  match c.compiled with
  | .ok _ => none
  | .error refusal => some ⟨c.code, refusal⟩

end Condition

end BoardRules
