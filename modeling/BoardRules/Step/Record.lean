import BoardRules.Identity

/-!
# Step records

The stored form of a step of a behaviour: a name, a type, an identity, and whatever fields the type
defines. Fields that no type asks for are kept, so a record is read from a finite document. A typed
reading of a field takes an absent field and `null` alike for nothing.
-/

namespace BoardRules

/-- The name and the identity of a step. -/
structure StepHeader where
  name : String := ""
  id : ActionId := .nil
  deriving DecidableEq, Repr

/-- A stored step. -/
structure StepRecord where
  kind : String
  header : StepHeader
  fields : Fields
  deriving DecidableEq, Repr

/-- A field of a record that cannot be read as its type asks. -/
structure InvalidField where
  kind : String
  field : String
  deriving DecidableEq, Repr

/-- The wording of the fault. -/
def InvalidField.message (f : InvalidField) : String :=
  "action `" ++ f.kind ++ "` has invalid field `" ++ f.field ++ "`"

namespace StepRecord

/-- Read a field if it is there. -/
def read? (α : Type) [Wire α] (r : StepRecord) (name : String) :
    Except InvalidField (Option α) :=
  match r.fields.get? name with
  | none | some .null => .ok none
  | some j =>
    match Wire.ofJson? j with
    | some a => .ok (some a)
    | none => .error ⟨r.kind, name⟩

/-- Read a field, with a value for when it is not there. -/
def readOr {α : Type} [Wire α] (r : StepRecord) (name : String) (fallback : α) :
    Except InvalidField α :=
  (r.read? α name).map (·.getD fallback)

/-- The fields that every record has. -/
def knownFields : List String := ["name", "type", "uuid"]

instance : Wire StepRecord where
  toJson r := .object
    (Fields.set "name" (toJson r.header.name) (Fields.set "type" (toJson r.kind)
      (Fields.set "uuid" (toJson r.header.id) r.fields)))
  ofJson? j := do
    let fields ← (← j.finite?).fields?
    return { kind := ← fields.required "type",
             header :=
              { name := ← fields.withDefault "name" "", id := ← fields.withDefault "uuid" .nil },
             fields := fields.without knownFields }

end StepRecord

end BoardRules
