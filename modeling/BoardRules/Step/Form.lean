import BoardRules.Identity

/-!
# Authoring forms

The fields that an authoring tool offers for a type of step.
-/

namespace BoardRules

/-- How a field is edited. -/
inductive FormKind where
  | number (min : Int64) (max : Option Int64)
  /-- One of the named values. -/
  | choice (items : List (String × Int64))
  /-- Any of the named bits. -/
  | bits (items : List (String × Int64))
  | switch
  /-- An editor of its own, by name. -/
  | custom (editor : String)
  deriving DecidableEq, Repr

namespace FormKind

/-- The fields of a kind are held until its type is known, so it is read from a finite document. -/
instance : Wire FormKind where
  toJson
    | .number min max => .ofFields
        [("type", .string "number"), ("min", toJson min), ("max", toJson max)]
    | .choice items => .ofFields [("type", .string "enum"), ("items", toJson items)]
    | .bits items => .ofFields [("type", .string "mask"), ("items", toJson items)]
    | .switch => .ofFields [("type", .string "switch")]
    | .custom editor => .ofFields [("type", .string "other"), ("editor", toJson editor)]
  ofJson? j := do
    let fields ← (← j.finite?).fields?
    let tag : String ← fields.required "type"
    if tag = "number" then
      return .number (← fields.required "min") (← fields.withDefault "max" none)
    else if tag = "enum" then return .choice (← fields.required "items")
    else if tag = "mask" then return .bits (← fields.required "items")
    else if tag = "switch" then return .switch
    else if tag = "other" then return .custom (← fields.required "editor")
    else failure

end FormKind

/-- A field of a type of step. -/
structure FormItem where
  name : String
  /-- The field of the record that is edited. -/
  property : String
  kind : FormKind
  deriving DecidableEq, Repr

namespace FormItem

instance : Wire FormItem where
  toJson item := .ofFields
    [("name", toJson item.name), ("propName", toJson item.property), ("kind", toJson item.kind)]
  ofJson? j := do
    let fields ← j.structure? ["name", "propName", "kind"]
    return { name := ← fields.required "name",
             property := ← fields.required "propName",
             kind := ← fields.required "kind" }

end FormItem

end BoardRules
