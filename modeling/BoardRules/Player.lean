import BoardRules.Geometry.Seat
import BoardRules.Identity

/-!
# Players
-/

namespace BoardRules

/-- A player at the table. The linked account plays no part in the rules. -/
structure Player where
  id : PlayerId
  seat : Seat
  user : UserId := .nil
  deriving DecidableEq, Repr

namespace Player

instance : Wire Player where
  toJson p := .ofFields
    [("direct", toJson p.seat), ("uuid", toJson p.id), ("user", toJson p.user)]
  ofJson? j := do
    let fields ← j.structure? ["direct", "uuid", "user"]
    return { seat := ← fields.required "direct",
             id := ← fields.required "uuid",
             user := ← fields.withDefault "user" .nil }

end Player

end BoardRules
