import BoardRules.Geometry.Square

/-!
# Settings

What a game may choose about search and loading, and what a kind of board defines.
-/

namespace BoardRules

/-- Settings of search and loading. -/
structure Settings where
  /-- A reaction with more branches than this is dropped, since it would be ambiguous. -/
  passiveLimit : Nat := 1
  /-- Whether the piece that moved may react to its own move. -/
  initiatorReacts : Bool := false
  /-- Whether any issue makes loading fail. -/
  strict : Bool := false
  deriving DecidableEq, Repr

namespace Settings

instance : Wire Settings where
  toJson s := .ofFields
    [("passive_branch_limit", toJson s.passiveLimit),
     ("reactions_include_initiator", toJson s.initiatorReacts),
     ("strict_load", toJson s.strict)]
  ofJson? j := do
    let fields ← j.structure?
      ["passive_branch_limit", "reactions_include_initiator", "strict_load"]
    return { passiveLimit := ← fields.required "passive_branch_limit",
             initiatorReacts := ← fields.required "reactions_include_initiator",
             strict := ← fields.required "strict_load" }

end Settings

/-- A kind of board. -/
structure BoardKind where
  name : String
  /-- Colours by nation colour index. -/
  colors : List String := []
  defaultSize : Extent := .standard
  deriving DecidableEq, Repr

namespace BoardKind

/-- The rectangular board that comes with the rules. -/
def basic : BoardKind := { name := "vanilla.basic", colors := ["white", "black"] }

/-- The colour of an index; negative indices have none. -/
def color? (kind : BoardKind) (index : Int32) : Option String :=
  if 0 ≤ index.toInt then kind.colors[index.toInt.toNat]? else none

instance : Wire BoardKind where
  toJson kind := .ofFields
    [("name", toJson kind.name), ("colormap", toJson kind.colors),
     ("default_size", toJson kind.defaultSize)]
  ofJson? j := do
    let fields ← j.structure? ["name", "colormap", "default_size"]
    return { name := ← fields.required "name",
             colors := ← fields.required "colormap",
             defaultSize := ← fields.required "default_size" }

end BoardKind

end BoardRules
