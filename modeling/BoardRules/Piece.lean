import BoardRules.Behaviour

/-!
# Pieces and packages

A piece has behaviours and does not change during play; where it stands is a matter of the board. A
package is a named collection of piece designs.
-/

namespace BoardRules

namespace Snapshot

/-- The stored form of a piece. -/
structure Piece where
  name : String
  template : DesignId
  id : PieceId
  image : String
  behaviours : List Behaviour
  deriving DecidableEq, Repr

instance : Wire Piece where
  toJson p := .ofFields
    [("name", toJson p.name), ("type", toJson p.template), ("uuid", toJson p.id),
     ("img", toJson p.image), ("behaviours", toJson p.behaviours)]
  ofJson? j := do
    let fields ← j.structure? ["name", "type", "uuid", "img", "behaviours"]
    return { name := ← fields.withDefault "name" "",
             template := ← fields.withDefault "type" .nil,
             id := ← fields.required "uuid",
             image := ← fields.withDefault "img" "",
             behaviours := ← fields.withDefault "behaviours" [] }

/-- The stored form of a package. -/
structure Package where
  name : String
  id : DesignId
  entities : List Piece
  deriving DecidableEq, Repr

instance : Wire Package where
  toJson p := .ofFields
    [("name", toJson p.name), ("uuid", toJson p.id), ("entities", toJson p.entities)]
  ofJson? j := do
    let fields ← j.structure? ["name", "uuid", "entities"]
    return { name := ← fields.withDefault "name" "",
             id := ← fields.withDefault "uuid" .nil,
             entities := ← fields.withDefault "entities" [] }

end Snapshot

/-- A piece. -/
structure Piece where
  id : PieceId
  /-- The design the piece was made from. -/
  template : DesignId := .nil
  name : String := ""
  image : String := ""
  behaviours : List Behaviour := []

namespace Piece

/-- The behaviours of one trigger, in authored order. -/
def triggered (p : Piece) (trigger : Trigger) : List Behaviour :=
  p.behaviours.filter (·.trigger = trigger)

/-- The behaviour with an identity. -/
def behaviour? (p : Piece) (id : BehaviourId) : Option Behaviour :=
  p.behaviours.find? (·.id = id)

/-- Load a piece, with the issues of its behaviours in order. -/
def load (types : StepTypes) (vocabulary : Vocabulary) (data : Snapshot.Piece) :
    Piece × List Issue :=
  let loaded := data.behaviours.map (Behaviour.load types vocabulary)
  ({ id := data.id, template := data.template, name := data.name, image := data.image,
     behaviours := loaded.map Prod.fst },
    loaded.flatMap Prod.snd)

/-- The stored form of a piece. -/
def toSnapshot (p : Piece) : Snapshot.Piece :=
  { name := p.name, template := p.template, id := p.id, image := p.image,
    behaviours := p.behaviours.map Behaviour.toSnapshot }

end Piece

/-- A named collection of piece designs. -/
structure Package where
  id : DesignId
  name : String
  entities : List Piece

namespace Package

/-- Load a package, with the issues of its pieces in order. -/
def load (types : StepTypes) (vocabulary : Vocabulary) (data : Snapshot.Package) :
    Package × List Issue :=
  let loaded := data.entities.map (Piece.load types vocabulary)
  ({ id := data.id, name := data.name, entities := loaded.map Prod.fst },
    loaded.flatMap Prod.snd)

/-- The stored form of a package. -/
def toSnapshot (p : Package) : Snapshot.Package :=
  { name := p.name, id := p.id, entities := p.entities.map Piece.toSnapshot }

end Package

end BoardRules
