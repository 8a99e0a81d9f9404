import BoardRules.Json.Wire

/-!
# Identities

Everything a snapshot stores is named by an opaque text. The kind of thing named is part of the
type, so a piece's identity is never taken for a player's.
-/

namespace BoardRules

/-- The kinds of things that have an identity. -/
inductive IdKind where
  | piece
  | player
  | nation
  | behaviour
  | action
  | design
  | user
  deriving DecidableEq, Repr

/-- The word that introduces an identity in messages. -/
def IdKind.label : IdKind → String
  | .piece => "Piece"
  | .player => "Player"
  | .nation => "Nation"
  | .behaviour => "Behaviour"
  | .action => "Action"
  | .design => "Design"
  | .user => "User"

/-- The identity of a thing of one kind. -/
structure Id (kind : IdKind) where
  text : String
  deriving DecidableEq, Repr

/-- A piece, on the board or taken from it. -/
abbrev PieceId := Id .piece
/-- A seat at the table. -/
abbrev PlayerId := Id .player
/-- An ownership group. -/
abbrev NationId := Id .nation
/-- A behaviour of a piece. -/
abbrev BehaviourId := Id .behaviour
/-- A step of a behaviour. -/
abbrev ActionId := Id .action
/-- A board, a package or another design. -/
abbrev DesignId := Id .design
/-- An account outside the game. -/
abbrev UserId := Id .user

namespace Id

variable {kind : IdKind}

/-- The text of the identity that stands for none. -/
def nilText : String := "00000000-0000-0000-0000-000000000000"

/-- No identity yet. -/
def nil : Id kind := ⟨nilText⟩

instance : Inhabited (Id kind) := ⟨nil⟩

/-- Whether this stands for no identity: the empty text does as well. -/
def isNil (id : Id kind) : Bool := id.text = "" ∨ id.text = nilText

/-- How messages show an identity. -/
def display (id : Id kind) : String := kind.label ++ "(" ++ id.text ++ ")"

instance : Wire (Id kind) where
  toJson id := toJson id.text
  ofJson? j := (Wire.ofJson? j).map Id.mk

instance : LawfulWire (Id kind) := ⟨fun _ => rfl⟩

end Id

end BoardRules
