import BoardRules.Geometry.Square
import BoardRules.Step.Record

/-!
# Moves

A move step goes along vectors in the frame of the piece's owner, once or sliding. Its modes say
what it may do on arrival.
-/

namespace BoardRules

/-- What a move may do on arrival, as bits. -/
structure MoveModes where
  bits : UInt32
  deriving DecidableEq, Repr

namespace MoveModes

/-- Go to an empty square. -/
def move : MoveModes := ⟨1⟩

/-- Take from where it stands. -/
def attack : MoveModes := ⟨2⟩

/-- Take by going there; it goes to empty squares as well. -/
def moveAttack : MoveModes := ⟨4⟩

/-- The modes of either. -/
def or (m n : MoveModes) : MoveModes := ⟨m.bits ||| n.bits⟩

/-- Whether two share a mode. -/
def meets (m n : MoveModes) : Bool := m.bits &&& n.bits ≠ 0

/-- Move, and take by moving. -/
def standard : MoveModes := move.or moveAttack

instance : Wire MoveModes where
  toJson m := toJson m.bits
  ofJson? j := (Wire.ofJson? j).map MoveModes.mk

instance : LawfulWire MoveModes where
  ofJson?_toJson m := congrArg (Option.map _) (ofJson?_toJson m.bits)

end MoveModes

/-- A move step. -/
structure Move where
  header : StepHeader := {}
  modes : MoveModes := .standard
  /-- Whether each vector is repeated up to the edge or the first piece. -/
  sliding : Bool := false
  /-- A limit that authors may write; it is kept, and slides do not heed it. -/
  loopLimit : UInt32 := 1
  /-- Vectors in the frame of the owner. -/
  vectors : List Square := []
  deriving DecidableEq, Repr

namespace Move

/-- The type of move records. -/
def kind : String := "vanilla.move"

/-- Read a move; of several unreadable fields the first one is blamed. -/
def ofRecord (r : StepRecord) : Except InvalidField Move := do
  let modes ← r.readOr "moveType" MoveModes.standard
  let sliding ← r.readOr "loop" false
  let loopLimit ← r.readOr "loopLimit" (1 : UInt32)
  let vectors ← r.readOr "stepPosition" ([] : List Square)
  return { header := r.header, modes, sliding, loopLimit, vectors }

/-- The stored form of a move: every field is written. -/
def toRecord (m : Move) : StepRecord where
  kind := kind
  header := m.header
  fields :=
    [("loop", toJson m.sliding), ("loopLimit", toJson m.loopLimit), ("moveType", toJson m.modes),
     ("stepPosition", toJson m.vectors)]

end Move

end BoardRules
