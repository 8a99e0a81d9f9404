import BoardRules.Geometry.Square

/-!
# Seats and frames

Every player sees the board from a seat. Seat 1 sees the global frame; seats 2, 3 and 4 see it
turned by a quarter, a half and three quarters. Squares are turned about the board, vectors about
the origin. All arithmetic wraps, so turning is invertible for every square and every size:
`Turn.outward_inward` and `Turn.inward_outward`.
-/

namespace BoardRules

/-- How far a frame is turned against the global one. -/
inductive Turn where
  | none
  | quarter
  | half
  | threeQuarters
  deriving DecidableEq, Repr

namespace Turn

/-- From the global frame into the turned one, on a board whose far corner is `far`. -/
def inward (turn : Turn) (far p : Square) : Square :=
  match turn with
  | .none => p
  | .quarter => ⟨p.y, far.x - p.x⟩
  | .half => ⟨far.x - p.x, far.y - p.y⟩
  | .threeQuarters => ⟨far.y - p.y, p.x⟩

/-- From the turned frame back into the global one. -/
def outward (turn : Turn) (far p : Square) : Square :=
  match turn with
  | .none => p
  | .quarter => ⟨far.x - p.y, p.x⟩
  | .half => ⟨far.x - p.x, far.y - p.y⟩
  | .threeQuarters => ⟨p.y, far.y - p.x⟩

theorem sub_sub_self (a b : Int32) : a - (a - b) = b := by grind

@[simp] theorem outward_inward (turn : Turn) (far p : Square) :
    turn.outward far (turn.inward far p) = p := by
  cases turn <;> simp only [inward, outward, sub_sub_self]

@[simp] theorem inward_outward (turn : Turn) (far p : Square) :
    turn.inward far (turn.outward far p) = p := by
  cases turn <;> simp only [inward, outward, sub_sub_self]

end Turn

/-- A seat at the table: 1 to 4 are the seats, everything else is unseated. -/
structure Seat where
  number : UInt8
  deriving DecidableEq, Repr

namespace Seat

/-- Whether this is one of the four seats. -/
def isAtTable (seat : Seat) : Bool := 1 ≤ seat.number && seat.number ≤ 4

/-- The turn of a seat's frame; the unseated see the global frame. -/
def turn (seat : Seat) : Turn :=
  if seat.number = 2 then .quarter
  else if seat.number = 3 then .half
  else if seat.number = 4 then .threeQuarters
  else .none

/-- A global square as the seat sees it. -/
def localSquare (seat : Seat) (size : Extent) (p : Square) : Square := seat.turn.inward size.far p

/-- The global square of a square in the seat's frame. -/
def globalSquare (seat : Seat) (size : Extent) (p : Square) : Square :=
  seat.turn.outward size.far p

/-- A global vector as the seat sees it. -/
def localVector (seat : Seat) (v : Square) : Square := seat.turn.inward .zero v

/-- The global vector of a vector in the seat's frame. -/
def globalVector (seat : Seat) (v : Square) : Square := seat.turn.outward .zero v

@[simp] theorem globalSquare_localSquare (seat : Seat) (size : Extent) (p : Square) :
    seat.globalSquare size (seat.localSquare size p) = p :=
  seat.turn.outward_inward size.far p

@[simp] theorem localSquare_globalSquare (seat : Seat) (size : Extent) (p : Square) :
    seat.localSquare size (seat.globalSquare size p) = p :=
  seat.turn.inward_outward size.far p

@[simp] theorem globalVector_localVector (seat : Seat) (v : Square) :
    seat.globalVector (seat.localVector v) = v :=
  seat.turn.outward_inward .zero v

@[simp] theorem localVector_globalVector (seat : Seat) (v : Square) :
    seat.localVector (seat.globalVector v) = v :=
  seat.turn.inward_outward .zero v

instance : Wire Seat where
  toJson seat := toJson seat.number
  ofJson? j := (Wire.ofJson? j).map Seat.mk

instance : LawfulWire Seat where
  ofJson?_toJson seat := congrArg (Option.map _) (ofJson?_toJson seat.number)

end Seat

end BoardRules
