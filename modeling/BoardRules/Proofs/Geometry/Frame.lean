import Mathlib
import BoardRules.Proofs.Geometry.Step

/-!
# Changes of frame

A seat sees the board in a frame of its own.  Changing the frame can be undone, for squares as for
vectors (`Turn.outward_inward`, `Turn.inward_outward`), and it is rigid: a square a vector further
in the seat's frame is the turned vector further on the board (`Turn.outward_add`), and vectors keep
their lengths (`Turn.lengthSq_outward`).  These laws need no bounds, because all arithmetic wraps.

Wrapping could nevertheless carry a distant square onto the board.  It does not, since counting from
the far side leads from the board to the board and is its own inverse (`mirrored_iff`).  So the
board fills the seat's frame, with its sides exchanged if the frame is turned by a quarter or by
three (`Turn.contains_inward`).
-/

namespace BoardRules

/-! ## Sums -/

/-- The sum of a square and a vector, or of two vectors; coordinates wrap. -/
instance : Add Square where
  add p v := ⟨p.x + v.x, p.y + v.y⟩

/-- Squares are added coordinate by coordinate, and each coordinate wraps on its own. -/
theorem Square.add_eq (p v : Square) : p + v = ⟨p.x + v.x, p.y + v.y⟩ := rfl

/-- Turning about the board is turning about the origin and shifting. -/
theorem Turn.outward_add (turn : Turn) (far p v : Square) :
    turn.outward far (p + v) = turn.outward far p + turn.outward .zero v := by
  have across (a b c : Int32) : a - (b + c) = a - b + (0 - c) := by grind
  cases turn <;> simp only [outward, Square.add_eq, Square.zero, across]

/-- The square of the length of a vector, which wraps. -/
def Square.lengthSq (v : Square) : Int32 := v.x * v.x + v.y * v.y

/-- Turning a vector keeps its length. -/
theorem Turn.lengthSq_outward (turn : Turn) (v : Square) :
    (turn.outward .zero v).lengthSq = v.lengthSq := by
  have square (a : Int32) : (0 - a) * (0 - a) = a * a := by grind
  cases turn <;> simp only [outward, Square.lengthSq, Square.zero, square, Int32.add_comm]

/-! ## Bounds -/

/-- The size of the turned board. -/
def Extent.turned (size : Extent) : Extent := ⟨size.height, size.width⟩

/-- The size of the board in the turned frame. -/
def Turn.extent (turn : Turn) (size : Extent) : Extent :=
  match turn with
  | .none | .half => size
  | .quarter | .threeQuarters => size.turned

/-- Counted from the far side, the columns of the board are the columns of the board, also if the
count of others wraps. -/
theorem mirrored_iff (extent c : Int32) :
    (0 ≤ (extent - 1 - c).toInt ∧ (extent - 1 - c).toInt < extent.toInt) ↔
      (0 ≤ c.toInt ∧ c.toInt < extent.toInt) := by
  have stays (c : Int32) (inside : 0 ≤ c.toInt ∧ c.toInt < extent.toInt) :
      0 ≤ (extent - 1 - c).toInt ∧ (extent - 1 - c).toInt < extent.toInt := by
    rw [toInt_far_sub inside.1 inside.2]
    omega
  constructor
  · intro mirrored
    rw [← Turn.sub_sub_self (extent - 1) c]
    exact stays _ mirrored
  · exact stays c

/-- A square is on the board exactly if it is seen on the board. -/
theorem Turn.contains_inward (turn : Turn) (size : Extent) (p : Square) :
    (turn.extent size).contains (turn.inward size.far p) = size.contains p := by
  have column := mirrored_iff size.width p.x
  have row := mirrored_iff size.height p.y
  rw [Bool.eq_iff_iff, Extent.contains_iff, Extent.contains_iff]
  cases turn with
  | none => exact Iff.rfl
  | quarter => exact (and_congr_right' column).trans and_comm
  | half => exact and_congr column row
  | threeQuarters => exact (and_congr_left' row).trans and_comm

/-! ## Seats -/

namespace Seat

/-- The sides of the board are exchanged for the seats to the left and to the right. -/
theorem extent_turn (seat : Seat) (size : Extent) :
    seat.turn.extent size =
      if seat.number = 2 ∨ seat.number = 4 then size.turned else size := by
  unfold turn
  split_ifs <;> simp_all [Turn.extent]

/-- A seat's view is a rigid change of frame, on boards of every declared size and for all
coordinates.  It is undone by the way back, for squares and for vectors.  The way back carries sums
with a vector to sums with the turned vector, which has the same length.  And a square is on the
board exactly if the seat sees it within the board's size, with the sides exchanged for seats 2
and 4. -/
theorem frame_spec (seat : Seat) (size : Extent) (p v : Square) :
    (seat.globalSquare size (seat.localSquare size p) = p ∧
        seat.localSquare size (seat.globalSquare size p) = p ∧
        seat.globalVector (seat.localVector v) = v ∧
        seat.localVector (seat.globalVector v) = v) ∧
      seat.globalSquare size (p + v) = seat.globalSquare size p + seat.globalVector v ∧
      (seat.globalVector v).lengthSq = v.lengthSq ∧
      (size.contains p = true ↔
        (if seat.number = 2 ∨ seat.number = 4 then size.turned else size).contains
          (seat.localSquare size p) = true) := by
  refine ⟨⟨seat.globalSquare_localSquare size p, seat.localSquare_globalSquare size p,
    seat.globalVector_localVector v, seat.localVector_globalVector v⟩, ?_, ?_, ?_⟩
  · exact seat.turn.outward_add size.far p v
  · exact seat.turn.lengthSq_outward v
  · rw [← seat.extent_turn size, localSquare, seat.turn.contains_inward size p]

/-- From the other side, the least column wraps to a column that is still off the board. -/
example : (Seat.mk 3).localSquare .standard ⟨-2147483648, 0⟩ = ⟨-2147483641, 7⟩ := by decide

end Seat

end BoardRules
