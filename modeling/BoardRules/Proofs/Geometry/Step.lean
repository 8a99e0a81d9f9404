import Mathlib
import BoardRules.Geometry.Seat

/-!
# Steps in exact arithmetic

Squares and vectors have 32-bit coordinates: sums are checked and turns wrap.  A step that stays on
the board is nevertheless a step of exact arithmetic.  It leads where the integer coordinates add up
(`Square.step?_eq_some_iff`); a component that wraps when a vector is turned is the least one, and
from a square of the board it leads off the board on either side, so that the turn may as well be
exact (`Seat.step?_globalVector_eq_some_iff`).  The seat sees such a step as the vector it started
from (`Seat.coords_localSquare_eq_add`).
-/

namespace BoardRules

/-- The square of the board that a vector leads to. -/
def Square.step? (size : Extent) (v p : Square) : Option Square :=
  (p.offset? v).filter size.contains

/-- The coordinates of a square or of a vector, as integers. -/
def Square.coords (p : Square) : ℤ × ℤ := (p.x.toInt, p.y.toInt)

/-- The exact turn of a vector from the turned frame into the global one. -/
def Turn.rotate (turn : Turn) (v : ℤ × ℤ) : ℤ × ℤ :=
  match turn with
  | .none => v
  | .quarter => (-v.2, v.1)
  | .half => (-v.1, -v.2)
  | .threeQuarters => (v.2, -v.1)

/-- Going several times as far and then turning is turning first and then going as far. -/
theorem Turn.rotate_nsmul (turn : Turn) (n : ℕ) (v : ℤ × ℤ) :
    turn.rotate (n • v) = n • turn.rotate v := by
  cases turn <;> simp [rotate]

/-! ## Wrapping -/

/-- Negating a coordinate wraps for the least one only, and leaves it as it is. -/
theorem toInt_zero_sub (c : Int32) :
    (0 - c).toInt = -c.toInt ∨ c.toInt = -2 ^ 31 ∧ (0 - c).toInt = -2 ^ 31 := by
  have low := c.le_toInt
  have high := c.toInt_lt
  rw [Int32.toInt_sub, Int32.toInt_zero, Int.zero_sub]
  by_cases least : c.toInt = -2 ^ 31
  · right
    rw [least]
    exact ⟨rfl, rfl⟩
  · left
    exact Int.bmod_eq_of_le (by omega) (by omega)

/-- Counting from the far side does not wrap on the board. -/
theorem toInt_far_sub {extent c : Int32} (low : 0 ≤ c.toInt) (high : c.toInt < extent.toInt) :
    (extent - 1 - c).toInt = extent.toInt - 1 - c.toInt := by
  have bound := extent.toInt_lt
  have far : (extent - 1).toInt = extent.toInt - 1 := by
    rw [Int32.toInt_sub, Int32.toInt_one]
    exact Int.bmod_eq_of_le (by omega) (by omega)
  rw [Int32.toInt_sub, far]
  exact Int.bmod_eq_of_le (by omega) (by omega)

/-! ## Steps -/

variable {size : Extent} {p q : Square}

namespace Square

variable {v : Square}

/-- A square is determined by its exact coordinates. -/
theorem coords_injective : Function.Injective coords := by
  rintro ⟨x, y⟩ ⟨x', y'⟩ same
  obtain ⟨sameX, sameY⟩ := Prod.mk.inj same
  rw [Square.mk.injEq]
  exact ⟨Int32.toInt_inj.1 sameX, Int32.toInt_inj.1 sameY⟩

/-- A step leads where the coordinates add up, on the board. -/
theorem step?_eq_some_iff :
    step? size v p = some q ↔
      q.x.toInt = p.x.toInt + v.x.toInt ∧ q.y.toInt = p.y.toInt + v.y.toInt ∧
        size.contains q = true := by
  unfold step?
  rw [Option.filter_eq_some_iff]
  constructor
  · rintro ⟨next, inside⟩
    have sums := toInt_of_offset? next
    exact ⟨sums.1, sums.2, inside⟩
  · rintro ⟨sumX, sumY, inside⟩
    refine ⟨?_, inside⟩
    unfold offset?
    rw [← sumX, ← sumY, coordinate?_toInt, coordinate?_toInt]
    rfl

end Square

namespace Seat

variable (seat : Seat)

/-- No seat sees a movement where there is none, or none where there is one. -/
theorem globalVector_eq_zero_iff {v : Square} : seat.globalVector v = .zero ↔ v = .zero := by
  have fixed : seat.localVector .zero = .zero := by
    unfold localVector
    cases seat.turn <;> rfl
  constructor
  · intro still
    rw [← seat.localVector_globalVector v, still, fixed]
  · rintro rfl
    rw [← fixed, globalVector_localVector, fixed]

/-- From a square of the board, the vector of a seat leads where its exact turn leads: if turning
wraps a component, then both lead off the board. -/
theorem step?_globalVector_eq_some_iff (inside : size.contains p = true) {v : Square} :
    Square.step? size (seat.globalVector v) p = some q ↔
      size.contains q = true ∧ q.coords = p.coords + seat.turn.rotate v.coords := by
  have here := Extent.contains_iff.1 inside
  have negatedX := toInt_zero_sub v.x
  have negatedY := toInt_zero_sub v.y
  have width := size.width.toInt_lt
  have height := size.height.toInt_lt
  rw [Square.step?_eq_some_iff, Prod.ext_iff, ← and_assoc, and_comm]
  refine and_congr_right fun there => ?_
  have there := Extent.contains_iff.1 there
  unfold globalVector Turn.outward Turn.rotate Square.coords
  cases seat.turn <;> dsimp only [Square.zero, Prod.fst_add, Prod.snd_add] <;> omega

/-- On the board, the seat sees an exactly turned vector as the vector itself. -/
theorem coords_localSquare_eq_add (here : size.contains p = true) (there : size.contains q = true)
    {v : ℤ × ℤ} (leads : q.coords = p.coords + seat.turn.rotate v) :
    (seat.localSquare size q).coords = (seat.localSquare size p).coords + v := by
  obtain ⟨⟨lowX, highX⟩, lowY, highY⟩ := Extent.contains_iff.1 here
  obtain ⟨⟨lowX', highX'⟩, lowY', highY'⟩ := Extent.contains_iff.1 there
  have farX := toInt_far_sub lowX highX
  have farY := toInt_far_sub lowY highY
  have farX' := toInt_far_sub lowX' highX'
  have farY' := toInt_far_sub lowY' highY'
  revert leads
  rw [Prod.ext_iff, Prod.ext_iff]
  unfold localSquare Turn.inward Turn.rotate Square.coords Extent.far
  cases seat.turn <;> dsimp only [Prod.fst_add, Prod.snd_add] <;> omega

end Seat

end BoardRules
