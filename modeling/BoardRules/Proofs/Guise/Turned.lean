import Mathlib
import BoardRules.Proofs.Geometry.Frame
import BoardRules.Proofs.Guise.Analysis

/-!
# The board from another seat

Turning a board by a quarter moves its squares and hands every seat on to the next one
(`Board.turned`).  The next seat sees on the turned board what the seat saw before
(`Turn.inward_next`), its vectors are the turned ones (`Turn.outward_next`), and from a square of
the board a turned vector leads to the turned square, or off the board, although negating a
coordinate may wrap (`Square.step?_turned`).  So the turn is a guise that is faithful to the board
(`Guise.quarterTurn_faithful`), and the analysis of the turned board is the turned analysis
(`Board.analysis_turned`).
-/

namespace BoardRules

/-! ## Turning squares and seats -/

/-- Where a square goes when the board is turned by a quarter; vectors are turned about the
origin. -/
def Square.turned (far p : Square) : Square := ⟨far.y - p.y, p.x⟩

/-- The next seat at the table; after the fourth comes the first. -/
def Seat.next (seat : Seat) : Seat := ⟨seat.number % 4 + 1⟩

/-- The frame of the next seat. -/
def Turn.next : Turn → Turn
  | .none => .quarter
  | .quarter => .half
  | .half => .threeQuarters
  | .threeQuarters => .none

/-- Turning about a far corner sends no two squares to one. -/
theorem Square.turned_injective (far : Square) : Function.Injective far.turned :=
  Function.LeftInverse.injective (Turn.threeQuarters.outward_inward far)

/-- Turning a board as a guise. -/
def Guise.quarterTurn (size : Extent) : Guise where
  square := size.far.turned
  seat := Seat.next
  extent := Extent.turned
  square_injective := size.far.turned_injective

/-- The board turned by a quarter: its size, its placements and the seats of its players. -/
def Board.turned (b : Board) : Board :=
  { b with
    size := b.size.turned
    players := b.players.map fun player => { player with seat := player.seat.next }
    placements := b.placements.map fun placed => (placed.1, b.size.far.turned placed.2) }

/-- A turned board is the board under the turn. -/
theorem Board.under_quarterTurn (b : Board) : b.under (.quarterTurn b.size) = b.turned :=
  b.under_eq_of_names rfl rfl

/-! ## Frames -/

namespace Turn

variable (turn : Turn) (far p : Square)

/-- The next seat sees the turned square where the seat saw the square. -/
theorem inward_next : turn.next.inward ⟨far.y, far.x⟩ (far.turned p) = turn.inward far p := by
  cases turn <;> simp only [next, inward, Square.turned, sub_sub_self]

/-- What the next seat sees somewhere is turned against what the seat sees there. -/
theorem outward_next : turn.next.outward ⟨far.y, far.x⟩ p = far.turned (turn.outward far p) := by
  cases turn <;> simp only [next, outward, Square.turned, sub_sub_self]

end Turn

namespace Seat

variable {seat : Seat}

/-- The seats at a table of four. -/
theorem eq_of_isAtTable (seated : seat.isAtTable = true) :
    seat = ⟨1⟩ ∨ seat = ⟨2⟩ ∨ seat = ⟨3⟩ ∨ seat = ⟨4⟩ := by
  obtain ⟨n⟩ := seat
  simp only [isAtTable, Bool.and_eq_true, decide_eq_true_eq, UInt8.le_iff_toNat_le] at seated
  have bounds : 1 ≤ n.toNat ∧ n.toNat ≤ 4 := seated
  have number : n.toNat = 1 ∨ n.toNat = 2 ∨ n.toNat = 3 ∨ n.toNat = 4 := by omega
  simp only [mk.injEq, ← UInt8.toNat_inj]
  exact number

/-- The next seat is at the table, and its frame is the next one. -/
theorem next_spec (seated : seat.isAtTable = true) :
    seat.next.isAtTable = true ∧ seat.next.turn = seat.turn.next := by
  rcases eq_of_isAtTable seated with rfl | rfl | rfl | rfl <;> decide

/-- The next seat sees a movement turned once more. -/
theorem globalVector_next (seated : seat.isAtTable = true) (v : Square) :
    seat.next.globalVector v = Square.zero.turned (seat.globalVector v) := by
  unfold globalVector
  rw [(next_spec seated).2]
  exact seat.turn.outward_next .zero v

end Seat

/-- The next seat sees on the turned board what the seat sees on the board. -/
theorem Guise.quarterTurn_frames {seat : Seat} (size : Extent) (seated : seat.isAtTable = true) :
    (Guise.quarterTurn size).Frames size seat where
  atTable := (Seat.next_spec seated).1.trans seated.symm
  localSquare p := by
    have frame : seat.next.turn = seat.turn.next := (Seat.next_spec seated).2
    have seen := seat.turn.inward_next size.far p
    rw [← frame] at seen
    exact seen

/-! ## Steps -/

/-- A turned vector leads nowhere exactly if the vector does. -/
theorem Square.turned_zero_eq_zero_iff {v : Square} : zero.turned v = zero ↔ v = zero := by
  have same : zero.turned v = zero.turned zero ↔ v = zero := (turned_injective zero).eq_iff
  exact same

/-- The turned square is on the turned board exactly if the square is on the board. -/
theorem Extent.contains_turned (size : Extent) (p : Square) :
    size.turned.contains (size.far.turned p) = size.contains p :=
  Turn.threeQuarters.contains_inward size p

namespace Square

variable {size : Extent} {p q v : Square}

/-- The row of a square of the board becomes its column, counted from the far side. -/
theorem toInt_turned (inside : size.contains p = true) :
    (size.far.turned p).x.toInt = size.height.toInt - 1 - p.y.toInt :=
  toInt_far_sub (Extent.contains_iff.1 inside).2.1 (Extent.contains_iff.1 inside).2.2

/-- From a square of the board, a turned vector leads to the turned square of the board, or off the
board as the vector does. -/
theorem step?_turned (inside : size.contains p = true) (v : Square) :
    step? size.turned (zero.turned v) (size.far.turned p) =
      (step? size v p).map size.far.turned := by
  have here := Extent.contains_iff.1 inside
  have negated := toInt_zero_sub v.y
  have bound := size.height.toInt_lt
  refine Option.ext fun r => ?_
  rw [Option.map_eq_some_iff, step?_eq_some_iff, toInt_turned inside]
  constructor
  · rintro ⟨sumX, sumY, aims⟩
    -- a turned square has its origin, since the turn is invertible
    obtain ⟨q, rfl⟩ : ∃ q, size.far.turned q = r :=
      ⟨Turn.threeQuarters.outward size.far r, Turn.threeQuarters.inward_outward size.far r⟩
    rw [Extent.contains_turned] at aims
    have there := Extent.contains_iff.1 aims
    rw [toInt_turned aims] at sumX
    change _ = _ + (0 - v.y).toInt at sumX
    refine ⟨q, step?_eq_some_iff.2 ⟨sumY, ?_, aims⟩, rfl⟩
    omega
  · rintro ⟨q, step, rfl⟩
    obtain ⟨sumX, sumY, aims⟩ := step?_eq_some_iff.1 step
    have there := Extent.contains_iff.1 aims
    have turnedSum : size.height.toInt - 1 - q.y.toInt =
        size.height.toInt - 1 - p.y.toInt + (0 - v.y).toInt := by omega
    exact ⟨(toInt_turned aims).trans turnedSum, sumX, (size.contains_turned q).trans aims⟩

end Square

/-! ## Analyses -/

/-- The turn is faithful to a board with all players at the table and all pieces on its squares. -/
theorem Guise.quarterTurn_faithful {b : Board}
    (seated : ∀ player ∈ b.players, player.seat.isAtTable = true)
    (inside : ∀ placed ∈ b.placements, b.onBoard placed.2 = true) :
    (Guise.quarterTurn b.size).Faithful b := by
  have treads (player : Player) (sits : player ∈ b.players) (p : Square)
      (here : b.onBoard p = true) : (Guise.quarterTurn b.size).Treads b.size player.seat p := by
    intro v
    have step := Square.step?_turned here (player.seat.globalVector v)
    rw [← Seat.globalVector_next (seated player sits)] at step
    exact step
  constructor
  case frames =>
    intro player sits
    exact Guise.quarterTurn_frames b.size (seated player sits)
  case still =>
    intro player sits v
    have moves := Seat.globalVector_next (seated player sits) v
    exact (congrArg (· = Square.zero) moves).to_iff.trans Square.turned_zero_eq_zero_iff
  case inside => exact treads
  case placed =>
    intro player sits placed stands
    exact treads player sits placed.2 (inside placed stands)

/-- If all players sit at the table and all pieces stand on the board, then the analysis of the
turned board is the turned analysis: the same candidates in the same order. -/
theorem Board.analysis_turned (b : Board)
    (seated : ∀ player ∈ b.players, player.seat.isAtTable = true)
    (inside : ∀ placed ∈ b.placements, b.onBoard placed.2 = true)
    (settings : Settings) (phase : Phase) :
    b.turned.analysis settings phase =
      (b.analysis settings phase).under (.quarterTurn b.size) := by
  have faithful := Guise.quarterTurn_faithful seated inside
  rw [← b.under_quarterTurn]
  exact Board.analysisWhere_under faithful settings phase fun _ => rfl

/-- The board of the raid with a fourth column. -/
def wideRaidBoard : Board := { raidBoard with size := ⟨4, 3⟩ }

/-- Turned by a quarter, the raid goes to the left along the lowest row of a higher board. -/
theorem turned_raid :
    (∀ player ∈ wideRaidBoard.players, player.seat.isAtTable = true) ∧
      (∀ placed ∈ wideRaidBoard.placements, wideRaidBoard.onBoard placed.2 = true) ∧
      wideRaidBoard.turned.analysis {} .initiative =
        (wideRaidBoard.analysis {} .initiative).under (.quarterTurn wideRaidBoard.size) ∧
      (wideRaidBoard.analysis {} .initiative).candidates.map (·.head.deltas.destination?) =
        [some ⟨0, 1⟩, some ⟨0, 2⟩] ∧
      (wideRaidBoard.turned.analysis {} .initiative).candidates.map
        (·.head.deltas.destination?) = [some ⟨1, 0⟩, some ⟨0, 0⟩] := by
  have seated : ∀ player ∈ wideRaidBoard.players, player.seat.isAtTable = true := by decide
  have inside : ∀ placed ∈ wideRaidBoard.placements, wideRaidBoard.onBoard placed.2 = true := by
    decide
  refine ⟨seated, inside, wideRaidBoard.analysis_turned seated inside {} .initiative, ?_, ?_⟩
  · cbv
  · cbv

end BoardRules
