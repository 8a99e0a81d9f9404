import Mathlib
import BoardRules.Proofs.Guise.Guard
import BoardRules.Proofs.Search.Effect
import BoardRules.Proofs.Search.Ray

/-!
# Branches under a guise

A move goes from square to square along the vectors of its owner.  A guise is faithful to a board
(`Guise.Faithful`) if every step on that board leads to the same square under the guise, or off the
board in both (`Guise.Treads`): from squares of the board, and from wherever pieces stand.  Then
rays meet the same squares (`ray_under`), and every action has the same branches in the same order
(`Action.branches_under`).
-/

namespace BoardRules

/-! ## Faithful guises -/

namespace Guise

/-- From a square, all vectors of a seat lead to the same squares of the board under the guise. -/
def Treads (g : Guise) (size : Extent) (seat : Seat) (p : Square) : Prop :=
  ∀ v, Square.step? (g.extent size) ((g.seat seat).globalVector v) (g.square p) =
    (Square.step? size (seat.globalVector v) p).map g.square

/-- The board looks the same to every player under the guise. -/
structure Faithful (g : Guise) (b : Board) : Prop where
  /-- Players see the same coordinates. -/
  frames : ∀ player ∈ b.players, g.Frames b.size player.seat
  /-- The vectors that lead nowhere are the same. -/
  still : ∀ player ∈ b.players, ∀ v,
    (g.seat player.seat).globalVector v = .zero ↔ player.seat.globalVector v = .zero
  /-- Steps from the squares of the board are the same. -/
  inside : ∀ player ∈ b.players, ∀ p, b.onBoard p = true → g.Treads b.size player.seat p
  /-- Steps from where pieces stand are the same. -/
  placed : ∀ player ∈ b.players, ∀ placed ∈ b.placements, g.Treads b.size player.seat placed.2

/-- A guise that leaves squares, seats and sizes alone is faithful to every board. -/
theorem faithful_of_places {g : Guise} (squares : g.square = fun p => p)
    (seats : g.seat = fun seat => seat) (extents : g.extent = fun size => size) (b : Board) :
    g.Faithful b := by
  have treads (size : Extent) (seat : Seat) (p : Square) : g.Treads size seat p := by
    intro v
    rw [squares, seats, extents]
    exact Option.map_id_apply.symm
  constructor
  case frames =>
    intro player _
    refine ⟨by rw [seats], fun p => ?_⟩
    rw [squares, seats, extents]
  case still =>
    intro player _ v
    rw [seats]
  case inside =>
    intro player _ p _
    exact treads b.size player.seat p
  case placed =>
    intro player _ placed _
    exact treads b.size player.seat placed.2

end Guise

/-! ## Rays -/

variable {g : Guise} {b : Board}

/-- Slides come to the same end. -/
theorem Slides.under {size : Extent} {seat : Seat} {occupied taken : Square → Bool} {v p : Square}
    {squares : List Square}
    (slides : Slides size occupied (seat.globalVector v) p squares)
    (inside : ∀ q, size.contains q = true → g.Treads size seat q)
    (same : ∀ q, taken (g.square q) = occupied q) (start : g.Treads size seat p) :
    Slides (g.extent size) taken ((g.seat seat).globalVector v) (g.square p)
      (squares.map g.square) := by
  induction slides with
  | edge stops =>
    refine .edge ?_
    rw [start, stops, Option.map_none]
  | @meet p q goes blocked =>
    refine .meet ?_ ((same q).trans blocked)
    rw [start, goes, Option.map_some]
  | @onward p q rest goes free _ ih =>
    refine .onward ?_ ((same q).trans free) (ih (inside q (Square.step?_eq_some_iff.1 goes).2.2))
    rw [start, goes, Option.map_some]

/-- Rays meet the same squares. -/
theorem ray_under {size : Extent} {seat : Seat} {occupied taken : Square → Bool} {v p : Square}
    (still : (g.seat seat).globalVector v = .zero ↔ seat.globalVector v = .zero)
    (inside : ∀ q, size.contains q = true → g.Treads size seat q)
    (same : ∀ q, taken (g.square q) = occupied q) (start : g.Treads size seat p) :
    ray (g.extent size) taken ((g.seat seat).globalVector v) (g.square p) =
      (ray size occupied (seat.globalVector v) p).map g.square := by
  by_cases zero : seat.globalVector v = .zero
  · rw [ray, dif_pos (still.2 zero), ray, dif_pos zero, List.map_nil]
  · have slides := slides_ray size occupied zero p
    exact ((slides.under inside same start).eq_ray (mt still.1 zero)).symm

/-! ## Moves -/

/-- A move reaches the same squares. -/
theorem Move.targets_under (m : Move) {player : Player} (faithful : g.Faithful b)
    (seated : player ∈ b.players) {origin : Square}
    (start : g.Treads b.size player.seat origin) (v : Square) :
    m.targets (b.under g) (g.square origin) ((g.seat player.seat).globalVector v) =
      (m.targets b origin (player.seat.globalVector v)).map g.square := by
  cases single : m.sliding with
  | false =>
    rw [targets_of_not_sliding single, targets_of_not_sliding single, ← Option.toList_map]
    exact congrArg Option.toList (start v)
  | true =>
    unfold targets
    rw [if_pos single, if_pos single]
    refine ray_under (faithful.still player seated v) (faithful.inside player seated) ?_ start
    intro q
    rw [Board.occupant?_under, Option.isSome_map]

/-- A move does the same on a square. -/
theorem Move.outcomes_under (m : Move) (b : Board) (g : Guise) (deltas : DeltaSet)
    (piece : PieceId) (aim : Square) :
    m.outcomes (b.under g) (deltas.under g) (g.piece piece) (g.square aim) =
      (m.outcomes b deltas piece aim).map (·.under g) := by
  have arrive := deltas.mergeAll_under g [.cell aim, .position aim]
  unfold outcomes
  rw [Board.occupant?_under, Board.map_id_owner?_under]
  cases b.occupant? aim with
  | none =>
    simp only [Option.map_none]
    split
    · rw [List.map_singleton, Branch.under, ← arrive]
      rfl
    · rfl
  | some target =>
    have capture := deltas.mergeAll_under g [.cell aim, .position aim, .attack [target]]
    have snipe := deltas.mergeAll_under g [.cell aim, .attack [target]]
    simp only [Option.map_some]
    rw [Board.map_id_owner?_under]
    split
    · rfl
    · rw [List.map_append]
      congr 1
      · split
        · rw [List.map_singleton, Branch.under, ← capture]
          rfl
        · rfl
      · split
        · rw [List.map_singleton, Branch.under, ← snipe]
          rfl
        · rfl

/-- Every action has the same branches in the same order. -/
theorem Action.branches_under (a : Action) (faithful : g.Faithful b) {deltas : DeltaSet}
    {piece : PieceId}
    (start : ∀ player ∈ b.players, ∀ origin, deltas.destination? = some origin →
      g.Treads b.size player.seat origin) :
    a.branches (b.under g) (deltas.under g) (g.piece piece) =
      (a.branches b deltas piece).map (·.under g) := by
  cases a with
  | move m =>
    unfold branches Move.branches
    simp only [Board.owner?_under, DeltaSet.destination?_under]
    cases owned : b.owner? piece with
    | none => rfl
    | some owner =>
      have seated := b.mem_players_of_owner? owned
      cases goes : deltas.destination? with
      | none => rfl
      | some origin =>
        simp only [Option.map_some, List.map_flatMap]
        refine List.flatMap_congr fun v _ => ?_
        have reached := m.targets_under faithful seated (start owner seated origin goes) v
        have squares : m.targets (b.under g) (g.square origin)
            ((owner.under g).seat.globalVector v) =
              (m.targets b origin (owner.seat.globalVector v)).map g.square := reached
        rw [squares, List.flatMap_map]
        exact List.flatMap_congr fun aim _ => m.outcomes_under b g deltas piece aim
  | lose header =>
    unfold branches
    simp only [Board.owner?_under]
    cases b.owner? piece with
    | none => rfl
    | some owner =>
      have loses := deltas.mergeAll_under g [.lose owner.id]
      simp only [Option.map_some]
      rw [List.map_singleton, Branch.under, ← loses]
      rfl

end BoardRules
