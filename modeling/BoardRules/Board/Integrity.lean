import BoardRules.Board.Basic
import BoardRules.Settings

/-!
# Integrity of boards

What a board should satisfy, and the issues it raises where it does not: a registered kind, placed
pieces that exist, inside the board, one to a square, and nations whose members exist and occur
once.
-/

namespace BoardRules

/-- The registered kinds of boards. -/
abbrev BoardKinds := Catalogue BoardKind

/-- The kind that comes with the rules. -/
def BoardKinds.vanilla : BoardKinds := ⟨[(BoardKind.basic.name, .basic)], by decide⟩

namespace Board

/-- The issues of one placement: no such piece, off the board, and a square that is taken already.
Of several earlier placements on the square the latest is named; `earlier` has the latest first. -/
def placementIssues (b : Board) (earlier : List (PieceId × Square)) (piece : PieceId)
    (square : Square) : List Issue :=
  (if (b.piece? piece).isNone then [.strayPlacement piece] else []) ++
  (if b.onBoard square then [] else [.offBoard piece square]) ++
  match earlier.find? (·.2 = square) with
  | some first => [.sharedSquare first.1 piece square]
  | none => []

/-- The issues of placements in order. -/
def placementsIssues (b : Board) (earlier : List (PieceId × Square)) :
    List (PieceId × Square) → List Issue
  | [] => []
  | (piece, square) :: rest =>
    b.placementIssues earlier piece square ++ b.placementsIssues ((piece, square) :: earlier) rest

/-- The issues of nations: pieces met more than once, then members that are no pieces. -/
def nationIssues (b : Board) : List Issue :=
  b.nations.repeated.map .multipleNations ++
  b.nations.memberships.filterMap fun (nation, piece) =>
    if (b.piece? piece).isNone then some (.strayMember nation.id piece) else none

/-- All issues of a board. -/
def issues (b : Board) (kinds : BoardKinds) : List Issue :=
  (if kinds.contains b.kind then [] else [.unknownBoardKind b.kind]) ++
  b.placementsIssues [] b.placements ++ b.nationIssues

end Board

end BoardRules
