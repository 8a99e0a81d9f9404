import BoardRules.Monitor
import BoardRules.Nation.Forest
import BoardRules.Piece
import BoardRules.Player

/-!
# Boards

A board holds the pieces, who owns them, the players, the monitors, and where pieces stand. Pieces
that were taken stay known to the board and only lose their square. Boards are values: changing one
gives another.
-/

namespace BoardRules

/-- A board. -/
structure Board where
  kind : String
  name : String
  id : DesignId
  size : Extent
  pieces : List Piece
  nations : Forest
  players : List Player
  monitors : List Monitor
  /-- Where pieces stand, in the order of placement. -/
  placements : List (PieceId × Square)
  /-- Eliminated players, in the order of elimination. -/
  losers : List PlayerId

namespace Board

/-- The kind of the board that comes with the rules. -/
def basicKind : String := "vanilla.basic"

/-- A board with nothing on it and a step monitor. -/
def empty (name : String) (size : Extent) : Board :=
  { kind := basicKind, name, id := .nil, size, pieces := [], nations := {}, players := [],
    monitors := [.step], placements := [], losers := [] }

/-! ## Looking up -/

/-- The first piece with an identity. -/
def piece? (b : Board) (id : PieceId) : Option Piece := b.pieces.find? (·.id = id)

/-- The first player with an identity. -/
def player? (b : Board) (id : PlayerId) : Option Player := b.players.find? (·.id = id)

/-- The first monitor of a kind. -/
def monitor? (b : Board) (kind : String) : Option Monitor := b.monitors.find? (·.kind = kind)

/-- Whether a player has been eliminated. -/
def hasLost (b : Board) (player : PlayerId) : Bool := b.losers.contains player

/-- Where a piece stands. -/
def squareOf? (b : Board) (piece : PieceId) : Option Square := b.placements.lookup piece

/-- The piece that was placed first among those on a square. -/
def occupant? (b : Board) (square : Square) : Option PieceId :=
  (b.placements.find? (·.2 = square)).map Prod.fst

/-- The player who owns a piece: the one who claims the root nation above it, if that is a player of
this board. -/
def owner? (b : Board) (piece : PieceId) : Option Player :=
  (b.nations.claimant? piece).bind b.player?

/-- Whether a player owns a piece. -/
def owns (b : Board) (player : PlayerId) (piece : PieceId) : Bool :=
  (b.owner? piece).any (·.id = player)

/-- The pieces that a player owns. -/
def owned (b : Board) (player : PlayerId) : List Piece := b.pieces.filter (b.owns player ·.id)

/-- Whether a square lies on the board. -/
def onBoard (b : Board) (square : Square) : Bool := b.size.contains square

/-- How often a piece has changed its square. -/
def moveCount (b : Board) (piece : PieceId) : UInt32 :=
  ((b.monitor? Monitor.stepKind).map (·.count piece)).getD 0

/-! ## Changing -/

/-- Move the first placement of a piece, or add one at the end. -/
def placeIn (piece : PieceId) (square : Square) : List (PieceId × Square) → List (PieceId × Square)
  | [] => [(piece, square)]
  | (id, old) :: rest =>
    if id = piece then (piece, square) :: rest else (id, old) :: placeIn piece square rest

/-- Place or move a piece. -/
def place (b : Board) (piece : PieceId) (square : Square) : Board :=
  { b with placements := placeIn piece square b.placements }

theorem lookup_placeIn_self (piece : PieceId) (square : Square)
    (placements : List (PieceId × Square)) :
    (placeIn piece square placements).lookup piece = some square := by
  induction placements with
  | nil => simp [placeIn]
  | cons placed rest ih =>
    obtain ⟨id, old⟩ := placed
    unfold placeIn
    split
    · simp
    · rename_i h
      rw [List.lookup_cons, beq_eq_false_iff_ne.2 (Ne.symm h)]
      exact ih

theorem lookup_placeIn_of_ne {piece other : PieceId} (h : other ≠ piece) (square : Square)
    (placements : List (PieceId × Square)) :
    (placeIn piece square placements).lookup other = placements.lookup other := by
  induction placements with
  | nil => rw [placeIn, List.lookup_cons, beq_eq_false_iff_ne.2 h]
  | cons placed rest ih =>
    obtain ⟨id, old⟩ := placed
    unfold placeIn
    split
    · rename_i same
      rw [List.lookup_cons, List.lookup_cons, same, beq_eq_false_iff_ne.2 h]
    · rw [List.lookup_cons, List.lookup_cons, ih]

@[simp] theorem squareOf?_place_self (b : Board) (piece : PieceId) (square : Square) :
    (b.place piece square).squareOf? piece = some square :=
  lookup_placeIn_self piece square b.placements

theorem squareOf?_place_of_ne (b : Board) {piece other : PieceId} (h : other ≠ piece)
    (square : Square) : (b.place piece square).squareOf? other = b.squareOf? other :=
  lookup_placeIn_of_ne h square b.placements

/-- Take a piece off the board. -/
def lift (b : Board) (piece : PieceId) : Board :=
  { b with placements := b.placements.eraseP (·.1 = piece) }

theorem squareOf?_lift_of_ne (b : Board) {piece other : PieceId} (h : other ≠ piece) :
    (b.lift piece).squareOf? other = b.squareOf? other := by
  unfold squareOf? lift
  induction b.placements with
  | nil => rfl
  | cons placed rest ih =>
    obtain ⟨id, square⟩ := placed
    by_cases same : id = piece
    · rw [List.eraseP_cons_of_pos (by simpa using same), List.lookup_cons, same,
        beq_eq_false_iff_ne.2 h]
    · rw [List.eraseP_cons_of_neg (by simpa using same), List.lookup_cons, List.lookup_cons, ih]

/-- Record an elimination, once. -/
def eliminate (b : Board) (player : PlayerId) : Board :=
  if b.hasLost player then b else { b with losers := b.losers ++ [player] }

@[simp] theorem hasLost_eliminate (b : Board) (player other : PlayerId) :
    (b.eliminate player).hasLost other = (b.hasLost other || decide (other = player)) := by
  unfold eliminate
  split
  · rename_i known
    by_cases h : other = player
    · simp [h, known]
    · simp [h]
  · simp [hasLost]

/-- Count one change of square on every step monitor. -/
def countMove (b : Board) (piece : PieceId) : Board :=
  { b with monitors := b.monitors.map fun m =>
      if m.kind = Monitor.stepKind then m.increment piece else m }

/-- Make a piece known to the board, and place it if a square is given. -/
def withPiece (b : Board) (piece : Piece) (square : Option Square) : Board :=
  let b := match square with
    | some square => b.place piece.id square
    | none => b
  { b with pieces := b.pieces ++ [piece] }

/-- Add a player at the end of the seating order. -/
def withPlayer (b : Board) (player : Player) : Board := { b with players := b.players ++ [player] }

/-- Add a monitor. -/
def withMonitor (b : Board) (monitor : Monitor) : Board :=
  { b with monitors := b.monitors ++ [monitor] }

end Board

end BoardRules
