import Mathlib
import BoardRules.Board.Basic

/-!
# What play never changes

Placing, lifting, counting and eliminating leave a board's table alone: its pieces, its nations, its
players and its squares.  Boards of one table agree on who owns what and on which squares there
are.  Eliminating a player who has not lost adds one loser at the end (`eliminate_eq_addLosers`).
-/

namespace BoardRules

namespace Board

/-- Two boards that differ at most in their placements, their monitors and their losers. -/
structure SameTable (b c : Board) : Prop where
  kind : c.kind = b.kind
  name : c.name = b.name
  id : c.id = b.id
  size : c.size = b.size
  pieces : c.pieces = b.pieces
  nations : c.nations = b.nations
  players : c.players = b.players

namespace SameTable

variable {b c d : Board}

theorem refl (b : Board) : SameTable b b := ⟨rfl, rfl, rfl, rfl, rfl, rfl, rfl⟩

theorem trans (h : SameTable b c) (k : SameTable c d) : SameTable b d where
  kind := k.kind.trans h.kind
  name := k.name.trans h.name
  id := k.id.trans h.id
  size := k.size.trans h.size
  pieces := k.pieces.trans h.pieces
  nations := k.nations.trans h.nations
  players := k.players.trans h.players

/-- Boards of one table agree on who owns a piece. -/
theorem owner?_eq (h : SameTable b c) (piece : PieceId) : c.owner? piece = b.owner? piece := by
  unfold owner? player?
  rw [h.nations, h.players]

/-- Boards of one table have the same squares. -/
theorem onBoard_eq (h : SameTable b c) (square : Square) : c.onBoard square = b.onBoard square := by
  unfold onBoard
  rw [h.size]

theorem place (b : Board) (piece : PieceId) (square : Square) :
    SameTable b (b.place piece square) := ⟨rfl, rfl, rfl, rfl, rfl, rfl, rfl⟩

theorem lift (b : Board) (piece : PieceId) : SameTable b (b.lift piece) :=
  ⟨rfl, rfl, rfl, rfl, rfl, rfl, rfl⟩

/-- Counting a move keeps the table: counters are not part of it. -/
theorem countMove (b : Board) (piece : PieceId) : SameTable b (b.countMove piece) :=
  ⟨rfl, rfl, rfl, rfl, rfl, rfl, rfl⟩

/-- Eliminating a player keeps the table: the losers are not part of it. -/
theorem eliminate (b : Board) (player : PlayerId) : SameTable b (b.eliminate player) := by
  unfold Board.eliminate
  split
  · exact .refl b
  · exact ⟨rfl, rfl, rfl, rfl, rfl, rfl, rfl⟩

end SameTable

/-- The owner of a piece is one of the players. -/
theorem mem_players_of_owner? (b : Board) {piece : PieceId} {owner : Player}
    (owned : b.owner? piece = some owner) : owner ∈ b.players := by
  obtain ⟨id, -, found⟩ := Option.bind_eq_some_iff.1 owned
  exact List.mem_of_find?_eq_some found

end Board

/-! ## Losers -/

/-- The losers after one more elimination. -/
def enrol (losers : List PlayerId) (player : PlayerId) : List PlayerId :=
  if losers.contains player then losers else losers ++ [player]

/-- Whoever is on the list after an enrolment was there before or has been enrolled. -/
theorem mem_enrol {losers : List PlayerId} {player other : PlayerId} :
    other ∈ enrol losers player ↔ other ∈ losers ∨ other = player := by
  unfold enrol
  split
  · rename_i known
    have listed : player ∈ losers := List.contains_iff_mem.1 known
    exact (or_iff_left_of_imp fun same => same ▸ listed).symm
  · rw [List.mem_append, List.mem_singleton]

/-- After enrolling several players the list holds the earlier ones and these. -/
theorem mem_foldl_enrol {losers earlier : List PlayerId} {player : PlayerId} :
    player ∈ losers.foldl enrol earlier ↔ player ∈ earlier ∨ player ∈ losers := by
  induction losers generalizing earlier with
  | nil => simp
  | cons loser rest ih => rw [List.foldl_cons, ih, mem_enrol, List.mem_cons, or_assoc]

namespace Board

/-- Whoever has lost is among the losers. -/
theorem hasLost_iff_mem {b : Board} {player : PlayerId} :
    b.hasLost player = true ↔ player ∈ b.losers := List.contains_iff_mem

/-- Whoever has not lost is not among the losers. -/
theorem hasLost_eq_false_iff {b : Board} {player : PlayerId} :
    b.hasLost player = false ↔ player ∉ b.losers := by
  rw [← hasLost_iff_mem, Bool.not_eq_true]

/-- The board with further losers. -/
def addLosers (b : Board) (players : List PlayerId) : Board :=
  { b with losers := b.losers ++ players }

@[simp] theorem addLosers_nil (b : Board) : b.addLosers [] = b := by
  simp [addLosers]

/-- Losers added in two goes are the same as all of them added at once. -/
@[simp] theorem addLosers_addLosers (b : Board) (some more : List PlayerId) :
    (b.addLosers some).addLosers more = b.addLosers (some ++ more) := by
  simp [addLosers]

/-- Whoever has not lost yet is added at the end. -/
theorem eliminate_eq_addLosers {b : Board} {player : PlayerId} (alive : b.hasLost player = false) :
    b.eliminate player = b.addLosers [player] := by
  simp [eliminate, addLosers, alive]

/-- Eliminating a player enrols the player among the losers. -/
theorem eliminate_eq_enrol (b : Board) (player : PlayerId) :
    b.eliminate player = { b with losers := enrol b.losers player } := by
  unfold eliminate hasLost enrol
  split <;> rfl

/-- Eliminating players enrols them in order and changes nothing else on the board. -/
theorem foldl_eliminate_eq_enrol (b : Board) (players : List PlayerId) :
    players.foldl eliminate b = { b with losers := players.foldl enrol b.losers } := by
  induction players generalizing b with
  | nil => rfl
  | cons player rest ih => rw [List.foldl_cons, ih, eliminate_eq_enrol, List.foldl_cons]

/-- Whoever has lost has lost with further losers, too. -/
theorem hasLost_addLosers {b : Board} {loser : PlayerId} (lost : b.hasLost loser = true)
    (players : List PlayerId) : (b.addLosers players).hasLost loser = true := by
  rw [hasLost_iff_mem] at lost ⊢
  exact List.mem_append_left players lost

/-- Eliminating a player moves nobody. -/
@[simp] theorem placements_eliminate (b : Board) (player : PlayerId) :
    (b.eliminate player).placements = b.placements := by
  unfold eliminate
  split <;> rfl

end Board

end BoardRules
