import BoardRules.Random.Generator
import BoardRules.Search.Analysis

/-!
# Sessions

Players take turns in seating order. A turn begins with a move of the active player and goes on with
further steps of the moved piece as long as there are any. `Session.settle?` passes over everything
that needs no choice: it skips eliminated players, eliminates players who cannot move, and ends
turns without further steps.

Rounds, and the choices within a round, are counted in machine words, and counting wraps around: the
round after the last one that a word can hold is round zero again.
-/

namespace BoardRules

/-- Why a selection or a session is refused. -/
inductive TurnFault where
  | noPlayers
  | foreignPiece (piece : PieceId) (player : PlayerId)
  | notOffered (selection : Selection)
  deriving DecidableEq, Repr

/-- The wording of a refusal. -/
def TurnFault.message : TurnFault → String
  | .noPlayers => "board has no players"
  | .foreignPiece piece player =>
    "piece " ++ piece.display ++ " is not controlled by " ++ player.display
  | .notOffered s =>
    "no legal continuation for piece " ++ s.piece.display ++ " via behaviour " ++
      s.behaviour.display ++ " at [" ++
      ", ".intercalate (s.indices.map fun i => toString i.toNat) ++ "]"

/-- The board after a candidate, with everyone it eliminates among the losers. -/
def Candidate.outcome (c : Candidate) : Board := c.fallen.foldl Board.eliminate c.finalBoard

/-- The board after the candidate that a selection names. -/
def Analysis.play (a : Analysis) (selection : Selection) : Except TurnFault Board :=
  match a.find? selection with
  | some candidate => .ok candidate.outcome
  | none => .error (.notOffered selection)

/-- A game in progress. -/
structure Session where
  board : Board
  settings : Settings
  round : UInt64 := 0
  /-- The number of choices played in this round. -/
  subRound : UInt64 := 0
  /-- The piece that moved last in this round. -/
  mover : Option PieceId := none

/-- What a local player is told. -/
structure Report where
  /-- The local player is the last one left. -/
  win : Bool
  /-- The local player has been eliminated. -/
  lost : Bool
  /-- The local player has a move that eliminates somebody. -/
  check : Bool
  /-- Whose move it is, if anybody can move. -/
  active : Option PlayerId
  /-- What the active player may choose from. -/
  analysis : Analysis
  /-- Eliminated players whose turns were skipped. -/
  skipped : List PlayerId := []
  /-- Players who were eliminated for want of a move. -/
  eliminated : List PlayerId := []

namespace Session

/-- Start a game on a board that has players. -/
def start (board : Board) (settings : Settings) : Except TurnFault Session :=
  if board.players.isEmpty then .error .noPlayers else .ok { board, settings }

/-- Resume at a round and a sub-round. -/
def resumeAt (s : Session) (round subRound : UInt64) : Session := { s with round, subRound }

/-- A round begins with the initiative. -/
def phase (s : Session) : Phase := if s.subRound = 0 then .initiative else .immediately

/-- The player whose turn it is. -/
def active? (s : Session) : Option Player :=
  s.board.players[s.round.toNat % s.board.players.length]?

/-- What the active player may choose from now: in the initiative any own piece's moves, afterwards
the further steps of the piece that moved, if the player still owns it. When it is not known which
piece moved, any own piece may go on. -/
def offered (s : Session) : Analysis :=
  match s.active? with
  | none => .empty s.phase
  | some player =>
    match s.phase, s.mover with
    | .initiative, _ => s.board.analysisFor s.settings .initiative player.id
    | .immediately, some mover =>
      if s.board.owns player.id mover then s.board.analysisOf s.settings .immediately mover
      else .empty .immediately
    | .immediately, none => s.board.analysisFor s.settings .immediately player.id

/-- Pass the turn on. -/
def endTurn (s : Session) : Session :=
  { s with round := s.round + 1, subRound := 0, mover := none }

/-- A board with players has an active player in every round. -/
theorem isSome_active? {s : Session} (h : s.board.players ≠ []) : s.active?.isSome = true := by
  unfold active?
  rw [List.getElem?_eq_getElem (Nat.mod_lt _ (List.length_pos_iff.2 h))]
  rfl

/-- Whether a player could eliminate somebody, given what the active player may choose
from. -/
def checks (s : Session) (active : PlayerId) (analysis : Analysis) (player : PlayerId) : Bool :=
  let own :=
    if active = player ∧ analysis.phase = .initiative then analysis
    else s.board.analysisFor s.settings .initiative player
  own.candidates.any (·.fellsOther player)

/-- What one pass of settling comes to. -/
inductive Pass where
  /-- Nothing is left to settle. -/
  | settled (report : Report)
  /-- An eliminated player was skipped. -/
  | skip (player : PlayerId) (next : Session)
  /-- A player without a move was eliminated. -/
  | eliminate (player : PlayerId) (next : Session)
  /-- A turn without further steps was ended. -/
  | finish (next : Session)

/-- One pass of settling. -/
def pass (s : Session) (player : PlayerId) : Pass :=
  let lost := s.board.hasLost player
  let players := s.board.players.length
  let losers := s.board.losers.length
  let ended (win : Bool) : Report :=
    { win, lost, check := false, active := none, analysis := .empty s.phase }
  if losers + 1 = players ∧ !lost then .settled (ended true)
  else if players ≤ losers then .settled (ended false)
  else
    match s.active? with
    | none => .settled (ended false)
    | some active =>
      if s.board.hasLost active.id then .skip active.id s.endTurn
      else
        let analysis := s.offered
        if !analysis.isEmpty then
          .settled
            { win := false, lost, check := !lost && s.checks active.id analysis player,
              active := some active.id, analysis }
        else if s.subRound = 0 then
          .eliminate active.id { s with board := s.board.eliminate active.id }.endTurn
        else .finish s.endTurn

/-- Settle in at most `passes` passes; none if that is not enough. -/
def settleWithin (player : PlayerId) : (passes : Nat) → Session → Option (Report × Session)
  | 0, _ => none
  | passes + 1, s =>
    match s.pass player with
    | .settled report => some (report, s)
    | .skip skipped next =>
      (settleWithin player passes next).map fun (report, s) =>
        ({ report with skipped := skipped :: report.skipped }, s)
    | .eliminate eliminated next =>
      (settleWithin player passes next).map fun (report, s) =>
        ({ report with eliminated := eliminated :: report.eliminated }, s)
    | .finish next => settleWithin player passes next

/-- As many passes as settling takes when no player is seated twice. -/
def passBound (s : Session) : Nat := (s.board.players.length + 1) * (s.board.players.length + 1)

/-- Settle everything that needs no choice, and report to a local player. -/
def settle? (s : Session) (player : PlayerId) : Option (Report × Session) :=
  settleWithin player s.passBound s

/-- Play the active player's choice. What may be chosen is worked out anew from the board. -/
def play (s : Session) (selection : Selection) : Except TurnFault Session :=
  match s.active? with
  | none => .error .noPlayers
  | some active =>
    if s.board.owns active.id selection.piece then
      match s.offered.play selection with
      | .ok board =>
        .ok { s with board, subRound := s.subRound + 1, mover := some selection.piece }
      | .error fault => .error fault
    else .error (.foreignPiece selection.piece active.id)

/-- Play random choices, at most `plies` of them, until the game ends. Gives the selections, the
session after them and the generator. -/
def playout : (plies : Nat) → Session → Generator → List Selection × Session × Generator
  | 0, s, g => ([], s, g)
  | plies + 1, s, g =>
    match s.active? with
    | none => ([], s, g)
    | some active =>
      match s.settle? active.id with
      | none => ([], s, g)
      | some (report, s) =>
        if report.win || report.active.isNone then ([], s, g)
        else
          match g.choose (report.analysis.candidates.map (·.head.selection)) with
          | (none, g) => ([], s, g)
          | (some selection, g) =>
            match s.play selection with
            | .error _ => ([], s, g)
            | .ok s =>
              let (played, s, g) := playout plies s g
              (selection :: played, s, g)

end Session

end BoardRules
