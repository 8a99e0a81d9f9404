import Mathlib
import BoardRules.Proofs.Board.Table
import BoardRules.Session

/-!
# What a turn comes to

A pass of settling is opened in three equations: for a player who has won, where everybody has lost,
and while the game goes on (`pass_of_won`, `pass_of_ended`, `Running.pass_eq`).  `Passing` lists
what it may do, with everything it has checked before, and `passing_pass` says that a pass does one
of these; from there on only the list and the equations are read.  For a choice that is played,
`play_eq_ok` gives the candidate behind it; `play_of_find?` plays a candidate.
-/

namespace BoardRules

namespace Session

/-- The report when nobody can move any more. -/
def closing (s : Session) (player : PlayerId) (win : Bool) : Report where
  win := win
  lost := s.board.hasLost player
  check := false
  active := none
  analysis := .empty s.phase

/-- The report when the active player has a choice. -/
def offering (s : Session) (player active : PlayerId) : Report where
  win := false
  lost := s.board.hasLost player
  check := !s.board.hasLost player && s.checks active s.offered player
  active := some active
  analysis := s.offered

/-- The game goes on: the local player is not the last one left, and not everybody has lost. -/
structure Running (s : Session) (player : PlayerId) : Prop where
  /-- The local player has lost, or is not the only one who has not. -/
  rivals : ¬ (s.board.losers.length + 1 = s.board.players.length ∧ s.board.hasLost player = false)
  /-- There are fewer losers than players. -/
  survivors : s.board.losers.length < s.board.players.length

/-! ## One pass -/

section

variable {s : Session} {p : PlayerId}

/-- While the game goes on, it is somebody's turn. -/
theorem Running.exists_active (running : s.Running p) : ∃ active, s.active? = some active := by
  have seated : s.board.players ≠ [] := List.length_pos_iff.1 (Nat.zero_lt_of_lt running.survivors)
  exact Option.isSome_iff_exists.1 (isSome_active? seated)

/-- Whoever has won stops at once. -/
theorem pass_of_won (last : s.board.losers.length + 1 = s.board.players.length)
    (alive : s.board.hasLost p = false) : s.pass p = .settled (s.closing p true) := by
  unfold pass
  rw [if_pos (by simp [last, alive])]
  rfl

/-- Where there are as many losers as players, everybody is told that nobody is to move. -/
theorem pass_of_ended (nobody : s.board.players.length ≤ s.board.losers.length) :
    s.pass p = .settled (s.closing p false) := by
  have lost : ¬ (s.board.losers.length + 1 = s.board.players.length ∧
      (!s.board.hasLost p) = true) := by omega
  unfold pass
  rw [if_neg lost, if_pos nobody]
  rfl

/-- While the game goes on, a pass is about the active player. -/
theorem Running.pass_eq (running : s.Running p) {active : Player}
    (turn : s.active? = some active) :
    s.pass p =
      if s.board.hasLost active.id then .skip active.id s.endTurn
      else if !s.offered.isEmpty then .settled (s.offering p active.id)
      else if s.subRound = 0 then
        .eliminate active.id { s with board := s.board.eliminate active.id }.endTurn
      else .finish s.endTurn := by
  have rivals : ¬ (s.board.losers.length + 1 = s.board.players.length ∧
      (!s.board.hasLost p) = true) := by simpa using running.rivals
  unfold pass
  rw [if_neg rivals, if_neg (Nat.not_le_of_lt running.survivors), turn]
  rfl

end

/-- What one pass may come to. -/
inductive Passing (s : Session) (player : PlayerId) : Pass → Prop
  /-- The local player is the last one left. -/
  | won (last : s.board.losers.length + 1 = s.board.players.length)
      (alive : s.board.hasLost player = false) : Passing s player (.settled (s.closing player true))
  /-- Everybody has lost. -/
  | ended (nobody : s.board.players.length ≤ s.board.losers.length) :
      Passing s player (.settled (s.closing player false))
  /-- The active player has lost already. -/
  | skip {active : Player} (running : s.Running player) (turn : s.active? = some active)
      (lost : s.board.hasLost active.id = true) : Passing s player (.skip active.id s.endTurn)
  /-- The active player has a choice. -/
  | offer {active : Player} (running : s.Running player) (turn : s.active? = some active)
      (alive : s.board.hasLost active.id = false) (choice : s.offered.isEmpty = false) :
      Passing s player (.settled (s.offering player active.id))
  /-- The active player has no move, and loses. -/
  | eliminate {active : Player} (running : s.Running player) (turn : s.active? = some active)
      (alive : s.board.hasLost active.id = false) (stuck : s.offered.isEmpty = true)
      (fresh : s.subRound = 0) :
      Passing s player
        (.eliminate active.id { s with board := s.board.eliminate active.id }.endTurn)
  /-- The active player has moved and has no further step. -/
  | finish {active : Player} (running : s.Running player) (turn : s.active? = some active)
      (alive : s.board.hasLost active.id = false) (stuck : s.offered.isEmpty = true)
      (moved : s.subRound ≠ 0) : Passing s player (.finish s.endTurn)

/-- A pass comes to one of these. -/
theorem passing_pass (s : Session) (player : PlayerId) : Passing s player (s.pass player) := by
  by_cases won : s.board.losers.length + 1 = s.board.players.length ∧ s.board.hasLost player = false
  · rw [pass_of_won won.1 won.2]
    exact .won won.1 won.2
  by_cases nobody : s.board.players.length ≤ s.board.losers.length
  · rw [pass_of_ended nobody]
    exact .ended nobody
  have running : s.Running player := ⟨won, Nat.lt_of_not_le nobody⟩
  obtain ⟨active, turn⟩ := running.exists_active
  rw [running.pass_eq turn]
  cases lost : s.board.hasLost active.id with
  | true => exact .skip running turn lost
  | false =>
    rw [if_neg Bool.false_ne_true]
    cases stuck : s.offered.isEmpty with
    | false => exact .offer running turn lost stuck
    | true =>
      rw [Bool.not_true, if_neg Bool.false_ne_true]
      by_cases fresh : s.subRound = 0
      · rw [if_pos fresh]
        exact .eliminate running turn lost stuck fresh
      · rw [if_neg fresh]
        exact .finish running turn lost stuck fresh

variable {s next : Session}

/-! ## Playing a choice -/

/-- A choice that is played is a candidate for a piece of the active player, and its outcome becomes
the board. -/
theorem play_eq_ok {selection : Selection} (h : s.play selection = .ok next) :
    ∃ active, s.active? = some active ∧ s.board.owns active.id selection.piece = true ∧
      ∃ c, s.offered.find? selection = some c ∧
        next = { s with
          board := c.outcome
          subRound := s.subRound + 1
          mover := some selection.piece } := by
  unfold play at h
  cases turn : s.active? with
  | none =>
    rw [turn] at h
    exact nomatch h
  | some active =>
    rw [turn] at h
    dsimp only at h
    split at h
    · rename_i owned
      unfold Analysis.play at h
      cases found : s.offered.find? selection with
      | none =>
        rw [found] at h
        exact nomatch h
      | some c =>
        rw [found] at h
        exact ⟨active, rfl, owned, c, rfl, (Except.ok.inj h).symm⟩
    · exact nomatch h

/-- What is found on offer is played. -/
theorem play_of_find? {active : Player} (turn : s.active? = some active) {selection : Selection}
    (owned : s.board.owns active.id selection.piece = true) {c : Candidate}
    (found : s.offered.find? selection = some c) :
    s.play selection = .ok { s with
      board := c.outcome
      subRound := s.subRound + 1
      mover := some selection.piece } := by
  unfold play Analysis.play
  rw [turn]
  dsimp only
  rw [if_pos owned, found]

end Session

end BoardRules
