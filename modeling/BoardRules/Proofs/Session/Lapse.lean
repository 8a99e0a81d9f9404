import Mathlib
import BoardRules.Proofs.Session.Turn

/-!
# The rounds that settling passes over

Settling passes over rounds in which there is nothing to choose (`Lapse`).  Which lapse is due next
depends on the session alone (`Session.Due`, `Session.Due.unique`); a pass settles the session or
passes over the lapse that is due (`Session.settled_or_due`).  Either way a new round begins, the
same players are seated, and nobody who has lost is forgotten (`Session.Onward`).  Settling is as
many passes as it takes, and passes to spare do not change the outcome
(`Session.settleWithin_mono`).
-/

namespace BoardRules

/-- A round, or the rest of one, that goes by without a choice. -/
inductive Lapse where
  /-- The round of a player who has lost. -/
  | skipped (player : PlayerId)
  /-- The round of a player who has no move, and loses. -/
  | eliminated (player : PlayerId)
  /-- The rest of a round in which there is no further step. -/
  | ended
  deriving DecidableEq, Repr

namespace Lapse

/-- The player who is skipped. -/
def skipped? : Lapse → Option PlayerId
  | .skipped player => some player
  | _ => none

/-- The player who is eliminated. -/
def eliminated? : Lapse → Option PlayerId
  | .eliminated player => some player
  | _ => none

end Lapse

namespace Report

/-- The report that also tells of lapses before it. -/
def preceded (r : Report) (lapses : List Lapse) : Report :=
  { r with
    skipped := lapses.filterMap Lapse.skipped? ++ r.skipped
    eliminated := lapses.filterMap Lapse.eliminated? ++ r.eliminated }

@[simp] theorem preceded_nil (r : Report) : r.preceded [] = r := rfl

/-- The earlier lapses come first. -/
theorem preceded_preceded (r : Report) (earlier later : List Lapse) :
    (r.preceded later).preceded earlier = r.preceded (earlier ++ later) := by
  simp [preceded]

end Report

namespace Session

variable {s next : Session} {player : PlayerId}

/-! ## Lapses -/

/-- The session after a lapse. -/
def lapse (s : Session) : Lapse → Session
  | .eliminated player => { s with board := s.board.eliminate player }.endTurn
  | .skipped _ | .ended => s.endTurn

/-- The lapse that is due, with its reason.  No local player has a part in it. -/
inductive Due (s : Session) : Lapse → Prop
  /-- The active player has lost already. -/
  | skipped {active : Player} (turn : s.active? = some active)
      (lost : s.board.hasLost active.id = true) : Due s (.skipped active.id)
  /-- The active player has no move. -/
  | eliminated {active : Player} (turn : s.active? = some active)
      (alive : s.board.hasLost active.id = false) (stuck : s.offered.isEmpty = true)
      (fresh : s.subRound = 0) : Due s (.eliminated active.id)
  /-- The active player has moved and has no further step. -/
  | ended {active : Player} (turn : s.active? = some active)
      (alive : s.board.hasLost active.id = false) (stuck : s.offered.isEmpty = true)
      (moved : s.subRound ≠ 0) : Due s .ended

/-- A lapse ends the round; the counter wraps like any other. -/
@[simp] theorem round_lapse (s : Session) (l : Lapse) : (s.lapse l).round = s.round + 1 := by
  cases l <;> rfl

/-- After a lapse a round begins. -/
@[simp] theorem subRound_lapse (s : Session) (l : Lapse) : (s.lapse l).subRound = 0 := by
  cases l <;> rfl

@[simp] theorem settings_lapse (s : Session) (l : Lapse) :
    (s.lapse l).settings = s.settings := by
  cases l <;> rfl

/-- Only one lapse can be due. -/
theorem Due.unique {l m : Lapse} (hl : s.Due l) (hm : s.Due m) : l = m := by
  -- The active player is the same.  Whether the player has lost, and whether anything has been
  -- played, tells the lapses apart.
  cases hl <;> cases hm <;> simp_all

/-- A lapse that is due puts its player on the list of losers and changes nothing else on the
board. -/
theorem Due.board {l : Lapse} (due : s.Due l) :
    (s.lapse l).board = s.board.addLosers l.eliminated?.toList := by
  cases due with
  | skipped turn lost => exact s.board.addLosers_nil.symm
  | eliminated turn alive stuck fresh => exact Board.eliminate_eq_addLosers alive
  | ended turn alive stuck moved => exact s.board.addLosers_nil.symm

/-! ## Passes that go on -/

/-- A pass settles the session, or passes over the lapse that is due. -/
theorem settled_or_due (s : Session) (player : PlayerId) :
    (∃ report, s.pass player = .settled report) ∨
      s.Running player ∧ ∃ l, s.Due l ∧ ∀ passes, settleWithin player (passes + 1) s =
        (settleWithin player passes (s.lapse l)).map (Prod.map (·.preceded [l]) id) := by
  have spec := s.passing_pass player
  generalize found : s.pass player = pass at spec
  cases spec with
  | won last alive => exact Or.inl ⟨_, rfl⟩
  | ended nobody => exact Or.inl ⟨_, rfl⟩
  | offer running turn alive choice => exact Or.inl ⟨_, rfl⟩
  | @skip active running turn lost =>
    refine Or.inr ⟨running, .skipped active.id, .skipped turn lost, fun passes => ?_⟩
    rw [settleWithin, found]
    rfl
  | @eliminate active running turn alive stuck fresh =>
    refine Or.inr ⟨running, .eliminated active.id, .eliminated turn alive stuck fresh,
      fun passes => ?_⟩
    rw [settleWithin, found]
    rfl
  | finish running turn alive stuck moved =>
    refine Or.inr ⟨running, .ended, .ended turn alive stuck moved, fun passes => ?_⟩
    have unnoted : (fun r : Report => r.preceded [.ended]) = id := rfl
    rw [settleWithin, found, unnoted, Prod.map_id, Option.map_id]
    rfl

/-- No pass settles a session in which a lapse is due and the game goes on. -/
theorem pass_ne_settled {l : Lapse} (running : s.Running player) (due : s.Due l)
    (report : Report) : s.pass player ≠ .settled report := by
  intro settled
  have spec := s.passing_pass player
  rw [settled] at spec
  cases spec with
  | won last alive => exact running.rivals ⟨last, alive⟩
  | ended nobody => exact absurd running.survivors (Nat.not_lt_of_le nobody)
  | offer _ turn alive choice => cases due <;> simp_all

/-- A lapse that is due is passed over while the game goes on. -/
theorem settleWithin_of_due {l : Lapse} (running : s.Running player) (due : s.Due l)
    (passes : ℕ) : settleWithin player (passes + 1) s =
      (settleWithin player passes (s.lapse l)).map (Prod.map (·.preceded [l]) id) := by
  rcases s.settled_or_due player with ⟨report, settled⟩ | ⟨-, m, due', goes⟩
  · exact absurd settled (pass_ne_settled running due report)
  · obtain rfl : l = m := due.unique due'
    exact goes passes

/-- A pass that settles the session is the last one. -/
theorem settleWithin_of_settled {report : Report} (settled : s.pass player = .settled report)
    (passes : ℕ) : settleWithin player (passes + 1) s = some (report, s) := by
  rw [settleWithin, settled]

/-! ## From one session to the next -/

/-- How a session stands after a pass that does not settle it. -/
structure Onward (s next : Session) : Prop where
  /-- The next player's round begins. -/
  round : next.round = s.round + 1
  /-- Nothing has been played in it. -/
  subRound : next.subRound = 0
  /-- The engine is configured as before. -/
  settings : next.settings = s.settings
  /-- The board is the same, or somebody has been eliminated. -/
  board : next.board = s.board ∨ ∃ player, next.board = s.board.eliminate player
  /-- Whoever began the round without a move has lost. -/
  out : s.subRound = 0 → ∀ active, s.active? = some active → next.board.hasLost active.id = true

/-- The same players are seated. -/
theorem Onward.players (h : Onward s next) : next.board.players = s.board.players := by
  rcases h.board with same | ⟨loser, fewer⟩
  · rw [same]
  · rw [fewer]
    exact (Board.SameTable.eliminate s.board loser).players

/-- Losers stay losers. -/
theorem Onward.hasLost (h : Onward s next) {loser : PlayerId}
    (lost : s.board.hasLost loser = true) : next.board.hasLost loser = true := by
  rcases h.board with same | ⟨other, fewer⟩
  · rw [same]
    exact lost
  · rw [fewer, Board.hasLost_eliminate, lost]
    rfl

/-- After a lapse that is due the session goes on. -/
theorem Due.onward {l : Lapse} (due : s.Due l) : Onward s (s.lapse l) where
  round := s.round_lapse l
  subRound := s.subRound_lapse l
  settings := s.settings_lapse l
  board := by
    cases due with
    | skipped turn lost => exact Or.inl rfl
    | @eliminated active turn alive stuck fresh => exact Or.inr ⟨active.id, rfl⟩
    | ended turn alive stuck moved => exact Or.inl rfl
  out := by
    intro fresh other hother
    cases due with
    | @skipped active turn lost =>
      obtain rfl : active = other := Option.some.inj (turn.symm.trans hother)
      exact lost
    | @eliminated active turn alive stuck _ =>
      obtain rfl : active = other := Option.some.inj (turn.symm.trans hother)
      simp [lapse, endTurn]
    | ended turn alive stuck moved => exact absurd fresh moved

/-- Settling ends with this pass, or the game goes on with the session after it. -/
theorem settled_or_onward (s : Session) (player : PlayerId) :
    (∃ report, ∀ passes, settleWithin player (passes + 1) s = some (report, s)) ∨
      s.Running player ∧ ∃ next, Onward s next ∧ ∃ adds : Report → Report, ∀ passes,
        settleWithin player (passes + 1) s =
          (settleWithin player passes next).map (Prod.map adds id) := by
  rcases s.settled_or_due player with ⟨report, settled⟩ | ⟨running, l, due, goes⟩
  · exact Or.inl ⟨report, settleWithin_of_settled settled⟩
  · exact Or.inr ⟨running, s.lapse l, due.onward, (·.preceded [l]), goes⟩

/-! ## Settling -/

/-- Passes to spare do not change the outcome. -/
theorem settleWithin_mono {passes more : ℕ} (le : passes ≤ more) {result : Report × Session}
    (settles : settleWithin player passes s = some result) :
    settleWithin player more s = some result := by
  induction passes generalizing s more result with
  | zero => exact nomatch settles
  | succ passes ih =>
    obtain ⟨more, rfl⟩ := Nat.exists_eq_add_of_le' (Nat.le_trans (Nat.succ_pos passes) le)
    rcases settled_or_onward s player with ⟨found, ends⟩ | ⟨-, next, onward, adds, goes⟩
    · rw [ends] at settles ⊢
      exact settles
    · rw [goes, Option.map_eq_some_iff] at settles ⊢
      obtain ⟨later, hlater, heq⟩ := settles
      exact ⟨later, ih (Nat.le_of_succ_le_succ le) hlater, heq⟩

end Session

end BoardRules
