import Mathlib
import BoardRules.Proofs.Session.Playout

/-!
# Playouts of games that are decided

A game is decided when fewer than two players are standing (`Board.standing`).  A choice is played
only while there are fewer losers than players, and while the player for whom everything was settled
has lost or is not the only one who has not (`Session.running_of_settled`).  This player is the one
whose turn it was before settling, and may be eliminated by it; so the only player standing may be
offered a choice, and a playout plays it (`loneRunner_runs_alone`).  It plays no further one, as the
next settling is for the player who made this choice (`Session.exists_settleOwn?_of_counted`).  So
all choices of a playout but the last one are played while two players are standing
(`Session.standing_of_playout`).
-/

namespace BoardRules

namespace Board

variable {b : Board}

/-- The players who have not lost. -/
def standing (b : Board) : List Player := b.players.filter (!b.hasLost ·.id)

/-- The players who are standing are those of the board who have not lost. -/
theorem mem_standing_iff {p : Player} :
    p ∈ b.standing ↔ p ∈ b.players ∧ b.hasLost p.id = false := by
  unfold standing
  rw [List.mem_filter, Bool.not_eq_true']

/-- Where no player is seated twice, there is a loser for everybody who is not standing. -/
theorem length_players_le (distinct : (b.players.map (·.id)).Nodup) :
    b.players.length ≤ b.standing.length + b.losers.length := by
  have fallen : ((b.players.filter (b.hasLost ·.id)).map (·.id)).Nodup :=
    distinct.sublist (List.filter_sublist.map _)
  have listed : (b.players.filter (b.hasLost ·.id)).map (·.id) ⊆ b.losers := by
    intro id hid
    obtain ⟨p, hp, rfl⟩ := List.mem_map.1 hid
    exact hasLost_iff_mem.1 (List.mem_filter.1 hp).2
  have counted := (fallen.subperm listed).length_le
  rw [List.length_map] at counted
  have parts := List.length_eq_length_filter_add (l := b.players) (b.hasLost ·.id)
  unfold standing
  omega

/-- Where one player at most is standing, whoever is standing is the only one. -/
theorem standing_eq_singleton {p : Player} (hp : p ∈ b.standing) (few : b.standing.length < 2) :
    b.standing = [p] := by
  have one : b.standing.length = 1 :=
    Nat.le_antisymm (Nat.le_of_lt_succ few) (List.length_pos_of_mem hp)
  obtain ⟨q, only⟩ := List.length_eq_one_iff.1 one
  rw [only, List.mem_singleton] at hp
  rw [only, hp]

end Board

namespace Session

variable {s next : Session} {player : PlayerId}

/-- Where settling stops at a choice, the game goes on for the player who asked. -/
theorem running_of_settled {report : Report} (settled : s.pass player = .settled report)
    {id : PlayerId} (choice : report.active = some id) : s.Running player := by
  have spec := s.passing_pass player
  rw [settled] at spec
  cases spec with
  | won last alive => exact nomatch choice
  | ended nobody => exact nomatch choice
  | offer running turn alive offer => exact running

/-- Where settling stops at a choice and one player at most is standing, this is the active player,
and whoever asked has lost. -/
theorem standing_of_settleOwn? (distinct : (s.board.players.map (·.id)).Nodup) {report : Report}
    (settles : s.settleOwn? = some (report, next)) {id : PlayerId}
    (choice : report.active = some id) :
    ∃ asker active, s.active? = some asker ∧ next.active? = some active ∧
      next.board.hasLost active.id = false ∧
      (next.board.standing.length < 2 →
        next.board.losers.length + 1 = next.board.players.length ∧
        next.board.hasLost asker.id = true ∧ next.board.standing = [active]) := by
  have before : Reaches s next := reaches_settleOwn? settles
  have seats : (next.board.players.map (·.id)).Nodup := by
    rw [before.forward.board.table.players]
    exact distinct
  obtain ⟨asker, ls, found, asks, -, -, settled, rfl⟩ := settled_of_settleOwn? settles
  have running := running_of_settled settled choice
  obtain ⟨active, turn, rfl, alive, -, -⟩ := offering_of_settled settled choice
  refine ⟨asker, active, asks, turn, alive, fun few => ?_⟩
  have counted : next.board.losers.length + 1 = next.board.players.length := by
    have loser := Board.length_players_le seats
    have survivors := running.survivors
    omega
  have lost : next.board.hasLost asker.id = true := by
    by_contra survives
    exact running.rivals ⟨counted, Bool.eq_false_of_not_eq_true survives⟩
  have stands : active ∈ next.board.standing :=
    Board.mem_standing_iff.2 ⟨List.mem_of_getElem? turn, alive⟩
  exact ⟨counted, lost, Board.standing_eq_singleton stands few⟩

/-- After a choice that was played when the losers were one fewer than the players, the game is over
for the player who made it. -/
theorem exists_settleOwn?_of_counted {active : Player} (turn : s.active? = some active)
    (alive : s.board.hasLost active.id = false)
    (counted : s.board.losers.length + 1 = s.board.players.length) {selection : Selection}
    (played : s.play selection = .ok next) :
    ∃ report, next.settleOwn? = some (report, next) ∧
      (report.win = true ∨ report.active = none) := by
  have before := precedes_of_play played
  have players : next.board.players = s.board.players := before.table.players
  have turn' : next.active? = some active := by
    obtain ⟨-, -, -, c, -, rfl⟩ := play_eq_ok played
    unfold active? at turn ⊢
    rw [players]
    exact turn
  obtain ⟨fallen, losers, -⟩ := before.losers
  have asks : ∀ report, next.pass active.id = .settled report →
      next.settleOwn? = some (report, next) := by
    intro report settled
    unfold settleOwn?
    rw [turn', Option.bind_some, settle?_of_settled settled]
  cases fallen with
  | nil =>
    rw [List.append_nil] at losers
    have last : next.board.losers.length + 1 = next.board.players.length := by
      rw [losers, players, counted]
    have survives : next.board.hasLost active.id = false := by
      unfold Board.hasLost at alive ⊢
      rw [losers]
      exact alive
    exact ⟨_, asks _ (pass_of_won last survives), .inl rfl⟩
  | cons loser rest =>
    have nobody : next.board.players.length ≤ next.board.losers.length := by
      rw [losers, players, List.length_append, List.length_cons]
      omega
    exact ⟨_, asks _ (pass_of_ended nobody), .inr rfl⟩

end Session

open Session

namespace Playout

variable {plies : ℕ} {s last : Session} {g rest : Generator} {choices : List Ply} {stop : Stop}

/-- Where settling tells that the game is over, a playout plays nothing. -/
theorem eq_nil_of_decided (h : Playout plies s g choices stop last rest) {report : Report}
    {settled : Session} (settles : s.settleOwn? = some (report, settled))
    (told : report.win = true ∨ report.active = none) : choices = [] := by
  cases h with
  | @ply plies _ _ _ _ _ _ _ report' id _ _ _ settles' goes choice draws played further =>
    rw [settles, Option.some.injEq, Prod.mk.injEq] at settles'
    obtain ⟨rfl, -⟩ := settles'
    rw [goes, choice] at told
    exact absurd told (by simp)
  | _ => rfl

/-- A choice of a playout is played while two players are standing; or it is the last one, and
played by the only player standing, and whoever asked before has lost. -/
theorem standing_or_last (h : Playout plies s g choices stop last rest)
    (distinct : (s.board.players.map (·.id)).Nodup) :
    ∀ earlier ply later, choices = earlier ++ ply :: later →
      2 ≤ ply.settled.board.standing.length ∨
      later = [] ∧ ∃ asker active, ply.before.active? = some asker ∧
        ply.settled.board.hasLost asker.id = true ∧ ply.settled.active? = some active ∧
        ply.settled.board.standing = [active] := by
  induction h with
  | @ply plies s settled next last g rest final report id selection behind stop settles goes choice
      draws played further ih =>
    intro earlier ply later parts
    rcases List.cons_eq_append_iff.1 parts with ⟨rfl, first⟩ | ⟨between, rfl, rest⟩
    · obtain ⟨rfl, rfl⟩ := List.cons.inj first
      obtain ⟨asker, active, asks, turn, alive, few⟩ :=
        standing_of_settleOwn? distinct settles choice
      by_cases contested : 2 ≤ settled.board.standing.length
      · exact .inl contested
      obtain ⟨counted, lost, only⟩ := few (Nat.lt_of_not_le contested)
      obtain ⟨_, ends, told⟩ := exists_settleOwn?_of_counted turn alive counted played
      exact .inr ⟨further.eq_nil_of_decided ends told, asker, active, asks, lost, turn, only⟩
    · have before : Reaches s settled := reaches_settleOwn? settles
      have after : Reaches s next := before.tail (.play played)
      refine ih ?_ between ply later rest
      rw [after.forward.board.table.players]
      exact distinct
  | _ =>
    intro earlier ply later parts
    exact absurd parts.symm (List.append_ne_nil_of_right_ne_nil _ (List.cons_ne_nil _ _))

end Playout

/-- All choices of a playout but the last one are played while two players are standing.  The last
one may also be played by the only player standing; then the player for whom everything was settled
before it, whose turn it had been, has lost. -/
theorem Session.standing_of_playout {s : Session} (distinct : (s.board.players.map (·.id)).Nodup)
    (plies : ℕ) (g : Generator) :
    ∃ choices stop,
      Playout plies s g choices stop (playout plies s g).2.1 (playout plies s g).2.2 ∧
      choices.map (·.selection) = (playout plies s g).1 ∧
      ∀ earlier ply later, choices = earlier ++ ply :: later →
        2 ≤ ply.settled.board.standing.length ∨
        later = [] ∧ ∃ asker active, ply.before.active? = some asker ∧
          ply.settled.board.hasLost asker.id = true ∧ ply.settled.active? = some active ∧
          ply.settled.board.standing = [active] := by
  obtain ⟨choices, stop, h, selections⟩ := exists_playout plies s g
  exact ⟨choices, stop, h, selections.symm, h.standing_or_last distinct⟩

/-- The one choice of the lone runner's playout is played in a session in which white has lost. -/
theorem Playout.ply_of_loneRunner {choices : List Ply} {stop : Stop} {last : Session}
    {g rest : Generator} (h : Playout 5 loneRunner g choices stop last rest)
    (selections : choices.map (·.selection) = [loneStep]) :
    ∃ ply, choices = [ply] ∧ ply.before = loneRunner ∧
      ply.settled.board.losers = [⟨"white"⟩] ∧
      ply.settled.board.standing.map (·.id) = [⟨"black"⟩] := by
  have told : loneRunner.settleOwn?.map (fun result =>
      (result.2.board.losers, result.2.board.standing.map (·.id))) =
      some ([⟨"white"⟩], [⟨"black"⟩]) := by cbv
  cases h with
  | @ply _ _ settled _ _ _ _ _ report _ selection later _ settles goes choice draws played further =>
    rw [settles, Option.map_some, Option.some.injEq, Prod.mk.injEq] at told
    obtain rfl : later = [] := List.map_eq_nil_iff.1 (List.cons.inj selections).2
    exact ⟨_, rfl, rfl, told.1, told.2⟩
  | _ => exact absurd selections.symm (List.cons_ne_nil _ _)

/-- White has lost when the runner steps, and black alone is standing. -/
theorem loneRunner_runs_alone :
    (loneRunner.board.players.map (·.id)).Nodup ∧
      ∃ choices stop,
        Playout 5 loneRunner (.ofSeed 9) choices stop (playout 5 loneRunner (.ofSeed 9)).2.1
          (playout 5 loneRunner (.ofSeed 9)).2.2 ∧
        choices.map (·.selection) = (playout 5 loneRunner (.ofSeed 9)).1 ∧
        ∃ ply ∈ choices, ply.selection = loneStep ∧
          ply.settled.board.losers = [⟨"white"⟩] ∧
          ply.settled.board.standing.map (·.id) = [⟨"black"⟩] := by
  obtain ⟨choices, stop, h, selections⟩ := exists_playout 5 loneRunner (.ofSeed 9)
  have step : choices.map (·.selection) = [loneStep] :=
    selections.symm.trans (playout_loneRunner 3 _)
  obtain ⟨ply, rfl, -, lost, alone⟩ := h.ply_of_loneRunner step
  refine ⟨by decide, _, stop, h, selections.symm, ply, List.mem_singleton_self ply, ?_, lost, alone⟩
  exact (List.cons.inj step).1

/-- The runner's step is the last choice, and white, for whom everything was settled, has lost. -/
theorem Session.standing_of_playout_loneRunner :
    (loneRunner.board.players.map (·.id)).Nodup ∧
      ∃ choices stop,
        Playout 5 loneRunner (.ofSeed 9) choices stop (playout 5 loneRunner (.ofSeed 9)).2.1
          (playout 5 loneRunner (.ofSeed 9)).2.2 ∧
        ∃ ply, choices = [ply] ∧ ply.settled.board.hasLost ⟨"white"⟩ = true ∧
          ply.settled.active?.map (·.id) = some ⟨"black"⟩ := by
  have distinct : (loneRunner.board.players.map (·.id)).Nodup := by decide
  obtain ⟨choices, stop, h, selections, law⟩ := standing_of_playout distinct 5 (.ofSeed 9)
  rw [playout_loneRunner 3] at selections
  obtain ⟨ply, rfl, start, -, alone⟩ := h.ply_of_loneRunner selections
  refine ⟨distinct, _, stop, h, ply, rfl, ?_⟩
  rcases law [] ply [] rfl with contested | ⟨-, asker, active, asks, lost, turn, only⟩
  · rw [← List.length_map (·.id), alone] at contested
    exact absurd contested (by decide)
  · have white : loneRunner.active?.map (·.id) = some ⟨"white"⟩ := rfl
    rw [← start, asks, Option.map_some, Option.some.injEq] at white
    rw [only, List.map_singleton, List.singleton_inj] at alone
    rw [turn, Option.map_some, alone, ← white]
    exact ⟨lost, rfl⟩

end BoardRules
