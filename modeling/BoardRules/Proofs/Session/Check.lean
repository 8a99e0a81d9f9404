import Mathlib
import BoardRules.Proofs.Session.Fallen
import BoardRules.Proofs.Session.Offer

/-!
# When a player gives check

A report tells its player of a check if one of that player's moves, or a reaction to it, brings down
somebody else.  The moves are looked up in one of two places: in the offer, if the player begins a
turn, and otherwise in an analysis made for the purpose.  Both hold the same candidates
(`Session.checks_iff`), so neither the active player nor the phase matters.

The flag looks at who falls along the links of a candidate, while an outcome lists the losers.
Along the links a player may fall who has lost before, and such a player is among the losers in any
case (`Candidate.mem_losers_outcome_iff`).  So a check is a move after which there is a new loser,
or one that brings down an earlier loser once more (`Session.check_iff_of_settles`).  The second
kind exists without the first (`Session.check_without_new_loser`).
-/

namespace BoardRules

/-! ## Who falls by a candidate -/

namespace Candidate

/-- Those who fall by a candidate are those who lose by one of its links. -/
theorem mem_fallen_iff {c : Candidate} {player : PlayerId} :
    player ∈ c.fallen ↔ player ∈ fallenAlong c.links := by
  rw [c.fallen_eq, List.mem_eraseDups]

/-- A candidate brings down somebody else if another player loses by one of its links. -/
theorem fellsOther_iff {c : Candidate} {player : PlayerId} :
    c.fellsOther player = true ↔ ∃ other ∈ fallenAlong c.links, other ≠ player := by
  unfold fellsOther
  rw [List.any_eq_true]
  exact exists_congr fun other => and_congr mem_fallen_iff decide_eq_true_iff

/-- The losers after a candidate are the earlier ones and those who lose by one of its links. -/
theorem mem_losers_outcome_iff {b : Board} {settings : Settings} {phase : Phase}
    {include? : Piece → Bool} {c : Candidate}
    (hc : c ∈ (b.analysisWhere settings phase include?).candidates) {player : PlayerId} :
    player ∈ c.outcome.losers ↔ player ∈ b.losers ∨ player ∈ fallenAlong c.links := by
  have chain : player ∈ c.finalBoard.losers ↔
      player ∈ b.losers ∨ player ∈ fallenAlong c.links := by
    rw [(linked_of_mem_candidates hc).losers, mem_foldl_enrol]
  have outcome : player ∈ c.outcome.losers ↔
      player ∈ c.finalBoard.losers ∨ player ∈ c.fallen := by
    unfold Candidate.outcome
    rw [Board.foldl_eliminate_eq_enrol, mem_foldl_enrol]
  rw [outcome, chain, mem_fallen_iff, or_assoc, or_self]

end Candidate

/-! ## Looking for a check -/

namespace Session

variable {s last : Session} {player : PlayerId} {active : Player} {report : Report}

/-- A player gives check with a move that brings down somebody else.  It does not matter whose turn
it is, nor how far the turn is. -/
theorem checks_iff (turn : s.active? = some active) :
    s.checks active.id s.offered player = true ↔
      ∃ c ∈ (s.board.analysisFor s.settings .initiative player).candidates,
        ∃ other ∈ fallenAlong c.links, other ≠ player := by
  have moves :
      (if active.id = player ∧ s.offered.phase = .initiative then s.offered
        else s.board.analysisFor s.settings .initiative player) =
        s.board.analysisFor s.settings .initiative player := by
    split
    · rename_i shown
      obtain ⟨rfl, initiative⟩ := shown
      rw [phase_offered] at initiative
      exact offered_of_initiative turn initiative
    · rfl
  unfold checks
  rw [moves, List.any_eq_true]
  exact exists_congr fun c => and_congr_right fun _ => Candidate.fellsOther_iff

/-- The candidates that bring down somebody else are those after which somebody else has lost anew,
and those along which somebody else falls who has lost before. -/
theorem exists_fallsAlong_iff {b : Board} {settings : Settings} {phase : Phase}
    {include? : Piece → Bool} :
    (∃ c ∈ (b.analysisWhere settings phase include?).candidates,
        ∃ other ∈ fallenAlong c.links, other ≠ player) ↔
      (∃ c ∈ (b.analysisWhere settings phase include?).candidates,
        ∃ other ∈ c.outcome.losers, other ∉ b.losers ∧ other ≠ player) ∨
      ∃ c ∈ (b.analysisWhere settings phase include?).candidates,
        ∃ other ∈ fallenAlong c.links, other ∈ b.losers ∧ other ≠ player := by
  constructor
  · rintro ⟨c, hc, other, falls, differs⟩
    by_cases lost : other ∈ b.losers
    · exact Or.inr ⟨c, hc, other, falls, lost, differs⟩
    · exact Or.inl
        ⟨c, hc, other, (Candidate.mem_losers_outcome_iff hc).2 (Or.inr falls), lost, differs⟩
  · rintro (⟨c, hc, other, loses, new, differs⟩ | ⟨c, hc, other, falls, -, differs⟩)
    · have falls := ((Candidate.mem_losers_outcome_iff hc).1 loses).resolve_left new
      exact ⟨c, hc, other, falls, differs⟩
    · exact ⟨c, hc, other, falls, differs⟩

/-- Where a pass settles on a choice, the local player is told of a check if this player has not
lost and one of this player's moves brings down somebody else. -/
theorem check_iff_of_settled (settled : s.pass player = .settled report)
    (choice : report.active.isSome = true) :
    report.check = true ↔ s.board.hasLost player = false ∧
      ∃ c ∈ (s.board.analysisFor s.settings .initiative player).candidates,
        ∃ other ∈ fallenAlong c.links, other ≠ player := by
  have spec := s.passing_pass player
  rw [settled] at spec
  cases spec with
  | won last alive => exact nomatch choice
  | ended nobody => exact nomatch choice
  | @offer active running turn alive offer =>
    rw [← checks_iff turn]
    change (!s.board.hasLost player && s.checks active.id s.offered player) = true ↔ _
    rw [Bool.and_eq_true, Bool.not_eq_true']

/-- When settling has come to a choice, the local player is told of a check exactly if this player
has not lost and one of this player's moves brings down somebody else: it leaves another player as a
new loser, or brings down another player who has lost before. -/
theorem check_iff_of_settles (settles : s.settle? player = some (report, last))
    (choice : report.active.isSome = true) :
    (report.check = true ↔ last.board.hasLost player = false ∧
      ∃ c ∈ (last.board.analysisFor last.settings .initiative player).candidates,
        ∃ other ∈ fallenAlong c.links, other ≠ player) ∧
    (report.check = true ↔ last.board.hasLost player = false ∧
      ((∃ c ∈ (last.board.analysisFor last.settings .initiative player).candidates,
          ∃ other ∈ c.outcome.losers, other ∉ last.board.losers ∧ other ≠ player) ∨
        ∃ c ∈ (last.board.analysisFor last.settings .initiative player).candidates,
          ∃ other ∈ fallenAlong c.links, other ∈ last.board.losers ∧ other ≠ player)) := by
  obtain ⟨ls, found, course, rfl, settled, rfl⟩ := exists_course_of_settleWithin settles
  have flag := check_iff_of_settled settled choice
  exact ⟨flag, flag.trans (and_congr_right fun _ => exists_fallsAlong_iff)⟩

/-- At the start of the raid white is told of a check, and some move of white's leaves a new loser.
Black is told of none, and no move of black's brings down white. -/
theorem check_iff_of_settles_raid :
    (∃ report last, raidSession.settle? ⟨"white"⟩ = some (report, last) ∧
      report.active.isSome = true ∧ report.check = true ∧
      ∃ c ∈ (last.board.analysisFor last.settings .initiative ⟨"white"⟩).candidates,
        ∃ other ∈ c.outcome.losers, other ∉ last.board.losers ∧ other ≠ ⟨"white"⟩) ∧
    ∃ report last, raidSession.settle? ⟨"black"⟩ = some (report, last) ∧
      report.active.isSome = true ∧ report.check = false ∧
      ¬ ∃ c ∈ (last.board.analysisFor last.settings .initiative ⟨"black"⟩).candidates,
        ∃ other ∈ fallenAlong c.links, other ≠ ⟨"black"⟩ := by
  constructor
  · have told : (raidSession.settle? ⟨"white"⟩).map (fun result =>
        (result.1.active.isSome, result.1.check, result.2.board.losers)) =
        some (true, true, []) := by cbv
    obtain ⟨⟨report, last⟩, settles, seen⟩ := Option.map_eq_some_iff.1 told
    simp only [Prod.mk.injEq] at seen
    obtain ⟨choice, check, losers⟩ := seen
    refine ⟨report, last, settles, choice, check, ?_⟩
    obtain ⟨-, new | ⟨c, -, other, -, before, -⟩⟩ :=
      (check_iff_of_settles settles choice).2.1 check
    · exact new
    · rw [losers] at before
      exact absurd before List.not_mem_nil
  · have told : (raidSession.settle? ⟨"black"⟩).map (fun result =>
        (result.1.active.isSome, result.1.check, result.2.board.hasLost ⟨"black"⟩)) =
        some (true, false, false) := by cbv
    obtain ⟨⟨report, last⟩, settles, seen⟩ := Option.map_eq_some_iff.1 told
    simp only [Prod.mk.injEq] at seen
    obtain ⟨choice, check, alive⟩ := seen
    refine ⟨report, last, settles, choice, check, fun falls => ?_⟩
    have checked := (check_iff_of_settles settles choice).1.2 ⟨alive, falls⟩
    exact Bool.false_ne_true (check.symm.trans checked)

/-- The raid against a king of red, who has lost before.  Black still has the guard. -/
def vacantThroneSession : Session where
  board :=
    { raidBoard with
      nations :=
        { nodes :=
            [{ id := ⟨"whites"⟩, monarch := some ⟨"white"⟩, children := [.piece ⟨"raider"⟩] },
             { id := ⟨"blacks"⟩, monarch := some ⟨"black"⟩, children := [.piece ⟨"guard"⟩] },
             { id := ⟨"reds"⟩, monarch := some ⟨"red"⟩, children := [.piece ⟨"king"⟩] }]
          roots := [0, 1, 2] }
      players :=
        [{ id := ⟨"white"⟩, seat := ⟨1⟩ }, { id := ⟨"red"⟩, seat := ⟨2⟩ },
         { id := ⟨"black"⟩, seat := ⟨3⟩ }]
      losers := [⟨"red"⟩] }
  settings := {}

/-- White is told of a check because the raid brings down red, but red has lost before, and no move
of white's leaves a new loser. -/
theorem check_without_new_loser :
    ∃ report last, vacantThroneSession.settle? ⟨"white"⟩ = some (report, last) ∧
      report.active = some ⟨"white"⟩ ∧ last.board.hasLost ⟨"white"⟩ = false ∧
      report.check = true ∧
      ¬ ∃ c ∈ (last.board.analysisFor last.settings .initiative ⟨"white"⟩).candidates,
        ∃ other ∈ c.outcome.losers, other ∉ last.board.losers ∧ other ≠ ⟨"white"⟩ := by
  have told : (vacantThroneSession.settle? ⟨"white"⟩).map (fun result =>
      (result.1.active, result.2.board.hasLost ⟨"white"⟩, result.1.check, result.2.board.losers,
        (result.2.board.analysisFor result.2.settings .initiative ⟨"white"⟩).candidates.map
          (·.outcome.losers))) =
      some (some ⟨"white"⟩, false, true, [⟨"red"⟩], [[⟨"red"⟩], [⟨"red"⟩]]) := by cbv
  obtain ⟨⟨report, last⟩, settles, seen⟩ := Option.map_eq_some_iff.1 told
  simp only [Prod.mk.injEq] at seen
  obtain ⟨active, alive, check, losers, outcomes⟩ := seen
  refine ⟨report, last, settles, active, alive, check, ?_⟩
  rintro ⟨c, hc, other, loses, new, -⟩
  have after : c.outcome.losers ∈ [[⟨"red"⟩], [⟨"red"⟩]] := by
    rw [← outcomes]
    exact List.mem_map_of_mem hc
  have same : c.outcome.losers = last.board.losers := by
    rw [losers]
    simpa using after
  exact new (same ▸ loses)

end Session

end BoardRules
