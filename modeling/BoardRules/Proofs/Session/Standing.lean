import Mathlib
import BoardRules.Proofs.Session.Perspective

/-!
# The last player standing

A win is told by counting: the losers are one fewer than the players, and the player who asks is not
among them.  On a board whose losers are different players (`Board.Tallied`) the count says that the
player is the last one standing (`Board.Tallied.lastStanding_iff`).  Settling keeps such a tally, as
it eliminates nobody but active players who have not lost (`Course.tallied`), and so a player who is
seated is told of a win exactly as the last one standing (`Session.win_iff_lastStanding`).  Where a
loser is counted twice or is not seated, or where somebody asks who is not seated, the count says
something else (`Session.win_miscounted`).
-/

namespace BoardRules

namespace Board

/-- A player who has not lost while everybody else at the table has. -/
structure LastStanding (b : Board) (player : PlayerId) : Prop where
  /-- The player is seated. -/
  seated : player ∈ b.players.map (·.id)
  /-- The player has not lost. -/
  alive : b.hasLost player = false
  /-- Every other player has lost. -/
  others : ∀ other ∈ b.players, other.id ≠ player → b.hasLost other.id = true

/-- The losers are different players of the board. -/
structure Tallied (b : Board) : Prop where
  /-- Nobody is counted twice. -/
  once : b.losers.Nodup
  /-- Nobody is counted who is not seated. -/
  seated : b.losers ⊆ b.players.map (·.id)

variable {b : Board} {player : PlayerId}

/-- The last player standing is the one who has not lost when the losers are one fewer than the
players. -/
theorem Tallied.lastStanding_iff (tallied : b.Tallied)
    (distinct : (b.players.map (·.id)).Nodup) (seated : player ∈ b.players.map (·.id)) :
    b.LastStanding player ↔
      b.losers.length + 1 = b.players.length ∧ b.hasLost player = false := by
  have count : ((b.players.map (·.id)).erase player).length + 1 = b.players.length := by
    have seats := List.length_erase_add_one seated
    rwa [List.length_map] at seats
  have rivals : ((b.players.map (·.id)).erase player).Nodup := distinct.erase player
  constructor
  · intro standing
    -- Losers and rivals are the same players, and neither list repeats one.
    have same : b.losers.Perm ((b.players.map (·.id)).erase player) := by
      refine (List.perm_ext_iff_of_nodup tallied.once rivals).2 fun id => ?_
      rw [distinct.mem_erase_iff]
      constructor
      · intro lost
        refine ⟨?_, tallied.seated lost⟩
        rintro rfl
        exact hasLost_eq_false_iff.1 standing.alive lost
      · rintro ⟨differs, hid⟩
        obtain ⟨other, hother, rfl⟩ := List.mem_map.1 hid
        exact hasLost_iff_mem.1 (standing.others other hother differs)
    exact ⟨by rw [same.length_eq, count], standing.alive⟩
  · rintro ⟨last, alive⟩
    have among : b.losers ⊆ (b.players.map (·.id)).erase player := by
      intro id lost
      rw [distinct.mem_erase_iff]
      refine ⟨?_, tallied.seated lost⟩
      rintro rfl
      exact hasLost_eq_false_iff.1 alive lost
    have same : b.losers.Perm ((b.players.map (·.id)).erase player) := by
      refine (tallied.once.subperm among).perm_of_length_le ?_
      omega
    refine ⟨seated, alive, fun other hother differs => ?_⟩
    have rival : other.id ∈ (b.players.map (·.id)).erase player :=
      distinct.mem_erase_iff.2 ⟨differs, List.mem_map.2 ⟨other, hother, rfl⟩⟩
    exact hasLost_iff_mem.2 (same.mem_iff.2 rival)

end Board

namespace Session

variable {s : Session} {player : PlayerId}

/-! ## The tally along a course -/

/-- A lapse that is due keeps the tally. -/
theorem Due.tallied {l : Lapse} (due : s.Due l) (tallied : s.board.Tallied) :
    (s.lapse l).board.Tallied := by
  cases due with
  | skipped turn lost => exact tallied
  | ended turn alive stuck moved => exact tallied
  | @eliminated active turn alive stuck fresh =>
    have board : (s.lapse (.eliminated active.id)).board = s.board.addLosers [active.id] :=
      Board.eliminate_eq_addLosers alive
    have spared : active.id ∉ s.board.losers := Board.hasLost_eq_false_iff.1 alive
    have seated : active.id ∈ s.board.players.map (·.id) :=
      List.mem_map.2 ⟨active, List.mem_of_getElem? turn, rfl⟩
    have once : (s.board.losers ++ [active.id]).Nodup := by
      rw [← List.concat_eq_append]
      exact tallied.once.concat spared
    rw [board]
    constructor
    · exact once
    · exact List.append_subset.2 ⟨tallied.seated, List.cons_subset.2 ⟨seated, List.nil_subset _⟩⟩

/-- A course keeps the tally. -/
theorem Course.tallied {ls : List Lapse} (course : Course player s ls)
    (tallied : s.board.Tallied) : (s.lapses ls).board.Tallied := by
  induction course with
  | nil s => exact tallied
  | cons running due rest ih => exact ih (due.tallied tallied)

/-! ## Who is told of a win -/

/-- A player is told of a win exactly if the losers are one fewer than the players and the player is
not among them, on the board that settling leaves.  Where the losers are different players and the
player is seated, this is to be the last one standing. -/
theorem win_iff_lastStanding (distinct : (s.board.players.map (·.id)).Nodup)
    (seats : s.board.players.length ≤ UInt64.size) (player : PlayerId) :
    ∃ report last, s.settle? player = some (report, last) ∧
      (report.win = true ↔ last.board.losers.length + 1 = last.board.players.length ∧
        last.board.hasLost player = false) ∧
      (s.board.Tallied → player ∈ s.board.players.map (·.id) →
        (report.win = true ↔ last.board.LastStanding player)) := by
  obtain ⟨report, last, settles⟩ := exists_settle? distinct seats player
  obtain ⟨ls, found, course, rfl, settled, rfl⟩ := exists_course_of_settleWithin settles
  have counted := win_iff_of_settled settled
  refine ⟨_, _, settles, counted, fun tallied seated => counted.trans ?_⟩
  have players : (s.lapses ls).board.players = s.board.players := by
    rw [course.board]
    rfl
  exact ((course.tallied tallied).lastStanding_iff (players ▸ distinct) (players ▸ seated)).symm

/-- The standoff after some have lost. -/
def standoffAfter (losers : List PlayerId) : Session :=
  { standoff with board := standoff.board.addLosers losers }

/-- An onlooker is told of a win.  A win is told as well where an onlooker is counted for the other
player, and none is told to the last player standing where the other one is counted twice. -/
theorem win_miscounted :
    (∃ report last, (standoffAfter [⟨"white"⟩]).settle? ⟨"onlooker"⟩ = some (report, last) ∧
      report.win = true ∧ ¬ last.board.LastStanding ⟨"onlooker"⟩) ∧
    (∃ report last, (standoffAfter [⟨"onlooker"⟩]).settle? ⟨"black"⟩ = some (report, last) ∧
      report.win = true ∧ ¬ last.board.LastStanding ⟨"black"⟩) ∧
    ∃ report last, (standoffAfter [⟨"white"⟩, ⟨"white"⟩]).settle? ⟨"black"⟩ = some (report, last) ∧
      report.win = false ∧ last.board.LastStanding ⟨"black"⟩ := by
  refine ⟨?_, ?_, ?_⟩
  · have won := pass_of_won (s := standoffAfter [⟨"white"⟩]) (p := ⟨"onlooker"⟩) rfl (by decide)
    refine ⟨_, _, settle?_of_settled won, rfl, fun standing => ?_⟩
    exact absurd standing.seated (by decide)
  · have won := pass_of_won (s := standoffAfter [⟨"onlooker"⟩]) (p := ⟨"black"⟩) rfl (by decide)
    refine ⟨_, _, settle?_of_settled won, rfl, fun standing => ?_⟩
    have out := standing.others { id := ⟨"white"⟩, seat := ⟨1⟩ } (by decide) (by decide)
    exact absurd out (by decide)
  · have ends : (standoffAfter [⟨"white"⟩, ⟨"white"⟩]).pass ⟨"black"⟩ =
        .settled ((standoffAfter [⟨"white"⟩, ⟨"white"⟩]).closing ⟨"black"⟩ false) := rfl
    exact ⟨_, _, settle?_of_settled ends, rfl, by decide, by decide, by decide⟩

/-- White is eliminated for want of a move, and black is the last one standing. -/
theorem win_iff_lastStanding_standoff :
    (standoff.board.players.map (·.id)).Nodup ∧
      standoff.board.players.length ≤ UInt64.size ∧ standoff.board.Tallied ∧
      ⟨"black"⟩ ∈ standoff.board.players.map (·.id) ∧
      ∃ report last, standoff.settle? ⟨"black"⟩ = some (report, last) ∧
        report.win = true ∧ last.board.LastStanding ⟨"black"⟩ := by
  have distinct : (standoff.board.players.map (·.id)).Nodup := by decide
  have seats : standoff.board.players.length ≤ UInt64.size := by decide
  have tallied : standoff.board.Tallied := ⟨List.nodup_nil, List.nil_subset _⟩
  have seated : ⟨"black"⟩ ∈ standoff.board.players.map (·.id) := by decide
  have told : (standoff.settle? ⟨"black"⟩).map (·.1.win) = some true := by cbv
  obtain ⟨report, last, settles, -, law⟩ := win_iff_lastStanding distinct seats ⟨"black"⟩
  rw [settles, Option.map_some, Option.some.injEq] at told
  exact ⟨distinct, seats, tallied, seated, report, last, settles, told, (law tallied seated).1 told⟩

end Session

end BoardRules
