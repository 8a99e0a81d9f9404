import Mathlib
import BoardRules.Proofs.Session.Account

/-!
# Who asks

Two players who settle the same session pass over the same lapses, since none of them depends on who
asks; they can only part where one of them stops (`Course.prefix_or_prefix`).  A player stops where
another one goes on only by having won (`win_of_running`), and whoever goes on from there has lost.
So players who are told the same about a win leave the same session and are told the same about it,
and a winner stops on the way of everybody else (`Session.settle?_impartial`).  A winner who would
not survive the own turn can be eliminated when a loser asks (`Session.standoff_parts`).
-/

namespace BoardRules

namespace Session

variable {s : Session} {p q : PlayerId} {found other : Report}

/-! ## Where settling stops -/

/-- A report tells of a win exactly if its player has not lost and is the only one uncounted among
the losers. -/
theorem win_iff_of_settled (settled : s.pass p = .settled found) :
    found.win = true ↔
      s.board.losers.length + 1 = s.board.players.length ∧ s.board.hasLost p = false := by
  have spec := s.passing_pass p
  rw [settled] at spec
  cases spec with
  | won last alive => exact ⟨fun _ => ⟨last, alive⟩, fun _ => rfl⟩
  | ended nobody =>
    refine ⟨fun win => absurd win Bool.false_ne_true, fun counted => ?_⟩
    have last := counted.1
    omega
  | offer running turn alive offer =>
    exact ⟨fun win => absurd win Bool.false_ne_true, fun counted => absurd counted running.rivals⟩

/-- Who stops in a session in which a lapse is due, while the game goes on for somebody else, has
won. -/
theorem win_of_running {l : Lapse} (settled : s.pass p = .settled found) (running : s.Running q)
    (due : s.Due l) : found.win = true := by
  by_contra lost
  have rivals := mt (win_iff_of_settled settled).2 lost
  have goes : s.Running p := ⟨rivals, running.survivors⟩
  exact pass_ne_settled goes due found settled

/-- Two players who stop in the same session are told the same, but for a win, a loss and a
check. -/
theorem report_eq_of_settled (hp : s.pass p = .settled found) (hq : s.pass q = .settled other)
    (win : found.win = other.win) :
    other = { found with lost := other.lost, check := other.check } := by
  have specP := s.passing_pass p
  have specQ := s.passing_pass q
  rw [hp] at specP
  rw [hq] at specQ
  cases specP with
  | won last alive =>
    cases specQ with
    | won _ _ => rfl
    | ended _ => exact absurd win.symm Bool.false_ne_true
    | offer _ _ _ _ => exact absurd win.symm Bool.false_ne_true
  | ended nobody =>
    cases specQ with
    | won _ _ => exact absurd win Bool.false_ne_true
    | ended _ => rfl
    | offer running _ _ _ => exact absurd running.survivors (Nat.not_lt_of_le nobody)
  | @offer active running turn alive offer =>
    cases specQ with
    | won _ _ => exact absurd win Bool.false_ne_true
    | ended nobody => exact absurd running.survivors (Nat.not_lt_of_le nobody)
    | @offer same running turn' alive offer =>
      obtain rfl : active = same := Option.some.inj (turn.symm.trans turn')
      rfl

/-! ## Two players ask -/

/-- Losers stay losers along a course. -/
theorem Course.hasLost {ls : List Lapse} (course : Course p s ls) {loser : PlayerId}
    (lost : s.board.hasLost loser = true) : (s.lapses ls).board.hasLost loser = true := by
  rw [course.board]
  exact Board.hasLost_addLosers lost _

/-- A player stops on the way of another one, unless only the other one wins. -/
theorem Course.prefix_of_win {ls ms : List Lapse} (hp : Course p s ls) (hq : Course q s ms)
    (stopsP : (s.lapses ls).pass p = .settled found)
    (stopsQ : (s.lapses ms).pass q = .settled other)
    (shared : other.win = true → found.win = true) : ls <+: ms := by
  rcases hp.prefix_or_prefix hq with shorter | ⟨more, rfl⟩
  · exact shorter
  obtain ⟨-, further⟩ := course_append_iff.1 hp
  cases further with
  | nil => rw [List.append_nil]
  | @cons _ l rest running due later =>
    have won : other.win = true := win_of_running stopsQ running due
    obtain ⟨last, -⟩ := (win_iff_of_settled stopsQ).1 won
    -- Where the other one wins, this player goes on, and so has lost.
    have lost : (s.lapses ms).board.hasLost p = true := by
      by_contra alive
      exact running.rivals ⟨last, Bool.eq_false_of_not_eq_true alive⟩
    have finally' : (s.lapses (ms ++ l :: rest)).board.hasLost p = true := by
      rw [lapses_append]
      exact (Course.cons running due later).hasLost lost
    have alive := ((win_iff_of_settled stopsP).1 (shared won)).2
    rw [finally'] at alive
    exact absurd alive (Bool.false_ne_true ∘ Eq.symm)

/-- Two players who settle the same session leave the same session and are told the same, but for a
loss and a check, if both or neither of them are told that they have won.  If only one of them is
told so, all but one have lost where this player stops, the other player among them, and settling
for the other one goes on from there. -/
theorem settle?_impartial (distinct : (s.board.players.map (·.id)).Nodup)
    (seats : s.board.players.length ≤ UInt64.size) (p q : PlayerId) :
    ∃ reportP lastP reportQ lastQ,
      s.settle? p = some (reportP, lastP) ∧ s.settle? q = some (reportQ, lastQ) ∧
      (reportP.win = reportQ.win →
        lastP = lastQ ∧ reportQ = { reportP with lost := reportQ.lost, check := reportQ.check }) ∧
      (reportP.win = true → reportQ.win = false →
        lastP.board.losers.length + 1 = lastP.board.players.length ∧
        lastP.board.hasLost p = false ∧ lastP.board.hasLost q = true ∧
        ∃ later, lastP.settle? q = some (later, lastQ)) := by
  obtain ⟨reportP, lastP, settlesP⟩ := exists_settle? distinct seats p
  obtain ⟨reportQ, lastQ, settlesQ⟩ := exists_settle? distinct seats q
  obtain ⟨ls, found, hp, rfl, stopsP, rfl⟩ := exists_course_of_settleWithin settlesP
  obtain ⟨ms, other, hq, rfl, stopsQ, rfl⟩ := exists_course_of_settleWithin settlesQ
  refine ⟨_, _, _, _, settlesP, settlesQ, fun same => ?_, fun wins loses => ?_⟩
  · have win : found.win = other.win := same
    have there := hp.prefix_of_win hq stopsP stopsQ (win ▸ id)
    have back := hq.prefix_of_win hp stopsQ stopsP (win ▸ id)
    obtain rfl : ls = ms := there.eq_of_length_le back.length_le
    have told := report_eq_of_settled stopsP stopsQ win
    refine ⟨rfl, ?_⟩
    rw [told]
    rfl
  · obtain ⟨last, alive⟩ := (win_iff_of_settled stopsP).1 wins
    obtain ⟨more, rfl⟩ := hp.prefix_of_win hq stopsP stopsQ fun _ => wins
    obtain ⟨shared, -⟩ := course_append_iff.1 hq
    have players : (s.lapses ls).board.players = s.board.players := by
      rw [shared.board]
      rfl
    obtain ⟨later, final, settles⟩ := exists_settle? (players ▸ distinct) (players ▸ seats) q
    have whole := settle?_of_course shared settles
    rw [settlesQ, Option.some.injEq, Prod.mk.injEq] at whole
    obtain ⟨told, rfl⟩ := whole
    refine ⟨last, alive, ?_, later, settles⟩
    by_contra survives
    -- Were the other player not a loser here, this would be a win as well.
    have won := pass_of_won last (Bool.eq_false_of_not_eq_true survives)
    rw [settle?_of_settled won, Option.some.injEq, Prod.mk.injEq] at settles
    obtain ⟨rfl, -⟩ := settles
    rw [told] at loses
    exact absurd loses.symm Bool.false_ne_true

/-- Two players without a piece. -/
def standoff : Session where
  board :=
    { Board.empty "standoff" .standard with
      players := [{ id := ⟨"white"⟩, seat := ⟨1⟩ }, { id := ⟨"black"⟩, seat := ⟨3⟩ }] }
  settings := {}

/-- If black asks, white is eliminated and black has won; if white asks, both are eliminated. -/
theorem standoff_parts :
    standoff.board.players.map (·.id) = [⟨"white"⟩, ⟨"black"⟩] ∧
      ∃ reportW lastW reportB lastB,
        standoff.settle? ⟨"white"⟩ = some (reportW, lastW) ∧
        standoff.settle? ⟨"black"⟩ = some (reportB, lastB) ∧
        lastW.board.losers = [⟨"white"⟩, ⟨"black"⟩] ∧ lastB.board.losers = [⟨"white"⟩] ∧
        lastW.board ≠ lastB.board ∧ lastW.round ≠ lastB.round := by
  have white : (standoff.settle? ⟨"white"⟩).map
      (fun result => (result.2.board.losers, result.2.round)) =
        some ([⟨"white"⟩, ⟨"black"⟩], 2) := by cbv
  have black : (standoff.settle? ⟨"black"⟩).map
      (fun result => (result.2.board.losers, result.2.round)) = some ([⟨"white"⟩], 1) := by cbv
  obtain ⟨⟨reportW, lastW⟩, settlesW, leftW⟩ := Option.map_eq_some_iff.1 white
  obtain ⟨⟨reportB, lastB⟩, settlesB, leftB⟩ := Option.map_eq_some_iff.1 black
  obtain ⟨losersW, roundW⟩ := Prod.mk.inj leftW
  obtain ⟨losersB, roundB⟩ := Prod.mk.inj leftB
  refine ⟨rfl, reportW, lastW, reportB, lastB, settlesW, settlesB, losersW, losersB,
    fun same => ?_, fun same => ?_⟩
  · have listed : lastW.board.losers = lastB.board.losers := congrArg Board.losers same
    rw [losersW, losersB] at listed
    exact absurd listed (by decide)
  · rw [roundW, roundB] at same
    exact absurd same (by decide)

/-- White and red, who is eliminated on the way, leave the raid of four alike; black's victory in
the standoff is where settling for white goes on. -/
theorem settle?_impartial_raid_and_standoff :
    ((raidOfFour.board.players.map (·.id)).Nodup ∧
      raidOfFour.board.players.length ≤ UInt64.size ∧
      ∃ reportW lastW reportR lastR,
        raidOfFour.settle? ⟨"white"⟩ = some (reportW, lastW) ∧
        raidOfFour.settle? ⟨"red"⟩ = some (reportR, lastR) ∧
        (reportW.win, reportW.lost, reportR.win, reportR.lost) = (false, false, false, true) ∧
        lastW = lastR ∧ reportR = { reportW with lost := reportR.lost, check := reportR.check }) ∧
    ((standoff.board.players.map (·.id)).Nodup ∧
      standoff.board.players.length ≤ UInt64.size ∧
      ∃ reportB lastB reportW lastW,
        standoff.settle? ⟨"black"⟩ = some (reportB, lastB) ∧
        standoff.settle? ⟨"white"⟩ = some (reportW, lastW) ∧
        (reportB.win, reportW.win) = (true, false) ∧ lastB.board.hasLost ⟨"white"⟩ = true ∧
        ∃ later, lastB.settle? ⟨"white"⟩ = some (later, lastW)) := by
  have four : (raidOfFour.board.players.map (·.id)).Nodup := by decide
  have pair : (standoff.board.players.map (·.id)).Nodup := by decide
  refine ⟨⟨four, by decide, ?_⟩, pair, by decide, ?_⟩
  · obtain ⟨reportW, lastW, reportR, lastR, settlesW, settlesR, alike, -⟩ :=
      settle?_impartial four (by decide) ⟨"white"⟩ ⟨"red"⟩
    have toldW : (raidOfFour.settle? ⟨"white"⟩).map
        (fun result => (result.1.win, result.1.lost)) = some (false, false) := by cbv
    have toldR : (raidOfFour.settle? ⟨"red"⟩).map
        (fun result => (result.1.win, result.1.lost)) = some (false, true) := by cbv
    rw [settlesW, Option.map_some, Option.some.injEq, Prod.mk.injEq] at toldW
    rw [settlesR, Option.map_some, Option.some.injEq, Prod.mk.injEq] at toldR
    refine ⟨reportW, lastW, reportR, lastR, settlesW, settlesR, ?_,
      alike (toldW.1.trans toldR.1.symm)⟩
    rw [toldW.1, toldW.2, toldR.1, toldR.2]
  · obtain ⟨reportB, lastB, reportW, lastW, settlesB, settlesW, -, apart⟩ :=
      settle?_impartial pair (by decide) ⟨"black"⟩ ⟨"white"⟩
    have wins : (standoff.settle? ⟨"black"⟩).map (·.1.win) = some true := by cbv
    have loses : (standoff.settle? ⟨"white"⟩).map (·.1.win) = some false := by cbv
    rw [settlesB, Option.map_some, Option.some.injEq] at wins
    rw [settlesW, Option.map_some, Option.some.injEq] at loses
    obtain ⟨-, -, lost, onward⟩ := apart wins loses
    exact ⟨reportB, lastB, reportW, lastW, settlesB, settlesW, by rw [wins, loses], lost, onward⟩

end Session

end BoardRules
