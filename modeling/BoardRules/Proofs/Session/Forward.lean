import Mathlib
import BoardRules.Proofs.Search.Precedence
import BoardRules.Proofs.Session.Run

/-!
# Games move forward

A game is a sequence of changes (`Session.reachesWithin_run`), and so are the passes of a settling,
whether or not it comes to an end (`Session.Course.reaches`).  So it is enough to look at one
change.  It leads forward (`Session.Changes.forward`): the board before it precedes the one after
it, where the outcome of a candidate is the case that takes an argument
(`Candidate.precedes_outcome`).  And it either counts a choice and tells which piece moved, or
counts a round and forgets the piece (`Session.Changes.counters`).  As long as there are fewer
changes than a word can count, no round comes back and no number of choices is taken for zero
(`Session.ReachesWithin.counting`).
-/

namespace BoardRules

/-! ## Outcomes -/

/-- Searches hand on that some board precedes. -/
theorem handedOn_precedes (b : Board) : HandedOn b.Precedes :=
  fun _ before _ hlink => before.trans (Query.precedes_of_mem_findings hlink)

namespace Candidate

variable {c : Candidate}

/-- Whoever falls along a candidate loses by one of its links. -/
theorem exists_link_of_mem_fallen {player : PlayerId} (h : player ∈ c.fallen) :
    ∃ link ∈ c.links, link.deltas.loser? = some player := by
  change player ∈ (c.links.filterMap (·.deltas.loser?)).foldl enrol [] at h
  rcases mem_foldl_enrol.1 h with earlier | loser
  · exact absurd earlier List.not_mem_nil
  · exact List.mem_filterMap.1 loser

/-- A board precedes the outcomes of its candidates. -/
theorem precedes_outcome {b : Board} {settings : Settings} {phase : Phase}
    {include? : Piece → Bool} (hc : c ∈ (b.analysisWhere settings phase include?).candidates) :
    b.Precedes c.outcome := by
  have keeps := handedOn_precedes b
  have final : b.Precedes c.finalBoard := keeps.links (.refl b) hc c.last c.last_mem_links
  refine final.foldl_eliminate ?_
  intro player falls
  obtain ⟨link, hlink, loses⟩ := exists_link_of_mem_fallen falls
  obtain ⟨q, before, found⟩ := keeps.exists_query_of_mem_links (.refl b) hc link hlink
  rw [← before.table.players]
  exact Query.seated_of_loser? found loses

end Candidate

namespace Session

variable {s t next : Session}

/-! ## Forward -/

/-- That a session comes before another one of the same game. -/
structure Forward (s t : Session) : Prop where
  /-- The board of the earlier one precedes that of the later one. -/
  board : s.board.Precedes t.board
  /-- The engine is configured as before. -/
  settings : t.settings = s.settings

theorem Forward.refl (s : Session) : Forward s s := ⟨.refl s.board, rfl⟩

theorem Forward.trans (h : Forward s t) (k : Forward t next) : Forward s next where
  board := h.board.trans k.board
  settings := k.settings.trans h.settings

/-- The board before a lapse that is due precedes the one after it. -/
theorem Due.precedes {l : Lapse} (due : s.Due l) : s.board.Precedes (s.lapse l).board := by
  cases due with
  | skipped turn lost => exact .refl s.board
  | @eliminated active turn alive stuck fresh =>
    have seated : active ∈ s.board.players := List.mem_of_getElem? turn
    exact .eliminate (List.mem_map.2 ⟨active, seated, rfl⟩)
  | ended turn alive stuck moved => exact .refl s.board

/-- The board on which a choice is played precedes its outcome. -/
theorem precedes_of_play {selection : Selection} (played : s.play selection = .ok next) :
    s.board.Precedes next.board := by
  obtain ⟨active, -, -, c, found, rfl⟩ := play_eq_ok played
  obtain ⟨phase, include?, hc⟩ :=
    exists_analysis_of_mem_offered (Analysis.mem_candidates_of_find? found)
  exact Candidate.precedes_outcome hc

/-- Every change leads forward. -/
theorem Changes.forward (h : Changes s next) : Forward s next := by
  cases h with
  | @lapse l due => exact ⟨due.precedes, s.settings_lapse l⟩
  | play played =>
    refine ⟨precedes_of_play played, ?_⟩
    obtain ⟨active, -, -, c, -, rfl⟩ := play_eq_ok played
    rfl
  | endTurn => exact ⟨.refl s.board, rfl⟩

/-- Every session that is reached lies forward. -/
theorem Reaches.forward (h : Reaches s t) : Forward s t := by
  induction h with
  | refl => exact .refl s
  | tail _ change ih => exact ih.trans change.forward

/-! ## Rounds and choices -/

/-- A change counts a choice and tells which piece moved, or it counts a round, in which no piece
has moved. -/
theorem Changes.counters (h : Changes s next) :
    (next.round = s.round ∧ next.subRound = s.subRound + 1 ∧ next.mover ≠ none) ∨
      (next.round = s.round + 1 ∧ next.subRound = 0 ∧ next.mover = none) := by
  cases h with
  | @lapse l due =>
    have nobody : (s.lapse l).mover = none := by cases l <;> rfl
    exact Or.inr ⟨s.round_lapse l, s.subRound_lapse l, nobody⟩
  | play played =>
    obtain ⟨active, -, -, c, -, rfl⟩ := play_eq_ok played
    exact Or.inl ⟨rfl, rfl, Option.some_ne_none _⟩
  | endTurn => exact Or.inr ⟨rfl, rfl, rfl⟩

/-- A session in which something has been played in the round tells which piece moved. -/
def Told (s : Session) : Prop := s.mover = none → s.subRound = 0

/-- Along any calls a session in which something has been played in the round tells which piece
moved. -/
theorem Reaches.told (h : Reaches s t) (told : s.Told) : t.Told := by
  cases h with
  | refl => exact told
  | tail _ change =>
    intro nobody
    rcases change.counters with ⟨-, -, moved⟩ | ⟨-, fresh, -⟩
    · exact absurd nobody moved
    · exact fresh

/-- What is known after so many changes that nothing has been counted beyond a word. -/
structure Counting (n : ℕ) (s t : Session) : Prop where
  /-- No round comes back. -/
  forward : s.round ≤ t.round
  /-- Every round takes a change. -/
  round : t.round.toNat ≤ s.round.toNat + n
  /-- Every choice takes a change. -/
  subRound : t.subRound.toNat ≤ s.subRound.toNat + n
  /-- If no piece had moved before the first choice, none has moved before the next first choice. -/
  unmoved : (s.subRound = 0 → s.mover = none) → t.subRound = 0 → t.mover = none

/-- A counter that has room grows by one. -/
theorem toNat_succ_of_room {k : UInt64} {n : ℕ} (room : k.toNat + (n + 1) < UInt64.size) :
    (k + 1).toNat = k.toNat + 1 := by
  have word : k.toNat + 1 < 2 ^ 64 := Nat.lt_of_le_of_lt (by omega) room
  rw [UInt64.toNat_add, UInt64.toNat_one, Nat.mod_eq_of_lt word]

/-- As long as the counters have room for the changes, they count them. -/
theorem ReachesWithin.counting {n : ℕ} (h : ReachesWithin n s t)
    (rounds : s.round.toNat + n < UInt64.size) (choices : s.subRound.toNat + n < UInt64.size) :
    Counting n s t := by
  induction h with
  | stay n s => exact ⟨UInt64.le_refl _, Nat.le_add_right _ _, Nat.le_add_right _ _, id⟩
  | @change n s next t first rest ih =>
    rcases first.counters with ⟨same, counted, moved⟩ | ⟨counted, fresh, nobody⟩
    · have choice := toNat_succ_of_room choices
      rw [← counted] at choice
      have later := ih (by rw [same]; omega) (by omega)
      refine ⟨same ▸ later.forward, ?_, ?_, fun _ => later.unmoved ?_⟩
      · rw [← same]
        exact Nat.le_trans later.round (Nat.add_le_add_left (Nat.le_succ n) _)
      · rw [Nat.add_comm n, ← Nat.add_assoc, ← choice]
        exact later.subRound
      · intro none
        rw [none, UInt64.toNat_zero] at choice
        exact absurd choice.symm (Nat.succ_ne_zero _)
    · have round := toNat_succ_of_room rounds
      rw [← counted] at round
      have zero : next.subRound.toNat = 0 := by rw [fresh, UInt64.toNat_zero]
      have later := ih (by omega) (by omega)
      refine ⟨?_, ?_, ?_, fun _ => later.unmoved fun _ => nobody⟩
      · exact UInt64.le_trans (UInt64.le_iff_toNat_le.2 (by omega)) later.forward
      · rw [Nat.add_comm n, ← Nat.add_assoc, ← round]
        exact later.round
      · have bound := later.subRound
        omega

/-- Where players are seated, somebody is active after any changes. -/
theorem Reaches.isSome_active? (h : Reaches s t) (seated : s.board.players ≠ []) :
    t.active?.isSome = true := by
  refine Session.isSome_active? ?_
  rw [h.forward.board.table.players]
  exact seated

/-! ## Games -/

/-- Games move forward.  From the start of a game on, the table stays the same, the placed pieces of
a later session are among those of every earlier one, in the same order, and losers come at the end
and are new players of the board.  No round comes back as long as the calls take fewer changes than
a word can count.  If something has been played in the round, it is known which piece moved; and a
piece that moved has been played, again as long as a word can count the changes.  And somebody is
active at any time: after every pass of a settling, even of one that does not come to an end, and
after any other changes. -/
theorem run_forward {board : Board} {settings : Settings} {s : Session}
    (started : start board settings = .ok s) (earlier : List Call) :
    (∀ later, Forward (s.run earlier) ((s.run earlier).run later) ∧
        (s.efforts (earlier ++ later) < UInt64.size →
          (s.run earlier).round ≤ ((s.run earlier).run later).round)) ∧
      ((s.run earlier).mover = none → (s.run earlier).subRound = 0) ∧
      (s.efforts earlier < UInt64.size →
        (s.run earlier).subRound = 0 → (s.run earlier).mover = none) ∧
      (∀ player ls, Course player (s.run earlier) ls →
        ((s.run earlier).lapses ls).active?.isSome = true) ∧
      ∀ t, Reaches (s.run earlier) t → t.active?.isSome = true := by
  obtain ⟨seated, rfl⟩ := start_eq_ok_iff.1 started
  have before := reachesWithin_run { board, settings } earlier
  have active : ∀ t, Reaches (Session.run { board, settings } earlier) t →
      t.active?.isSome = true := by
    intro t further
    have all : Reaches { board, settings } t := before.reaches.trans further
    exact all.isSome_active? seated
  -- Rounds and choices are counted from zero.
  have counting : efforts { board, settings } earlier < UInt64.size →
      Counting (efforts { board, settings } earlier) { board, settings }
        (Session.run { board, settings } earlier) := by
    intro room
    refine before.counting ?_ ?_
    all_goals rwa [UInt64.toNat_zero, Nat.zero_add]
  refine ⟨fun later => ⟨(reaches_run _ later).forward, fun room => ?_⟩, ?_, fun room => ?_,
    fun player ls course => active _ course.reaches, active⟩
  · rw [efforts_append] at room
    have behind := reachesWithin_run (Session.run { board, settings } earlier) later
    obtain ⟨-, round, subRound, -⟩ := counting (Nat.lt_of_le_of_lt (Nat.le_add_right _ _) room)
    rw [UInt64.toNat_zero, Nat.zero_add] at round subRound
    exact (behind.counting (by omega) (by omega)).forward
  · exact before.reaches.told fun _ => rfl
  · exact (counting room).unmoved fun _ => rfl

/-- In the raid the guard and the king leave the board for good, and both players lose: black when
the king falls, and white, while black settles, for want of a further move. -/
theorem forward_raid :
    start raidBoard {} = .ok raidSession ∧
      Forward (raidSession.run []) ((raidSession.run []).run raidCalls) ∧
      (raidSession.run []).round ≤ ((raidSession.run []).run raidCalls).round ∧
      (raidSession.run raidCalls).board.placements.map Prod.fst = [⟨"raider"⟩] ∧
      (raidSession.run raidCalls).board.losers = [⟨"black"⟩, ⟨"white"⟩] ∧
      ((raidSession.run raidCalls).subRound = 0 ↔ (raidSession.run raidCalls).mover = none) := by
  have started : start raidBoard {} = .ok raidSession := rfl
  have room : raidSession.efforts raidCalls < UInt64.size := by cbv
  obtain ⟨ahead, told, unmoved, -, -⟩ := run_forward started raidCalls
  obtain ⟨forward, rounds⟩ := (run_forward started []).1 raidCalls
  refine ⟨started, forward, rounds room, ?_, ?_, ⟨unmoved room, told⟩⟩
  · cbv
  · cbv

end Session

end BoardRules
