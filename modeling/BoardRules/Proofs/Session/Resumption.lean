import Mathlib
import BoardRules.Proofs.Session.Playout

/-!
# Games that are resumed

A game is resumed from its board, its round and its sub-round.  What is forgotten is the piece that
moved last in the round (`Session.unmoved`).  At the beginning of a round it makes no difference.
Later in the round the session offers further steps of this piece only, and the resumed one those of
all pieces of the active player: the offer of the session is the part of the other offer that is
about the piece (`Session.offered_eq_only`).  Settling looks at the offer when the game goes on and
the active player has not lost (`Session.Awaits`); just then it can come to different reports
(`Session.map_fst_settle?_unmoved_iff`).
-/

namespace BoardRules

/-- The part of an analysis that is about one piece. -/
def Analysis.only (a : Analysis) (piece : PieceId) : Analysis :=
  { a with entries := a.entries.filter (·.1 = piece) }

/-- An analysis is the part about a piece exactly if it is about no other piece. -/
theorem Analysis.only_eq_self_iff {a : Analysis} {piece : PieceId} :
    a.only piece = a ↔ ∀ other ∈ a.entries.map Prod.fst, other = piece := by
  have entries : a.only piece = a ↔ a.entries.filter (·.1 = piece) = a.entries := by
    constructor
    · exact congrArg Analysis.entries
    · intro same
      unfold only
      rw [same]
  rw [entries, List.filter_eq_self, List.forall_mem_map]
  simp only [decide_eq_true_eq]

/-- The part about a piece is the analysis of the pieces with its identity. -/
theorem Board.only_analysisWhere (b : Board) (settings : Settings) (phase : Phase)
    (include? : Piece → Bool) (piece : PieceId) :
    (b.analysisWhere settings phase include?).only piece =
      b.analysisWhere settings phase fun p => decide (p.id = piece) && include? p := by
  rw [analysisWhere_eq, analysisWhere_eq, Analysis.only]
  dsimp only
  rw [List.filter_comm, List.filter_map, List.filter_filter]
  rfl

namespace Session

variable {s : Session} {player : PlayerId}

/-! ## What is forgotten -/

/-- The session without the knowledge which piece moved last. -/
def unmoved (s : Session) : Session := { s with mover := none }

/-- At the beginning of a round it does not matter which piece moved last. -/
theorem offered_unmoved_of_fresh (fresh : s.subRound = 0) : s.unmoved.offered = s.offered := by
  have initiative : s.phase = .initiative := if_pos fresh
  have initiative' : s.unmoved.phase = .initiative := if_pos fresh
  unfold offered
  rw [initiative, initiative']
  rfl

/-- Later in a round any piece of the active player may go on if it is not known which one moved. -/
theorem offered_unmoved_of_moved (moved : s.subRound ≠ 0) {active : Player}
    (turn : s.active? = some active) :
    s.unmoved.offered = s.board.analysisFor s.settings .immediately active.id := by
  have immediately : s.unmoved.phase = .immediately := if_neg moved
  have turn' : s.unmoved.active? = some active := turn
  unfold offered
  rw [immediately, turn']
  rfl

/-- Later in a round what is on offer is the part about the piece that moved last. -/
theorem offered_eq_only (moved : s.subRound ≠ 0) {mover : PieceId} (last : s.mover = some mover) :
    s.offered = s.unmoved.offered.only mover := by
  have immediately : s.phase = .immediately := if_neg moved
  cases turn : s.active? with
  | none =>
    have turn' : s.unmoved.active? = none := turn
    have immediately' : s.unmoved.phase = .immediately := if_neg moved
    unfold offered
    rw [turn, turn', immediately, immediately']
    rfl
  | some active =>
    rw [offered_unmoved_of_moved moved turn]
    unfold offered
    rw [turn, immediately, last]
    dsimp only
    unfold Board.analysisFor Board.analysisOf
    rw [Board.only_analysisWhere]
    by_cases owned : s.board.owns active.id mover = true
    · rw [if_pos owned]
      congr 1
      funext piece
      by_cases same : piece.id = mover
      · simp [same, owned]
      · simp [same]
    · rw [if_neg owned]
      have nobody : (fun piece : Piece => decide (piece.id = mover) &&
          s.board.owns active.id piece.id) = fun _ => false := by
        funext piece
        by_cases same : piece.id = mover
        · simp [same, owned]
        · simp [same]
      rw [nobody, Board.analysisWhere_eq, List.filter_false]
      rfl

/-! ## When settling looks at the offer -/

/-- Settling looks at what is on offer: the game goes on, and the active player has not lost. -/
def Awaits (s : Session) (player : PlayerId) : Prop :=
  s.Running player ∧ ∃ active, s.active? = some active ∧ s.board.hasLost active.id = false

/-- A pass comes to the same without the knowledge which piece moved last, unless it looks at
another offer. -/
theorem pass_unmoved (same : s.Awaits player → s.unmoved.offered = s.offered) :
    s.unmoved.pass player = s.pass player := by
  by_cases running : s.Running player
  · have running' : s.unmoved.Running player := ⟨running.rivals, running.survivors⟩
    obtain ⟨active, turn⟩ := running.exists_active
    have turn' : s.unmoved.active? = some active := turn
    rw [running.pass_eq turn, running'.pass_eq turn']
    cases lost : s.board.hasLost active.id with
    | true =>
      have lost' : s.unmoved.board.hasLost active.id = true := lost
      rw [if_pos lost', if_pos rfl]
      rfl
    | false =>
      have lost' : s.unmoved.board.hasLost active.id = false := lost
      have offers := same ⟨running, active, turn, lost⟩
      have offering : s.unmoved.offering player active.id = s.offering player active.id := by
        unfold Session.offering
        rw [offers]
        rfl
      rw [lost', offers, offering]
      rfl
  · by_cases last : s.board.losers.length + 1 = s.board.players.length ∧
      s.board.hasLost player = false
    · rw [pass_of_won last.1 last.2]
      exact pass_of_won (s := s.unmoved) last.1 last.2
    · have nobody : s.board.players.length ≤ s.board.losers.length :=
        Nat.le_of_not_lt fun survivors => running ⟨last, survivors⟩
      rw [pass_of_ended nobody]
      exact pass_of_ended (s := s.unmoved) nobody

/-- Settling comes to the same report if its first pass comes to the same.  Afterwards a round
begins anew. -/
theorem map_fst_settleWithin_unmoved (same : s.unmoved.pass player = s.pass player) (passes : ℕ) :
    (settleWithin player passes s.unmoved).map Prod.fst =
      (settleWithin player passes s).map Prod.fst := by
  cases passes with
  | zero => rfl
  | succ passes =>
    unfold settleWithin
    rw [same]
    cases s.pass player <;> rfl

/-! ## What a report shows -/

/-- The report of a settled session belongs to the phase of the session. -/
theorem phase_of_settled {found : Report} (settled : s.pass player = .settled found) :
    found.analysis.phase = s.phase := by
  have spec := s.passing_pass player
  rw [settled] at spec
  cases spec with
  | won last alive => rfl
  | ended nobody => rfl
  | offer running turn alive choice => exact s.phase_offered

/-- While there is a choice in the middle of a round, what is reported is on offer if it belongs to
the middle of a round. -/
theorem offered_of_settle? (awaits : s.Awaits player) {report : Report} {last : Session}
    (settles : s.settle? player = some (report, last))
    (immediately : report.analysis.phase = .immediately) : report.analysis = s.offered := by
  obtain ⟨ls, found, course, rfl, settled, rfl⟩ := exists_course_of_settleWithin settles
  have phase : (s.lapses ls).phase = .immediately := (phase_of_settled settled).symm.trans immediately
  cases ls with
  | cons l ls =>
    have fresh := subRound_lapses (s := s) (List.cons_ne_nil l ls)
    rw [Session.phase, if_pos fresh] at phase
    exact absurd phase (by decide)
  | nil =>
    obtain ⟨running, -⟩ := awaits
    have spec := s.passing_pass player
    rw [show s.pass player = .settled found from settled] at spec
    cases spec with
    | won last alive => exact absurd ⟨last, alive⟩ running.rivals
    | ended nobody => exact absurd running.survivors (Nat.not_lt_of_le nobody)
    | offer running turn alive choice => rfl

/-! ## Reports -/

/-- Where it is told which piece moved last, settling without this knowledge comes to the same
report exactly if the offer is the same, or settling does not look at it. -/
theorem map_fst_settle?_unmoved_iff (told : s.Told) :
    (s.unmoved.settle? player).map Prod.fst = (s.settle? player).map Prod.fst ↔
      (s.Awaits player → s.unmoved.offered = s.offered) := by
  constructor
  · intro reports awaits
    by_cases fresh : s.subRound = 0
    · exact offered_unmoved_of_fresh fresh
    obtain ⟨mover, last⟩ := Option.ne_none_iff_exists'.1 (mt told fresh)
    have part := offered_eq_only fresh last
    obtain ⟨running, active, turn, alive⟩ := awaits
    cases nothing : s.unmoved.offered.isEmpty with
    | true =>
      -- A part of nothing is nothing.
      have entries : s.unmoved.offered.entries = [] := List.isEmpty_iff.1 nothing
      rw [part]
      refine (Analysis.only_eq_self_iff.2 ?_).symm
      intro other listed
      rw [entries] at listed
      exact absurd listed List.not_mem_nil
    | false =>
      -- Settling stops at once and reports the larger offer.
      have running' : s.unmoved.Running player := ⟨running.rivals, running.survivors⟩
      have turn' : s.unmoved.active? = some active := turn
      have alive' : s.unmoved.board.hasLost active.id = false := alive
      have settled : s.unmoved.pass player = .settled (s.unmoved.offering player active.id) := by
        rw [running'.pass_eq turn', alive', nothing]
        rfl
      rw [settle?_of_settled settled] at reports
      obtain ⟨⟨report, final⟩, settles, told⟩ := Option.map_eq_some_iff.1 reports.symm
      obtain rfl : report = s.unmoved.offering player active.id := told
      refine offered_of_settle? ⟨running, active, turn, alive⟩ settles ?_
      exact (phase_offered s.unmoved).trans (if_neg fresh)
  · intro same
    exact map_fst_settleWithin_unmoved (pass_unmoved same) s.passBound

end Session

/-! ## Resuming -/

open Session

/-- Resuming a game.  At the beginning of a round nothing is lost: the offer is the same, and so is
the session, as long as the calls take fewer changes than a word can count.  Later in the round any
piece of the active player may go on, and what was on offer is the part that is about the piece that
moved last; the offer is the same exactly if it is about no other piece.  A local player is told the
same exactly if the offer is the same or settling does not look at it. -/
theorem Session.resume_spec {board : Board} {settings : Settings} {first s : Session}
    (started : start board settings = .ok first) (calls : List Call)
    (reached : first.run calls = s) :
    ∃ resumed, (start s.board settings).map (·.resumeAt s.round s.subRound) = .ok resumed ∧
      (s.subRound = 0 → resumed.offered = s.offered ∧
        (first.efforts calls < UInt64.size → resumed = s)) ∧
      (s.subRound ≠ 0 → ∃ mover, s.mover = some mover ∧
        s.offered = resumed.offered.only mover ∧
        (∀ active, s.active? = some active →
          resumed.offered = s.board.analysisFor s.settings .immediately active.id) ∧
        (resumed.offered = s.offered ↔
          ∀ other ∈ resumed.offered.entries.map Prod.fst, other = mover)) ∧
      ∀ player, (resumed.settle? player).map Prod.fst = (s.settle? player).map Prod.fst ↔
        (s.Awaits player → resumed.offered = s.offered) := by
  obtain ⟨seated, rfl⟩ := start_eq_ok_iff.1 started
  have within := reachesWithin_run { board, settings } calls
  rw [reached] at within
  have before := within.reaches
  have told : s.Told := before.told fun _ => rfl
  have seats : s.board.players ≠ [] := by
    rw [before.forward.board.table.players]
    exact seated
  have forgets : (start s.board settings).map (·.resumeAt s.round s.subRound) = .ok s.unmoved := by
    have kept : s.settings = settings := before.forward.settings
    rw [start_eq_ok_iff.2 ⟨seats, rfl⟩, ← kept]
    rfl
  refine ⟨s.unmoved, forgets, ?_, ?_, fun player => map_fst_settle?_unmoved_iff told⟩
  · intro fresh
    refine ⟨offered_unmoved_of_fresh fresh, fun room => ?_⟩
    have counting := within.counting (by rwa [UInt64.toNat_zero, Nat.zero_add])
      (by rwa [UInt64.toNat_zero, Nat.zero_add])
    have nobody : s.mover = none := counting.unmoved (fun _ => rfl) fresh
    unfold unmoved
    rw [← nobody]
  · intro moved
    obtain ⟨mover, last⟩ := Option.ne_none_iff_exists'.1 (mt told moved)
    have part := offered_eq_only moved last
    refine ⟨mover, last, part, fun active turn => offered_unmoved_of_moved moved turn, ?_⟩
    rw [part, ← Analysis.only_eq_self_iff]
    exact eq_comm

/-- White has two runners, and black a piece that cannot move. -/
def relayBoard : Board :=
  { Board.empty "relay" ⟨3, 3⟩ with
    pieces := [runner "left", runner "right", { id := ⟨"guard"⟩ }]
    nations :=
      { nodes :=
          [{ id := ⟨"whites"⟩, monarch := some ⟨"white"⟩
             children := [.piece ⟨"left"⟩, .piece ⟨"right"⟩] },
            { id := ⟨"blacks"⟩, monarch := some ⟨"black"⟩, children := [.piece ⟨"guard"⟩] }]
        roots := [0, 1] }
    players := [{ id := ⟨"white"⟩, seat := ⟨1⟩ }, { id := ⟨"black"⟩, seat := ⟨3⟩ }]
    placements := [(⟨"left"⟩, ⟨0, 0⟩), (⟨"right"⟩, ⟨2, 0⟩), (⟨"guard"⟩, ⟨1, 2⟩)] }

/-- The left runner has stepped, and may dash. -/
def relay : Session :=
  Session.run { board := relayBoard, settings := {} } [.play ⟨⟨"left"⟩, ⟨"step"⟩, [0]⟩]

/-- The left runner has moved, and may dash.  Without this knowledge the other one may dash too. -/
theorem relay_offers :
    relay.subRound = 1 ∧ relay.mover = some ⟨"left"⟩ ∧
      relay.offered.entries.map Prod.fst = [⟨"left"⟩] ∧
      relay.unmoved.offered.entries.map Prod.fst = [⟨"left"⟩, ⟨"right"⟩] := by
  refine ⟨?_, ?_, ?_, ?_⟩
  all_goals cbv

/-- Between the step of a runner and its dash a game does not go on as before when it is resumed:
the other runner may dash as well, and its player is told so. -/
theorem relay_resumed :
    start relayBoard {} = .ok { board := relayBoard, settings := {} } ∧
      ∃ resumed, (start relay.board {}).map (·.resumeAt relay.round relay.subRound) = .ok resumed ∧
        relay.offered.entries.map Prod.fst = [⟨"left"⟩] ∧
        resumed.offered.entries.map Prod.fst = [⟨"left"⟩, ⟨"right"⟩] ∧
        resumed.offered ≠ relay.offered ∧
        (resumed.settle? ⟨"white"⟩).map Prod.fst ≠ (relay.settle? ⟨"white"⟩).map Prod.fst := by
  obtain ⟨-, -, left, both⟩ := relay_offers
  refine ⟨rfl, relay.unmoved, by cbv, left, both, ?_, ?_⟩
  · intro same
    rw [same, left] at both
    exact absurd both (by decide)
  · intro same
    have told : ∀ s : Session, s = relay ∨ s = relay.unmoved →
        ((s.settle? ⟨"white"⟩).map Prod.fst).map (·.analysis.entries.map Prod.fst) =
          some (s.offered.entries.map Prod.fst) := by
      rintro s (rfl | rfl)
      · cbv
      · cbv
    have reports := told relay (.inl rfl)
    rw [← same, told relay.unmoved (.inr rfl), left, both] at reports
    exact absurd reports (by decide)

/-- What was on offer between the step and the dash is the left runner's part of what is on offer
afterwards. -/
theorem resume_relay :
    start relayBoard {} = .ok { board := relayBoard, settings := {} } ∧
      ∃ resumed, (start relay.board {}).map (·.resumeAt relay.round relay.subRound) = .ok resumed ∧
        relay.subRound ≠ 0 ∧ relay.offered = resumed.offered.only ⟨"left"⟩ ∧
        ∀ player, (resumed.settle? player).map Prod.fst = (relay.settle? player).map Prod.fst ↔
          (relay.Awaits player → resumed.offered = relay.offered) := by
  have started : start relayBoard {} = .ok { board := relayBoard, settings := {} } := rfl
  obtain ⟨resumed, forgets, -, later, reports⟩ := resume_spec started _ (rfl : _ = relay)
  obtain ⟨once, moves, -, -⟩ := relay_offers
  have moved : relay.subRound ≠ 0 := once ▸ by decide
  obtain ⟨mover, last, part, -⟩ := later moved
  obtain rfl : (⟨"left"⟩ : PieceId) = mover := Option.some.inj (moves.symm.trans last)
  exact ⟨started, resumed, forgets, moved, part, reports⟩

end BoardRules
