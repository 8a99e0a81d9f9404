import Mathlib
import BoardRules.Proofs.Board.Placement
import BoardRules.Proofs.Session.Course
import BoardRules.Proofs.Session.Run

/-!
# What is on offer can be played

Whatever phase a session is in, its offer is an analysis of pieces that the active player owns
(`Session.exists_offered_eq`).  Where no two pieces share an identity, every piece has one entry in
an analysis, and so a selection finds a candidate exactly if some candidate carries it
(`Board.exists_find?_iff`).  Playing looks a selection up in an offer of its own; it succeeds on the
selections that are on offer and on no others (`Session.exists_play_eq_ok_iff`), also after settling
has made a report of the offer (`Session.play_succeeds_iff_reported`).
-/

namespace BoardRules

/-! ## Entries of an analysis -/

namespace Board

variable {b : Board} {settings : Settings} {phase : Phase} {include? : Piece → Bool}

/-- An entry of an analysis holds the candidates of a piece that was included, and there are
some. -/
theorem exists_piece_of_mem_entries {entry : PieceId × List Candidate}
    (h : entry ∈ (b.analysisWhere settings phase include?).entries) :
    entry.2 ≠ [] ∧ ∃ piece ∈ b.pieces, include? piece = true ∧
      entry = (piece.id, b.candidatesOf settings phase piece) := by
  rw [analysisWhere_eq] at h
  obtain ⟨hentry, nonempty⟩ := List.mem_filter.1 h
  obtain ⟨piece, hpiece, rfl⟩ := List.mem_map.1 hentry
  obtain ⟨known, included⟩ := List.mem_filter.1 hpiece
  have some : b.candidatesOf settings phase piece ≠ [] := by simpa using nonempty
  exact ⟨some, piece, known, included, rfl⟩

/-- The candidates of a piece move that piece. -/
theorem piece_of_mem_candidatesOf {piece : Piece} {c : Candidate}
    (h : c ∈ b.candidatesOf settings phase piece) : c.head.selection.piece = piece.id := by
  obtain ⟨head, hhead, rfl⟩ := List.mem_map.1 h
  exact Query.piece_of_mem_findings hhead

/-- An analysis is empty exactly if it has no candidate. -/
theorem isEmpty_analysisWhere_iff :
    (b.analysisWhere settings phase include?).isEmpty = true ↔
      (b.analysisWhere settings phase include?).candidates = [] := by
  unfold Analysis.isEmpty Analysis.candidates
  rw [List.isEmpty_iff, List.flatMap_eq_nil_iff]
  constructor
  · intro none entry hentry
    rw [none] at hentry
    exact absurd hentry List.not_mem_nil
  · intro none
    rw [List.eq_nil_iff_forall_not_mem]
    intro entry hentry
    exact (exists_piece_of_mem_entries hentry).1 (none entry hentry)

/-- Where no two pieces share an identity, no piece has two entries. -/
theorem nodup_entries (distinct : (b.pieces.map (·.id)).Nodup) :
    ((b.analysisWhere settings phase include?).entries.map Prod.fst).Nodup := by
  have listed : ((b.pieces.filter include?).map (·.id)).Nodup :=
    distinct.sublist (List.filter_sublist.map _)
  have keys : ((b.pieces.filter include?).map fun p => (p.id, b.candidatesOf settings phase p)).map
      Prod.fst = (b.pieces.filter include?).map (·.id) := List.map_map
  rw [analysisWhere_eq]
  refine List.Nodup.sublist (List.filter_sublist.map _) ?_
  rw [keys]
  exact listed

/-- Where no two pieces share an identity, a selection finds a candidate exactly if some candidate
carries it. -/
theorem exists_find?_iff (distinct : (b.pieces.map (·.id)).Nodup) (selection : Selection) :
    (∃ c, (b.analysisWhere settings phase include?).find? selection = some c) ↔
      ∃ c ∈ (b.analysisWhere settings phase include?).candidates,
        c.head.selection = selection := by
  constructor
  · rintro ⟨c, found⟩
    have carries : c.head.selection = selection := by simpa using List.find?_some found
    exact ⟨c, Analysis.mem_candidates_of_find? found, carries⟩
  · rintro ⟨c, hc, rfl⟩
    obtain ⟨entry, hentry, listed⟩ := List.mem_flatMap.1 hc
    obtain ⟨-, piece, -, -, rfl⟩ := exists_piece_of_mem_entries hentry
    have moves : c.head.selection.piece = piece.id := piece_of_mem_candidatesOf listed
    have row : (b.analysisWhere settings phase include?).of piece.id =
        b.candidatesOf settings phase piece := by
      unfold Analysis.of
      rw [(lookup_eq_some_iff_mem (nodup_entries distinct)).2 hentry]
      rfl
    rw [← Option.isSome_iff_exists]
    unfold Analysis.find?
    rw [moves, row, List.find?_isSome]
    exact ⟨c, listed, decide_eq_true rfl⟩

/-- If there is a candidate, then some candidate's selection finds one: that of the first candidate
in the first entry, even if a later entry has the same piece. -/
theorem exists_find?_of_nonempty
    (choice : (b.analysisWhere settings phase include?).isEmpty = false) :
    ∃ c ∈ (b.analysisWhere settings phase include?).candidates,
      ∃ d, (b.analysisWhere settings phase include?).find? c.head.selection = some d := by
  cases entries : (b.analysisWhere settings phase include?).entries with
  | nil =>
    unfold Analysis.isEmpty at choice
    rw [entries] at choice
    exact nomatch choice
  | cons entry rest =>
    have first : entry ∈ (b.analysisWhere settings phase include?).entries := by
      rw [entries]
      exact List.mem_cons_self
    obtain ⟨nonempty, piece, -, -, rfl⟩ := exists_piece_of_mem_entries first
    obtain ⟨c, hc⟩ := List.exists_mem_of_ne_nil _ nonempty
    refine ⟨c, List.mem_flatMap.2 ⟨_, first, hc⟩, ?_⟩
    have row : (b.analysisWhere settings phase include?).of c.head.selection.piece =
        b.candidatesOf settings phase piece := by
      unfold Analysis.of
      rw [entries, piece_of_mem_candidatesOf hc, List.lookup_cons_self]
      rfl
    rw [← Option.isSome_iff_exists]
    unfold Analysis.find?
    rw [row, List.find?_isSome]
    exact ⟨c, hc, decide_eq_true rfl⟩

end Board

/-! ## The offer of a session -/

namespace Session

variable {s next : Session} {player : PlayerId} {active : Player}

/-- What is on offer is an analysis of pieces that the active player owns. -/
theorem exists_offered_eq (turn : s.active? = some active) :
    ∃ include? : Piece → Bool,
      s.offered = s.board.analysisWhere s.settings s.phase include? ∧
        ∀ piece, include? piece = true → s.board.owns active.id piece.id = true := by
  unfold offered
  rw [turn]
  dsimp only
  split
  · rename_i initiative
    exact ⟨(s.board.owns active.id ·.id), by rw [initiative]; rfl, fun piece owned => owned⟩
  · rename_i mover immediately moved
    by_cases owned : s.board.owns active.id mover = true
    · refine ⟨(·.id = mover), by rw [if_pos owned, immediately]; rfl, fun piece same => ?_⟩
      rw [of_decide_eq_true same]
      exact owned
    · refine ⟨fun _ => false, ?_, fun piece included => absurd included Bool.false_ne_true⟩
      rw [if_neg owned, immediately, Board.analysisWhere_eq, List.filter_false]
      rfl
  · rename_i immediately unknown
    exact ⟨(s.board.owns active.id ·.id), by rw [immediately]; rfl, fun piece owned => owned⟩

/-- What is on offer belongs to the phase of the session. -/
theorem phase_offered (s : Session) : s.offered.phase = s.phase := by
  cases turn : s.active? with
  | none =>
    unfold offered
    rw [turn]
    rfl
  | some active =>
    obtain ⟨include?, offer, -⟩ := exists_offered_eq turn
    rw [offer]
    rfl

/-- The initiative offers the moves of the active player's pieces. -/
theorem offered_of_initiative (turn : s.active? = some active)
    (initiative : s.phase = .initiative) :
    s.offered = s.board.analysisFor s.settings .initiative active.id := by
  unfold offered
  rw [turn, initiative]

/-- A round that begins offers the moves of the active player's pieces. -/
theorem offered_of_fresh (turn : s.active? = some active) (fresh : s.subRound = 0) :
    s.offered = s.board.analysisFor s.settings .initiative active.id :=
  offered_of_initiative turn (if_pos fresh)

/-- Nothing is on offer exactly if there is no candidate. -/
theorem isEmpty_offered_iff (turn : s.active? = some active) :
    s.offered.isEmpty = true ↔ s.offered.candidates = [] := by
  obtain ⟨include?, offer, -⟩ := exists_offered_eq turn
  rw [offer]
  exact Board.isEmpty_analysisWhere_iff

/-- Where a candidate is on offer, the offer is not empty. -/
theorem isEmpty_offered_of_mem (turn : s.active? = some active) {c : Candidate}
    (h : c ∈ s.offered.candidates) : s.offered.isEmpty = false := by
  refine Bool.eq_false_iff.2 fun empty => ?_
  rw [(isEmpty_offered_iff turn).1 empty] at h
  exact List.not_mem_nil h

/-- Whoever is on offer belongs to the active player. -/
theorem owns_of_mem_offered (turn : s.active? = some active) {c : Candidate}
    (h : c ∈ s.offered.candidates) :
    s.board.owns active.id c.head.selection.piece = true := by
  obtain ⟨include?, offer, owned⟩ := exists_offered_eq turn
  rw [offer] at h
  obtain ⟨entry, hentry, listed⟩ := List.mem_flatMap.1 h
  obtain ⟨-, piece, -, included, rfl⟩ := Board.exists_piece_of_mem_entries hentry
  rw [Board.piece_of_mem_candidatesOf listed]
  exact owned piece included

/-! ## Playing what is on offer -/

/-- A selection can be played exactly if some candidate on offer carries it. -/
theorem exists_play_eq_ok_iff (turn : s.active? = some active)
    (distinct : (s.board.pieces.map (·.id)).Nodup) (selection : Selection) :
    (∃ next, s.play selection = .ok next) ↔
      ∃ c ∈ s.offered.candidates, c.head.selection = selection := by
  obtain ⟨include?, offer, -⟩ := exists_offered_eq turn
  have found : (∃ c, s.offered.find? selection = some c) ↔
      ∃ c ∈ s.offered.candidates, c.head.selection = selection := by
    rw [offer]
    exact Board.exists_find?_iff distinct selection
  constructor
  · rintro ⟨next, played⟩
    obtain ⟨-, -, -, c, hc, -⟩ := play_eq_ok played
    exact found.1 ⟨c, hc⟩
  · intro carried
    obtain ⟨c, hc⟩ := found.2 carried
    obtain ⟨d, hd, rfl⟩ := carried
    exact ⟨_, play_of_find? turn (owns_of_mem_offered turn hd) hc⟩

/-- Something can be played exactly if something is on offer. -/
theorem exists_play_iff :
    (∃ selection next, s.play selection = .ok next) ↔ s.offered.isEmpty = false := by
  constructor
  · rintro ⟨selection, next, played⟩
    obtain ⟨active, turn, -, c, found, -⟩ := play_eq_ok played
    exact isEmpty_offered_of_mem turn (Analysis.mem_candidates_of_find? found)
  · intro choice
    cases turn : s.active? with
    | none =>
      unfold offered at choice
      rw [turn] at choice
      exact nomatch choice
    | some active =>
      obtain ⟨include?, offer, -⟩ := exists_offered_eq turn
      rw [offer] at choice
      obtain ⟨c, hc, d, found⟩ := Board.exists_find?_of_nonempty choice
      rw [← offer] at hc found
      exact ⟨c.head.selection, _, play_of_find? turn (owns_of_mem_offered turn hc) found⟩

/-- Why a selection is refused: the piece is not the active player's, or no candidate on offer
carries the selection. -/
theorem fault_of_play (turn : s.active? = some active) {selection : Selection} {fault : TurnFault}
    (refused : s.play selection = .error fault) :
    fault = if s.board.owns active.id selection.piece then .notOffered selection
      else .foreignPiece selection.piece active.id := by
  unfold play at refused
  rw [turn] at refused
  dsimp only at refused
  split at refused
  · rename_i owned
    rw [if_pos owned]
    unfold Analysis.play at refused
    cases found : s.offered.find? selection with
    | some c =>
      rw [found] at refused
      exact nomatch refused
    | none =>
      rw [found] at refused
      exact (Except.error.inj refused).symm
  · rename_i foreign
    rw [if_neg foreign]
    exact (Except.error.inj refused).symm

/-- A report of a choice shows the offer of a session that settling leaves to the active player. -/
theorem offering_of_settled {report : Report} (settled : s.pass player = .settled report)
    {id : PlayerId} (choice : report.active = some id) :
    ∃ active, s.active? = some active ∧ active.id = id ∧ s.board.hasLost id = false ∧
      report.analysis = s.offered ∧ s.offered.isEmpty = false := by
  have spec := s.passing_pass player
  rw [settled] at spec
  cases spec with
  | won last alive => exact nomatch choice
  | ended nobody => exact nomatch choice
  | @offer active running turn alive offer =>
    obtain rfl : active.id = id := Option.some.inj choice
    exact ⟨active, turn, rfl, alive, rfl, offer⟩

/-- After settling has come to a choice, a selection can be played exactly if some candidate of the
report carries it.  A selection that is played is a step of the selected piece in the same round,
which counts one choice more; one that is refused changes nothing. -/
theorem play_succeeds_iff_reported (players : (s.board.players.map (·.id)).Nodup)
    (seats : s.board.players.length ≤ UInt64.size) (pieces : (s.board.pieces.map (·.id)).Nodup)
    (player : PlayerId) :
    ∃ report last, s.settle? player = some (report, last) ∧
      ∀ active, report.active = some active → ∀ selection : Selection,
        ((∃ next, last.play selection = .ok next) ↔
          ∃ c ∈ report.analysis.candidates, c.head.selection = selection) ∧
        (∀ next, last.play selection = .ok next →
          next.round = last.round ∧ next.subRound = last.subRound + 1 ∧
            next.mover = some selection.piece) ∧
        ∀ fault, last.play selection = .error fault →
          (fault = if last.board.owns active selection.piece then .notOffered selection
            else .foreignPiece selection.piece active) ∧
          last.after (.play selection) = last := by
  obtain ⟨report, last, settles⟩ := exists_settle? players seats player
  obtain ⟨ls, found, course, rfl, settled, rfl⟩ := exists_course_of_settleWithin settles
  refine ⟨_, _, settles, fun id choice selection => ?_⟩
  obtain ⟨active, turn, rfl, -, shown, -⟩ := offering_of_settled settled choice
  have distinct : ((s.lapses ls).board.pieces.map (·.id)).Nodup := by
    rw [course.board]
    exact pieces
  refine ⟨?_, fun next played => ?_, fun fault refused => ⟨fault_of_play turn refused, ?_⟩⟩
  · rw [exists_play_eq_ok_iff turn distinct, ← shown]
    rfl
  · obtain ⟨-, -, -, c, -, rfl⟩ := play_eq_ok played
    exact ⟨rfl, rfl, rfl⟩
  · rw [after, refused]

/-- White is offered the raid along two ways.  The second one can be played, a third one cannot, nor
can white play the king. -/
theorem play_succeeds_iff_reported_raid :
    (raidSession.board.players.map (·.id)).Nodup ∧
      raidSession.board.players.length ≤ UInt64.size ∧
      (raidSession.board.pieces.map (·.id)).Nodup ∧
      ∃ report last, raidSession.settle? ⟨"white"⟩ = some (report, last) ∧
        report.active = some ⟨"white"⟩ ∧
        (∃ next, last.play ⟨⟨"raider"⟩, ⟨"raid"⟩, [0, 1]⟩ = .ok next ∧
          next.subRound = last.subRound + 1 ∧ next.mover = some ⟨"raider"⟩) ∧
        last.play ⟨⟨"raider"⟩, ⟨"raid"⟩, [0, 2]⟩ =
          .error (.notOffered ⟨⟨"raider"⟩, ⟨"raid"⟩, [0, 2]⟩) ∧
        last.play ⟨⟨"king"⟩, ⟨"raid"⟩, [0, 1]⟩ =
          .error (.foreignPiece ⟨"king"⟩ ⟨"white"⟩) := by
  have players : (raidSession.board.players.map (·.id)).Nodup := by decide
  have seats : raidSession.board.players.length ≤ UInt64.size := by decide
  have pieces : (raidSession.board.pieces.map (·.id)).Nodup := by decide
  obtain ⟨report, last, settles, accepts⟩ :=
    play_succeeds_iff_reported players seats pieces ⟨"white"⟩
  have told : (raidSession.settle? ⟨"white"⟩).map (fun result =>
      (result.1.active, result.1.analysis.candidates.map (·.head.selection),
        result.2.board.owns ⟨"white"⟩ ⟨"raider"⟩, result.2.board.owns ⟨"white"⟩ ⟨"king"⟩)) =
      some (some ⟨"white"⟩,
        [⟨⟨"raider"⟩, ⟨"raid"⟩, [0, 0]⟩, ⟨⟨"raider"⟩, ⟨"raid"⟩, [0, 1]⟩], true, false) := by cbv
  simp only [settles, Option.map_some, Option.some.injEq, Prod.mk.injEq] at told
  obtain ⟨active, offers, own, foreign⟩ := told
  have played : ∀ selection : Selection, (∃ next, last.play selection = .ok next) ↔
      selection ∈ report.analysis.candidates.map (·.head.selection) := by
    intro selection
    rw [(accepts _ active selection).1, List.mem_map]
  have refused : ∀ selection : Selection,
      selection ∉ report.analysis.candidates.map (·.head.selection) →
        ∃ fault, last.play selection = .error fault := by
    intro selection absent
    cases outcome : last.play selection with
    | ok next => exact absurd ((played selection).1 ⟨next, outcome⟩) absent
    | error fault => exact ⟨fault, rfl⟩
  refine ⟨players, seats, pieces, report, last, settles, active, ?_, ?_, ?_⟩
  · obtain ⟨next, outcome⟩ := (played ⟨⟨"raider"⟩, ⟨"raid"⟩, [0, 1]⟩).2 (by rw [offers]; decide)
    obtain ⟨-, succeeds, -⟩ := accepts _ active ⟨⟨"raider"⟩, ⟨"raid"⟩, [0, 1]⟩
    exact ⟨next, outcome, (succeeds next outcome).2⟩
  · obtain ⟨fault, outcome⟩ := refused ⟨⟨"raider"⟩, ⟨"raid"⟩, [0, 2]⟩ (by rw [offers]; decide)
    obtain ⟨-, -, fails⟩ := accepts _ active ⟨⟨"raider"⟩, ⟨"raid"⟩, [0, 2]⟩
    rw [outcome, (fails fault outcome).1, if_pos own]
  · obtain ⟨fault, outcome⟩ := refused ⟨⟨"king"⟩, ⟨"raid"⟩, [0, 1]⟩ (by rw [offers]; decide)
    obtain ⟨-, -, fails⟩ := accepts _ active ⟨⟨"king"⟩, ⟨"raid"⟩, [0, 1]⟩
    rw [outcome, (fails fault outcome).1, if_neg (by rw [foreign]; exact Bool.false_ne_true)]

end Session

end BoardRules
