import Mathlib
import BoardRules.Proofs.Search.Guarded
import BoardRules.Proofs.Search.Replay
import BoardRules.Proofs.Session.Offer

/-!
# Behaviours that do nothing

A record whose type is not registered, or whose fields cannot be used, is left out of the steps that
are run.  If that happens to every record of a behaviour then the behaviour has no steps, and a run
past its last step is finished: the search of an idle behaviour finds its start
(`Query.runs_of_idle`), which changes nothing (`Query.apply_start`).  Doing nothing is something to
choose.  So a player whose piece has an idle behaviour is not stuck, and a turn in which the moved
piece has one goes on (`Session.offers_idle`); `dancer_stays` is a game with such a player.
-/

namespace BoardRules

/-- No step is made of a record, and not for the source of a condition. -/
def StepRecord.LeftOut (types : StepTypes) (vocabulary : Vocabulary) (r : StepRecord) : Prop :=
  (types.get? r.kind).map (·.maker) ≠ some .condition ∧
    ∃ fault, Step.ofRecord types vocabulary r = .error fault

/-- A record of which no step is made is kept as it is. -/
theorem Behaviour.loadStep_of_error {types : StepTypes} {vocabulary : Vocabulary} {r : StepRecord}
    {fault : BuildFault} (fails : Step.ofRecord types vocabulary r = .error fault)
    (id : BehaviourId) : (loadStep types vocabulary id r).1 = .unresolved r := by
  unfold loadStep
  rw [fails]
  cases fault <;> rfl

/-- If every record is left out then no step is run. -/
theorem Behaviour.builtSteps_load_eq_nil {types : StepTypes} {vocabulary : Vocabulary}
    {data : Snapshot.Behaviour} (idle : ∀ r ∈ data.actions, r.LeftOut types vocabulary) :
    (load types vocabulary data).1.builtSteps = [] := by
  rw [builtSteps_load, List.filter_eq_nil_iff]
  intro step hstep
  obtain ⟨r, hr, rfl⟩ := List.mem_map.1 hstep
  obtain ⟨-, fault, fails⟩ := idle r hr
  rw [loadStep_of_error fails]
  exact Bool.false_ne_true

/-! ## Searching -/

namespace Query

/-- A behaviour without steps is finished where it starts. -/
theorem runs_of_idle (q : Query) {b : Behaviour} (idle : b.builtSteps = []) :
    q.runs b = [q.start b] := by
  rw [runs_eq_enumerate, idle]
  rfl

/-- The deltas of a start change nothing. -/
theorem apply_start (q : Query) (b : Behaviour) :
    (q.start b).deltas.apply q.piece.id (q.board, q.log) = (q.board, q.log) :=
  (q.replay_start b).symm

/-- A behaviour without steps that fires is found if somebody owns the piece, and only then. -/
theorem start_mem_findings_iff {q : Query} {b : Behaviour} (idle : b.builtSteps = [])
    (fires : b ∈ q.piece.triggered q.trigger) :
    q.start b ∈ q.findings ↔ (q.board.owner? q.piece.id).isSome = true := by
  constructor
  · intro found
    obtain ⟨owner, owned⟩ := exists_owner_of_mem_findings found
    rw [owned]
    rfl
  · intro owned
    have somebody : (q.board.owner? q.piece.id).isNone = false := by
      rw [← Option.not_isSome, owned]
      rfl
    rw [findings_eq, somebody, if_neg Bool.false_ne_true]
    refine List.mem_flatMap.2 ⟨b, fires, ?_⟩
    rw [q.runs_of_idle idle]
    exact List.mem_singleton_self _

end Query

/-- Every finding for a piece that is included is the head of a candidate. -/
theorem Board.candidate_mem_of_mem_findings {b : Board} {settings : Settings} {phase : Phase}
    {include? : Piece → Bool} {piece : Piece} {head : Link} (known : piece ∈ b.pieces)
    (included : include? piece = true)
    (found : head ∈ Query.findings ⟨settings, b, piece, phase.trigger, {}⟩) :
    head.candidate settings ∈ (b.analysisWhere settings phase include?).candidates := by
  have listed : head.candidate settings ∈ b.candidatesOf settings phase piece :=
    List.mem_map_of_mem found
  refine List.mem_flatMap.2 ⟨(piece.id, b.candidatesOf settings phase piece), ?_, listed⟩
  refine List.mem_filter.2 ⟨List.mem_map.2 ⟨piece, ?_, rfl⟩, ?_⟩
  · exact List.mem_filter.2 ⟨known, included⟩
  · simpa using List.ne_nil_of_mem listed

/-! ## Playing -/

namespace Session

variable {s : Session} {active : Player} {piece : Piece}

/-- A piece of the active player is included in the offer, unless another piece has moved in this
round. -/
theorem exists_offered_including (turn : s.active? = some active)
    (owned : s.board.owns active.id piece.id = true)
    (free : s.phase = .immediately → ∀ mover, s.mover = some mover → mover = piece.id) :
    ∃ include? : Piece → Bool,
      s.offered = s.board.analysisWhere s.settings s.phase include? ∧ include? piece = true := by
  unfold offered
  rw [turn]
  dsimp only
  split
  · rename_i initiative
    exact ⟨(s.board.owns active.id ·.id), by rw [initiative]; rfl, owned⟩
  · rename_i mover immediately moved
    obtain rfl := free immediately mover moved
    exact ⟨(·.id = piece.id), by rw [if_pos owned, immediately]; rfl, decide_eq_true rfl⟩
  · rename_i immediately unknown
    exact ⟨(s.board.owns active.id ·.id), by rw [immediately]; rfl, owned⟩

/-- The active player is offered to do nothing with a piece that has a behaviour without steps. -/
theorem idle_mem_offered {b : Behaviour} (idle : b.builtSteps = [])
    (turn : s.active? = some active) (known : piece ∈ s.board.pieces)
    (owned : s.board.owns active.id piece.id = true)
    (fires : b ∈ piece.triggered s.phase.trigger)
    (free : s.phase = .immediately → ∀ mover, s.mover = some mover → mover = piece.id) :
    (Query.start ⟨s.settings, s.board, piece, s.phase.trigger, {}⟩ b).candidate s.settings ∈
      s.offered.candidates := by
  obtain ⟨include?, offer, included⟩ := exists_offered_including turn owned free
  obtain ⟨owner, somebody, -⟩ := (Option.any_eq_true _ _).1 owned
  have found : Query.start ⟨s.settings, s.board, piece, s.phase.trigger, {}⟩ b ∈
      Query.findings ⟨s.settings, s.board, piece, s.phase.trigger, {}⟩ :=
    (Query.start_mem_findings_iff idle fires).2 (Option.isSome_of_eq_some somebody)
  rw [offer]
  exact Board.candidate_mem_of_mem_findings known included found

/-- A behaviour all of whose records are left out has no steps to run and one finished run: its
start, which changes nothing.  With a piece that has one the active player is offered to do nothing,
so while the game goes on the player is neither eliminated for want of a move nor is the turn ended.
-/
theorem offers_idle {types : StepTypes} {vocabulary : Vocabulary} {data : Snapshot.Behaviour}
    {b : Behaviour} (loaded : (Behaviour.load types vocabulary data).1 = b)
    (idle : ∀ r ∈ data.actions, r.LeftOut types vocabulary) :
    b.builtSteps = [] ∧
    (∀ q : Query,
      q.runs b = [q.start b] ∧
      (q.start b).selection = ⟨q.piece.id, data.id, []⟩ ∧ (q.start b).tags = [] ∧
      (q.start b).board = q.board ∧ (q.start b).log = q.log ∧
      (q.start b).deltas.apply q.piece.id (q.board, q.log) = (q.board, q.log) ∧
      (b ∈ q.piece.triggered q.trigger →
        (q.start b ∈ q.findings ↔ (q.board.owner? q.piece.id).isSome = true))) ∧
    ∀ (s : Session) (active : Player) (piece : Piece), s.active? = some active →
      piece ∈ s.board.pieces → s.board.owns active.id piece.id = true →
      b ∈ piece.triggered s.phase.trigger →
      (s.phase = .immediately → ∀ mover, s.mover = some mover → mover = piece.id) →
        (Query.start ⟨s.settings, s.board, piece, s.phase.trigger, {}⟩ b).candidate s.settings ∈
          s.offered.candidates ∧
        ∀ player, s.Running player → s.board.hasLost active.id = false →
          s.pass player = .settled (s.offering player active.id) := by
  subst loaded
  have unbuilt := Behaviour.builtSteps_load_eq_nil idle
  refine ⟨unbuilt, fun q => ⟨q.runs_of_idle unbuilt, rfl, rfl, rfl, rfl, q.apply_start _,
    Query.start_mem_findings_iff unbuilt⟩, fun s active piece turn known owned fires free => ?_⟩
  have offer := idle_mem_offered unbuilt turn known owned fires free
  refine ⟨offer, fun player running alive => ?_⟩
  rw [running.pass_eq turn, alive, isEmpty_offered_of_mem turn offer]
  rfl

/-! ## A dancer -/

/-- A dance that no registered type knows, and a move along no vectors. -/
def danceData : Snapshot.Behaviour where
  name := "dance"
  trigger := .initiative
  id := ⟨"dance"⟩
  actions := [⟨"mod.dance", {}, []⟩, ⟨Move.kind, {}, [("stepPosition", .string "up")]⟩]

/-- White's dancer, who has nothing but the dance. -/
def dancer : Piece where
  id := ⟨"dancer"⟩
  behaviours := [(Behaviour.load .vanilla .vanilla danceData).1]

/-- The dancer in the middle of a stage, and white to move. -/
def stage : Session where
  board :=
    { Board.empty "stage" ⟨3, 3⟩ with
      pieces := [dancer]
      nations :=
        { nodes :=
            [{ id := ⟨"whites"⟩, monarch := some ⟨"white"⟩, children := [.piece ⟨"dancer"⟩] }]
          roots := [0] }
      players := [{ id := ⟨"white"⟩, seat := ⟨1⟩ }, { id := ⟨"black"⟩, seat := ⟨3⟩ }]
      placements := [(⟨"dancer"⟩, ⟨1, 1⟩)] }
  settings := {}

/-- Both records of the dance are left out. -/
theorem leftOut_danceData : ∀ r ∈ danceData.actions, r.LeftOut .vanilla .vanilla := by
  intro r hr
  rcases List.mem_pair.1 hr with rfl | rfl
  · exact ⟨by decide, _, rfl⟩
  · exact ⟨by decide, _, rfl⟩

/-- White's dancer may stay where it is, and white, who could do nothing else, goes on playing. -/
theorem offers_idle_stage :
    (∀ r ∈ danceData.actions, r.LeftOut .vanilla .vanilla) ∧
      dancer.behaviours = [(Behaviour.load .vanilla .vanilla danceData).1] ∧
      (Behaviour.load .vanilla .vanilla danceData).1.builtSteps = [] ∧
      (stage.offered.candidates.map fun c => (c.head.selection, c.outcome.placements)) =
        [(⟨⟨"dancer"⟩, ⟨"dance"⟩, []⟩, stage.board.placements)] ∧
      stage.Running ⟨"white"⟩ ∧
      stage.pass ⟨"white"⟩ = .settled (stage.offering ⟨"white"⟩ ⟨"white"⟩) := by
  have running : stage.Running ⟨"white"⟩ := ⟨by decide, by decide⟩
  obtain ⟨unbuilt, -, offers⟩ := offers_idle rfl leftOut_danceData
  have rests := offers stage { id := ⟨"white"⟩, seat := ⟨1⟩ } dancer rfl List.mem_cons_self (by cbv)
    List.mem_cons_self (fun later => nomatch later)
  refine ⟨leftOut_danceData, rfl, unbuilt, ?_, running, rests.2 ⟨"white"⟩ running (by decide)⟩
  cbv

/-- Nothing could be built of the dance, but the dancer has a candidate, and settling leaves the
choice to white instead of eliminating white. -/
theorem dancer_stays :
    danceData.actions ≠ [] ∧ (∀ r ∈ danceData.actions, r.LeftOut .vanilla .vanilla) ∧
      (Query.findings ⟨{}, stage.board, dancer, .initiative, {}⟩).map (·.selection) =
        [⟨⟨"dancer"⟩, ⟨"dance"⟩, []⟩] ∧
      (stage.settle? ⟨"white"⟩).map (fun result => (result.1.active, result.1.eliminated)) =
        some (some ⟨"white"⟩, []) :=
  ⟨List.cons_ne_nil _ _, leftOut_danceData, by cbv, by cbv⟩

end Session

end BoardRules
