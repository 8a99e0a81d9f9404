import Mathlib
import BoardRules.Proofs.Session.Offer
import BoardRules.Proofs.Session.Playout
import BoardRules.Proofs.Session.Reload

/-!
# Selections as names

A selection names a candidate by its piece, its behaviour and its branch numbers.  The numbers tell
the runs of one behaviour apart, and the identities are to tell the behaviours and the pieces apart
(`Board.Distinguished`).  Then no two candidates have the same name
(`Board.Distinguished.nodup_selections`), and playing a name comes to the outcome of its candidate
(`Board.Distinguished.play`).  Nothing of this is checked when a board is loaded: behaviours that
were stored without an identity get the same one, and a look-up stops at the first candidate with a
selection, or at the first piece with an identity (`namesakes_confused`).
-/

namespace BoardRules

/-! ## The candidates of a piece -/

namespace Query

variable {q : Query}

/-- A finished run is one of the behaviour with which it started. -/
theorem Leads.behaviour_eq {steps : List Step} {link last : Link} (h : q.Leads steps link last) :
    last.selection.behaviour = link.selection.behaviour := by
  induction h with
  | stop link => rfl
  | pass passes next ih => exact ih
  | take clear found bound next ih => exact ih

/-- No two runs of a behaviour have the same selection. -/
theorem pairwise_runs (q : Query) (behaviour : Behaviour) :
    (q.runs behaviour).Pairwise fun l m => l.selection ≠ m.selection := by
  rw [runs_eq_enumerate]
  refine (q.pairwise_enumerate _ _).imp fun {l m} less same => ?_
  rw [same] at less
  exact List.lt_irrefl _ less

/-- Runs are those of their behaviour. -/
theorem behaviour_of_mem_runs {behaviour : Behaviour} {link : Link} (h : link ∈ q.runs behaviour) :
    link.selection.behaviour = behaviour.id := by
  rw [runs_eq_enumerate, mem_enumerate_iff] at h
  exact h.behaviour_eq

/-- Where no two behaviours with the trigger share an identity, no two findings have the same
selection. -/
theorem nodup_selections (distinct : ((q.piece.triggered q.trigger).map (·.id)).Nodup) :
    (q.findings.map (·.selection)).Nodup := by
  rw [findings_eq]
  split
  · exact List.nodup_nil
  · rw [List.Nodup, List.pairwise_map] at distinct ⊢
    rw [List.pairwise_flatMap]
    refine ⟨fun behaviour _ => q.pairwise_runs behaviour, distinct.imp fun {a b} differ => ?_⟩
    intro l hl m hm same
    rw [← behaviour_of_mem_runs hl, ← behaviour_of_mem_runs hm, same] at differ
    exact differ rfl

end Query

/-! ## The candidates of an analysis -/

/-- The outcome of a candidate is its final board, with those who fall among the losers. -/
theorem Candidate.outcome_eq (c : Candidate) :
    c.outcome = { c.finalBoard with losers := c.fallen.foldl enrol c.finalBoard.losers } :=
  c.finalBoard.foldl_eliminate_eq_enrol c.fallen

namespace Board

variable {b : Board} {settings : Settings} {phase : Phase} {include? : Piece → Bool}

/-- Identities tell the pieces apart, and of each piece the behaviours that fire in a phase. -/
structure Distinguished (b : Board) (phase : Phase) : Prop where
  pieces : (b.pieces.map (·.id)).Nodup
  behaviours : ∀ piece ∈ b.pieces, ((piece.triggered phase.trigger).map (·.id)).Nodup

namespace Distinguished

/-- No two candidates have the same selection. -/
theorem nodup_selections (h : b.Distinguished phase) :
    ((b.analysisWhere settings phase include?).candidates.map (·.head.selection)).Nodup := by
  have entries : ((b.analysisWhere settings phase include?).entries.map Prod.fst).Nodup :=
    nodup_entries h.pieces
  unfold Analysis.candidates
  rw [List.Nodup, List.pairwise_map] at entries ⊢
  rw [List.pairwise_flatMap]
  constructor
  · intro entry listed
    obtain ⟨-, piece, known, -, rfl⟩ := exists_piece_of_mem_entries listed
    have findings := Query.nodup_selections (q := ⟨settings, b, piece, phase.trigger, {}⟩)
      (h.behaviours piece known)
    rw [List.Nodup, List.pairwise_map] at findings
    exact List.pairwise_map.2 findings
  · refine entries.imp_of_mem fun {first second} hfirst hsecond differ => ?_
    obtain ⟨-, piece, -, -, rfl⟩ := exists_piece_of_mem_entries hfirst
    obtain ⟨-, other, -, -, rfl⟩ := exists_piece_of_mem_entries hsecond
    intro c hc d hd same
    have moves := piece_of_mem_candidatesOf hc
    rw [same, piece_of_mem_candidatesOf hd] at moves
    exact differ moves.symm

/-- A candidate's selection finds the candidate. -/
theorem find?_eq_some (h : b.Distinguished phase) {c : Candidate}
    (hc : c ∈ (b.analysisWhere settings phase include?).candidates) :
    (b.analysisWhere settings phase include?).find? c.head.selection = some c := by
  obtain ⟨d, found⟩ := (exists_find?_iff h.pieces c.head.selection).2 ⟨c, hc, rfl⟩
  have carries : d.head.selection = c.head.selection := by simpa using List.find?_some found
  have same : d = c := List.inj_on_of_nodup_map h.nodup_selections
    (Analysis.mem_candidates_of_find? found) hc carries
  rw [found, same]

/-- Playing a candidate's selection comes to the outcome of the candidate. -/
theorem play (h : b.Distinguished phase) {c : Candidate}
    (hc : c ∈ (b.analysisWhere settings phase include?).candidates) :
    (b.analysisWhere settings phase include?).play c.head.selection = .ok c.outcome := by
  unfold Analysis.play
  rw [h.find?_eq_some hc]

end Distinguished

/-! ## Loaded boards -/

/-- Loading keeps the identities of pieces and behaviours. -/
theorem distinguished_of_load {registries : Registries} {config : Settings}
    {data : Snapshot.Board} {issues : List Issue}
    (loaded : load registries config data = .ok (b, issues))
    (pieces : (data.pieces.map (·.id)).Nodup)
    (behaviours : ∀ piece ∈ data.pieces,
      ((piece.behaviours.filter (·.trigger = phase.trigger)).map (·.id)).Nodup) :
    b.Distinguished phase := by
  have built : b.pieces =
      data.pieces.map fun p => (Piece.load registries.types registries.vocabulary p).1 := by
    rw [(built_of_load loaded).1]
    exact List.map_map
  constructor
  · rw [built, List.map_map]
    exact pieces
  · intro piece known
    rw [built] at known
    obtain ⟨stored, listed, rfl⟩ := List.mem_map.1 known
    have kept : (((Piece.load registries.types registries.vocabulary stored).1).triggered
        phase.trigger).map (·.id) =
          (stored.behaviours.filter (·.trigger = phase.trigger)).map (·.id) := by
      unfold Piece.load Piece.triggered
      dsimp only
      rw [List.map_map, List.filter_map, List.map_map]
      rfl
    rw [kept]
    exact behaviours stored listed

/-- Where no two stored pieces share an identity, nor two behaviours of one of them that fire in a
phase, no two candidates of an analysis of the loaded board have the same selection, and playing the
selection of a candidate succeeds and comes to the final board of this candidate, with those who
fall by it among the losers. -/
theorem selections_name_candidates {registries : Registries} {config : Settings}
    {data : Snapshot.Board} {issues : List Issue}
    (loaded : load registries config data = .ok (b, issues))
    (pieces : (data.pieces.map (·.id)).Nodup) (phase : Phase)
    (behaviours : ∀ piece ∈ data.pieces,
      ((piece.behaviours.filter (·.trigger = phase.trigger)).map (·.id)).Nodup)
    (settings : Settings) (include? : Piece → Bool) :
    ((b.analysisWhere settings phase include?).candidates.map (·.head.selection)).Nodup ∧
      ∀ c ∈ (b.analysisWhere settings phase include?).candidates,
        (b.analysisWhere settings phase include?).play c.head.selection =
          .ok { c.finalBoard with losers := c.fallen.foldl enrol c.finalBoard.losers } := by
  have distinguished := distinguished_of_load loaded pieces behaviours
  refine ⟨distinguished.nodup_selections, fun c hc => ?_⟩
  rw [← c.outcome_eq]
  exact distinguished.play hc

end Board

/-- The snapshot of the raid loads without an issue, and each of its candidates is played by its
selection; black falls by the run up to the king. -/
theorem selections_name_raids :
    Board.load {} {} raidBoard.toSnapshot = .ok (raidBoard, []) ∧
      ((raidBoard.analysis {} .initiative).candidates.map (·.head.selection)).Nodup ∧
      ∃ c ∈ (raidBoard.analysis {} .initiative).candidates,
        c.head.selection = ⟨⟨"raider"⟩, ⟨"raid"⟩, [0, 1]⟩ ∧ c.fallen = [⟨"black"⟩] ∧
          (raidBoard.analysis {} .initiative).play ⟨⟨"raider"⟩, ⟨"raid"⟩, [0, 1]⟩ =
            .ok { c.finalBoard with losers := [⟨"black"⟩] } := by
  have loaded : Board.load {} {} raidBoard.toSnapshot = .ok (raidBoard, []) := by cbv
  obtain ⟨nodup, plays⟩ := Board.selections_name_candidates loaded (by decide) .initiative
    (by decide) {} fun _ => true
  have found : ((raidBoard.analysis {} .initiative).find? ⟨⟨"raider"⟩, ⟨"raid"⟩, [0, 1]⟩).map
      (fun c => (c.fallen, c.finalBoard.losers)) = some ([⟨"black"⟩], [⟨"black"⟩]) := by cbv
  obtain ⟨c, named, parts⟩ := Option.map_eq_some_iff.1 found
  obtain ⟨falls, lost⟩ := Prod.mk.inj parts
  have listed : c ∈ (raidBoard.analysis {} .initiative).candidates :=
    Analysis.mem_candidates_of_find? named
  have carries : c.head.selection = ⟨⟨"raider"⟩, ⟨"raid"⟩, [0, 1]⟩ := by
    simpa using List.find?_some named
  have played := plays c listed
  rw [carries, falls, lost] at played
  exact ⟨loaded, nodup, c, listed, carries, falls, played⟩

/-- A board on which white has some pieces, one of which stands in the corner. -/
def whiteBoard (pieces : List Piece) (cornered : PieceId) : Board :=
  { Board.empty "names" ⟨3, 3⟩ with
    pieces
    nations :=
      { nodes := [{ id := ⟨"whites"⟩, monarch := some ⟨"white"⟩, children := [.piece cornered] }]
        roots := [0] }
    players := [{ id := ⟨"white"⟩, seat := ⟨1⟩ }, { id := ⟨"black"⟩, seat := ⟨3⟩ }]
    placements := [(cornered, ⟨0, 0⟩)] }

/-- A step to the side. -/
def sidewaysBehaviour (name : String) : Behaviour where
  id := ⟨name⟩
  name := name
  trigger := .initiative
  steps := [.action (.move { vectors := [⟨1, 0⟩] })]

/-- A piece that may step forward or to the side, by two behaviours without an identity. -/
def unnamedBehaviours : Board :=
  whiteBoard
    [{ id := ⟨"twin"⟩
       behaviours :=
        [{ forwardBehaviour "ahead" .initiative with id := .nil },
         { sidewaysBehaviour "aside" with id := .nil }] }] ⟨"twin"⟩

/-- Two pieces with one identity.  The first one may step forward and the second one to the side. -/
def namesakes : Board :=
  whiteBoard
    [{ id := ⟨"twin"⟩, behaviours := [forwardBehaviour "ahead" .initiative] },
     { id := ⟨"twin"⟩, behaviours := [sidewaysBehaviour "aside"] }] ⟨"twin"⟩

/-- Both boards load without an issue.  Of two behaviours without an identity only the first one can
be played, whichever is meant; and of two pieces with one identity the second one's candidate is
refused. -/
theorem namesakes_confused :
    (Board.load {} {} unnamedBehaviours.toSnapshot = .ok (unnamedBehaviours, []) ∧
      (unnamedBehaviours.analysis {} .initiative).candidates.map
          (fun c => (c.head.selection, c.outcome.placements)) =
        [(⟨⟨"twin"⟩, .nil, [0]⟩, [(⟨"twin"⟩, ⟨0, 1⟩)]),
         (⟨⟨"twin"⟩, .nil, [0]⟩, [(⟨"twin"⟩, ⟨1, 0⟩)])] ∧
      ((unnamedBehaviours.analysis {} .initiative).play ⟨⟨"twin"⟩, .nil, [0]⟩).map (·.placements) =
        .ok [(⟨"twin"⟩, ⟨0, 1⟩)]) ∧
    Board.load {} {} namesakes.toSnapshot = .ok (namesakes, []) ∧
      (namesakes.analysis {} .initiative).candidates.map (·.head.selection) =
        [⟨⟨"twin"⟩, ⟨"ahead"⟩, [0]⟩, ⟨⟨"twin"⟩, ⟨"aside"⟩, [0]⟩] ∧
      (namesakes.analysis {} .initiative).play ⟨⟨"twin"⟩, ⟨"aside"⟩, [0]⟩ =
        .error (.notOffered ⟨⟨"twin"⟩, ⟨"aside"⟩, [0]⟩) := by
  refine ⟨⟨?_, ?_, ?_⟩, ?_, ?_, ?_⟩
  all_goals cbv

end BoardRules
