import Mathlib
import BoardRules.Proofs.Guise.Analysis
import BoardRules.Proofs.Session.Offer

/-!
# Playing under a guise

Whatever is on offer is on offer under a faithful guise (`Session.offered_under`), and playing it
under the guise is playing it (`Session.play_under`).  Having lost is a guise as well: it changes
nothing but the list of losers (`Guise.defeat`), which neither the offer nor playing asks for.  So a
session plays the same selections as if nobody had lost before (`Session.play_pardoned`), and it is
settling alone that keeps those who have lost from moving (`Session.raidOfDefeated_plays`).
-/

namespace BoardRules

variable {g : Guise}

/-! ## Looking up candidates -/

/-- If behaviours keep different names, selections are told apart. -/
theorem Selection.under_injective (behaviours : Function.Injective g.behaviour) :
    Function.Injective (Selection.under · g) := by
  rintro ⟨piece, behaviour, indices⟩ ⟨piece', behaviour', indices'⟩ same
  obtain ⟨samePiece, sameBehaviour, sameIndices⟩ := Selection.mk.inj same
  obtain rfl : piece = piece' := g.piece_injective samePiece
  obtain rfl : behaviour = behaviour' := behaviours sameBehaviour
  obtain rfl : indices = indices' := sameIndices
  rfl

namespace Analysis

variable (a : Analysis)

/-- The candidates of a piece are those of its new name. -/
theorem of_under (piece : PieceId) :
    (a.under g).of (g.piece piece) = (a.of piece).map (·.under g) := by
  unfold Analysis.of Analysis.under
  rw [lookup_map_prodMap g.piece_injective]
  cases a.entries.lookup piece <;> rfl

/-- A selection finds the same candidate. -/
theorem find?_under (behaviours : Function.Injective g.behaviour) (selection : Selection) :
    (a.under g).find? (selection.under g) = (a.find? selection).map (·.under g) := by
  have carried : (fun c : Candidate => decide (c.head.selection = selection.under g)) ∘
      (Candidate.under · g) = fun c => decide (c.head.selection = selection) := by
    funext c
    exact decide_eq_decide.2 (Selection.under_injective behaviours).eq_iff
  have row : (a.under g).of (selection.under g).piece = (a.of selection.piece).map (·.under g) :=
    a.of_under selection.piece
  unfold Analysis.find?
  rw [row, List.find?_map, carried]

end Analysis

namespace Candidate

variable (c : Candidate)

/-- The same players fall. -/
theorem fallen_under : (c.under g).fallen = c.fallen := by
  have links : (c.under g).links = c.links.map (·.under g) := rfl
  have loses : (fun link : Link => link.deltas.loser?) ∘ (Link.under · g) =
      fun link => link.deltas.loser? := by
    funext link
    exact link.deltas.loser?_under g
  unfold fallen
  rw [links, List.filterMap_map, loses]

/-- A candidate ends on the same board under the guise. -/
theorem finalBoard_under : (c.under g).finalBoard = c.finalBoard.under g := by
  have final : (c.under g).last = c.last.under g := by
    unfold last under
    rw [List.getLast?_map]
    cases c.reactions.getLast? <;> rfl
  unfold finalBoard
  rw [final]
  rfl

/-- The same board comes out. -/
theorem outcome_under : (c.under g).outcome = c.outcome.under g := by
  unfold outcome
  rw [fallen_under, finalBoard_under]
  generalize c.finalBoard = b
  induction c.fallen generalizing b with
  | nil => rfl
  | cons player rest ih => rw [List.foldl_cons, List.foldl_cons, b.eliminate_under, ih]

end Candidate

/-! ## Sessions -/

/-- Why a selection is refused under a guise. -/
def TurnFault.under (fault : TurnFault) (g : Guise) : TurnFault :=
  match fault with
  | .noPlayers => .noPlayers
  | .foreignPiece piece player => .foreignPiece (g.piece piece) player
  | .notOffered selection => .notOffered (selection.under g)

namespace Session

/-- A session under a guise. -/
def under (s : Session) (g : Guise) : Session :=
  { s with board := s.board.under g, mover := s.mover.map g.piece }

variable {s : Session}

/-- It is the same player's turn under the guise. -/
theorem active?_under (s : Session) (g : Guise) :
    (s.under g).active? = s.active?.map (·.under g) := by
  have seats : (s.under g).board.players = s.board.players.map (·.under g) := rfl
  unfold active?
  rw [seats, List.length_map, List.getElem?_map]
  rfl

/-- The same is on offer. -/
theorem offered_under (faithful : g.Faithful s.board) :
    (s.under g).offered = s.offered.under g := by
  have own (phase : Phase) (player : PlayerId) :
      (s.board.under g).analysisFor s.settings phase player =
        (s.board.analysisFor s.settings phase player).under g :=
    Board.analysisWhere_under faithful s.settings phase fun piece =>
      s.board.owns_under g player piece.id
  have one (mover : PieceId) :
      (s.board.under g).analysisOf s.settings .immediately (g.piece mover) =
        (s.board.analysisOf s.settings .immediately mover).under g :=
    Board.analysisWhere_under faithful s.settings .immediately fun _ =>
      decide_eq_decide.2 g.piece_injective.eq_iff
  have phase : (s.under g).phase = s.phase := rfl
  unfold offered
  rw [active?_under, phase]
  cases s.active? with
  | none => rfl
  | some active =>
    have moved : (s.under g).mover = s.mover.map g.piece := rfl
    rw [moved]
    cases s.phase with
    | initiative => exact own .initiative active.id
    | immediately =>
      cases s.mover with
      | none => exact own .immediately active.id
      | some mover =>
        have owned : (s.under g).board.owns active.id (g.piece mover) =
            s.board.owns active.id mover := s.board.owns_under g active.id mover
        simp only [Option.map_some]
        change (if (s.under g).board.owns active.id (g.piece mover) then _ else _) = _
        rw [owned]
        split
        · exact one mover
        · rfl

/-- Playing under a guise is playing. -/
theorem play_under (faithful : g.Faithful s.board) (behaviours : Function.Injective g.behaviour)
    (selection : Selection) :
    (s.under g).play (selection.under g) =
      ((s.play selection).map (·.under g)).mapError (·.under g) := by
  have found := s.offered.find?_under behaviours selection
  rw [← offered_under faithful] at found
  unfold play
  rw [active?_under]
  cases s.active? with
  | none => rfl
  | some active =>
    have owned : (s.under g).board.owns (active.under g).id (selection.under g).piece =
        s.board.owns active.id selection.piece :=
      s.board.owns_under g active.id selection.piece
    dsimp only [Option.map_some]
    rw [owned]
    split
    · unfold Analysis.play
      rw [found]
      cases s.offered.find? selection with
      | none => rfl
      | some c =>
        simp only [Option.map_some]
        rw [c.outcome_under]
        rfl
    · rfl

end Session

/-! ## Having lost before -/

/-- Whoever loses loses after the earlier losers. -/
theorem foldl_enrol_enrol (losers earlier : List PlayerId) (player : PlayerId) :
    (enrol losers player).foldl enrol earlier = enrol (losers.foldl enrol earlier) player := by
  by_cases known : player ∈ losers
  · have kept : player ∈ losers.foldl enrol earlier := mem_foldl_enrol.2 (Or.inr known)
    have same : enrol losers player = losers := if_pos (List.contains_iff_mem.2 known)
    have still : enrol (losers.foldl enrol earlier) player = losers.foldl enrol earlier :=
      if_pos (List.contains_iff_mem.2 kept)
    rw [same, still]
  · have added : enrol losers player = losers ++ [player] :=
      if_neg fun h => known (List.contains_iff_mem.1 h)
    rw [added, List.foldl_append]
    rfl

/-- Some players have lost before. -/
def Guise.defeat (earlier : List PlayerId) : Guise where
  losers := (·.foldl enrol earlier)
  losers_enrol losers player := foldl_enrol_enrol losers earlier player

namespace Session

/-- The session with earlier losers. -/
def defeating (s : Session) (earlier : List PlayerId) : Session :=
  { s with board := { s.board with losers := s.board.losers.foldl enrol earlier } }

/-- The session as if nobody had lost. -/
def pardoned (s : Session) : Session := { s with board := { s.board with losers := [] } }

/-- A session is the pardoned one with its own losers put back. -/
theorem defeating_pardoned (s : Session) : s.pardoned.defeating s.board.losers = s := rfl

/-- Under the guise of earlier losers a session has these losers and is otherwise the same. -/
theorem under_defeat (s : Session) (earlier : List PlayerId) :
    s.under (.defeat earlier) = s.defeating earlier := by
  have players : s.board.players.map (·.under (.defeat earlier)) = s.board.players :=
    List.map_id'' (fun _ => rfl) _
  have placements : s.board.placements.map
      (Prod.map (Guise.defeat earlier).piece (Guise.defeat earlier).square) =
        s.board.placements := List.map_id'' (fun _ => rfl) _
  have mover : s.mover.map (Guise.defeat earlier).piece = s.mover := Option.map_id_apply
  unfold under
  rw [Board.under_eq_of_names rfl rfl, players, placements, mover]
  rfl

/-- With earlier losers the same selections are played. -/
theorem play_defeating (s : Session) (earlier : List PlayerId) (selection : Selection) :
    (s.defeating earlier).play selection = (s.play selection).map (·.defeating earlier) := by
  have played : (s.under (.defeat earlier)).play selection =
      ((s.play selection).map (·.under (.defeat earlier))).mapError (·.under (.defeat earlier)) :=
    play_under (Guise.faithful_of_places rfl rfl rfl s.board) Function.injective_id selection
  rw [under_defeat] at played
  rw [played]
  cases s.play selection with
  | ok next => exact congrArg Except.ok (next.under_defeat earlier)
  | error fault => cases fault <;> rfl

/-- Playing does not ask who has lost: a session plays what it would play if nobody had, and it
plays something exactly if it offers something. -/
theorem play_pardoned (s : Session) :
    (∀ selection, s.play selection =
        (s.pardoned.play selection).map (·.defeating s.board.losers)) ∧
      ((∃ selection next, s.play selection = .ok next) ↔ s.offered.isEmpty = false) := by
  refine ⟨fun selection => ?_, exists_play_iff⟩
  have played := s.pardoned.play_defeating s.board.losers selection
  rwa [defeating_pardoned] at played

/-- The raid when white has lost before it begins. -/
def raidOfDefeated : Session := raidSession.defeating [⟨"white"⟩]

/-- Settling skips white, who has lost; but white can play the raid. -/
theorem raidOfDefeated_plays :
    raidOfDefeated.active?.map (·.id) = some ⟨"white"⟩ ∧
      raidOfDefeated.board.hasLost ⟨"white"⟩ = true ∧
      raidOfDefeated.pass ⟨"white"⟩ = .skip ⟨"white"⟩ raidOfDefeated.endTurn ∧
      ∃ next, raidOfDefeated.play ⟨⟨"raider"⟩, ⟨"raid"⟩, [0, 1]⟩ = .ok next ∧
        next.subRound = 1 ∧ next.board.placements = [(⟨"raider"⟩, ⟨0, 2⟩)] := by
  refine ⟨rfl, rfl, rfl, ?_⟩
  have played : (raidOfDefeated.play ⟨⟨"raider"⟩, ⟨"raid"⟩, [0, 1]⟩).toOption.map
      (fun next => (next.subRound, next.board.placements)) =
        some (1, [(⟨"raider"⟩, ⟨0, 2⟩)]) := by cbv
  cases outcome : raidOfDefeated.play ⟨⟨"raider"⟩, ⟨"raid"⟩, [0, 1]⟩ with
  | error fault =>
    rw [outcome] at played
    cases played
  | ok next =>
    rw [outcome] at played
    obtain ⟨counted, placed⟩ := Prod.mk.inj (Option.some.inj played)
    exact ⟨next, rfl, counted, placed⟩

end Session

end BoardRules
