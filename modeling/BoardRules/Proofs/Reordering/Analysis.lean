import Mathlib
import BoardRules.Proofs.Reordering.Search
import BoardRules.Proofs.Search.Retelling

/-!
# Analyses of a reordered board

Reordering tells a board in other words (`Retelling.inOrder`).  On well-placed boards whose pieces
are all in the list, searches find the same runs and lead to such boards again
(`Retelling.sound_inOrder`), so the analysis of a reordered board is that of the board with every
link on its reordered board (`Board.analysisWhere_inOrder`).  `Board.analysis_of_perm` says this of
a board and any permutation of its placements.
-/

namespace BoardRules

variable {order : List PieceId}

/-- A run and the reactions to it on reordered boards. -/
def Candidate.inOrder (c : Candidate) (order : List PieceId) : Candidate where
  head := c.head.inOrder order
  reactions := c.reactions.map (·.inOrder order)

/-- An analysis whose links have reordered boards. -/
def Analysis.inOrder (a : Analysis) (order : List PieceId) : Analysis where
  phase := a.phase
  entries := a.entries.map fun entry => (entry.1, entry.2.map (·.inOrder order))

/-- What searches are about, on reordered boards. -/
def Retelling.inOrder (order : List PieceId) : Retelling where
  name := id
  piece := id
  board := (·.inOrder order)
  log := id
  link := (·.inOrder order)

/-- Searches hand on that a board is well placed and that a list names its placed pieces. -/
theorem handedOn_listedBy (order : List PieceId) :
    HandedOn fun b => b.WellPlaced ∧ b.ListedBy order := by
  rintro q ⟨placed, listed⟩ link hlink
  have story := Query.story_of_mem_findings placed.once hlink
  exact ⟨Query.wellPlaced_of_mem_findings placed hlink, story.listedBy placed.once listed⟩

/-- On well-placed boards whose placed pieces a list names, searches find the same when the boards
are put in the order of the list. -/
theorem Retelling.sound_inOrder (order : List PieceId) :
    (Retelling.inOrder order).Sound fun b => b.WellPlaced ∧ b.ListedBy order where
  handedOn := handedOn_listedBy order
  injective := Function.injective_id
  name _ := rfl
  pieces b := (List.map_id b.pieces).symm
  unattacked := rfl
  link _ := ⟨rfl, rfl, rfl⟩
  findings _ known := Query.findings_inOrder known.1 known.2

namespace Board

variable {b : Board}

/-- The analysis of a reordered board is that of the board, with every link on its reordered
board. -/
theorem analysisWhere_inOrder (placed : b.WellPlaced) (listed : b.ListedBy order)
    (settings : Settings) (phase : Phase) (include? : Piece → Bool) :
    (b.inOrder order).analysisWhere settings phase include? =
      (b.analysisWhere settings phase include?).inOrder order :=
  (Retelling.sound_inOrder order).analysisWhere ⟨placed, listed⟩ settings phase fun _ => rfl

/-- The order of the placements of a well-placed board does not matter.  In any other order the
analysis has the same pieces with the same candidates in the same order: only the boards of the
links are reordered, all of them in the same way.  Each has the placements that it had, and they
follow each other as on the board that was analysed. -/
theorem analysis_of_perm (placed : b.WellPlaced) {placements : List (PieceId × Square)}
    (perm : placements.Perm b.placements) (settings : Settings) (phase : Phase) :
    { b with placements }.analysis settings phase =
        (b.analysis settings phase).inOrder (placements.map Prod.fst) ∧
      ∀ c ∈ (b.analysis settings phase).candidates, ∀ link ∈ c.links,
        (link.board.inOrder (placements.map Prod.fst)).placements.Perm link.board.placements ∧
        ((link.board.inOrder (placements.map Prod.fst)).placements.map Prod.fst).Sublist
          (placements.map Prod.fst) := by
  have listed := listedBy_of_perm placed.once perm
  refine ⟨?_, fun c hc link hlink => ?_⟩
  · rw [← inOrder_of_perm placed.once perm]
    exact analysisWhere_inOrder placed listed settings phase fun _ => true
  · obtain ⟨placed', listed'⟩ :=
      (handedOn_listedBy (placements.map Prod.fst)).links ⟨placed, listed⟩ hc link hlink
    refine ⟨perm_inOrder placed'.once listed', ?_⟩
    rw [map_fst_inOrder]
    exact List.filter_sublist

end Board

/-- The raid with its placements told backwards. -/
def raidBackwards : Board := { raidBoard with placements := raidBoard.placements.reverse }

/-- Told backwards the raid has the same two candidates.  Where the king is still there, the raider
now comes after him. -/
theorem raid_told_backwards :
    raidBoard.WellPlaced ∧ raidBackwards.placements.Perm raidBoard.placements ∧
      raidBackwards.analysis {} .initiative =
        (raidBoard.analysis {} .initiative).inOrder [⟨"king"⟩, ⟨"guard"⟩, ⟨"raider"⟩] ∧
      (raidBackwards.analysis {} .initiative).candidates.map (·.finalBoard.placements) =
        [[(⟨"king"⟩, ⟨0, 2⟩), (⟨"raider"⟩, ⟨0, 1⟩)], [(⟨"raider"⟩, ⟨0, 2⟩)]] := by
  have wellPlaced : raidBoard.WellPlaced :=
    ⟨by unfold Board.PlacedOnce; decide, by decide, by decide, by decide⟩
  have perm := raidBoard.placements.reverse_perm
  refine ⟨wellPlaced, perm, (Board.analysis_of_perm wellPlaced perm {} .initiative).1, ?_⟩
  cbv

end BoardRules
