import Mathlib
import BoardRules.Proofs.Guise.Search
import BoardRules.Proofs.Search.Retelling

/-!
# Analyses under a guise

A guise tells a board in other words (`Guise.retelling`).  Where it is faithful, searches find the
same runs under it and hand on that it is faithful (`Guise.sound_retelling`).  So the analysis of a
board under the guise is the analysis of the board, told in the words of the guise
(`Board.analysisWhere_under`).
-/

namespace BoardRules

/-- What searches are about, under a guise. -/
def Guise.retelling (g : Guise) : Retelling where
  name := g.piece
  piece := (·.under g)
  board := (·.under g)
  log := (·.under g)
  link := (·.under g)

/-- Searches hand on that a guise is faithful. -/
theorem handedOn_faithful (g : Guise) : HandedOn g.Faithful :=
  fun _ faithful _ hlink => Query.faithful_of_mem_findings faithful hlink

/-- On boards where a guise is faithful, searches find the same under it. -/
theorem Guise.sound_retelling (g : Guise) : g.retelling.Sound g.Faithful where
  handedOn := handedOn_faithful g
  injective := g.piece_injective
  name _ := rfl
  pieces _ := rfl
  unattacked := rfl
  link _ := ⟨rfl, rfl, rfl⟩
  findings _ faithful := Query.findings_under faithful

/-- The analysis under a guise is that of the board in the words of the guise. -/
theorem Board.analysisWhere_under {g : Guise} {b : Board} (faithful : g.Faithful b)
    (settings : Settings) (phase : Phase) {include? included : Piece → Bool}
    (same : ∀ piece, included (piece.under g) = include? piece) :
    (b.under g).analysisWhere settings phase included =
      (b.analysisWhere settings phase include?).under g :=
  g.sound_retelling.analysisWhere faithful settings phase same

end BoardRules
