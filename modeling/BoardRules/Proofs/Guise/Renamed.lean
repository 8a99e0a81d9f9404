import Mathlib
import BoardRules.Proofs.Guise.Analysis

/-!
# Pieces under other names

Nothing reads a piece's name: pieces are told apart by it, and that is all.  So new names that tell
them apart as well are a guise (`Guise.renaming`), faithful to every board, and the analysis of the
renamed board is the renamed analysis (`Board.analysis_renamed`).  Behaviours may even share a
name.
-/

namespace BoardRules

/-- The pieces and the behaviours of a game under other names. -/
def Guise.renaming (names : PieceId → PieceId) (injective : Function.Injective names)
    (behaviours : BehaviourId → BehaviourId) : Guise where
  piece := names
  behaviour := behaviours
  piece_injective := injective

/-- The analysis of a board whose pieces and behaviours have other names is its analysis under these
names: the same candidates in the same order, with the same indices, squares and reactions. -/
theorem Board.analysis_renamed (names : PieceId → PieceId) (injective : Function.Injective names)
    (behaviours : BehaviourId → BehaviourId) (b : Board) (settings : Settings) (phase : Phase) :
    (b.under (.renaming names injective behaviours)).analysis settings phase =
      (b.analysis settings phase).under (.renaming names injective behaviours) :=
  Board.analysisWhere_under (Guise.faithful_of_places rfl rfl rfl b) settings phase fun _ => rfl

/-- The raider and the king of the raid exchange their names, and all behaviours get one name. -/
def raidExchange : Guise :=
  .renaming (Equiv.swap ⟨"raider"⟩ ⟨"king"⟩) (Equiv.injective _) fun _ => ⟨"deed"⟩

/-- When the raider and the king exchange their names, it is a king that takes the raider. -/
theorem raid_with_exchanged_names :
    (raidBoard.under raidExchange).analysis {} .initiative =
        (raidBoard.analysis {} .initiative).under raidExchange ∧
      ((raidBoard.under raidExchange).analysis {} .initiative).candidates.map
          (·.links.map (·.selection)) =
        [[⟨⟨"king"⟩, ⟨"deed"⟩, [0, 0]⟩],
          [⟨⟨"king"⟩, ⟨"deed"⟩, [0, 1]⟩, ⟨⟨"raider"⟩, ⟨"deed"⟩, [0, 0]⟩]] := by
  refine ⟨Board.analysis_renamed _ (Equiv.injective _) _ raidBoard {} .initiative, ?_⟩
  cbv

end BoardRules
