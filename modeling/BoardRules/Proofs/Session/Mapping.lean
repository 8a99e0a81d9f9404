import Mathlib
import BoardRules.Board.Storage
import BoardRules.Proofs.Session.Forward
import BoardRules.Proofs.Session.Offer
import BoardRules.Proofs.Session.Reload

/-!
# When the placements are a mapping

Placements are a row, and looking a piece up takes its first entry.  They map pieces to squares
exactly if no piece is placed twice (`Board.placedOnce_iff`): then taking a piece off leaves nothing
of it, and the square that is found is its only one.  Play never adds an entry
(`Board.lasting_noneAdded`), so whether they do is settled when the board is loaded
(`Board.mapping_of_load`).  But loading does not ask for it: the checks of placements are about
pieces that are not registered, squares off the board and squares that are taken
(`Board.placementsIssues_eq_nil_iff`), and a strict load accepts a piece that is placed twice.
Whoever takes it leaves its other entry on the board (`Board.prey_left_over`).
-/

namespace BoardRules

namespace Board

/-! ## Mappings -/

/-- If no entry of a piece is left once its first one is erased, no piece has two. -/
theorem nodup_of_eraseP {placements : List (PieceId × Square)}
    (clean : ∀ piece, ∀ placed ∈ placements.eraseP (·.1 = piece), placed.1 ≠ piece) :
    (placements.map Prod.fst).Nodup := by
  induction placements with
  | nil => exact List.nodup_nil
  | cons first rest ih =>
    have alone : ∀ placed ∈ rest, placed.1 ≠ first.1 := by
      intro placed later
      refine clean first.1 placed ?_
      rw [List.eraseP_cons_of_pos (by simp)]
      exact later
    rw [List.map_cons, List.nodup_cons]
    constructor
    · intro again
      obtain ⟨placed, later, same⟩ := List.mem_map.1 again
      exact alone placed later same
    · refine ih fun piece placed left => ?_
      by_cases same : first.1 = piece
      · subst same
        exact alone placed (List.mem_of_mem_eraseP left)
      · refine clean piece placed ?_
        rw [List.eraseP_cons_of_neg (by simpa using same)]
        exact List.mem_cons_of_mem first left

variable {b c : Board}

/-- No piece is placed twice exactly if taking a piece off leaves no entry of it, and the square
that is found for a piece is the only one it is placed on. -/
theorem placedOnce_iff :
    b.PlacedOnce ↔ ∀ piece, (∀ placed ∈ (b.lift piece).placements, placed.1 ≠ piece) ∧
      ∀ square, (piece, square) ∈ b.placements ↔ b.squareOf? piece = some square := by
  constructor
  · intro once piece
    refine ⟨fun placed left => ?_, fun square => (squareOf?_eq_some_iff once).symm⟩
    rw [placements_lift once] at left
    exact of_decide_eq_true (List.mem_filter.1 left).2
  · exact fun mapping => nodup_of_eraseP fun piece => (mapping piece).1

/-! ## What is checked -/

/-- A placement raises no issue exactly if its piece is registered and its square lies on the board
and is not taken by an earlier placement. -/
theorem placementIssues_eq_nil_iff {earlier : List (PieceId × Square)} {piece : PieceId}
    {square : Square} :
    b.placementIssues earlier piece square = [] ↔
      (b.piece? piece).isSome = true ∧ b.onBoard square = true ∧
        ∀ old ∈ earlier, old.2 ≠ square := by
  have free : earlier.find? (·.2 = square) = none ↔ ∀ old ∈ earlier, old.2 ≠ square := by
    rw [List.find?_eq_none]
    exact forall₂_congr fun old _ => decide_eq_true_iff.not
  rw [← free]
  unfold placementIssues
  cases b.piece? piece <;> cases b.onBoard square <;> cases earlier.find? (·.2 = square) <;> simp

/-- Placements raise no issue exactly if their pieces are registered, their squares lie on the board
and are not taken by earlier placements, and no square occurs twice among them. -/
theorem placementsIssues_eq_nil_iff {earlier placements : List (PieceId × Square)} :
    b.placementsIssues earlier placements = [] ↔
      (∀ placed ∈ placements, (b.piece? placed.1).isSome = true ∧ b.onBoard placed.2 = true ∧
        ∀ old ∈ earlier, old.2 ≠ placed.2) ∧
      (placements.map Prod.snd).Nodup := by
  induction placements generalizing earlier with
  | nil => simp [placementsIssues]
  | cons first rest ih =>
    obtain ⟨piece, square⟩ := first
    rw [placementsIssues, List.append_eq_nil_iff, placementIssues_eq_nil_iff, ih,
      List.forall_mem_cons, List.map_cons, List.nodup_cons]
    simp only [List.forall_mem_cons]
    constructor
    · rintro ⟨here, later, apart⟩
      refine ⟨⟨here, fun placed hplaced => ?_⟩, fun again => ?_, apart⟩
      · obtain ⟨known, inside, -, free⟩ := later placed hplaced
        exact ⟨known, inside, free⟩
      · obtain ⟨placed, hplaced, same⟩ := List.mem_map.1 again
        exact (later placed hplaced).2.2.1 same.symm
    · rintro ⟨⟨here, later⟩, single, apart⟩
      refine ⟨here, fun placed hplaced => ?_, apart⟩
      obtain ⟨known, inside, free⟩ := later placed hplaced
      exact ⟨known, inside, fun same => single (List.mem_map.2 ⟨placed, hplaced, same.symm⟩), free⟩

/-! ## Play -/

/-- No entry is added in play, and none passes another one. -/
theorem lasting_noneAdded (b : Board) :
    Lasting fun c => SameTable b c ∧
      (c.placements.map Prod.fst).Sublist (b.placements.map Prod.fst) where
  search q h link hlink := by
    have precedes := Query.precedes_of_mem_findings hlink
    exact ⟨h.1.trans precedes.table, precedes.placed.trans h.2⟩
  elimination c player h := by
    refine ⟨h.1.trans (.eliminate c player), ?_⟩
    rw [placements_eliminate]
    exact h.2

end Board

/-- The boards of a game are reached from its first one. -/
theorem Session.reached_of_reaches {s t : Session} (changed : s.Reaches t) :
    s.board.Reached t.board := by
  induction changed with
  | refl => exact .start
  | @tail before after _ change ih =>
    cases change with
    | lapse due =>
      rcases due.onward.board with same | ⟨loser, fewer⟩
      · rw [same]
        exact ih
      · rw [fewer]
        exact ih.eliminate loser
    | @play selection _ played =>
      obtain ⟨active, turn, -, c, found, rfl⟩ := play_eq_ok played
      obtain ⟨include?, offer, -⟩ := exists_offered_eq turn
      have committed : (before.board.analysisWhere before.settings before.phase include?).play
          selection = .ok c.outcome := by
        rw [← offer, Analysis.play, found]
      exact ih.commit committed
    | endTurn => exact ih

namespace Board

variable {registries : Registries} {settings : Settings} {data : Snapshot.Board} {b : Board}
  {issues : List Issue}

/-- On a board that is loaded strictly, the pieces that are placed are registered, and they stand on
squares of the board, each entry on a square of its own. -/
theorem placed_of_strict (loaded : load registries settings data = .ok (b, issues))
    (strict : settings.strict = true) :
    (∀ placed ∈ b.placements,
      (∃ piece ∈ b.pieces, piece.id = placed.1) ∧ b.onBoard placed.2 = true) ∧
      (b.placements.map Prod.snd).Nodup := by
  obtain ⟨-, raised, clean⟩ := built_of_load loaded
  rw [clean strict, eq_comm, List.append_eq_nil_iff, Board.issues, List.append_eq_nil_iff,
    List.append_eq_nil_iff, placementsIssues_eq_nil_iff] at raised
  obtain ⟨-, ⟨-, checked, apart⟩, -⟩ := raised
  refine ⟨fun placed hplaced => ?_, apart⟩
  obtain ⟨known, inside, -⟩ := checked placed hplaced
  obtain ⟨piece, found⟩ := Option.isSome_iff_exists.1 known
  have same : piece.id = placed.1 := by simpa using List.find?_some found
  exact ⟨⟨piece, List.mem_of_find?_eq_some found, same⟩, inside⟩

/-- Whether the placements of the boards of a game map pieces to squares is settled by the snapshot:
they do on all of them exactly if no piece is placed twice in its `state`.  Loading does not make
sure of it.  A strict load makes sure that the placed pieces are registered and stand on squares of
the board, no two entries on one; with a `state` that names no piece twice, every board of the game
is then well placed.  The registered pieces keep their identities, be they distinct or not. -/
theorem mapping_of_load (loaded : load registries settings data = .ok (b, issues)) :
    ((data.state.map Prod.fst).Nodup ↔
      ∀ c, b.Reached c → ∀ piece,
        (∀ placed ∈ (c.lift piece).placements, placed.1 ≠ piece) ∧
          ∀ square, (piece, square) ∈ c.placements ↔ c.squareOf? piece = some square) ∧
    (settings.strict = true →
      (∀ placed ∈ b.placements,
        (∃ piece ∈ b.pieces, piece.id = placed.1) ∧ b.onBoard placed.2 = true) ∧
      (b.placements.map Prod.snd).Nodup ∧
      ((data.state.map Prod.fst).Nodup → ∀ c, b.Reached c → c.WellPlaced)) ∧
    ∀ c, b.Reached c → c.pieces.map (·.id) = data.pieces.map (·.id) := by
  have built := (built_of_load loaded).1
  have state : b.placements = data.state := by
    rw [built]
    rfl
  have registered : b.pieces.map (·.id) = data.pieces.map (·.id) := by
    rw [built]
    change ((data.pieces.map _).map Prod.fst).map Piece.id = _
    rw [List.map_map, List.map_map]
    rfl
  rw [← state]
  refine ⟨⟨fun once c reached => ?_, fun mapping => ?_⟩, fun strict => ?_, fun c reached => ?_⟩
  · have fewer := (lasting_noneAdded b).reached ⟨.refl b, List.Sublist.refl _⟩ reached
    exact placedOnce_iff.1 (once.sublist fewer.2)
  · exact placedOnce_iff.2 (mapping b .start)
  · obtain ⟨placed, apart⟩ := placed_of_strict loaded strict
    refine ⟨placed, apart, fun once c reached => ?_⟩
    have start : b.WellPlaced :=
      { once := once
        registered := fun entry hentry => (placed entry hentry).1
        inside := fun entry hentry => (placed entry hentry).2
        apart := apart }
    exact lasting_wellPlaced.reached start reached
  · have fewer := (lasting_noneAdded b).reached ⟨.refl b, List.Sublist.refl _⟩ reached
    rw [fewer.1.pieces, registered]

/-- The raid loads strictly, and after it nothing is left of the raider once it is taken off. -/
theorem mapping_of_raid :
    load {} { strict := true } raidBoard.toSnapshot = .ok (raidBoard, []) ∧
      raidBoard.Reached (raidSession.run raidCalls).board ∧
      (raidSession.run raidCalls).board.WellPlaced ∧
      ∀ placed ∈ ((raidSession.run raidCalls).board.lift ⟨"raider"⟩).placements,
        placed.1 ≠ ⟨"raider"⟩ := by
  have loaded : load {} { strict := true } raidBoard.toSnapshot = .ok (raidBoard, []) := by cbv
  have reached : raidBoard.Reached (raidSession.run raidCalls).board :=
    Session.reached_of_reaches (raidSession.reaches_run raidCalls)
  have once : (raidBoard.toSnapshot.state.map Prod.fst).Nodup := by decide
  obtain ⟨mapping, strict, -⟩ := mapping_of_load loaded
  exact ⟨loaded, reached, (strict rfl).2.2 once _ reached,
    (mapping.1 once _ reached ⟨"raider"⟩).1⟩

/-- A hunter in front of its prey, which is registered twice and placed twice. -/
def ambush : Snapshot.Board where
  kind := basicKind
  name := "ambush"
  id := ⟨"board"⟩
  pieces :=
    [{ name := "", template := .nil, id := ⟨"hunter"⟩, image := "",
       behaviours :=
        [{ name := "", trigger := .initiative, id := ⟨"hunt"⟩,
           actions :=
            [⟨Move.kind, { id := ⟨"m"⟩ },
                [("moveType", toJson MoveModes.standard),
                 ("stepPosition", toJson [(⟨0, 1⟩ : Square)])]⟩] }] },
     { name := "", template := .nil, id := ⟨"prey"⟩, image := "", behaviours := [] },
     { name := "", template := .nil, id := ⟨"prey"⟩, image := "", behaviours := [] }]
  nations :=
    [{ head := { name := "White", id := ⟨"whites"⟩, color := 0, monarch := "white" },
       members := [.piece ⟨"hunter"⟩] },
     { head := { name := "Black", id := ⟨"blacks"⟩, color := 1, monarch := "black" },
       members := [.piece ⟨"prey"⟩] }]
  players := [{ id := ⟨"white"⟩, seat := ⟨1⟩ }, { id := ⟨"black"⟩, seat := ⟨3⟩ }]
  monitors := []
  state := [(⟨"hunter"⟩, ⟨0, 0⟩), (⟨"prey"⟩, ⟨0, 1⟩), (⟨"prey"⟩, ⟨2, 2⟩)]
  size := ⟨3, 3⟩
  losers := []

/-- The board loads strictly, with a prey that is registered twice and placed twice.  Once it is
taken off it still stands on its second square, and so it does after the hunter has taken it. -/
theorem prey_left_over :
    ∃ b, load {} { strict := true } ambush = .ok (b, []) ∧
      ¬(b.placements.map Prod.fst).Nodup ∧ ¬(b.pieces.map (·.id)).Nodup ∧
      (b.lift ⟨"prey"⟩).squareOf? ⟨"prey"⟩ = some ⟨2, 2⟩ ∧
      ∃ c, b.Reached c ∧ c.placements = [(⟨"hunter"⟩, ⟨0, 1⟩), (⟨"prey"⟩, ⟨2, 2⟩)] := by
  have outcome : (((build {} ambush).1.analysis {} .initiative).find?
      ⟨⟨"hunter"⟩, ⟨"hunt"⟩, [0]⟩).map (·.outcome.placements) =
        some [(⟨"hunter"⟩, ⟨0, 1⟩), (⟨"prey"⟩, ⟨2, 2⟩)] := by cbv
  obtain ⟨c, found, left⟩ := Option.map_eq_some_iff.1 outcome
  have played : ((build {} ambush).1.analysis {} .initiative).play
      ⟨⟨"hunter"⟩, ⟨"hunt"⟩, [0]⟩ = .ok c.outcome := by
    unfold Analysis.play
    rw [found]
  exact ⟨(build {} ambush).1, by cbv, by decide, by decide, by decide, c.outcome,
    .commit .start played, left⟩

end Board

end BoardRules
