import Mathlib
import BoardRules.Guard.Evaluation
import BoardRules.Proofs.Reordering.Board

/-!
# Searches on a reordered board

Guards and actions ask a board where a piece stands and who stands on a square.  On a well-placed
board the answers do not depend on the order of the placements, so conditions let the same runs pass
(`Condition.passes_inOrder`) and actions have the same branches (`Action.branches_inOrder`).
Applying deltas that fit the board and reordering commute (`DeltaSet.apply_inOrder`).  The deltas of
a run always fit, and the boards along it stay well placed with no new pieces on them; hence the
search finds the same runs in the same order, each on the reordered board (`findings_inOrder`).
-/

namespace BoardRules

variable {order : List PieceId}

/-! ## Guards -/

namespace Guard

/-- What a guard can look at on the reordered board. -/
def Context.inOrder (context : Context) (order : List PieceId) : Context :=
  { context with board := context.board.inOrder order }

variable {context : Context} {b : Board}

/-- A piece has the same coordinates in the frame of its owner. -/
theorem ownView?_inOrder (listed : b.ListedBy order) (piece : PieceId) :
    ownView? (b.inOrder order) piece = ownView? b piece := by
  unfold ownView?
  rw [Board.squareOf?_inOrder listed]
  rfl

/-- The same piece is seen on a square in the frame of a player. -/
theorem pieceSeenAt?_inOrder (placed : b.WellPlaced) (listed : b.ListedBy order)
    (x y viewer : Value) :
    pieceSeenAt? (b.inOrder order) x y viewer = pieceSeenAt? b x y viewer := by
  unfold pieceSeenAt?
  simp only [Board.occupant?_inOrder placed listed]
  rfl

/-- A primitive gives the same value. -/
theorem Primitive.apply_inOrder (placed : context.board.WellPlaced)
    (listed : context.board.ListedBy order) (primitive : Primitive) (args : List Value) :
    primitive.apply (context.inOrder order) args = primitive.apply context args := by
  cases primitive with
  | and | or => rfl
  | not | xor | equal | different | isNull | self | me | attacker =>
    rcases args with _ | ⟨v, _ | ⟨w, _ | ⟨u, rest⟩⟩⟩ <;> rfl
  | owner | moveCount =>
    rcases args with _ | ⟨v, _ | ⟨w, rest⟩⟩
    · rfl
    · cases v <;> rfl
    · cases v <;> rfl
  | localX | localY =>
    rcases args with _ | ⟨v, _ | ⟨w, rest⟩⟩
    · rfl
    · cases v with
      | piece id => simp only [apply, Context.inOrder, ownView?_inOrder listed id]
      | _ => rfl
    · cases v <;> rfl
  | pieceOn =>
    rcases args with _ | ⟨x, _ | ⟨y, _ | ⟨viewer, _ | ⟨w, rest⟩⟩⟩⟩
    · rfl
    · rfl
    · rfl
    · simp only [apply, Context.inOrder, pieceSeenAt?_inOrder placed listed]
    · rfl

mutual

/-- A guard gives the same value. -/
theorem eval_inOrder (placed : context.board.WellPlaced)
    (listed : context.board.ListedBy order) :
    ∀ guard : Guard, guard.eval (context.inOrder order) = guard.eval context
  | .text s => rfl
  | .call primitive args => by
    rw [eval, eval, evalAll_inOrder placed listed args, primitive.apply_inOrder placed listed]

/-- Arguments give the same values. -/
theorem evalAll_inOrder (placed : context.board.WellPlaced)
    (listed : context.board.ListedBy order) :
    ∀ guards : List Guard, evalAll (context.inOrder order) guards = evalAll context guards
  | [] => rfl
  | guard :: rest => by
    rw [evalAll, evalAll, eval_inOrder placed listed guard, evalAll_inOrder placed listed rest]

end

end Guard

/-- A condition lets pass what it let pass before. -/
theorem Condition.passes_inOrder (context : Guard.Context) (placed : context.board.WellPlaced)
    (listed : context.board.ListedBy order) (c : Condition) :
    c.passes (context.inOrder order) = c.passes context := by
  unfold passes Guard.holds
  simp only [Guard.eval_inOrder placed listed]

/-! ## Branches -/

section Branches

variable {b : Board}

/-- A move does the same on a square. -/
theorem Move.outcomes_inOrder (placed : b.WellPlaced) (listed : b.ListedBy order) (m : Move)
    (deltas : DeltaSet) (piece : PieceId) (aim : Square) :
    m.outcomes (b.inOrder order) deltas piece aim = m.outcomes b deltas piece aim := by
  unfold outcomes
  rw [Board.occupant?_inOrder placed listed]
  rfl

/-- A move reaches the same squares. -/
theorem Move.targets_inOrder (placed : b.WellPlaced) (listed : b.ListedBy order) (m : Move)
    (origin v : Square) : m.targets (b.inOrder order) origin v = m.targets b origin v := by
  unfold targets
  simp only [Board.occupant?_inOrder placed listed]
  rfl

/-- Every action has the same branches in the same order. -/
theorem Action.branches_inOrder (placed : b.WellPlaced) (listed : b.ListedBy order) (a : Action)
    (deltas : DeltaSet) (piece : PieceId) :
    a.branches (b.inOrder order) deltas piece = a.branches b deltas piece := by
  cases a with
  | move m =>
    unfold branches Move.branches
    have same : m.outcomes (b.inOrder order) deltas piece = m.outcomes b deltas piece :=
      funext fun aim => m.outcomes_inOrder placed listed deltas piece aim
    simp only [same, m.targets_inOrder placed listed]
    rfl
  | lose header => rfl

end Branches

/-! ## Applying deltas -/

section Apply

variable {b : Board} {piece : PieceId}

/-- Taking a piece off leaves no piece placed twice, and adds none. -/
theorem Board.ListedBy.lift (once : b.PlacedOnce) (listed : b.ListedBy order) (piece : PieceId) :
    (b.lift piece).PlacedOnce ∧ (b.lift piece).ListedBy order := by
  have fewer : ((b.lift piece).placements.map Prod.fst).Sublist (b.placements.map Prod.fst) :=
    List.eraseP_sublist.map Prod.fst
  exact ⟨once.sublist fewer, listed.once, fun id placed => listed.all id (fewer.subset placed)⟩

/-- A strike on a board in another order takes the same piece and leaves the same record. -/
theorem strike_inOrder (listed : b.ListedBy order) (once : b.PlacedOnce) (attacker : PieceId)
    (log : AttackLog) (victim : PieceId) :
    strike attacker (b.inOrder order, log) victim =
      ((strike attacker (b, log) victim).1.inOrder order,
        (strike attacker (b, log) victim).2) := by
  rw [strike_eq, strike_eq, Board.lift_inOrder once listed]
  unfold Board.attackRecords
  simp only [Board.squareOf?_inOrder listed]

/-- Taking victims, one after the other. -/
theorem foldl_strike_inOrder (once : b.PlacedOnce) (listed : b.ListedBy order)
    (attacker : PieceId) (log : AttackLog) (victims : List PieceId) :
    victims.foldl (strike attacker) (b.inOrder order, log) =
      ((victims.foldl (strike attacker) (b, log)).1.inOrder order,
        (victims.foldl (strike attacker) (b, log)).2) := by
  induction victims generalizing b log with
  | nil => rfl
  | cons victim rest ih =>
    obtain ⟨once', listed'⟩ := listed.lift once victim
    rw [List.foldl_cons, List.foldl_cons, strike_inOrder listed once, strike_eq]
    exact ih once' listed' _

/-- Applying a delta, of a piece that stands somewhere if it is to go somewhere. -/
theorem Delta.apply_inOrder (once : b.PlacedOnce) (listed : b.ListedBy order) (d : Delta)
    (placed : d.destination?.isSome → piece ∈ b.placements.map Prod.fst) (log : AttackLog) :
    d.apply piece (b.inOrder order, log) =
      ((d.apply piece (b, log)).1.inOrder order, (d.apply piece (b, log)).2) := by
  cases d with
  | position square =>
    unfold apply
    simp only [Board.squareOf?_inOrder listed]
    split
    · rfl
    · rw [Board.place_inOrder listed (placed rfl)]
      rfl
  | cell square => rfl
  | attack victims => exact foldl_strike_inOrder once listed piece log victims
  | lose player => exact congrArg (·, log) (b.eliminate_inOrder order player)

/-- Applying deltas that fit the board. -/
theorem DeltaSet.apply_inOrder (once : b.PlacedOnce) (listed : b.ListedBy order) {s : DeltaSet}
    (fits : s.Fits piece b) (log : AttackLog) :
    s.apply piece (b.inOrder order, log) =
      ((s.apply piece (b, log)).1.inOrder order, (s.apply piece (b, log)).2) := by
  obtain ⟨ds⟩ := s
  unfold apply
  induction ds generalizing b log with
  | nil => rfl
  | cons d rest ih =>
    have moved := d.placements_apply once log fits.head.1 fits.head.2
    obtain ⟨once', fits'⟩ := fits.tail once log
    rw [List.foldl_cons, List.foldl_cons, d.apply_inOrder once listed fits.head.1]
    exact ih once' (listed.rearrange moved) _ fits'

end Apply

/-! ## Runs -/

/-- A run on the reordered board. -/
def Link.inOrder (link : Link) (order : List PieceId) : Link :=
  { link with board := link.board.inOrder order }

namespace Query

/-- A search on the reordered board. -/
def inOrder (q : Query) (order : List PieceId) : Query :=
  { q with board := q.board.inOrder order }

variable {q : Query} {link : Link}

/-- Along a run no piece comes to stand that stood nowhere. -/
theorem Story.listedBy (story : q.Story link) (once : q.board.PlacedOnce)
    (listed : q.board.ListedBy order) : link.board.ListedBy order :=
  listed.rearrange (story.placements once)

/-- A search on a board in another order starts at the same link, on that board. -/
theorem start_inOrder (listed : q.board.ListedBy order) (b : Behaviour) :
    (q.inOrder order).start b = (q.start b).inOrder order := by
  have stands : (q.inOrder order).board.squareOf? (q.inOrder order).piece.id =
      q.board.squareOf? q.piece.id := Board.squareOf?_inOrder listed q.piece.id
  unfold start
  rw [stands]
  rfl

/-- A branch with deltas that fit the board leads to the same link in the other order. -/
theorem follow_inOrder (once : q.board.PlacedOnce) (listed : q.board.ListedBy order)
    {branch : Branch} (fits : branch.deltas.Fits q.piece.id q.board) (index : ℕ) :
    (q.inOrder order).follow (link.inOrder order) branch index =
      (q.follow link branch index).inOrder order := by
  have state := DeltaSet.apply_inOrder once listed fits q.log
  unfold follow
  exact congrArg (fun made : Board × AttackLog => Link.mk _ _ _ made.1 made.2) state

/-- Runs lead to the same finished runs. -/
theorem enumerate_inOrder (placed : q.board.WellPlaced) (listed : q.board.ListedBy order)
    (steps : List Step) (story : q.Story link) (footing : q.Footing link) :
    (q.inOrder order).enumerate steps (link.inOrder order) =
      (q.enumerate steps link).map (·.inOrder order) := by
  induction steps generalizing link with
  | nil => rfl
  | cons step rest ih =>
    -- conditions and actions look at the board of the run, not at the one on which it started
    have here := story.wellPlaced placed footing
    have known := story.listedBy placed.once listed
    cases step with
    | condition c =>
      have passes : c.passes ⟨(link.inOrder order).board, (q.inOrder order).piece.id,
          (link.inOrder order).log.attacker? (q.inOrder order).piece.id⟩ =
            c.passes ⟨link.board, q.piece.id, link.log.attacker? q.piece.id⟩ :=
        c.passes_inOrder ⟨link.board, q.piece.id, link.log.attacker? q.piece.id⟩ here known
      rw [enumerate, enumerate, passes]
      split
      · exact ih (story.select _) footing
      · rfl
    | action a =>
      have branches : a.branches (link.inOrder order).board (link.inOrder order).deltas
          (q.inOrder order).piece.id = a.branches link.board link.deltas q.piece.id :=
        a.branches_inOrder here known link.deltas q.piece.id
      have ambiguous : (q.inOrder order).Ambiguous
          (a.branches link.board link.deltas q.piece.id) ↔
            q.Ambiguous (a.branches link.board link.deltas q.piece.id) := Iff.rfl
      rw [enumerate, enumerate, branches]
      simp only [ambiguous]
      split
      · rfl
      · rw [List.map_flatMap]
        refine List.flatMap_congr ?_
        rintro ⟨branch, index⟩ numbered
        have taken := List.mem_of_getElem? (mem_take_zipIdx_iff.1 numbered).1
        have effect := effect_of_mem_branches taken
        -- deltas of a run fit the first board, on which they are applied in either order
        have next := story.follow placed.once effect index
        have run := ih next (footing.follow placed story effect index)
        rw [← follow_inOrder placed.once listed next.fits] at run
        exact run
    | unresolved r => rfl

/-- A search finds the same runs in the same order. -/
theorem findings_inOrder (placed : q.board.WellPlaced) (listed : q.board.ListedBy order) :
    (q.inOrder order).findings = q.findings.map (·.inOrder order) := by
  have owned : (q.inOrder order).board.owner? (q.inOrder order).piece.id =
      q.board.owner? q.piece.id := rfl
  have fires : (q.inOrder order).piece.triggered (q.inOrder order).trigger =
      q.piece.triggered q.trigger := rfl
  rw [findings_eq, findings_eq, owned, fires]
  split
  · rfl
  · rw [List.map_flatMap]
    refine List.flatMap_congr fun b _ => ?_
    rw [runs_eq_enumerate, runs_eq_enumerate, start_inOrder listed]
    exact enumerate_inOrder placed listed b.builtSteps (q.story_start b) (footing_start placed b)

end Query

end BoardRules
