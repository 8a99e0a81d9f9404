import Mathlib
import BoardRules.Proofs.Board.Table
import BoardRules.Search.Analysis

/-!
# Guises of a game

The same game can be told in other words: its pieces and behaviours may have other names, its board
may be seen from another side, and players may have lost before it began.  A `Guise` is such a way
of telling, and `under` puts what a search reads and what it finds under a guise, from squares and
deltas up to boards and analyses.  Changing a board under a guise is changing the board
(`Board.place_under`, `Board.lift_under`, `Board.countMove_under`, `Board.eliminate_under`), and
so is gathering deltas (`DeltaSet.mergeAll_under`).
-/

namespace BoardRules

/-- Whoever loses is enrolled among losers who are left as they are. -/
theorem enrol_id (before : List PlayerId) (player : PlayerId) :
    id (enrol before player) = enrol (id before) player := rfl

/-- Another way to tell a game. -/
structure Guise where
  /-- The name of a piece. -/
  piece : PieceId → PieceId := id
  /-- The name of a behaviour. -/
  behaviour : BehaviourId → BehaviourId := id
  /-- Where a square of the board lies. -/
  square : Square → Square := id
  /-- Where a seat at the table is. -/
  seat : Seat → Seat := id
  /-- The size of a board. -/
  extent : Extent → Extent := id
  /-- Who has lost. -/
  losers : List PlayerId → List PlayerId := id
  /-- No two pieces get one name. -/
  piece_injective : Function.Injective piece := by exact Function.injective_id
  /-- No two squares fall together. -/
  square_injective : Function.Injective square := by exact Function.injective_id
  /-- Whoever loses loses. -/
  losers_enrol : ∀ before player, losers (enrol before player) = enrol (losers before) player := by
    exact enrol_id

/-! ## What a guise does -/

/-- A player under a guise sits elsewhere. -/
def Player.under (p : Player) (g : Guise) : Player := { p with seat := g.seat p.seat }

/-- A behaviour under a guise. -/
def Behaviour.under (b : Behaviour) (g : Guise) : Behaviour := { b with id := g.behaviour b.id }

/-- A piece under a guise. -/
def Piece.under (p : Piece) (g : Guise) : Piece :=
  { p with id := g.piece p.id, behaviours := p.behaviours.map (·.under g) }

/-- A monitor under a guise counts for the same pieces. -/
def Monitor.under (m : Monitor) (g : Guise) : Monitor := m.rename fun id => some (g.piece id)

/-- A board under a guise: the names in its pieces, nations, counters and placements, the seats of
its players, its squares and its losers. -/
def Board.under (b : Board) (g : Guise) : Board :=
  { b with
    size := g.extent b.size
    pieces := b.pieces.map (·.under g)
    nations := b.nations.rename fun id => some (g.piece id)
    players := b.players.map (·.under g)
    monitors := b.monitors.map (·.under g)
    placements := b.placements.map (Prod.map g.piece g.square)
    losers := g.losers b.losers }

/-- A delta under a guise. -/
def Delta.under (d : Delta) (g : Guise) : Delta :=
  match d with
  | .position square => .position (g.square square)
  | .cell square => .cell (g.square square)
  | .attack pieces => .attack (pieces.map g.piece)
  | .lose player => .lose player

/-- Deltas under a guise. -/
def DeltaSet.under (s : DeltaSet) (g : Guise) : DeltaSet := ⟨s.deltas.map (·.under g)⟩

/-- A highlighted square under a guise. -/
def Tag.under (tag : Tag) (g : Guise) : Tag := { tag with square := g.square tag.square }

/-- A branch under a guise. -/
def Branch.under (b : Branch) (g : Guise) : Branch :=
  ⟨b.deltas.under g, b.tags.map (·.under g)⟩

/-- A selection under a guise takes the same branches. -/
def Selection.under (s : Selection) (g : Guise) : Selection :=
  { s with piece := g.piece s.piece, behaviour := g.behaviour s.behaviour }

/-- An attack under a guise. -/
def Attack.under (a : Attack) (g : Guise) : Attack :=
  ⟨g.piece a.attacker, g.piece a.victim, g.square a.square⟩

/-- The attacks along a chain under a guise. -/
def AttackLog.under (log : AttackLog) (g : Guise) : AttackLog :=
  ⟨log.attacks.map (·.under g)⟩

/-- A run under a guise. -/
def Link.under (link : Link) (g : Guise) : Link where
  selection := link.selection.under g
  deltas := link.deltas.under g
  tags := link.tags.map (·.under g)
  board := link.board.under g
  log := link.log.under g

/-- A candidate under a guise. -/
def Candidate.under (c : Candidate) (g : Guise) : Candidate :=
  ⟨c.head.under g, c.reactions.map (·.under g)⟩

/-- An analysis under a guise: the same pieces and candidates in the same order. -/
def Analysis.under (a : Analysis) (g : Guise) : Analysis :=
  { a with entries := a.entries.map (Prod.map g.piece (List.map (·.under g))) }

/-- A search under a guise. -/
def Query.under (q : Query) (g : Guise) : Query where
  settings := q.settings
  board := q.board.under g
  piece := q.piece.under g
  trigger := q.trigger
  log := q.log.under g

/-- The behaviours that fire are the same. -/
theorem Piece.triggered_under (p : Piece) (g : Guise) (trigger : Trigger) :
    (p.under g).triggered trigger = (p.triggered trigger).map (·.under g) := by
  unfold Piece.triggered Piece.under
  rw [List.filter_map]
  rfl

/-! ## Gathering deltas -/

namespace Delta

@[simp] theorem kind_under (d : Delta) (g : Guise) : (d.under g).kind = d.kind := by
  cases d <;> rfl

/-- Under a guise a newer delta takes the place of an older one in the same way. -/
theorem absorb_under (old new : Delta) (g : Guise) :
    (old.under g).absorb (new.under g) = (old.absorb new).under g := by
  cases old <;> cases new <;> simp [under, absorb]

end Delta

namespace DeltaSet

variable (s : DeltaSet) (g : Guise)

/-- Merging into a row of deltas is the same under a guise. -/
theorem mergeInto_under (d : Delta) (ds : List Delta) :
    mergeInto (d.under g) (ds.map (·.under g)) = (mergeInto d ds).map (·.under g) := by
  induction ds with
  | nil => rfl
  | cons e rest ih =>
    rw [List.map_cons, mergeInto, mergeInto, Delta.kind_under, Delta.kind_under]
    split
    · rw [Delta.absorb_under, List.map_cons]
    · rw [ih, List.map_cons]

/-- Merging a delta into a set is the same under a guise. -/
theorem merge_under (d : Delta) : (s.under g).merge (d.under g) = (s.merge d).under g :=
  congrArg DeltaSet.mk (mergeInto_under g d s.deltas)

/-- Gathering deltas under a guise. -/
theorem mergeAll_under (ds : List Delta) :
    (s.under g).mergeAll (ds.map (·.under g)) = (s.mergeAll ds).under g := by
  induction ds generalizing s with
  | nil => rfl
  | cons d rest ih =>
    have tail := ih (s.merge d)
    rw [← merge_under] at tail
    exact tail

/-- The slot of a kind holds the same delta under the guise. -/
theorem get?_under (kind : DeltaKind) : (s.under g).get? kind = (s.get? kind).map (·.under g) := by
  unfold get? under
  rw [List.find?_map]
  refine congrArg _ (congrFun (congrArg List.find? (funext fun d => ?_)) s.deltas)
  rw [Function.comp_apply, Delta.kind_under]

/-- The destination under a guise. -/
theorem destination?_under : (s.under g).destination? = s.destination?.map g.square := by
  unfold destination?
  rw [get?_under]
  cases s.get? .position with
  | none => rfl
  | some d => cases d <;> rfl

/-- Who loses does not depend on the guise. -/
@[simp] theorem loser?_under : (s.under g).loser? = s.loser? := by
  unfold loser?
  rw [get?_under]
  cases s.get? .lose with
  | none => rfl
  | some d => cases d <;> rfl

end DeltaSet

/-! ## Changing boards -/

namespace Monitor

/-- Counting for a piece is counting for its new name. -/
theorem incrementIn_under (g : Guise) (piece : PieceId) (counters : List (PieceId × UInt32)) :
    incrementIn (g.piece piece) (counters.map fun c => (g.piece c.1, c.2)) =
      (incrementIn piece counters).map fun c => (g.piece c.1, c.2) := by
  induction counters with
  | nil => rfl
  | cons counter rest ih =>
    obtain ⟨id, n⟩ := counter
    rw [List.map_cons, incrementIn, incrementIn]
    by_cases same : id = piece
    · rw [if_pos same, if_pos (congrArg g.piece same)]
      rfl
    · rw [if_neg same, if_neg fun h => same (g.piece_injective h), ih]
      rfl

/-- Counting under a guise. -/
theorem increment_under (m : Monitor) (g : Guise) (piece : PieceId) :
    (m.under g).increment (g.piece piece) = (m.increment piece).under g :=
  congrArg (fun counters => { m with counters }) (incrementIn_under g piece m.counters)

end Monitor

namespace Board

variable (b : Board) (g : Guise)

/-- Eliminating a player under a guise. -/
theorem eliminate_under (player : PlayerId) :
    (b.under g).eliminate player = (b.eliminate player).under g := by
  rw [eliminate_eq_enrol, eliminate_eq_enrol, under, under, g.losers_enrol]

/-- Placing a piece is placing its new name on the new square. -/
theorem placeIn_under (piece : PieceId) (square : Square) (placements : List (PieceId × Square)) :
    placeIn (g.piece piece) (g.square square) (placements.map (Prod.map g.piece g.square)) =
      (placeIn piece square placements).map (Prod.map g.piece g.square) := by
  induction placements with
  | nil => rfl
  | cons placed rest ih =>
    obtain ⟨id, old⟩ := placed
    rw [List.map_cons, Prod.map_apply, placeIn, placeIn]
    by_cases same : id = piece
    · rw [if_pos same, if_pos (congrArg g.piece same)]
      rfl
    · rw [if_neg same, if_neg fun h => same (g.piece_injective h), ih]
      rfl

/-- Placing a piece under a guise. -/
theorem place_under (piece : PieceId) (square : Square) :
    (b.under g).place (g.piece piece) (g.square square) = (b.place piece square).under g := by
  unfold place under
  rw [placeIn_under]

/-- Lifting a piece under a guise. -/
theorem lift_under (piece : PieceId) :
    (b.under g).lift (g.piece piece) = (b.lift piece).under g := by
  have erased : (b.placements.map (Prod.map g.piece g.square)).eraseP (·.1 = g.piece piece) =
      (b.placements.eraseP (·.1 = piece)).map (Prod.map g.piece g.square) := by
    rw [List.eraseP_map]
    refine congrArg _ (congrFun (congrArg List.eraseP (funext fun placed => ?_)) b.placements)
    exact decide_eq_decide.2 g.piece_injective.eq_iff
  unfold lift under
  rw [erased]

/-- Counting a move under a guise. -/
theorem countMove_under (piece : PieceId) :
    (b.under g).countMove (g.piece piece) = (b.countMove piece).under g := by
  have counted : ((b.monitors.map (·.under g)).map fun m =>
      if m.kind = Monitor.stepKind then m.increment (g.piece piece) else m) =
      (b.monitors.map fun m => if m.kind = Monitor.stepKind then m.increment piece else m).map
        (·.under g) := by
    rw [List.map_map, List.map_map]
    refine List.map_congr_left fun m _ => ?_
    rw [Function.comp_apply, Function.comp_apply, apply_ite (Monitor.under · g),
      ← m.increment_under]
    rfl
  unfold countMove under
  rw [counted]

/-! ## Guises that keep the names -/

variable {b g}

/-- A guise that keeps the names changes the size, the seats, the placements and the losers. -/
theorem under_eq_of_names (pieces : g.piece = fun id => id)
    (behaviours : g.behaviour = fun id => id) :
    b.under g =
      { b with
        size := g.extent b.size
        players := b.players.map (·.under g)
        placements := b.placements.map (Prod.map g.piece g.square)
        losers := g.losers b.losers } := by
  have kept : b.pieces.map (·.under g) = b.pieces := by
    refine List.map_id'' (fun piece => ?_) b.pieces
    unfold Piece.under Behaviour.under
    rw [pieces, behaviours, List.map_id']
  have counted : b.monitors.map (·.under g) = b.monitors := by
    refine List.map_id'' (fun m => ?_) b.monitors
    unfold Monitor.under Monitor.rename
    rw [pieces]
    exact congrArg (fun counters => { m with counters }) (List.map_id' m.counters)
  have claimed : (b.nations.rename fun id => some (g.piece id)) = b.nations := by
    unfold Forest.rename
    refine congrArg (fun nodes => { b.nations with nodes }) (List.map_id'' (fun n => ?_) _)
    unfold Nation.rename
    rw [pieces]
    refine congrArg (fun children => { n with children }) (List.map_id'' (fun c => ?_) _)
    cases c <;> rfl
  unfold under
  rw [kept, counted, claimed]

end Board

end BoardRules
