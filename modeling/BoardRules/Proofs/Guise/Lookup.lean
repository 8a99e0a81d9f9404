import Mathlib
import BoardRules.Proofs.Guise.Basic

/-!
# Looking things up under a guise

Names and squares under a guise are found exactly where the board has them, since a guise keeps
different pieces and different squares apart.  Ownership goes through the forest of nations: walking
it under other names meets the same pieces in the same order (`Forest.Retold.sweep`), so a piece has
the same claimant (`Forest.Retold.claimant?`) and the same owner (`Board.owner?_under`).
-/

namespace BoardRules

/-- Looking a key up in a list whose keys have other names. -/
theorem lookup_map_prodMap {α β γ δ : Type} [DecidableEq α] [DecidableEq γ] {f : α → γ}
    (injective : Function.Injective f) (h : β → δ) (entries : List (α × β)) (key : α) :
    (entries.map (Prod.map f h)).lookup (f key) = (entries.lookup key).map h := by
  induction entries with
  | nil => rfl
  | cons entry rest ih =>
    obtain ⟨id, value⟩ := entry
    rw [List.map_cons, Prod.map_apply, List.lookup_cons, List.lookup_cons]
    by_cases same : key = id
    · subst same
      simp
    · have differs : f key ≠ f id := fun h => same (injective h)
      rw [beq_eq_false_iff_ne.2 same, beq_eq_false_iff_ne.2 differs]
      exact ih

/-! ## Nations -/

namespace Child

/-- A member of a nation under other names. -/
def renamed (names : PieceId → PieceId) : Child → Child
  | .group key => .group key
  | .piece id => .piece (names id)

end Child

/-- The members of a nation whose pieces are renamed. -/
theorem Nation.children_rename (n : Nation) (names : PieceId → PieceId) :
    (n.rename fun id => some (names id)).children = n.children.map (Child.renamed names) :=
  List.map_congr_left fun c _ => by cases c <;> rfl

namespace Forest

variable {names : PieceId → PieceId} {f g : Forest}

/-- A forest of the same shape in which the pieces have other names.  Its nations have the same
monarchs; what else they are is left open. -/
structure Retold (names : PieceId → PieceId) (f g : Forest) : Prop where
  /-- The same places are roots. -/
  roots : g.roots = f.roots
  /-- There are as many nations. -/
  length : g.nodes.length = f.nodes.length
  /-- Their members are the same under other names. -/
  children : ∀ key, g.childrenOf key = (f.childrenOf key).map (Child.renamed names)
  /-- They have the same monarchs. -/
  monarch : ∀ key, (g.get? key).bind (·.monarch) = (f.get? key).bind (·.monarch)

/-- Changing every nation in the same way retells the forest if it renames the members and keeps
the monarch. -/
theorem retold_of_map (f : Forest) {change : Nation → Nation}
    (children : ∀ n : Nation, (change n).children = n.children.map (Child.renamed names))
    (monarch : ∀ n : Nation, (change n).monarch = n.monarch) :
    Retold names f { f with nodes := f.nodes.map change } := by
  have found (key : ℕ) : (f.nodes.map change)[key]? = f.nodes[key]?.map change := List.getElem?_map
  constructor
  case roots => rfl
  case length => exact List.length_map _
  case children =>
    intro key
    unfold childrenOf get?
    rw [found]
    cases f.nodes[key]? with
    | none => rfl
    | some n => exact children n
  case monarch =>
    intro key
    unfold get?
    rw [found]
    cases f.nodes[key]? with
    | none => rfl
    | some n => exact monarch n

/-- Renaming every piece retells the forest. -/
theorem retold_rename (f : Forest) (names : PieceId → PieceId) :
    Retold names f (f.rename fun id => some (names id)) :=
  f.retold_of_map (fun n => n.children_rename names) fun _ => rfl

namespace Retold

/-- A walk under other names meets the same pieces. -/
theorem sweep (retold : Retold names f g) (fresh : List ℕ) (queue : List Child) :
    g.sweep fresh (queue.map (Child.renamed names)) = (f.sweep fresh queue).map names := by
  fun_induction f.sweep fresh queue with
  | case1 fresh => rw [List.map_nil, Forest.sweep]; rfl
  | case2 fresh id rest ih => rw [List.map_cons, Child.renamed, Forest.sweep, ih, List.map_cons]
  | case3 fresh key rest entered ih =>
    rw [List.map_cons, Child.renamed, Forest.sweep, if_pos entered, retold.children,
      ← List.map_append, ih]
  | case4 fresh key rest known ih =>
    rw [List.map_cons, Child.renamed, Forest.sweep, if_neg known, ih]

/-- The pieces below a nation are the same under their new names, in the same order. -/
theorem piecesBelow (retold : Retold names f g) (key : ℕ) :
    g.piecesBelow key = (f.piecesBelow key).map names := by
  have places : g.below key = f.below key := by
    unfold below
    rw [retold.length]
  unfold Forest.piecesBelow
  rw [places, retold.children, retold.sweep]

/-- A piece has the same root nation above it under another name. -/
theorem rootAbove? (retold : Retold names f g) (injective : Function.Injective names)
    (piece : PieceId) : g.rootAbove? (names piece) = f.rootAbove? piece := by
  unfold Forest.rootAbove?
  rw [retold.roots]
  refine congrArg (fun p => f.roots.find? p) (funext fun root => ?_)
  rw [retold.piecesBelow, Bool.eq_iff_iff, List.contains_iff_mem, List.contains_iff_mem,
    List.mem_map_of_injective injective]

/-- A piece has the same claimant under another name. -/
theorem claimant? (retold : Retold names f g) (injective : Function.Injective names)
    (piece : PieceId) : g.claimant? (names piece) = f.claimant? piece := by
  unfold Forest.claimant?
  rw [retold.rootAbove? injective]
  exact congrArg (f.rootAbove? piece).bind (funext retold.monarch)

end Retold

end Forest

/-- A piece has been counted as often. -/
theorem Monitor.count_under (m : Monitor) (g : Guise) (piece : PieceId) :
    (m.under g).count (g.piece piece) = m.count piece := by
  have counters : (m.under g).counters.lookup (g.piece piece) = (m.counters.lookup piece).map id :=
    lookup_map_prodMap g.piece_injective id m.counters piece
  rw [Option.map_id] at counters
  unfold count
  rw [counters]
  rfl

/-! ## Boards -/

namespace Board

variable (b : Board) (g : Guise)

/-- A piece stands on the same square. -/
theorem squareOf?_under (piece : PieceId) :
    (b.under g).squareOf? (g.piece piece) = (b.squareOf? piece).map g.square :=
  lookup_map_prodMap g.piece_injective g.square b.placements piece

/-- A square has the same occupant. -/
theorem occupant?_under (square : Square) :
    (b.under g).occupant? (g.square square) = (b.occupant? square).map g.piece := by
  unfold occupant? under
  have here : (fun placed : PieceId × Square => decide (placed.2 = g.square square)) ∘
      Prod.map g.piece g.square = fun placed => decide (placed.2 = square) := by
    funext placed
    exact decide_eq_decide.2 g.square_injective.eq_iff
  rw [List.find?_map, here, Option.map_map, Option.map_map]
  rfl

/-- A player is found under the same name. -/
theorem player?_under (player : PlayerId) :
    (b.under g).player? player = (b.player? player).map (·.under g) := List.find?_map

/-- A piece has the same owner. -/
theorem owner?_under (piece : PieceId) :
    (b.under g).owner? (g.piece piece) = (b.owner? piece).map (·.under g) := by
  have claimed : (b.under g).nations.claimant? (g.piece piece) = b.nations.claimant? piece :=
    (b.nations.retold_rename g.piece).claimant? g.piece_injective piece
  unfold owner?
  rw [claimed]
  cases b.nations.claimant? piece with
  | none => rfl
  | some player => exact player?_under b g player

/-- The owner of a piece has the same name. -/
theorem map_id_owner?_under (piece : PieceId) :
    ((b.under g).owner? (g.piece piece)).map (·.id) = (b.owner? piece).map (·.id) := by
  rw [owner?_under, Option.map_map]
  rfl

/-- A player owns the same pieces. -/
theorem owns_under (player : PlayerId) (piece : PieceId) :
    (b.under g).owns player (g.piece piece) = b.owns player piece := by
  unfold owns
  rw [owner?_under]
  cases b.owner? piece <;> rfl

/-- A piece has moved as often. -/
theorem moveCount_under (piece : PieceId) :
    (b.under g).moveCount (g.piece piece) = b.moveCount piece := by
  have found : (b.under g).monitor? Monitor.stepKind =
      (b.monitor? Monitor.stepKind).map (·.under g) := List.find?_map
  unfold moveCount
  rw [found]
  cases b.monitor? Monitor.stepKind with
  | none => rfl
  | some m => exact congrArg (fun n => (some n).getD 0) (m.count_under g piece)

end Board

/-- A piece has the same attacker. -/
theorem AttackLog.attacker?_under (log : AttackLog) (g : Guise) (victim : PieceId) :
    (log.under g).attacker? (g.piece victim) = (log.attacker? victim).map g.piece := by
  have struck : (fun a : Attack => decide (a.victim = g.piece victim)) ∘ (Attack.under · g) =
      fun a => decide (a.victim = victim) := by
    funext a
    exact decide_eq_decide.2 g.piece_injective.eq_iff
  unfold AttackLog.attacker? AttackLog.under
  rw [List.find?_map, struck, Option.map_map, Option.map_map]
  rfl

end BoardRules
