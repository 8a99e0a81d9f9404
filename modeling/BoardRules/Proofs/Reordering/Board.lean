import Mathlib
import BoardRules.Proofs.Board.Placement
import BoardRules.Proofs.Board.Table
import BoardRules.Proofs.Search.Occupancy

/-!
# Placements in another order

A board keeps its placements in the order in which they were made.  `Board.inOrder` puts them in the
order of a list of pieces.  If the list names every piece that stands somewhere, and none twice
(`Board.ListedBy`), then the placements are the same up to their order (`Board.perm_inOrder`), and
every order comes about in this way (`Board.inOrder_of_perm`).  Looking up takes the first entry
that fits; on a well-placed board there is no second one, so a piece stands on the same square
(`Board.squareOf?_inOrder`) and a square has the same occupant (`Board.occupant?_inOrder`).
Changing a board and reordering it commute, as long as only pieces are moved that stand somewhere
(`Board.place_inOrder`, `Board.lift_inOrder`): a piece that stands nowhere is placed at the end.
-/

namespace BoardRules

namespace Board

/-- The board with its placements in the order of a list of pieces. -/
def inOrder (b : Board) (order : List PieceId) : Board :=
  { b with placements := order.filterMap fun id => (b.squareOf? id).map (Prod.mk id) }

/-- A list names every piece that stands somewhere, and none twice. -/
structure ListedBy (b : Board) (order : List PieceId) : Prop where
  once : order.Nodup
  all : ∀ id ∈ b.placements.map Prod.fst, id ∈ order

variable {b c : Board} {order : List PieceId} {piece : PieceId} {square : Square}

/-! ## Looking up -/

/-- Looking up a key among those that a list names. -/
theorem lookup_filterMap {α β : Type} [DecidableEq α] (value? : α → Option β) (keys : List α)
    (key : α) :
    (keys.filterMap fun k => (value? k).map (Prod.mk k)).lookup key =
      if key ∈ keys then value? key else none := by
  induction keys with
  | nil => rfl
  | cons first rest ih =>
    by_cases same : key = first
    · subst same
      rw [if_pos List.mem_cons_self]
      cases found : value? key with
      | none =>
        rw [List.filterMap_cons_none (by rw [found]; rfl), ih, found, ite_self]
      | some value =>
        rw [List.filterMap_cons_some (by rw [found]; rfl), List.lookup_cons_self]
    · have others : key ∈ first :: rest ↔ key ∈ rest := by simp [same]
      simp only [others]
      rw [← ih]
      cases found : value? first with
      | none => rw [List.filterMap_cons_none (by rw [found]; rfl)]
      | some value =>
        rw [List.filterMap_cons_some (by rw [found]; rfl), List.lookup_cons,
          beq_eq_false_iff_ne.2 same]

/-- A piece stands on the same square. -/
theorem squareOf?_inOrder (listed : b.ListedBy order) (piece : PieceId) :
    (b.inOrder order).squareOf? piece = b.squareOf? piece := by
  refine (lookup_filterMap b.squareOf? order piece).trans ?_
  split
  · rfl
  · rename_i unlisted
    exact (squareOf?_eq_none_iff.2 fun placed => unlisted (listed.all piece placed)).symm

/-- The placed pieces are those of the list that stand somewhere. -/
theorem map_fst_inOrder (b : Board) (order : List PieceId) :
    (b.inOrder order).placements.map Prod.fst =
      order.filter fun id => (b.squareOf? id).isSome := by
  unfold inOrder
  rw [List.map_filterMap, ← List.filterMap_eq_filter]
  refine List.filterMap_congr fun id _ => ?_
  cases found : b.squareOf? id <;> simp [found, Option.guard]

/-- In another order no piece is placed twice either. -/
theorem placedOnce_inOrder (listed : b.ListedBy order) : (b.inOrder order).PlacedOnce := by
  unfold PlacedOnce
  rw [map_fst_inOrder]
  exact listed.once.filter _

/-- The entries are the same. -/
theorem mem_placements_inOrder (once : b.PlacedOnce) (listed : b.ListedBy order)
    {placed : PieceId × Square} :
    placed ∈ (b.inOrder order).placements ↔ placed ∈ b.placements := by
  obtain ⟨id, square⟩ := placed
  rw [← squareOf?_eq_some_iff (placedOnce_inOrder listed), squareOf?_inOrder listed,
    squareOf?_eq_some_iff once]

/-- The placements are the same up to their order. -/
theorem perm_inOrder (once : b.PlacedOnce) (listed : b.ListedBy order) :
    (b.inOrder order).placements.Perm b.placements :=
  (List.perm_ext_iff_of_nodup (.of_map _ (placedOnce_inOrder listed)) (.of_map _ once)).2
    fun _ => mem_placements_inOrder once listed

/-- The pieces of placements in any order list those of the board. -/
theorem listedBy_of_perm (once : b.PlacedOnce) {placements : List (PieceId × Square)}
    (perm : placements.Perm b.placements) : b.ListedBy (placements.map Prod.fst) where
  once := (perm.map Prod.fst).nodup_iff.2 once
  all _ placed := (perm.map Prod.fst).mem_iff.2 placed

/-- Every order of the placements is that of a list. -/
theorem inOrder_of_perm (once : b.PlacedOnce) {placements : List (PieceId × Square)}
    (perm : placements.Perm b.placements) :
    b.inOrder (placements.map Prod.fst) = { b with placements } := by
  unfold inOrder
  rw [List.filterMap_map]
  congr 1
  refine (List.filterMap_congr fun placed hplaced => ?_).trans List.filterMap_some
  have stands : b.squareOf? placed.1 = some placed.2 :=
    (squareOf?_eq_some_iff once).2 (perm.mem_iff.1 hplaced)
  rw [Function.comp_apply, stands]
  rfl

/-- A square has the same occupant. -/
theorem occupant?_inOrder (placed : b.WellPlaced) (listed : b.ListedBy order) (square : Square) :
    (b.inOrder order).occupant? square = b.occupant? square := by
  have apart : ((b.inOrder order).placements.map Prod.snd).Nodup :=
    ((perm_inOrder placed.once listed).map Prod.snd).nodup_iff.2 placed.apart
  refine Option.ext fun piece => ?_
  rw [occupant?_eq_some_iff apart, occupant?_eq_some_iff placed.apart,
    mem_placements_inOrder placed.once listed]

/-! ## Changing -/

/-- Moving a piece that stands somewhere. -/
theorem place_inOrder (listed : b.ListedBy order)
    (placed : piece ∈ b.placements.map Prod.fst) (square : Square) :
    (b.inOrder order).place piece square = (b.place piece square).inOrder order := by
  obtain ⟨old, stands⟩ := Option.isSome_iff_exists.1 (isSome_squareOf?_iff.2 placed)
  have there : piece ∈ (b.inOrder order).placements.map Prod.fst := by
    rw [← isSome_squareOf?_iff, squareOf?_inOrder listed, stands]
    rfl
  have moved := placeIn_eq_map_relocate (placedOnce_inOrder listed) there square
  have entries : (b.inOrder order).placements.map (relocate piece (some square)) =
      order.filterMap fun id => ((b.place piece square).squareOf? id).map (Prod.mk id) := by
    unfold inOrder
    rw [List.map_filterMap]
    refine List.filterMap_congr fun id _ => ?_
    by_cases same : id = piece
    · subst same
      rw [squareOf?_place_self, stands, Option.map_some, Option.map_some, relocate, if_pos rfl]
      rfl
    · rw [squareOf?_place_of_ne b same, Option.map_map]
      refine congrArg (fun f => (b.squareOf? id).map f) (funext fun old => ?_)
      exact relocate_of_ne same (some square)
  rw [entries] at moved
  exact congrArg (fun placements => { b with placements }) moved

/-- A piece that was taken off a board that placed it once stands nowhere. -/
theorem squareOf?_lift_self (once : b.PlacedOnce) (piece : PieceId) :
    (b.lift piece).squareOf? piece = none := by
  rw [squareOf?_eq_none_iff, placements_lift once]
  intro placed
  obtain ⟨entry, hentry, same⟩ := List.mem_map.1 placed
  exact of_decide_eq_true (List.mem_filter.1 hentry).2 same

/-- Taking a piece off. -/
theorem lift_inOrder (once : b.PlacedOnce) (listed : b.ListedBy order) (piece : PieceId) :
    (b.inOrder order).lift piece = (b.lift piece).inOrder order := by
  have lifted := eraseP_eq_filter (placedOnce_inOrder listed) piece
  have entries : (b.inOrder order).placements.filter (·.1 ≠ piece) =
      order.filterMap fun id => ((b.lift piece).squareOf? id).map (Prod.mk id) := by
    unfold inOrder
    rw [List.filter_filterMap]
    refine List.filterMap_congr fun id _ => ?_
    by_cases same : id = piece
    · subst same
      rw [squareOf?_lift_self once]
      cases b.squareOf? id <;> simp
    · rw [squareOf?_lift_of_ne b same]
      cases b.squareOf? id <;> simp [same]
  rw [entries] at lifted
  exact congrArg (fun placements => { b with placements }) lifted

/-- Eliminating a player. -/
theorem eliminate_inOrder (b : Board) (order : List PieceId) (player : PlayerId) :
    (b.inOrder order).eliminate player = (b.eliminate player).inOrder order := by
  rw [eliminate_eq_enrol, eliminate_eq_enrol]
  rfl

/-- A list goes on naming every piece while pieces are only moved and taken. -/
theorem ListedBy.rearrange (listed : b.ListedBy order) {target : Option Square}
    {victims : List PieceId}
    (placements : c.placements = Board.rearrange piece target victims b.placements) :
    c.ListedBy order where
  once := listed.once
  all id placed := by
    rw [placements, map_fst_rearrange] at placed
    exact listed.all id (List.mem_filter.1 placed).1

end Board

end BoardRules
