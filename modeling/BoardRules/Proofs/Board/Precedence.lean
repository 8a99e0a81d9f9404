import Mathlib
import BoardRules.Proofs.Board.Placement
import BoardRules.Proofs.Board.Table

/-!
# One board before another

Play changes a board in one direction only.  A board precedes another one (`Board.Precedes`) when
both have the same table, when whoever is placed on the later one was placed on the earlier one, in
the same order, and when the losers of the later one are those of the earlier one with further
players of the board behind them, each of them new.  This is a preorder (`Precedes.refl`,
`Precedes.trans`), and taking a piece off, moving a piece that stands on the board, counting the
move, and eliminating a player of the board are steps of it.
-/

namespace BoardRules

namespace Board

/-- That a board comes before another one in a game. -/
structure Precedes (b c : Board) : Prop where
  /-- Pieces, nations, players and squares are the same. -/
  table : SameTable b c
  /-- Nobody has come to the board, and nobody has passed another piece in the list. -/
  placed : (c.placements.map Prod.fst).Sublist (b.placements.map Prod.fst)
  /-- New losers come at the end, and each is a player of the board who had not lost before. -/
  losers : ∃ fallen, c.losers = b.losers ++ fallen ∧ fallen.Nodup ∧
    ∀ id ∈ fallen, id ∉ b.losers ∧ id ∈ b.players.map (·.id)

variable {b c d : Board} {piece : PieceId}

/-- Moving a piece that has an entry keeps the list of pieces. -/
theorem map_fst_placeIn {placements : List (PieceId × Square)}
    (placed : piece ∈ placements.map Prod.fst) (square : Square) :
    (placeIn piece square placements).map Prod.fst = placements.map Prod.fst := by
  induction placements with
  | nil => exact absurd placed List.not_mem_nil
  | cons first rest ih =>
    obtain ⟨id, old⟩ := first
    rw [List.map_cons, List.mem_cons] at placed
    unfold placeIn
    by_cases same : id = piece
    · rw [if_pos same, List.map_cons, List.map_cons, same]
    · have later : piece ∈ rest.map Prod.fst := placed.resolve_left (Ne.symm same)
      rw [if_neg same, List.map_cons, List.map_cons, ih later]

/-- A piece stays in the list when another one is taken off. -/
theorem mem_placements_lift {victim : PieceId} (differs : piece ≠ victim)
    (placed : piece ∈ b.placements.map Prod.fst) :
    piece ∈ (b.lift victim).placements.map Prod.fst := by
  rw [← isSome_squareOf?_iff] at placed ⊢
  rw [b.squareOf?_lift_of_ne differs]
  exact placed

namespace Precedes

theorem refl (b : Board) : Precedes b b where
  table := .refl b
  placed := List.Sublist.refl _
  losers := ⟨[], (List.append_nil _).symm, List.nodup_nil, fun _ hid => absurd hid List.not_mem_nil⟩

theorem trans (h : Precedes b c) (k : Precedes c d) : Precedes b d where
  table := h.table.trans k.table
  placed := k.placed.trans h.placed
  losers := by
    obtain ⟨first, hfirst, nodupFirst, newFirst⟩ := h.losers
    obtain ⟨second, hsecond, nodupSecond, newSecond⟩ := k.losers
    have apart : ∀ id ∈ second, id ∉ b.losers ∧ id ∉ first := by
      intro id hid
      have new := (newSecond id hid).1
      rw [hfirst, List.mem_append, not_or] at new
      exact new
    refine ⟨first ++ second, by rw [hsecond, hfirst, List.append_assoc], ?_, ?_⟩
    · rw [List.nodup_append]
      refine ⟨nodupFirst, nodupSecond, ?_⟩
      rintro id old other hother rfl
      exact (apart id hother).2 old
    · intro id hid
      rcases List.mem_append.1 hid with earlier | later
      · exact newFirst id earlier
      · have seated := (newSecond id later).2
        rw [h.table.players] at seated
        exact ⟨(apart id later).1, seated⟩

/-- A board precedes another one of its table with the same pieces placed and the same losers. -/
theorem of_eq (table : SameTable b c)
    (placed : c.placements.map Prod.fst = b.placements.map Prod.fst)
    (losers : c.losers = b.losers) : Precedes b c where
  table := table
  placed := by rw [placed]
  losers := ⟨[], by rw [losers, List.append_nil], List.nodup_nil,
    fun _ hid => absurd hid List.not_mem_nil⟩

/-- A piece is taken off. -/
theorem lift (b : Board) (piece : PieceId) : Precedes b (b.lift piece) where
  table := .lift b piece
  placed := List.eraseP_sublist.map Prod.fst
  losers := (Precedes.refl b).losers

/-- A piece that stands on the board moves, and the move is counted. -/
theorem placeCounted (placed : piece ∈ b.placements.map Prod.fst) (square : Square) :
    Precedes b ((b.place piece square).countMove piece) :=
  of_eq ((SameTable.place b piece square).trans (SameTable.countMove _ piece))
    (map_fst_placeIn placed square) rfl

/-- A player of the board is eliminated. -/
theorem eliminate {player : PlayerId} (seated : player ∈ b.players.map (·.id)) :
    Precedes b (b.eliminate player) := by
  cases lost : b.hasLost player with
  | true =>
    have same : b.eliminate player = b := by
      unfold Board.eliminate
      rw [if_pos lost]
    rw [same]
    exact refl b
  | false =>
    have new : player ∉ b.losers := hasLost_eq_false_iff.1 lost
    rw [eliminate_eq_addLosers lost]
    refine ⟨⟨rfl, rfl, rfl, rfl, rfl, rfl, rfl⟩, List.Sublist.refl _, [player], rfl,
      List.nodup_singleton player, ?_⟩
    intro id hid
    obtain rfl := List.mem_singleton.1 hid
    exact ⟨new, seated⟩

/-- Several players of the board are eliminated. -/
theorem foldl_eliminate {players : List PlayerId} (h : Precedes b c)
    (seated : ∀ id ∈ players, id ∈ b.players.map (·.id)) :
    Precedes b (players.foldl Board.eliminate c) := by
  induction players generalizing c with
  | nil => exact h
  | cons player rest ih =>
    have first : player ∈ c.players.map (·.id) := by
      rw [h.table.players]
      exact seated player List.mem_cons_self
    exact ih (h.trans (eliminate first)) fun id hid => seated id (List.mem_cons_of_mem _ hid)

end Precedes

end Board

end BoardRules
