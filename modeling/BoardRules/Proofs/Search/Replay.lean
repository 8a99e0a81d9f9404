import Mathlib
import BoardRules.Proofs.Board.Placement
import BoardRules.Proofs.Board.Table
import BoardRules.Proofs.Delta.Slots
import BoardRules.Proofs.Search.Enumeration

/-!
# Applying deltas

The board of a run is made by applying all its deltas, in the order of their slots, to the board on
which the search started.  For deltas that fit the board (`DeltaSet.Fits`) the order does not show:
the placements are rearranged once, with the destination and all victims, and the log grows by one
record for each victim (`DeltaSet.apply_spec`).  In any case applying them keeps what every single
change of a board keeps (`Board.Kept.deltas`), such as the table (`DeltaSet.sameTable_apply`), and
the log only grows (`DeltaSet.attacks_prefix_apply`).  The board and the log of every finding are
made in this way (`Query.replay_of_mem_findings`).
-/

namespace BoardRules

/-- The records of a piece that takes victims from where they stand on a board. -/
def Board.attackRecords (b : Board) (attacker : PieceId) (victims : List PieceId) : List Attack :=
  victims.filterMap fun victim => (b.squareOf? victim).map fun square => ⟨attacker, victim, square⟩

/-- Records depend only on where the victims stand. -/
theorem Board.attackRecords_congr {b c : Board} {attacker : PieceId} {victims : List PieceId}
    (h : ∀ victim ∈ victims, c.squareOf? victim = b.squareOf? victim) :
    c.attackRecords attacker victims = b.attackRecords attacker victims :=
  List.filterMap_congr fun victim hvictim => by rw [h victim hvictim]

/-- The records of two rows of victims, taken where they stand on one board, follow each other. -/
theorem Board.attackRecords_append (b : Board) (attacker : PieceId)
    (victims more : List PieceId) :
    b.attackRecords attacker (victims ++ more) =
      b.attackRecords attacker victims ++ b.attackRecords attacker more := List.filterMap_append

/-! ## What every change keeps -/

/-- What every change of a board in play keeps. -/
structure Board.Kept (P : Board → Prop) : Prop where
  /-- Taking a piece off keeps it. -/
  lift : ∀ b piece, P b → P (b.lift piece)
  /-- Moving a piece and counting the move keeps it. -/
  move : ∀ b piece square, P b → P ((b.place piece square).countMove piece)
  /-- Eliminating a player keeps it. -/
  eliminate : ∀ b player, P b → P (b.eliminate player)

namespace Board.Kept

variable {P : Board → Prop} {state : Board × AttackLog}

/-- A strike keeps what every change keeps. -/
theorem strike (kept : Kept P) (h : P state.1) (attacker victim : PieceId) :
    P (strike attacker state victim).1 := by
  unfold BoardRules.strike
  split
  · exact kept.lift state.1 victim h
  · exact h

/-- Several strikes keep what every change keeps. -/
theorem foldl_strike (kept : Kept P) (h : P state.1) (attacker : PieceId)
    (victims : List PieceId) : P (victims.foldl (BoardRules.strike attacker) state).1 := by
  induction victims generalizing state with
  | nil => exact h
  | cons victim rest ih => exact ih (kept.strike h attacker victim)

/-- Applying one delta keeps what every change keeps. -/
theorem delta (kept : Kept P) (h : P state.1) (piece : PieceId) (d : Delta) :
    P (d.apply piece state).1 := by
  cases d with
  | position square =>
    rw [Delta.apply]
    split
    · exact h
    · exact kept.move state.1 piece square h
  | cell square => exact h
  | attack victims => exact kept.foldl_strike h piece victims
  | lose player => exact kept.eliminate state.1 player h

/-- Applying deltas keeps what every change keeps. -/
theorem deltas (kept : Kept P) (h : P state.1) (piece : PieceId) (s : DeltaSet) :
    P (s.apply piece state).1 := by
  obtain ⟨ds⟩ := s
  unfold DeltaSet.apply
  induction ds generalizing state with
  | nil => exact h
  | cons d rest ih => exact ih (kept.delta h piece d)

end Board.Kept

/-- Every change keeps the table. -/
theorem Board.kept_sameTable (b : Board) : Kept (SameTable b) where
  lift c piece h := h.trans (.lift c piece)
  move c piece square h := (h.trans (.place c piece square)).trans (.countMove _ piece)
  eliminate c player h := h.trans (.eliminate c player)

/-- Applying deltas keeps the table. -/
theorem DeltaSet.sameTable_apply (s : DeltaSet) (piece : PieceId) (state : Board × AttackLog) :
    Board.SameTable state.1 (s.apply piece state).1 :=
  (Board.kept_sameTable state.1).deltas (.refl state.1) piece s

/-! ## The log -/

/-- A strike adds its record at the end of the log, if it adds one. -/
theorem attacks_prefix_strike (attacker : PieceId) (state : Board × AttackLog)
    (victim : PieceId) : state.2.attacks <+: (strike attacker state victim).2.attacks := by
  unfold strike
  split
  · exact List.prefix_append _ _
  · exact List.prefix_rfl

/-- Steps each of which only adds records at the end of the log do so together. -/
theorem attacks_prefix_foldl {α : Type} {act : Board × AttackLog → α → Board × AttackLog}
    (grows : ∀ state a, state.2.attacks <+: (act state a).2.attacks)
    (state : Board × AttackLog) (items : List α) :
    state.2.attacks <+: (items.foldl act state).2.attacks := by
  induction items generalizing state with
  | nil => exact List.prefix_rfl
  | cons a rest ih => exact (grows state a).trans (ih _)

/-- Applying a delta adds records at the end of the log. -/
theorem Delta.attacks_prefix_apply (d : Delta) (piece : PieceId) (state : Board × AttackLog) :
    state.2.attacks <+: (d.apply piece state).2.attacks := by
  cases d with
  | position square =>
    rw [apply]
    split <;> exact List.prefix_rfl
  | attack victims => exact attacks_prefix_foldl (attacks_prefix_strike piece) state victims
  | _ => exact List.prefix_rfl

/-- Applying deltas adds records at the end of the log. -/
theorem DeltaSet.attacks_prefix_apply (s : DeltaSet) (piece : PieceId)
    (state : Board × AttackLog) : state.2.attacks <+: (s.apply piece state).2.attacks :=
  attacks_prefix_foldl (fun state d => d.attacks_prefix_apply piece state) state s.deltas

/-! ## Taking victims -/

/-- A strike lifts its victim, and records it if it stood somewhere. -/
theorem strike_eq (attacker : PieceId) (b : Board) (log : AttackLog) (victim : PieceId) :
    strike attacker (b, log) victim =
      (b.lift victim, ⟨log.attacks ++ b.attackRecords attacker [victim]⟩) := by
  unfold strike Board.attackRecords
  cases found : b.squareOf? victim with
  | some square => simp [found]
  | none => simp [found, Board.lift_eq_self found]

/-- Taking distinct victims drops their entries and records those that stood somewhere. -/
theorem foldl_strike (attacker : PieceId) {b : Board} (once : b.PlacedOnce) (log : AttackLog)
    {victims : List PieceId} (nodup : victims.Nodup) :
    victims.foldl (strike attacker) (b, log) =
      ({ b with placements := b.placements.filter (·.1 ∉ victims) },
        ⟨log.attacks ++ b.attackRecords attacker victims⟩) := by
  induction victims generalizing b log with
  | nil => simp [Board.attackRecords]
  | cons victim rest ih =>
    rw [List.nodup_cons] at nodup
    have lifted := Board.placements_lift once victim
    have once' : (b.lift victim).PlacedOnce := by
      unfold Board.PlacedOnce
      rw [lifted]
      exact List.Nodup.sublist (List.filter_sublist.map Prod.fst) once
    have others : (b.lift victim).attackRecords attacker rest = b.attackRecords attacker rest :=
      Board.attackRecords_congr fun other hother =>
        b.squareOf?_lift_of_ne fun same => nodup.1 (same ▸ hother)
    rw [List.foldl_cons, strike_eq, ih once' _ nodup.2, others, lifted, List.filter_filter]
    refine Prod.ext ?_ ?_
    · simp [Board.lift, Bool.and_comm]
    · rw [← List.singleton_append (l := rest), Board.attackRecords_append, List.append_assoc]

/-! ## One delta -/

section Delta

variable {b : Board} {piece : PieceId} {d : Delta}

/-- A delta rearranges the placements: its victims go, and its destination counts. -/
theorem Delta.placements_apply (once : b.PlacedOnce) (log : AttackLog)
    (placed : d.destination?.isSome → piece ∈ b.placements.map Prod.fst)
    (nodup : d.victims.Nodup) :
    (d.apply piece (b, log)).1.placements =
      Board.rearrange piece d.destination? d.victims b.placements := by
  cases d with
  | position square =>
    refine Eq.trans ?_ (Board.placements_place once (placed rfl) square)
    rw [apply]
    split
    · rename_i here
      rw [Board.place_eq_self here]
    · rfl
  | cell square => exact (Board.rearrange_none_nil piece b.placements).symm
  | attack pieces =>
    have distinct : pieces.Nodup := nodup
    rw [apply, foldl_strike piece once log distinct]
    exact (Board.rearrange_none piece pieces b.placements).symm
  | lose player =>
    rw [apply, Board.placements_eliminate]
    exact (Board.rearrange_none_nil piece b.placements).symm

/-- A delta records its victims. -/
theorem Delta.attacks_apply (once : b.PlacedOnce) (attacker : PieceId) (log : AttackLog)
    (nodup : d.victims.Nodup) :
    (d.apply attacker (b, log)).2.attacks = log.attacks ++ b.attackRecords attacker d.victims := by
  cases d with
  | position square =>
    rw [apply]
    split <;> exact (List.append_nil _).symm
  | attack pieces =>
    have distinct : pieces.Nodup := nodup
    rw [apply, foldl_strike attacker once log distinct]
    rfl
  | _ => exact (List.append_nil _).symm

end Delta

/-! ## A set of deltas -/

/-- Deltas that a piece can carry out on a board: one of each kind, a destination only for a piece
that stands somewhere, and other pieces as victims, each once. -/
structure DeltaSet.Fits (s : DeltaSet) (piece : PieceId) (b : Board) : Prop where
  /-- There is at most one delta of each kind. -/
  slotted : s.Slotted
  /-- A piece that goes somewhere stands somewhere. -/
  placed : s.destination?.isSome → piece ∈ b.placements.map Prod.fst
  /-- No victim is taken twice. -/
  nodup : s.victims.Nodup
  /-- The piece does not take itself. -/
  others : piece ∉ s.victims

namespace DeltaSet

variable {b : Board} {piece : PieceId} {s : DeltaSet}

/-- A piece that neither moves nor is taken stays where it stands. -/
theorem squareOf?_of_rearrange {c : Board} (once : b.PlacedOnce) {target : Option Square}
    {victims : List PieceId} (h : c.placements = Board.rearrange piece target victims b.placements)
    {other : PieceId} (differs : other ≠ piece) (free : other ∉ victims) :
    c.squareOf? other = b.squareOf? other := by
  have once' : c.PlacedOnce := by
    unfold Board.PlacedOnce
    rw [h]
    exact Board.nodup_rearrange once piece target victims
  refine Option.ext fun square => ?_
  rw [Board.squareOf?_eq_some_iff once', Board.squareOf?_eq_some_iff once, h,
    Board.mem_rearrange_of_ne (other, square) differs]
  exact and_iff_left free

/-- The first of deltas that fit goes somewhere only with a piece that stands somewhere, and takes
no victim twice. -/
theorem Fits.head {d : Delta} {rest : List Delta} (fits : Fits ⟨d :: rest⟩ piece b) :
    (d.destination?.isSome → piece ∈ b.placements.map Prod.fst) ∧ d.victims.Nodup := by
  obtain ⟨slotted, placed, nodup, -⟩ := fits
  rw [destination?_cons slotted] at placed
  rw [victims_cons slotted] at nodup
  exact ⟨fun h => placed (by simp [h]), (List.nodup_append.1 nodup).1⟩

/-- After the first of deltas that fit no piece is placed twice, and the others fit. -/
theorem Fits.tail (once : b.PlacedOnce) {d : Delta} {rest : List Delta}
    (fits : Fits ⟨d :: rest⟩ piece b) (log : AttackLog) :
    (d.apply piece (b, log)).1.PlacedOnce ∧ Fits ⟨rest⟩ piece (d.apply piece (b, log)).1 := by
  have moved := d.placements_apply once log fits.head.1 fits.head.2
  obtain ⟨slotted, placed, nodup, others⟩ := fits
  rw [destination?_cons slotted] at placed
  rw [victims_cons slotted] at nodup others
  rw [List.mem_append, not_or] at others
  refine ⟨?_, slotted.tail, fun goes => ?_, (List.nodup_append.1 nodup).2.1, others.2⟩
  · unfold Board.PlacedOnce
    rw [moved]
    exact Board.nodup_rearrange once piece _ _
  · rw [moved, Board.map_fst_rearrange, List.mem_filter]
    exact ⟨placed (by simp [goes]), decide_eq_true others.1⟩

/-- Applying deltas that fit rearranges the placements once and records the victims in order. -/
theorem apply_spec (once : b.PlacedOnce) (fits : s.Fits piece b) (log : AttackLog) :
    (s.apply piece (b, log)).1.placements =
        Board.rearrange piece s.destination? s.victims b.placements ∧
      (s.apply piece (b, log)).2.attacks = log.attacks ++ b.attackRecords piece s.victims := by
  obtain ⟨ds⟩ := s
  unfold apply
  induction ds generalizing b log with
  | nil => exact ⟨(Board.rearrange_none_nil piece b.placements).symm, (List.append_nil _).symm⟩
  | cons d rest ih =>
    have moved := d.placements_apply once log fits.head.1 fits.head.2
    have recorded := d.attacks_apply once piece log fits.head.2
    obtain ⟨once', fits'⟩ := fits.tail once log
    obtain ⟨slotted, -, nodup, others⟩ := fits
    rw [victims_cons slotted] at nodup others
    rw [destination?_cons slotted, victims_cons slotted, List.foldl_cons]
    generalize d.apply piece (b, log) = state at moved recorded once' fits' ⊢
    obtain ⟨c, more⟩ := state
    obtain ⟨placements, attacks⟩ := ih once' more fits'
    have records :
        c.attackRecords piece (victims ⟨rest⟩) = b.attackRecords piece (victims ⟨rest⟩) :=
      Board.attackRecords_congr fun victim hvictim =>
        squareOf?_of_rearrange once moved
          (fun same => others (List.mem_append_right _ (same ▸ hvictim)))
          fun taken => (List.nodup_append.1 nodup).2.2 victim taken victim hvictim rfl
    refine ⟨?_, ?_⟩
    · rw [placements, moved, Board.rearrange_rearrange]
    · rw [attacks, records, recorded, Board.attackRecords_append, List.append_assoc]

end DeltaSet

/-! ## Runs -/

namespace Query

variable {q : Query} {link last : Link}

/-- The deltas with which a behaviour starts change nothing. -/
theorem replay_start (q : Query) (b : Behaviour) :
    ((q.start b).board, (q.start b).log) =
      (q.start b).deltas.apply q.piece.id (q.board, q.log) := by
  unfold start
  cases found : q.board.squareOf? q.piece.id with
  | none => rfl
  | some square =>
    have unmoved : (DeltaSet.ofList [.position square, .cell square]).apply q.piece.id
        (q.board, q.log) = (q.board, q.log) := if_pos found
    exact unmoved.symm

/-- Along a run the board and the log are made by applying the deltas. -/
theorem Leads.replay {steps : List Step} (h : q.Leads steps link last)
    (made : (link.board, link.log) = link.deltas.apply q.piece.id (q.board, q.log)) :
    (last.board, last.log) = last.deltas.apply q.piece.id (q.board, q.log) := by
  induction h with
  | stop link => exact made
  | pass passes next ih => exact ih made
  | take clear found bound next ih => exact ih rfl

/-- The board and the log of a finding are made by applying its deltas. -/
theorem replay_of_mem_findings (h : link ∈ q.findings) :
    (link.board, link.log) = link.deltas.apply q.piece.id (q.board, q.log) := by
  obtain ⟨b, -, leads⟩ := exists_leads_of_mem_findings h
  exact leads.replay (q.replay_start b)

end Query

end BoardRules
