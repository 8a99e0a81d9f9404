import Mathlib
import BoardRules.Proofs.Search.Precedence
import BoardRules.Proofs.Search.Reaction

/-!
# Counting changes of square

A search makes the board of a run anew from the board on which it started, so of all the squares
that the piece has gone to on the way only the last one counts: the step monitors of a finding count
one more move of the piece exactly if it stands elsewhere than before, and never more than one
(`Query.monitors_of_mem_findings`).  Nothing is assumed about the placements: a piece that is placed
twice is counted by the entry that is found.  Along a chain of links these add up
(`Linked.counted`), provided that the board has a step monitor (`Board.keepsCount`); without one
nothing is ever counted.
-/

namespace BoardRules

/-! ## One delta after the other -/

namespace Board

variable {piece : PieceId} {b c d : Board}

/-- Nothing has been counted, and a piece is still found where it was. -/
def Undisturbed (piece : PieceId) (b c : Board) : Prop :=
  c.monitors = b.monitors ∧ c.squareOf? piece = b.squareOf? piece

/-- One move of a piece has been counted if it is found elsewhere than it was, and otherwise none
has. -/
def MoveCounted (piece : PieceId) (b c : Board) : Prop :=
  c.monitors =
    if c.squareOf? piece = b.squareOf? piece then b.monitors else (b.countMove piece).monitors

theorem Undisturbed.trans (h : Undisturbed piece b c) (k : Undisturbed piece c d) :
    Undisturbed piece b d := ⟨k.1.trans h.1, k.2.trans h.2⟩

/-- A piece that is not disturbed has not moved, and no move has been counted. -/
theorem Undisturbed.moveCounted (h : Undisturbed piece b c) : MoveCounted piece b c := by
  unfold MoveCounted
  rw [if_pos h.2, h.1]

/-- What comes before a counted move and disturbs nothing does not matter. -/
theorem Undisturbed.trans_moveCounted (h : Undisturbed piece b c) (k : MoveCounted piece c d) :
    MoveCounted piece b d := by
  unfold MoveCounted countMove at k ⊢
  rw [k, h.1, h.2]

/-- What comes after a counted move and disturbs nothing does not matter. -/
theorem MoveCounted.trans_undisturbed (h : MoveCounted piece b c) (k : Undisturbed piece c d) :
    MoveCounted piece b d := by
  unfold MoveCounted at h ⊢
  rw [k.1, k.2, h]

/-- Taking other pieces disturbs nothing. -/
theorem undisturbed_foldl_strike (log : AttackLog) {victims : List PieceId}
    (others : piece ∉ victims) :
    Undisturbed piece b (victims.foldl (strike piece) (b, log)).1 := by
  induction victims generalizing b log with
  | nil => exact ⟨rfl, rfl⟩
  | cons victim rest ih =>
    rw [List.mem_cons, not_or] at others
    have first : Undisturbed piece b (strike piece (b, log) victim).1 := by
      unfold strike
      split
      · exact ⟨rfl, b.squareOf?_lift_of_ne others.1⟩
      · exact ⟨rfl, rfl⟩
    exact first.trans (ih _ others.2)

/-- A delta that does not move the piece, and does not take it, disturbs nothing. -/
theorem undisturbed_apply (log : AttackLog) {delta : Delta} (stays : delta.kind ≠ .position)
    (others : piece ∉ delta.victims) : Undisturbed piece b (delta.apply piece (b, log)).1 := by
  cases delta with
  | position square => exact absurd rfl stays
  | cell square => exact ⟨rfl, rfl⟩
  | attack victims => exact undisturbed_foldl_strike log others
  | lose player =>
    rw [Delta.apply, eliminate_eq_enrol]
    exact ⟨rfl, rfl⟩

/-- Going to a square is counted unless the piece is found there. -/
theorem moveCounted_position (log : AttackLog) (square : Square) :
    MoveCounted piece b ((Delta.position square).apply piece (b, log)).1 := by
  rw [Delta.apply]
  split
  · exact Undisturbed.moveCounted ⟨rfl, rfl⟩
  · rename_i elsewhere
    have moved : ((b.place piece square).countMove piece).squareOf? piece = some square :=
      b.squareOf?_place_self piece square
    unfold MoveCounted
    rw [moved, if_neg fun same => elsewhere same.symm]
    rfl

/-- Deltas that neither move the piece nor take it disturb nothing. -/
theorem undisturbed_foldl_apply (log : AttackLog) {ds : List Delta}
    (stays : .position ∉ ds.map Delta.kind) (others : ∀ delta ∈ ds, piece ∉ delta.victims) :
    Undisturbed piece b (ds.foldl (Delta.apply piece) (b, log)).1 := by
  induction ds generalizing b log with
  | nil => exact ⟨rfl, rfl⟩
  | cons delta rest ih =>
    rw [List.map_cons, List.mem_cons, not_or] at stays
    have first := undisturbed_apply (b := b) log (Ne.symm stays.1)
      (others delta List.mem_cons_self)
    exact first.trans (ih _ stays.2 fun later h => others later (List.mem_cons_of_mem delta h))

/-- Of deltas of different kinds only one moves the piece, and this move is counted. -/
theorem moveCounted_foldl_apply (log : AttackLog) {ds : List Delta}
    (slotted : (ds.map Delta.kind).Nodup) (others : ∀ delta ∈ ds, piece ∉ delta.victims) :
    MoveCounted piece b (ds.foldl (Delta.apply piece) (b, log)).1 := by
  induction ds generalizing b log with
  | nil => exact Undisturbed.moveCounted ⟨rfl, rfl⟩
  | cons delta rest ih =>
    rw [List.map_cons, List.nodup_cons] at slotted
    have later : ∀ delta ∈ rest, piece ∉ delta.victims :=
      fun other h => others other (List.mem_cons_of_mem delta h)
    rw [List.foldl_cons]
    by_cases moves : delta.kind = .position
    · have stays : .position ∉ rest.map Delta.kind := moves ▸ slotted.1
      cases delta with
      | position square =>
        exact (moveCounted_position log square).trans_undisturbed
          (undisturbed_foldl_apply _ stays later)
      | _ => exact nomatch moves
    · have first := undisturbed_apply (b := b) log moves (others delta List.mem_cons_self)
      exact first.trans_moveCounted (ih _ slotted.2 later)

end Board

/-! ## Findings -/

namespace Query

variable {q : Query} {link : Link}

/-- Along a run there is at most one delta of each kind. -/
theorem Leads.slotted {steps : List Step} {last : Link} (run : q.Leads steps link last)
    (slotted : link.deltas.Slotted) : last.deltas.Slotted := by
  induction run with
  | stop link => exact slotted
  | pass passes next ih => exact ih slotted
  | take clear found bound next ih =>
    have effect := effect_of_mem_branches (List.mem_of_getElem? found)
    exact ih (effect.slotted slotted)

/-- A behaviour starts with at most one delta of each kind. -/
theorem slotted_start (q : Query) (b : Behaviour) : (q.start b).deltas.Slotted := by
  unfold start
  dsimp only
  split
  · exact DeltaSet.slotted_ofList _
  · exact DeltaSet.slotted_empty

/-- A finding counts one move of its piece if it leaves the piece elsewhere, and none otherwise. -/
theorem moveCounted_of_mem_findings (found : link ∈ q.findings) :
    Board.MoveCounted q.piece.id q.board link.board := by
  have admitted := admitsAll_of_mem_findings found
  obtain ⟨b, -, run⟩ := exists_leads_of_mem_findings found
  have others : ∀ delta ∈ link.deltas.deltas, q.piece.id ∉ delta.victims := by
    intro delta listed
    have admits := admitted delta listed
    cases delta with
    | attack victims => exact admits
    | _ => exact List.not_mem_nil
  have counted := Board.moveCounted_foldl_apply (b := q.board) q.log
    (run.slotted (q.slotted_start b)) others
  have made := replay_of_mem_findings found
  unfold DeltaSet.apply at made
  rwa [← made] at counted

end Query

/-! ## The count of a piece -/

namespace Board

variable {piece : PieceId} {n m : ℕ} {b c d : Board}

/-- Whether changes of square are counted: there is a step monitor. -/
def keepsCount (b : Board) : Bool := (b.monitor? Monitor.stepKind).isSome

/-- Boards with the same monitors have counted the same. -/
theorem moveCount_congr (same : c.monitors = b.monitors) (piece : PieceId) :
    c.moveCount piece = b.moveCount piece := by
  unfold moveCount monitor?
  rw [same]

/-- Counting a move changes the step monitors only. -/
theorem monitor?_countMove (b : Board) (mover : PieceId) (kind : String) :
    (b.countMove mover).monitor? kind =
      (b.monitor? kind).map fun m => if m.kind = Monitor.stepKind then m.increment mover else m := by
  have kinds : ∀ m : Monitor,
      (if m.kind = Monitor.stepKind then m.increment mover else m).kind = m.kind := by
    intro m
    split <;> rfl
  unfold monitor? countMove
  rw [List.find?_map]
  refine congrArg _ (congrArg (b.monitors.find? ·) (funext fun m => ?_))
  rw [Function.comp_apply, kinds m]

/-- That a board has counted some more moves of a piece than another one, if it counts at all. -/
structure Counted (piece : PieceId) (n : ℕ) (b c : Board) : Prop where
  /-- There still is a step monitor, or still is none. -/
  keepsCount : c.keepsCount = b.keepsCount
  /-- Without a step monitor nothing is counted. -/
  count : c.moveCount piece = b.moveCount piece + UInt32.ofNat (if b.keepsCount then n else 0)

namespace Counted

/-- With the same monitors nothing more has been counted. -/
theorem of_monitors_eq (same : c.monitors = b.monitors) (piece : PieceId) :
    Counted piece 0 b c where
  keepsCount := by
    unfold Board.keepsCount monitor?
    rw [same]
  count := by
    rw [moveCount_congr same piece, ite_self]
    exact (UInt32.add_zero _).symm

/-- What is counted in a row of changes adds up, as the counter adds. -/
theorem trans (h : Counted piece n b c) (k : Counted piece m c d) :
    Counted piece (n + m) b d where
  keepsCount := k.keepsCount.trans h.keepsCount
  count := by
    rw [k.count, h.count, h.keepsCount, UInt32.add_assoc, ← UInt32.ofNat_add]
    cases b.keepsCount <;> rfl

/-- Counting a move of some piece counts one for it and none for the others. -/
theorem countMove (b : Board) (mover piece : PieceId) :
    Counted piece (if mover = piece then 1 else 0) b (b.countMove mover) where
  keepsCount := by
    unfold Board.keepsCount
    rw [monitor?_countMove, Option.isSome_map]
  count := by
    unfold Board.keepsCount moveCount
    rw [monitor?_countMove]
    cases found : b.monitor? Monitor.stepKind with
    | none => rfl
    | some m =>
      have kind : m.kind = Monitor.stepKind := by simpa using List.find?_some found
      simp only [Option.map_some, Option.getD_some, Option.isSome_some, if_true, if_pos kind]
      by_cases same : mover = piece
      · rw [if_pos same, same, Monitor.count_increment_self]
        rfl
      · rw [if_neg same, m.count_increment_of_ne (Ne.symm same)]
        exact (UInt32.add_zero _).symm

/-- Eliminating a player counts nothing. -/
theorem eliminate (b : Board) (player : PlayerId) (piece : PieceId) :
    Counted piece 0 b (b.eliminate player) := by
  refine of_monitors_eq ?_ piece
  rw [eliminate_eq_enrol]

/-- Where no more has been counted than there is room for, counts are sums of numbers. -/
theorem toNat_count (h : Counted piece n b c)
    (room : (b.moveCount piece).toNat + n < UInt32.size) :
    (c.moveCount piece).toNat =
      (b.moveCount piece).toNat + if b.keepsCount then n else 0 := by
  have less : (if b.keepsCount then n else 0) ≤ n := by split <;> omega
  have fits : (if b.keepsCount then n else 0) < UInt32.size := by omega
  rw [h.count, UInt32.toNat_add, UInt32.toNat_ofNat_of_lt' fits]
  exact Nat.mod_eq_of_lt (Nat.lt_of_le_of_lt (Nat.add_le_add_left less _) room)

end Counted

end Board

/-! ## Along links -/

/-- How often a piece acts along links and is found elsewhere after it than before. -/
def movesAlong (piece : PieceId) : Board → List Link → ℕ
  | _, [] => 0
  | b, link :: rest =>
    (if link.selection.piece = piece ∧ link.board.squareOf? piece ≠ b.squareOf? piece then 1
      else 0) + movesAlong piece link.board rest

/-- Links each of which is a finding of a search on the board of the one before it, with the first
and the last board. -/
inductive Linked : Board → List Link → Board → Prop
  | nil (b : Board) : Linked b [] b
  | cons {q : Query} {link : Link} {rest : List Link} {last : Board} (found : link ∈ q.findings)
      (further : Linked link.board rest last) : Linked q.board (link :: rest) last

/-- A finding counts one move for its piece if it leaves the piece elsewhere, and none for any other
piece. -/
theorem Query.counted_of_mem_findings {q : Query} {link : Link} (found : link ∈ q.findings)
    (piece : PieceId) :
    Board.Counted piece (movesAlong piece q.board [link]) q.board link.board := by
  have acts := Query.piece_of_mem_findings found
  have monitors := Query.moveCounted_of_mem_findings found
  unfold Board.MoveCounted at monitors
  unfold movesAlong
  rw [acts]
  by_cases stays : link.board.squareOf? q.piece.id = q.board.squareOf? q.piece.id
  · have nowhere :
        ¬(q.piece.id = piece ∧ link.board.squareOf? piece ≠ q.board.squareOf? piece) := by
      rintro ⟨rfl, goes⟩
      exact goes stays
    rw [if_pos stays] at monitors
    rw [if_neg nowhere]
    exact .of_monitors_eq monitors piece
  · have goes : (q.piece.id = piece ∧ link.board.squareOf? piece ≠ q.board.squareOf? piece) ↔
        q.piece.id = piece := by
      refine and_iff_left_of_imp ?_
      rintro rfl
      exact stays
    rw [if_neg stays] at monitors
    simp only [goes]
    exact (Board.Counted.countMove q.board q.piece.id piece).trans (.of_monitors_eq monitors piece)

/-- Along links the moves of a piece are counted. -/
theorem Linked.counted {b last : Board} {links : List Link} (linked : Linked b links last)
    (piece : PieceId) : Board.Counted piece (movesAlong piece b links) b last := by
  induction linked with
  | nil b => exact .of_monitors_eq rfl piece
  | cons found further ih => exact (Query.counted_of_mem_findings found piece).trans ih

/-- The reactions to a link are linked behind it. -/
theorem linked_reactionsTo (settings : Settings) (initiator : PieceId) (pieces : List Piece)
    (tail : Link) :
    Linked tail.board (Extension.empty.reactionsTo settings initiator pieces tail)
      ((Extension.empty.reactionsTo settings initiator pieces tail).getLast?.getD tail).board := by
  induction pieces generalizing tail with
  | nil => exact .nil tail.board
  | cons piece rest ih =>
    cases turn : Extension.empty.reaction? settings initiator tail piece with
    | none =>
      rw [Extension.reactionsTo_cons_of_none turn]
      exact ih tail
    | some reaction =>
      obtain ⟨-, first⟩ := Extension.reaction?_eq_some_iff.1 turn
      rw [Extension.reactionsTo_cons_of_some turn, List.getLast?_cons, Option.getD_some]
      exact .cons (q := ⟨settings, tail.board, piece, .passive, tail.log⟩)
        (List.mem_of_head? first) (ih reaction)

/-- The links of a candidate lead from the board of the analysis to its final board. -/
theorem linked_of_mem_candidates {b : Board} {settings : Settings} {phase : Phase}
    {include? : Piece → Bool} {c : Candidate}
    (hc : c ∈ (b.analysisWhere settings phase include?).candidates) :
    Linked b c.links c.finalBoard := by
  obtain ⟨piece, -, -, head, found, rfl⟩ := exists_finding_of_mem_candidates hc
  exact .cons (q := ⟨settings, b, piece, phase.trigger, {}⟩) found
    (linked_reactionsTo settings _ _ head)

end BoardRules
