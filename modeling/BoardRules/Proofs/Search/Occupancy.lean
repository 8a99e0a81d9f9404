import Mathlib
import BoardRules.Proofs.Search.Chain
import BoardRules.Proofs.Search.Story

/-!
# Who stands where

A board is well placed (`Board.WellPlaced`) when its placements put distinct registered pieces on
distinct squares inside the board.  A search looks at the board of a run to find branches, and makes
the next board anew from the one on which it started; what ties the two together is that the
destination of a run is always free on the first board, once its victims are gone
(`Board.FreeFor`).  So every finding leaves a well-placed board (`wellPlaced_of_mem_findings`).
-/

namespace BoardRules

namespace Board

/-- Distinct registered pieces stand on distinct squares inside the board. -/
structure WellPlaced (b : Board) : Prop where
  /-- No piece is placed twice. -/
  once : b.PlacedOnce
  /-- Every placed piece is registered. -/
  registered : ∀ placed ∈ b.placements, ∃ piece ∈ b.pieces, piece.id = placed.1
  /-- Every square lies inside the board. -/
  inside : ∀ placed ∈ b.placements, b.onBoard placed.2 = true
  /-- No two pieces share a square. -/
  apart : (b.placements.map Prod.snd).Nodup

/-- A square of the board where nobody but a piece itself stands, once victims are gone. -/
def FreeFor (b : Board) (piece : PieceId) (victims : List PieceId) (square : Square) : Prop :=
  b.onBoard square = true ∧
    ∀ placed ∈ b.placements, placed.2 = square → placed.1 = piece ∨ placed.1 ∈ victims

variable {b c : Board}

/-- Boards of one table with the same placements are equally well placed. -/
theorem WellPlaced.congr (h : b.WellPlaced) (table : SameTable b c)
    (placements : c.placements = b.placements) : c.WellPlaced where
  once := by
    unfold PlacedOnce
    rw [placements]
    exact h.once
  registered := by
    rw [placements, table.pieces]
    exact h.registered
  inside placed hplaced := by
    rw [table.onBoard_eq]
    exact h.inside placed (placements ▸ hplaced)
  apart := by
    rw [placements]
    exact h.apart

/-- Two placements on one square are the same. -/
theorem WellPlaced.eq_of_square_eq (h : b.WellPlaced) {p q : PieceId × Square}
    (hp : p ∈ b.placements) (hq : q ∈ b.placements) (same : p.2 = q.2) : p = q :=
  List.inj_on_of_nodup_map h.apart hp hq same

/-- A piece that goes to a free square meets nobody there. -/
theorem WellPlaced.eq_of_relocate_eq (h : b.WellPlaced) {piece : PieceId}
    {target : Option Square} {victims : List PieceId}
    (free : ∀ square, target = some square → b.FreeFor piece victims square)
    {p q : PieceId × Square} (hp : p ∈ b.placements) (hq : q ∈ b.placements)
    (moves : p.1 = piece) (stays : q.1 ≠ piece) (standing : q.1 ∉ victims)
    (same : (relocate piece target p).2 = (relocate piece target q).2) : p = q := by
  rw [relocate_of_ne stays] at same
  cases target with
  | none =>
    rw [relocate_none] at same
    exact h.eq_of_square_eq hp hq same
  | some square =>
    rw [relocate, if_pos moves] at same
    exact absurd ((free square rfl).2 q hq same.symm) (not_or.2 ⟨stays, standing⟩)

/-- Rearranging a well-placed board leaves it well placed, if the piece goes to a free square. -/
theorem WellPlaced.rearrange (h : b.WellPlaced) (table : SameTable b c) {piece : PieceId}
    {target : Option Square} {victims : List PieceId}
    (placements : c.placements = Board.rearrange piece target victims b.placements)
    (free : ∀ square, target = some square → b.FreeFor piece victims square) : c.WellPlaced where
  once := by
    unfold PlacedOnce
    rw [placements]
    exact nodup_rearrange h.once piece target victims
  registered placed hplaced := by
    have listed := List.mem_map_of_mem (f := Prod.fst) hplaced
    rw [placements, map_fst_rearrange] at listed
    obtain ⟨old, hold, same⟩ := List.mem_map.1 (List.mem_filter.1 listed).1
    rw [table.pieces, ← same]
    exact h.registered old hold
  inside placed hplaced := by
    rw [placements] at hplaced
    obtain ⟨old, hold, rfl⟩ := List.mem_map.1 hplaced
    have known : old ∈ b.placements := (List.mem_filter.1 hold).1
    rw [table.onBoard_eq, relocate]
    split
    · cases goes : target with
      | none => exact h.inside old known
      | some square => exact (free square goes).1
    · exact h.inside old known
  apart := by
    rw [placements, Board.rearrange, List.map_map]
    have distinct : (b.placements.filter (·.1 ∉ victims)).Nodup :=
      (List.Nodup.of_map _ h.once).filter _
    refine distinct.map_on fun p hp q hq same => ?_
    obtain ⟨hp, standing⟩ := List.mem_filter.1 hp
    obtain ⟨hq, standing'⟩ := List.mem_filter.1 hq
    rw [decide_eq_true_eq] at standing standing'
    by_cases self : p.1 = piece <;> by_cases self' : q.1 = piece
    · exact List.inj_on_of_nodup_map h.once hp hq (self.trans self'.symm)
    · exact h.eq_of_relocate_eq free hp hq self self' standing' same
    · exact (h.eq_of_relocate_eq free hq hp self' self standing same.symm).symm
    · rw [Function.comp_apply, Function.comp_apply, relocate_of_ne self,
        relocate_of_ne self'] at same
      exact h.eq_of_square_eq hp hq same

end Board

namespace Query

/-- The destination of a run is free on the board where the search started, once the victims of the
run are gone. -/
def Footing (q : Query) (link : Link) : Prop :=
  ∀ square, link.deltas.destination? = some square →
    q.board.FreeFor q.piece.id link.deltas.victims square

variable {q : Query} {link : Link}

/-- A run whose destination is free leaves a well-placed board. -/
theorem Story.wellPlaced (story : q.Story link) (h : q.board.WellPlaced)
    (footing : q.Footing link) : link.board.WellPlaced :=
  h.rearrange story.sameTable (story.placements h.once) footing

/-- A behaviour starts where its piece stands, and nobody else stands there. -/
theorem footing_start (h : q.board.WellPlaced) (b : Behaviour) : q.Footing (q.start b) := by
  intro square goes
  have here : q.board.squareOf? q.piece.id = some square :=
    ((q.story_start b).squareOf?_eq h.once).trans goes
  rw [Board.squareOf?_eq_some_iff h.once] at here
  refine ⟨h.inside (q.piece.id, square) here, fun placed hplaced same => Or.inl ?_⟩
  exact congrArg Prod.fst (h.eq_of_square_eq hplaced here same)

/-- An effect leads to a square that is free on the board where the search started.  Somebody who
stood there has been taken before, or still stands there on the board of the run and is taken
now. -/
theorem Footing.follow (footing : q.Footing link) (h : q.board.WellPlaced) (story : q.Story link)
    {branch : Branch} (effect : Effect link.board q.piece.id link.deltas branch.deltas)
    (index : ℕ) : q.Footing (q.follow link branch index) := by
  obtain ⟨taken, victims, -, -⟩ := story.exists_taken h.once effect
  intro square (goes : branch.deltas.destination? = some square)
  change q.board.FreeFor q.piece.id branch.deltas.victims square
  rcases effect.destination?_eq with same | ⟨aim, arrives, inside, meets⟩
  · obtain ⟨inside, others⟩ := footing square (same ▸ goes)
    refine ⟨inside, fun placed hplaced here => ?_⟩
    rw [victims]
    exact (others placed hplaced here).imp_right (List.mem_append_left taken)
  · obtain rfl : aim = square := Option.some.inj (arrives.symm.trans goes)
    refine ⟨story.sameTable.onBoard_eq aim ▸ inside, fun placed hplaced here => ?_⟩
    by_cases self : placed.1 = q.piece.id
    · exact Or.inl self
    · right
      by_cases old : placed.1 ∈ link.deltas.victims
      · rw [victims]
        exact List.mem_append_left taken old
      · have still : placed ∈ link.board.placements := by
          rw [story.placements h.once, Board.mem_rearrange_of_ne placed self]
          exact ⟨hplaced, old⟩
        cases occupied : link.board.occupant? aim with
        | none => exact absurd here (Board.ne_of_occupant?_eq_none occupied still)
        | some target =>
          have there := Board.mem_placements_of_occupant? occupied
          have same := (story.wellPlaced h footing).eq_of_square_eq still there here
          rw [same]
          exact meets target occupied

/-- The destination stays free up to the end of a run. -/
theorem Leads.footing {steps : List Step} {last : Link} (run : q.Leads steps link last)
    (h : q.board.WellPlaced) (story : q.Story link) (footing : q.Footing link) :
    q.Footing last := by
  induction run with
  | stop link => exact footing
  | pass passes next ih => exact ih (story.select _) footing
  | take clear found bound next ih =>
    have effect := effect_of_mem_branches (List.mem_of_getElem? found)
    exact ih (story.follow h.once effect _) (footing.follow h story effect _)

/-- Every finding on a well-placed board leaves a well-placed board. -/
theorem wellPlaced_of_mem_findings (h : q.board.WellPlaced) (hlink : link ∈ q.findings) :
    link.board.WellPlaced := by
  obtain ⟨b, -, run⟩ := exists_leads_of_mem_findings hlink
  have story := story_of_mem_findings h.once hlink
  exact story.wellPlaced h (run.footing h (q.story_start b) (footing_start h b))

end Query

/-- Searches hand on that the board is well placed. -/
theorem handedOn_wellPlaced : HandedOn Board.WellPlaced :=
  fun _ h _ hlink => Query.wellPlaced_of_mem_findings h hlink

end BoardRules
