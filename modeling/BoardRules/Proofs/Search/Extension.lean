import Mathlib
import BoardRules.Proofs.Search.Story

/-!
# Searching with further actions

The actions that a game brings along do what they like (`Extension`).  But it is not they who change
a board: every run of a search is made by applying deltas of the searched piece to the board and the
log of the search (`Query.Made`), and this holds with any extension, since it holds of the start of
a behaviour and at each step (`Extension.forall_mem_runs`, `Extension.made_of_mem_findings`).  So
whatever applying deltas keeps is kept by all searches.

One such thing is how often a piece is placed or recorded as taken (`tally`).  Deltas place nobody
but the piece that acts, so for all others the tally stays the same (`DeltaSet.tally_apply`).

The story of a run (`Query.Story`) is more than that.  It needs the actions of this library, and
goes through where an extension has no action for the steps of the piece
(`Extension.story_of_mem_findings`).
-/

namespace BoardRules

/-! ## How often a piece is placed or taken -/

/-- How often a piece is placed on a board or recorded as taken. -/
def tally (piece : PieceId) (state : Board × AttackLog) : ℕ :=
  (state.1.placements.map Prod.fst).count piece + (state.2.attacks.map (·.victim)).count piece

section Tally

variable {piece other : PieceId}

/-- A piece that is taken off gives up one entry among those who are placed. -/
theorem Board.map_fst_lift (b : Board) (piece : PieceId) :
    (b.lift piece).placements.map Prod.fst = (b.placements.map Prod.fst).erase piece := by
  rw [List.erase_eq_eraseP', List.eraseP_map]
  rfl

/-- Placing a piece places no other one. -/
theorem Board.count_placeIn_of_ne (differs : other ≠ piece) (square : Square)
    (placements : List (PieceId × Square)) :
    ((placeIn piece square placements).map Prod.fst).count other =
      (placements.map Prod.fst).count other := by
  induction placements with
  | nil => exact List.count_eq_zero.2 (by simpa [placeIn] using differs)
  | cons placed rest ih =>
    obtain ⟨id, old⟩ := placed
    unfold placeIn
    split
    · rename_i same
      subst same
      rfl
    · rw [List.map_cons, List.count_cons, ih, List.map_cons, List.count_cons]

/-- Whoever is taken leaves the board once and is recorded once. -/
theorem tally_strike (other attacker : PieceId) (state : Board × AttackLog) (victim : PieceId) :
    tally other (strike attacker state victim) = tally other state := by
  unfold strike
  split
  · rename_i square found
    have placed : victim ∈ state.1.placements.map Prod.fst :=
      Board.isSome_squareOf?_iff.1 (by rw [found]; rfl)
    unfold tally
    rw [Board.map_fst_lift, List.map_append, List.count_append, List.map_singleton,
      List.count_singleton]
    by_cases same : victim = other
    · subst same
      have here := List.count_pos_iff.2 placed
      rw [List.count_erase_self, beq_self_eq_true, if_pos rfl]
      omega
    · rw [List.count_erase_of_ne (Ne.symm same), beq_eq_false_iff_ne.2 same,
        if_neg Bool.false_ne_true]
      rfl
  · rfl

/-- What each of some steps leaves alone they leave alone together. -/
theorem tally_foldl {α : Type} {act : Board × AttackLog → α → Board × AttackLog}
    (same : ∀ state a, tally other (act state a) = tally other state)
    (state : Board × AttackLog) (items : List α) :
    tally other (items.foldl act state) = tally other state := by
  induction items generalizing state with
  | nil => rfl
  | cons a rest ih => exact (ih _).trans (same state a)

/-- A delta leaves the tally of everybody alone but the piece that acts. -/
theorem Delta.tally_apply (differs : other ≠ piece) (state : Board × AttackLog) (d : Delta) :
    tally other (d.apply piece state) = tally other state := by
  cases d with
  | position square =>
    rw [apply]
    split
    · rfl
    · exact congrArg (· + _) (Board.count_placeIn_of_ne differs square state.1.placements)
  | cell square => rfl
  | attack victims => exact tally_foldl (tally_strike other piece) state victims
  | lose player =>
    unfold tally
    rw [apply, Board.placements_eliminate]

/-- Applying deltas leaves the tally of everybody alone but the piece that acts. -/
theorem DeltaSet.tally_apply (differs : other ≠ piece) (s : DeltaSet)
    (state : Board × AttackLog) : tally other (s.apply piece state) = tally other state :=
  tally_foldl (fun state d => d.tally_apply differs state) state s.deltas

end Tally

/-! ## What every run is -/

namespace Query

/-- What every run of a search is: one of the searched piece, whose board and log are made by
applying its deltas. -/
structure Made (q : Query) (link : Link) : Prop where
  /-- The piece is the one that is searched. -/
  piece : link.selection.piece = q.piece.id
  /-- The board and the log are made by applying the deltas. -/
  replay : (link.board, link.log) = link.deltas.apply q.piece.id (q.board, q.log)

variable {q : Query} {link next : Link}

/-- The board of a run has the table of the search. -/
theorem Made.sameTable (made : q.Made link) : Board.SameTable q.board link.board := by
  have table := link.deltas.sameTable_apply q.piece.id (q.board, q.log)
  rwa [← made.replay] at table

/-- The log of a run extends that of the search. -/
theorem Made.keeps_attacks (made : q.Made link) : q.log.attacks <+: link.log.attacks := by
  have grown := link.deltas.attacks_prefix_apply q.piece.id (q.board, q.log)
  rwa [← made.replay] at grown

/-- A run leaves the tally of everybody alone but the searched piece. -/
theorem Made.tally_eq (made : q.Made link) {other : PieceId} (differs : other ≠ q.piece.id) :
    tally other (link.board, link.log) = tally other (q.board, q.log) := by
  rw [made.replay]
  exact link.deltas.tally_apply differs (q.board, q.log)

/-- What a run leads to at an action follows some branch of it. -/
theorem exists_branch_of_mem_fork {branches : List Branch} (h : next ∈ q.fork link branches) :
    ∃ branch ∈ branches, ∃ index, q.follow link branch index = next := by
  unfold fork at h
  split at h
  · exact absurd h List.not_mem_nil
  · obtain ⟨⟨branch, index⟩, taken, rfl⟩ := List.mem_map.1 h
    obtain ⟨found, -⟩ := mem_take_zipIdx_iff.1 taken
    exact ⟨branch, List.mem_of_getElem? found, index, rfl⟩

end Query

namespace Extension

variable {x : Extension} {q : Query} {step : Step} {link next : Link} {b : Behaviour}

/-- What a run leads to at a step: itself, past a condition, or a run that follows a branch of an
action of this library or of the extension. -/
theorem advance_cases (h : next ∈ x.advance q step link) :
    (∃ c, step = .condition c ∧
      x.passes c ⟨link.board, q.piece.id, link.log.attacker? q.piece.id⟩ = true ∧
      link.numbered 0 = next) ∨
    (∃ a, step = .action a ∧ ∃ branch ∈ a.branches link.board link.deltas q.piece.id,
      ∃ index, q.follow link branch index = next) ∨
    ∃ r act, step = .unresolved r ∧ x.action? r = some act ∧
      ∃ branch ∈ act link.board link.deltas q.piece, ∃ index,
        q.follow link branch index = next := by
  cases step with
  | condition c =>
    rw [advance] at h
    split at h
    · rename_i passes
      exact .inl ⟨c, rfl, passes, (List.mem_singleton.1 h).symm⟩
    · exact absurd h List.not_mem_nil
  | action a => exact .inr (.inl ⟨a, rfl, Query.exists_branch_of_mem_fork h⟩)
  | unresolved r =>
    rw [advance] at h
    split at h
    · rename_i act known
      exact .inr (.inr ⟨r, act, rfl, known, Query.exists_branch_of_mem_fork h⟩)
    · exact absurd h List.not_mem_nil

/-- What the unfinished runs of a work-list have, and every step that may be among theirs keeps, all
finished runs have. -/
theorem forall_mem_run (allowed : Step → Prop) {P : Link → Prop}
    (kept : ∀ step link, allowed step → P link → ∀ next ∈ x.advance q step link, P next)
    {work : List (List Step × Link)}
    (holds : ∀ w ∈ work, (∀ step ∈ w.1, allowed step) ∧ P w.2) : ∀ link ∈ x.run q work, P link := by
  fun_induction x.run q work with
  | case1 => exact fun link hlink => absurd hlink List.not_mem_nil
  | case2 link rest ih =>
    rw [List.forall_mem_cons] at holds ⊢
    exact ⟨holds.1.2, ih holds.2⟩
  | case3 step steps link rest ih =>
    rw [List.forall_mem_cons] at holds
    obtain ⟨⟨may, here⟩, others⟩ := holds
    rw [List.forall_mem_cons] at may
    refine ih (List.forall_mem_append.2 ⟨others, List.forall_mem_map.2 fun next hnext => ?_⟩)
    exact ⟨may.2, kept step link may.1 here next hnext⟩

/-- What the start of a behaviour has, and every step of it keeps, all finished runs have. -/
theorem forall_mem_runs (allowed : Step → Prop) {P : Link → Prop}
    (kept : ∀ step link, allowed step → P link → ∀ next ∈ x.advance q step link, P next)
    (may : ∀ step ∈ b.steps, allowed step) (start : P (q.start b)) :
    ∀ link ∈ x.runs q b, P link := by
  refine forall_mem_run allowed kept ?_
  rw [List.forall_mem_singleton]
  exact ⟨fun step built => may step (List.mem_filter.1 built).1, start⟩

/-- A finding is a finished run of a behaviour of the piece. -/
theorem exists_behaviour_of_mem_findings (h : link ∈ x.findings q) :
    ∃ b ∈ q.piece.behaviours, link ∈ x.runs q b := by
  unfold findings at h
  split at h
  · exact absurd h List.not_mem_nil
  · obtain ⟨b, fires, found⟩ := List.mem_flatMap.1 h
    exact ⟨b, (List.mem_filter.1 fires).1, found⟩

/-- Every finding is made by applying its deltas, whatever the extension does. -/
theorem made_of_mem_findings (h : link ∈ x.findings q) : q.Made link := by
  obtain ⟨b, -, found⟩ := exists_behaviour_of_mem_findings h
  refine forall_mem_runs (fun _ => True) ?_ (fun _ _ => trivial) ⟨rfl, q.replay_start b⟩ link found
  intro step link _ made next hnext
  rcases advance_cases hnext with ⟨c, -, -, rfl⟩ | ⟨a, -, branch, -, index, rfl⟩ |
    ⟨r, act, -, -, branch, -, index, rfl⟩
  · exact ⟨made.piece, made.replay⟩
  · exact ⟨made.piece, rfl⟩
  · exact ⟨made.piece, rfl⟩

/-! ## Where the extension has no action -/

/-- The extension has no action for the steps of a piece. -/
def Spares (x : Extension) (piece : Piece) : Prop :=
  ∀ b ∈ piece.behaviours, ∀ r, .unresolved r ∈ b.steps → x.action? r = none

/-- Without further actions every piece is spared. -/
theorem spares_empty (piece : Piece) : empty.Spares piece := fun _ _ _ _ => rfl

/-- A search with only the actions of this library tells the story, whatever guards there are. -/
theorem story_of_mem_findings (spares : x.Spares q.piece) (once : q.board.PlacedOnce)
    (h : link ∈ x.findings q) : q.Story link := by
  obtain ⟨b, hb, found⟩ := exists_behaviour_of_mem_findings h
  refine forall_mem_runs (fun step => ∀ r, step = .unresolved r → x.action? r = none) ?_ ?_
    (q.story_start b) link found
  · intro step link spared story next hnext
    rcases advance_cases hnext with ⟨c, -, -, rfl⟩ | ⟨a, -, branch, taken, index, rfl⟩ |
      ⟨r, act, same, known, -⟩
    · exact story.select _
    · exact story.follow once (effect_of_mem_branches taken) index
    · exact nomatch (spared r same).symm.trans known
  · rintro step listed r rfl
    exact spares b hb r listed

end Extension

end BoardRules
