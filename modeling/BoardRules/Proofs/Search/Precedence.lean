import Mathlib
import BoardRules.Proofs.Board.Precedence
import BoardRules.Proofs.Search.Effect
import BoardRules.Proofs.Search.Replay

/-!
# What a search does on any board

Nothing is assumed here about where pieces stand: a piece may be listed twice, or not at all.  The
deltas that a run gathers are of four harmless kinds (`Query.Admits`): a piece goes somewhere only
if it stands somewhere, it does not take itself, and whoever loses sits at the table.  The start of
a behaviour has only such deltas, and every effect of an action keeps to them
(`Query.AdmitsAll.effect`).  Applying them leads to boards behind the one on which the search
started, and the searched piece does not leave it (`Query.Ahead`).  So every finding lies ahead of
its search (`Query.precedes_of_mem_findings`).
-/

namespace BoardRules

/-- A merged delta is a new one, an old one, or an old one after the new one of its kind. -/
theorem DeltaSet.mem_mergeInto {d e : Delta} {ds : List Delta} (h : e ∈ mergeInto d ds) :
    e = d ∨ e ∈ ds ∨ ∃ old ∈ ds, e = old.absorb d := by
  induction ds with
  | nil => exact Or.inl (List.mem_singleton.1 h)
  | cons first rest ih =>
    unfold mergeInto at h
    split at h
    · rcases List.mem_cons.1 h with rfl | later
      · exact Or.inr (Or.inr ⟨first, List.mem_cons_self, rfl⟩)
      · exact Or.inr (Or.inl (List.mem_cons_of_mem _ later))
    · rcases List.mem_cons.1 h with rfl | later
      · exact Or.inr (Or.inl List.mem_cons_self)
      · rcases ih later with new | old | ⟨old, hold, rfl⟩
        · exact Or.inl new
        · exact Or.inr (Or.inl (List.mem_cons_of_mem _ old))
        · exact Or.inr (Or.inr ⟨old, List.mem_cons_of_mem _ hold, rfl⟩)

/-- A set with a destination has a delta that goes there. -/
theorem DeltaSet.exists_position_of_isSome {s : DeltaSet} (h : s.destination?.isSome = true) :
    ∃ square, .position square ∈ s.deltas := by
  unfold destination? at h
  split at h
  · rename_i square found
    exact ⟨square, List.mem_of_find?_eq_some found⟩
  · exact absurd h Bool.false_ne_true

namespace Query

variable {q : Query} {link : Link}

/-! ## Deltas that a search may gather -/

/-- The deltas that a search may gather: its piece goes somewhere only if it stands on the board,
it does not take itself, and whoever loses is a player of the board. -/
def Admits (q : Query) : Delta → Prop
  | .position _ => q.piece.id ∈ q.board.placements.map Prod.fst
  | .cell _ => True
  | .attack victims => q.piece.id ∉ victims
  | .lose player => player ∈ q.board.players.map (·.id)

/-- A set has only deltas that the search may gather. -/
def AdmitsAll (q : Query) (s : DeltaSet) : Prop := ∀ d ∈ s.deltas, q.Admits d

/-- A delta after a newer one of its kind may be gathered if both may. -/
theorem Admits.absorb {e d : Delta} (he : q.Admits e) (hd : q.Admits d) :
    q.Admits (e.absorb d) := by
  cases e <;> cases d <;> try exact hd
  -- Only two attacks leave something of the older one: nobody on either list is the piece.
  exact fun taken => (List.mem_append.1 taken).elim he hd

/-- A set stays one that the search may gather when such a delta is merged into it. -/
theorem AdmitsAll.merge {s : DeltaSet} {d : Delta} (hs : q.AdmitsAll s) (hd : q.Admits d) :
    q.AdmitsAll (s.merge d) := by
  intro e he
  rcases DeltaSet.mem_mergeInto he with rfl | old | ⟨old, hold, rfl⟩
  · exact hd
  · exact hs e old
  · exact (hs old hold).absorb hd

/-- A set stays one that the search may gather when several such deltas are merged. -/
theorem AdmitsAll.mergeAll {s : DeltaSet} {ds : List Delta} (hs : q.AdmitsAll s)
    (hds : ∀ d ∈ ds, q.Admits d) : q.AdmitsAll (s.mergeAll ds) := by
  induction ds generalizing s with
  | nil => exact hs
  | cons d rest ih =>
    have first : q.Admits d := hds d List.mem_cons_self
    exact ih (hs.merge first) fun e he => hds e (List.mem_cons_of_mem _ he)

theorem admitsAll_empty (q : Query) : q.AdmitsAll .empty :=
  fun _ hd => absurd hd List.not_mem_nil

/-- A behaviour starts with deltas that may be gathered. -/
theorem admitsAll_start (q : Query) (b : Behaviour) : q.AdmitsAll (q.start b).deltas := by
  unfold start
  dsimp only
  split
  · rename_i square found
    have placed : q.piece.id ∈ q.board.placements.map Prod.fst :=
      Board.isSome_squareOf?_iff.1 (by rw [found]; rfl)
    refine q.admitsAll_empty.mergeAll fun d hd => ?_
    rcases List.mem_cons.1 hd with rfl | later
    · exact placed
    · obtain rfl := List.mem_singleton.1 later
      trivial
  · exact q.admitsAll_empty

/-- A set with a destination that may be gathered belongs to a piece on the board. -/
theorem AdmitsAll.placed {s : DeltaSet} (hs : q.AdmitsAll s)
    (started : s.destination?.isSome = true) : q.piece.id ∈ q.board.placements.map Prod.fst := by
  obtain ⟨square, goes⟩ := DeltaSet.exists_position_of_isSome started
  exact hs _ goes

/-- An effect of an action, on a board of the same table, keeps to the deltas that may be
gathered. -/
theorem AdmitsAll.effect {b : Board} {s t : DeltaSet} (hs : q.AdmitsAll s)
    (table : Board.SameTable q.board b) (effect : Effect b q.piece.id s t) : q.AdmitsAll t := by
  -- Whoever is taken has another owner than the piece, and so is another piece.
  have others : ∀ {target : PieceId},
      (b.owner? q.piece.id).map (·.id) ≠ (b.owner? target).map (·.id) →
        q.Admits (.attack [target]) := by
    intro target foreign self
    obtain rfl := List.mem_singleton.1 self
    exact foreign rfl
  cases effect with
  | @lose owner owned =>
    have seated : owner ∈ q.board.players := by
      rw [← table.players]
      exact b.mem_players_of_owner? owned
    exact hs.merge (List.mem_map.2 ⟨owner, seated, rfl⟩)
  | @arrive aim started inside empty =>
    refine hs.mergeAll fun d hd => ?_
    rcases List.mem_cons.1 hd with rfl | later
    · trivial
    · obtain rfl := List.mem_singleton.1 later
      exact hs.placed started
  | @capture aim target started inside occupied foreign =>
    refine hs.mergeAll fun d hd => ?_
    rcases List.mem_cons.1 hd with rfl | later
    · trivial
    · rcases List.mem_cons.1 later with rfl | last
      · exact hs.placed started
      · obtain rfl := List.mem_singleton.1 last
        exact others foreign
  | @snipe aim target started inside occupied foreign =>
    refine hs.mergeAll fun d hd => ?_
    rcases List.mem_cons.1 hd with rfl | later
    · trivial
    · obtain rfl := List.mem_singleton.1 later
      exact others foreign

/-! ## Applying them -/

/-- A board to which a search may lead: it comes behind the one of the search, and the searched
piece has not left it. -/
structure Ahead (q : Query) (b : Board) : Prop where
  /-- The board of the search precedes it. -/
  precedes : Board.Precedes q.board b
  /-- If the piece stood on the board, it still does. -/
  stays : q.piece.id ∈ q.board.placements.map Prod.fst →
    q.piece.id ∈ b.placements.map Prod.fst

theorem ahead_self (q : Query) : q.Ahead q.board := ⟨.refl q.board, fun placed => placed⟩

/-- Taking another piece keeps the board ahead. -/
theorem Ahead.strike {b : Board} (h : q.Ahead b) (log : AttackLog) {victim : PieceId}
    (differs : q.piece.id ≠ victim) : q.Ahead (strike q.piece.id (b, log) victim).1 := by
  unfold BoardRules.strike
  split
  · exact ⟨h.precedes.trans (.lift b victim),
      fun placed => Board.mem_placements_lift differs (h.stays placed)⟩
  · exact h

/-- Taking other pieces leads ahead. -/
theorem Ahead.foldl_strike {b : Board} (h : q.Ahead b) (log : AttackLog)
    {victims : List PieceId} (others : q.piece.id ∉ victims) :
    q.Ahead (victims.foldl (BoardRules.strike q.piece.id) (b, log)).1 := by
  induction victims generalizing b log with
  | nil => exact h
  | cons victim rest ih =>
    rw [List.mem_cons, not_or] at others
    exact ih (h.strike log others.1) _ others.2

/-- Applying a delta that may be gathered keeps the board ahead. -/
theorem Ahead.apply {b : Board} (h : q.Ahead b) (log : AttackLog) {d : Delta}
    (admits : q.Admits d) : q.Ahead (d.apply q.piece.id (b, log)).1 := by
  cases d with
  | position square =>
    have placed : q.piece.id ∈ b.placements.map Prod.fst := h.stays admits
    rw [Delta.apply]
    split
    · exact h
    · refine ⟨h.precedes.trans (.placeCounted placed square), fun _ => ?_⟩
      have same : ((b.place q.piece.id square).countMove q.piece.id).placements.map Prod.fst =
          b.placements.map Prod.fst := Board.map_fst_placeIn placed square
      rw [same]
      exact placed
  | cell square => exact h
  | attack victims => exact h.foldl_strike log admits
  | lose player =>
    have seated : player ∈ b.players.map (·.id) := by
      rw [h.precedes.table.players]
      exact admits
    refine ⟨h.precedes.trans (.eliminate seated), fun placed => ?_⟩
    rw [Delta.apply, Board.placements_eliminate]
    exact h.stays placed

/-- Deltas that the search may gather lead ahead, one after the other. -/
theorem Ahead.foldl_apply {b : Board} (h : q.Ahead b) (log : AttackLog) {ds : List Delta}
    (admits : ∀ d ∈ ds, q.Admits d) :
    q.Ahead (ds.foldl (Delta.apply q.piece.id) (b, log)).1 := by
  induction ds generalizing b log with
  | nil => exact h
  | cons d rest ih =>
    have first : q.Ahead (d.apply q.piece.id (b, log)).1 :=
      h.apply log (admits d List.mem_cons_self)
    exact ih first _ fun e he => admits e (List.mem_cons_of_mem _ he)

/-- Applying deltas that may be gathered leads to a board ahead. -/
theorem AdmitsAll.ahead {s : DeltaSet} (hs : q.AdmitsAll s) (log : AttackLog) :
    q.Ahead (s.apply q.piece.id (q.board, log)).1 := q.ahead_self.foldl_apply log hs

/-! ## Findings -/

/-- Along a run only deltas are gathered that may be, on boards of one table. -/
theorem Leads.admitsAll {steps : List Step} {last : Link} (run : q.Leads steps link last)
    (table : Board.SameTable q.board link.board) (admits : q.AdmitsAll link.deltas) :
    q.AdmitsAll last.deltas := by
  induction run with
  | stop link => exact admits
  | pass passes next ih => exact ih table admits
  | @take a rest link last branch index clear found bound next ih =>
    have effect := effect_of_mem_branches (List.mem_of_getElem? found)
    have table' : Board.SameTable q.board (q.follow link branch index).board :=
      branch.deltas.sameTable_apply q.piece.id (q.board, q.log)
    exact ih table' (admits.effect table effect)

/-- A finding has only deltas that the search may gather. -/
theorem admitsAll_of_mem_findings (h : link ∈ q.findings) : q.AdmitsAll link.deltas := by
  obtain ⟨b, -, run⟩ := exists_leads_of_mem_findings h
  have table : Board.SameTable q.board (q.start b).board := .refl q.board
  exact run.admitsAll table (q.admitsAll_start b)

/-- The board of a search precedes those of its findings. -/
theorem precedes_of_mem_findings (h : link ∈ q.findings) : q.board.Precedes link.board := by
  have ahead := (admitsAll_of_mem_findings h).ahead q.log
  rw [← replay_of_mem_findings h] at ahead
  exact ahead.precedes

/-- Whoever loses by a finding is a player of the board. -/
theorem seated_of_loser? (h : link ∈ q.findings) {player : PlayerId}
    (loses : link.deltas.loser? = some player) : player ∈ q.board.players.map (·.id) := by
  unfold DeltaSet.loser? at loses
  split at loses
  · rename_i loser found
    obtain rfl := Option.some.inj loses
    exact admitsAll_of_mem_findings h _ (List.mem_of_find?_eq_some found)
  · exact nomatch loses

end Query

end BoardRules
