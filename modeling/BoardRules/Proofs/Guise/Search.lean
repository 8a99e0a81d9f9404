import Mathlib
import BoardRules.Proofs.Guise.Branch
import BoardRules.Proofs.Search.Enumeration
import BoardRules.Proofs.Search.Replay

/-!
# Searches under a guise

Applying deltas goes the same way under every guise (`DeltaSet.apply_under`).  Along a run the guise
stays faithful, because a run ends on squares of the board or where its piece stood before
(`Query.Grounded`, `Query.Grounded.follow`); so conditions let it pass and actions branch as before,
and the search finds the same runs in the same order (`Query.findings_under`).
-/

namespace BoardRules

variable {g : Guise}

/-! ## Applying deltas -/

/-- Taking a piece is taking its new name, and the record says so. -/
theorem strike_under (attacker : PieceId) (b : Board) (log : AttackLog) (victim : PieceId) :
    strike (g.piece attacker) (b.under g, log.under g) (g.piece victim) =
      ((strike attacker (b, log) victim).1.under g,
        (strike attacker (b, log) victim).2.under g) := by
  unfold strike
  simp only [Board.squareOf?_under]
  cases b.squareOf? victim with
  | none => rfl
  | some square =>
    simp only [Option.map_some, Board.lift_under, AttackLog.under, List.map_append,
      List.map_singleton]
    rfl

theorem foldl_strike_under (attacker : PieceId) (state : Board × AttackLog)
    (victims : List PieceId) :
    (victims.map g.piece).foldl (strike (g.piece attacker)) (state.1.under g, state.2.under g) =
      ((victims.foldl (strike attacker) state).1.under g,
        (victims.foldl (strike attacker) state).2.under g) := by
  induction victims generalizing state with
  | nil => rfl
  | cons victim rest ih =>
    rw [List.map_cons, List.foldl_cons, List.foldl_cons, strike_under, ih]

/-- Applying a delta under a guise. -/
theorem Delta.apply_under (d : Delta) (piece : PieceId) (state : Board × AttackLog) :
    (d.under g).apply (g.piece piece) (state.1.under g, state.2.under g) =
      ((d.apply piece state).1.under g, (d.apply piece state).2.under g) := by
  cases d with
  | position square =>
    have here : (state.1.under g).squareOf? (g.piece piece) = some (g.square square) ↔
        state.1.squareOf? piece = some square := by
      rw [Board.squareOf?_under, ← Option.map_some,
        (Option.map_injective g.square_injective).eq_iff]
    unfold apply under
    simp only [here]
    split
    · rfl
    · rw [Board.place_under, Board.countMove_under]
  | cell square => rfl
  | attack victims => exact foldl_strike_under piece state victims
  | lose player => exact congrArg (·, state.2.under g) (state.1.eliminate_under g player)

/-- Applying deltas under a guise. -/
theorem DeltaSet.apply_under (s : DeltaSet) (piece : PieceId) (state : Board × AttackLog) :
    (s.under g).apply (g.piece piece) (state.1.under g, state.2.under g) =
      ((s.apply piece state).1.under g, (s.apply piece state).2.under g) := by
  obtain ⟨ds⟩ := s
  unfold apply under
  induction ds generalizing state with
  | nil => rfl
  | cons d rest ih => rw [List.map_cons, List.foldl_cons, List.foldl_cons, d.apply_under, ih]

/-! ## Where a run may stand -/

/-- Placing a piece puts it on the square and leaves the others where they are. -/
theorem Board.mem_placeIn {piece : PieceId} {square : Square} {placed : PieceId × Square}
    {placements : List (PieceId × Square)} (h : placed ∈ placeIn piece square placements) :
    placed ∈ placements ∨ placed.2 = square := by
  induction placements with
  | nil =>
    rw [placeIn, List.mem_singleton] at h
    exact Or.inr (congrArg Prod.snd h)
  | cons first rest ih =>
    unfold placeIn at h
    split at h
    · rcases List.mem_cons.1 h with rfl | later
      · exact Or.inr rfl
      · exact Or.inl (List.mem_cons_of_mem _ later)
    · rcases List.mem_cons.1 h with rfl | later
      · exact Or.inl List.mem_cons_self
      · exact (ih later).imp_left (List.mem_cons_of_mem _)

/-- Taking a piece places nothing that was not placed. -/
theorem mem_placements_strike {attacker : PieceId} {state : Board × AttackLog} {victim : PieceId}
    {placed : PieceId × Square} (h : placed ∈ (strike attacker state victim).1.placements) :
    placed ∈ state.1.placements := by
  unfold strike at h
  split at h
  · exact List.mem_of_mem_eraseP h
  · exact h

theorem mem_placements_foldl_strike {attacker : PieceId} {victims : List PieceId}
    {state : Board × AttackLog} {placed : PieceId × Square}
    (h : placed ∈ (victims.foldl (strike attacker) state).1.placements) :
    placed ∈ state.1.placements := by
  induction victims generalizing state with
  | nil => exact h
  | cons victim rest ih => exact mem_placements_strike (ih h)

/-- A delta puts pieces nowhere but on its square. -/
theorem Delta.mem_placements_apply {d : Delta} {piece : PieceId} {state : Board × AttackLog}
    {placed : PieceId × Square} (h : placed ∈ (d.apply piece state).1.placements) :
    placed ∈ state.1.placements ∨ d = .position placed.2 := by
  cases d with
  | position square =>
    rw [apply] at h
    split at h
    · exact Or.inl h
    · exact (Board.mem_placeIn h).imp_right fun same => congrArg Delta.position same.symm
  | cell square => exact Or.inl h
  | attack victims => exact Or.inl (mem_placements_foldl_strike h)
  | lose player =>
    rw [apply, Board.placements_eliminate] at h
    exact Or.inl h

/-- Deltas put pieces nowhere but on their destination. -/
theorem DeltaSet.mem_placements_apply {s : DeltaSet} (slotted : s.Slotted) {piece : PieceId}
    {state : Board × AttackLog} {placed : PieceId × Square}
    (h : placed ∈ (s.apply piece state).1.placements) :
    placed ∈ state.1.placements ∨ s.destination? = some placed.2 := by
  have moved (ds : List Delta) (state : Board × AttackLog)
      (h : placed ∈ (ds.foldl (Delta.apply piece) state).1.placements) :
      placed ∈ state.1.placements ∨ .position placed.2 ∈ ds := by
    induction ds generalizing state with
    | nil => exact Or.inl h
    | cons d rest ih =>
      rcases ih _ h with before | goes
      · rcases Delta.mem_placements_apply before with before | rfl
        · exact Or.inl before
        · exact Or.inr List.mem_cons_self
      · exact Or.inr (List.mem_cons_of_mem _ goes)
  exact (moved s.deltas state h).imp_right (destination?_of_mem slotted)

/-! ## Runs -/

namespace Query

variable {q : Query} {link : Link}

/-- A run stays at its table, and everything on its board stands where the guise is faithful. -/
structure Grounded (g : Guise) (q : Query) (link : Link) : Prop where
  /-- The table is that of the search. -/
  table : Board.SameTable q.board link.board
  /-- There is at most one delta of each kind. -/
  slotted : link.deltas.Slotted
  /-- Steps from the destination are the same. -/
  goes : ∀ player ∈ q.board.players, ∀ square, link.deltas.destination? = some square →
    g.Treads q.board.size player.seat square
  /-- Steps from where pieces stand are the same. -/
  stands : ∀ player ∈ q.board.players, ∀ placed ∈ link.board.placements,
    g.Treads q.board.size player.seat placed.2

/-- The guise is faithful to the board of a run. -/
theorem Grounded.faithful (h : q.Grounded g link) (faithful : g.Faithful q.board) :
    g.Faithful link.board where
  frames := by
    rw [h.table.players, h.table.size]
    exact faithful.frames
  still := by
    rw [h.table.players]
    exact faithful.still
  inside player seated p here := by
    rw [h.table.players] at seated
    rw [h.table.onBoard_eq] at here
    rw [h.table.size]
    exact faithful.inside player seated p here
  placed := by
    rw [h.table.players, h.table.size]
    exact h.stands

/-- A behaviour starts where its piece stands. -/
theorem grounded_start (faithful : g.Faithful q.board) (b : Behaviour) :
    q.Grounded g (q.start b) where
  table := .refl q.board
  slotted := by
    unfold start
    cases q.board.squareOf? q.piece.id with
    | none => exact DeltaSet.slotted_empty
    | some square => exact DeltaSet.slotted_ofList _
  goes player seated square goes := by
    have stood : q.board.squareOf? q.piece.id = some square := by
      unfold start at goes
      cases found : q.board.squareOf? q.piece.id with
      | none =>
        rw [found] at goes
        exact nomatch goes
      | some square =>
        rw [found] at goes
        exact goes
    obtain ⟨before, behind, entries, -⟩ := List.lookup_eq_some_iff.1 stood
    have entry : (q.piece.id, square) ∈ q.board.placements := by
      rw [entries]
      exact List.mem_append_right before List.mem_cons_self
    exact faithful.placed player seated (q.piece.id, square) entry
  stands := faithful.placed

/-- The path of a run does not matter. -/
theorem Grounded.numbered (h : q.Grounded g link) (index : UInt16) :
    q.Grounded g (link.numbered index) := ⟨h.table, h.slotted, h.goes, h.stands⟩

/-- An effect leads to a square of the board, or leaves the piece where it was to go. -/
theorem Grounded.follow (h : q.Grounded g link) (faithful : g.Faithful q.board) {branch : Branch}
    (effect : Effect link.board q.piece.id link.deltas branch.deltas) (index : ℕ) :
    q.Grounded g (q.follow link branch index) := by
  have slotted := effect.slotted h.slotted
  have goes : ∀ player ∈ q.board.players, ∀ square, branch.deltas.destination? = some square →
      g.Treads q.board.size player.seat square := by
    intro player seated square goes
    rcases effect.destination?_eq with same | ⟨aim, arrives, inside, -⟩
    · exact h.goes player seated square (same ▸ goes)
    · obtain rfl : aim = square := Option.some.inj (arrives.symm.trans goes)
      rw [h.table.onBoard_eq] at inside
      exact faithful.inside player seated aim inside
  refine ⟨branch.deltas.sameTable_apply q.piece.id (q.board, q.log), slotted, goes, ?_⟩
  intro player seated placed hplaced
  rcases DeltaSet.mem_placements_apply slotted hplaced with before | arrives
  · exact faithful.placed player seated placed before
  · exact goes player seated placed.2 arrives

/-- Everything stands where the guise is faithful up to the end of a run. -/
theorem Leads.grounded {steps : List Step} {last : Link} (run : q.Leads steps link last)
    (faithful : g.Faithful q.board) (grounded : q.Grounded g link) : q.Grounded g last := by
  induction run with
  | stop link => exact grounded
  | pass passes next ih => exact ih (grounded.numbered 0)
  | take clear found bound next ih =>
    exact ih (grounded.follow faithful (effect_of_mem_branches (List.mem_of_getElem? found)) _)

/-! ## What is found -/

/-- A search starts at the same link under the guise. -/
theorem start_under (q : Query) (g : Guise) (b : Behaviour) :
    (q.under g).start (b.under g) = (q.start b).under g := by
  have stands : (q.under g).board.squareOf? (q.under g).piece.id =
      (q.board.squareOf? q.piece.id).map g.square := q.board.squareOf?_under g q.piece.id
  unfold start
  rw [stands]
  cases q.board.squareOf? q.piece.id <;> rfl

/-- Following a branch leads to the same link under the guise. -/
theorem follow_under (q : Query) (g : Guise) (link : Link) (branch : Branch) (index : ℕ) :
    (q.under g).follow (link.under g) (branch.under g) index =
      (q.follow link branch index).under g := by
  have state : (branch.under g).deltas.apply (q.under g).piece.id
      ((q.under g).board, (q.under g).log) =
        ((branch.deltas.apply q.piece.id (q.board, q.log)).1.under g,
          (branch.deltas.apply q.piece.id (q.board, q.log)).2.under g) :=
    branch.deltas.apply_under q.piece.id (q.board, q.log)
  have tags : (link.under g).tags ++ (branch.under g).tags =
      (link.tags ++ branch.tags).map (·.under g) := List.map_append.symm
  unfold follow
  rw [state, tags]
  rfl

/-- Runs lead to the same finished runs. -/
theorem enumerate_under (faithful : g.Faithful q.board) (steps : List Step)
    (grounded : q.Grounded g link) :
    (q.under g).enumerate steps (link.under g) = (q.enumerate steps link).map (·.under g) := by
  induction steps generalizing link with
  | nil => rfl
  | cons step rest ih =>
    have here := grounded.faithful faithful
    cases step with
    | condition c =>
      have passes : c.passes ⟨(link.under g).board, (q.under g).piece.id,
          (link.under g).log.attacker? (q.under g).piece.id⟩ =
            c.passes ⟨link.board, q.piece.id, link.log.attacker? q.piece.id⟩ := by
        have attacked : (link.under g).log.attacker? (q.under g).piece.id =
            (link.log.attacker? q.piece.id).map g.piece :=
          link.log.attacker?_under g q.piece.id
        rw [attacked]
        exact Condition.passes_under ⟨link.board, q.piece.id, link.log.attacker? q.piece.id⟩
          here.frames c
      rw [enumerate, enumerate, passes]
      split
      · exact ih (grounded.numbered 0)
      · rfl
    | action a =>
      have branches : a.branches (link.under g).board (link.under g).deltas (q.under g).piece.id =
          (a.branches link.board link.deltas q.piece.id).map (·.under g) := by
        refine a.branches_under here ?_
        rw [grounded.table.players, grounded.table.size]
        exact grounded.goes
      have ambiguous : (q.under g).Ambiguous
          ((a.branches link.board link.deltas q.piece.id).map (·.under g)) ↔
            q.Ambiguous (a.branches link.board link.deltas q.piece.id) := by
        unfold Ambiguous
        rw [List.length_map]
        rfl
      rw [enumerate, enumerate, branches]
      simp only [ambiguous]
      split
      · rfl
      · rw [List.zipIdx_map, ← List.map_take, List.flatMap_map, List.map_flatMap]
        refine List.flatMap_congr ?_
        rintro ⟨branch, index⟩ listed
        have taken := List.mem_of_getElem? (mem_take_zipIdx_iff.1 listed).1
        have next := grounded.follow faithful (effect_of_mem_branches taken) index
        have run := ih next
        rw [← follow_under] at run
        exact run
    | unresolved r => rfl

/-- A search finds the same runs in the same order. -/
theorem findings_under (faithful : g.Faithful q.board) :
    (q.under g).findings = q.findings.map (·.under g) := by
  have owned : (q.under g).board.owner? (q.under g).piece.id =
      (q.board.owner? q.piece.id).map (·.under g) := q.board.owner?_under g q.piece.id
  have fires : (q.under g).piece.triggered (q.under g).trigger =
      (q.piece.triggered q.trigger).map (·.under g) := q.piece.triggered_under g q.trigger
  rw [findings_eq, findings_eq, owned, Option.isNone_map, fires]
  split
  · rfl
  · rw [List.flatMap_map, List.map_flatMap]
    refine List.flatMap_congr fun b _ => ?_
    rw [runs_eq_enumerate, runs_eq_enumerate, start_under]
    exact enumerate_under faithful b.builtSteps (grounded_start faithful b)

/-- A finding stays where the guise is faithful. -/
theorem faithful_of_mem_findings (faithful : g.Faithful q.board) (h : link ∈ q.findings) :
    g.Faithful link.board := by
  obtain ⟨b, -, leads⟩ := exists_leads_of_mem_findings h
  exact (leads.grounded faithful (grounded_start faithful b)).faithful faithful

end Query

end BoardRules
