import Mathlib
import BoardRules.Proofs.Search.Effect
import BoardRules.Proofs.Search.Enumeration
import BoardRules.Proofs.Search.Replay

/-!
# Deltas, board and log tell the same story

A run keeps its deltas, its board and its log of attacks side by side.  `Query.Story` says how they
hang together: the board and the log are what the deltas make of the board on which the search
started, the deltas fit that board, and their victims stood on it and belong to somebody else.  The
start of a behaviour has this property (`story_start`), an effect of an action keeps it
(`Story.follow`), and so every finding has it (`story_of_mem_findings`).  What a reader of the three
sees is then a matter of the placements alone.
-/

namespace BoardRules

namespace Query

/-- Somebody other than the owner of the searched piece owns a piece, or nobody does. -/
def Foreign (q : Query) (piece : PieceId) : Prop :=
  (q.board.owner? q.piece.id).map (·.id) ≠ (q.board.owner? piece).map (·.id)

/-- What holds between the deltas, the board and the log of a run. -/
structure Story (q : Query) (link : Link) : Prop where
  /-- The board and the log are made by applying the deltas. -/
  replay : (link.board, link.log) = link.deltas.apply q.piece.id (q.board, q.log)
  /-- The deltas fit the board on which the search started. -/
  fits : link.deltas.Fits q.piece.id q.board
  /-- A piece that stood somewhere goes somewhere. -/
  goes : q.piece.id ∈ q.board.placements.map Prod.fst → link.deltas.destination?.isSome = true
  /-- The victims stood on the board. -/
  stood : ∀ victim ∈ link.deltas.victims, victim ∈ q.board.placements.map Prod.fst
  /-- The victims belong to somebody else. -/
  foreign : ∀ victim ∈ link.deltas.victims, q.Foreign victim

variable {q : Query} {link : Link}

/-! ## What the story says about the board -/

/-- A run stays at its table. -/
theorem Story.sameTable (h : q.Story link) : Board.SameTable q.board link.board := by
  have table := link.deltas.sameTable_apply q.piece.id (q.board, q.log)
  rwa [← h.replay] at table

/-- The placements of a run are those of the start, rearranged once. -/
theorem Story.placements (h : q.Story link) (once : q.board.PlacedOnce) :
    link.board.placements =
      Board.rearrange q.piece.id link.deltas.destination? link.deltas.victims
        q.board.placements := by
  have spec := (DeltaSet.apply_spec once h.fits q.log).1
  rwa [← h.replay] at spec

/-- The log of a run is that of the start with the records of the victims. -/
theorem Story.attacks (h : q.Story link) (once : q.board.PlacedOnce) :
    link.log.attacks =
      q.log.attacks ++ q.board.attackRecords q.piece.id link.deltas.victims := by
  have spec := (DeltaSet.apply_spec once h.fits q.log).2
  rwa [← h.replay] at spec

/-- No piece is placed twice along a run. -/
theorem Story.placedOnce (h : q.Story link) (once : q.board.PlacedOnce) :
    link.board.PlacedOnce := by
  unfold Board.PlacedOnce
  rw [h.placements once]
  exact Board.nodup_rearrange once _ _ _

/-- A piece that meets the searched piece on a run stood there from the start, and was not taken. -/
theorem Story.occupant (h : q.Story link) (once : q.board.PlacedOnce) {aim : Square}
    {target : PieceId} (occupied : link.board.occupant? aim = some target)
    (differs : target ≠ q.piece.id) :
    (target, aim) ∈ q.board.placements ∧ target ∉ link.deltas.victims := by
  have here := Board.mem_placements_of_occupant? occupied
  rw [h.placements once] at here
  exact (Board.mem_rearrange_of_ne (target, aim) differs).1 here

/-! ## Every finding tells the story -/

/-- A foreign piece is not the searched one. -/
theorem Foreign.ne {piece : PieceId} (h : q.Foreign piece) : piece ≠ q.piece.id := by
  rintro rfl
  exact h rfl

/-- The story begins with the start of a behaviour. -/
theorem story_start (q : Query) (b : Behaviour) : q.Story (q.start b) := by
  have replay := q.replay_start b
  unfold start at replay ⊢
  cases found : q.board.squareOf? q.piece.id with
  | none =>
    have absent : q.piece.id ∉ q.board.placements.map Prod.fst :=
      Board.squareOf?_eq_none_iff.1 found
    rw [found] at replay
    exact
      { replay := replay
        fits := ⟨DeltaSet.slotted_empty, fun goes => absurd goes Bool.false_ne_true,
          List.nodup_nil, List.not_mem_nil⟩
        goes := fun placed => absurd placed absent
        stood := fun victim hvictim => absurd hvictim List.not_mem_nil
        foreign := fun victim hvictim => absurd hvictim List.not_mem_nil }
  | some square =>
    have placed : q.piece.id ∈ q.board.placements.map Prod.fst :=
      Board.isSome_squareOf?_iff.1 (by rw [found]; rfl)
    rw [found] at replay
    exact
      { replay := replay
        fits := ⟨DeltaSet.slotted_ofList _, fun _ => placed, List.nodup_nil, List.not_mem_nil⟩
        goes := fun _ => rfl
        stood := fun victim hvictim => absurd hvictim List.not_mem_nil
        foreign := fun victim hvictim => absurd hvictim List.not_mem_nil }

/-- The path of a run is no part of its story. -/
theorem Story.select (h : q.Story link) (selection : Selection) :
    q.Story { link with selection } where
  replay := h.replay
  fits := h.fits
  goes := h.goes
  stood := h.stood
  foreign := h.foreign

/-- The victims of an effect on the board of a run are new: they stood on the board, belong to
somebody else and were not taken before. -/
theorem Story.exists_taken (h : q.Story link) (once : q.board.PlacedOnce) {deltas : DeltaSet}
    (effect : Effect link.board q.piece.id link.deltas deltas) :
    ∃ taken, deltas.victims = link.deltas.victims ++ taken ∧ taken.Nodup ∧
      ∀ victim ∈ taken, victim ∉ link.deltas.victims ∧
        victim ∈ q.board.placements.map Prod.fst ∧ q.Foreign victim := by
  rcases effect.victims_eq with same | ⟨aim, target, occupied, differs, more⟩
  · refine ⟨[], by rw [same, List.append_nil], List.nodup_nil, fun victim hvictim => ?_⟩
    exact absurd hvictim List.not_mem_nil
  · rw [h.sameTable.owner?_eq, h.sameTable.owner?_eq] at differs
    have foreign : q.Foreign target := differs
    obtain ⟨stood, fresh⟩ := h.occupant once occupied foreign.ne
    refine ⟨[target], more, List.nodup_singleton target, fun victim hvictim => ?_⟩
    obtain rfl := List.mem_singleton.1 hvictim
    exact ⟨fresh, List.mem_map.2 ⟨_, stood, rfl⟩, foreign⟩

/-- The story goes on with an effect on the board of the run. -/
theorem Story.follow (h : q.Story link) (once : q.board.PlacedOnce) {branch : Branch}
    (effect : Effect link.board q.piece.id link.deltas branch.deltas) (index : ℕ) :
    q.Story (q.follow link branch index) := by
  obtain ⟨taken, victims, nodup, new⟩ := h.exists_taken once effect
  have moves := effect.isSome_destination?
  have stood : ∀ victim ∈ branch.deltas.victims, victim ∈ q.board.placements.map Prod.fst := by
    intro victim hvictim
    rw [victims, List.mem_append] at hvictim
    exact hvictim.elim (h.stood victim) fun h => (new victim h).2.1
  have foreign : ∀ victim ∈ branch.deltas.victims, q.Foreign victim := by
    intro victim hvictim
    rw [victims, List.mem_append] at hvictim
    exact hvictim.elim (h.foreign victim) fun h => (new victim h).2.2
  have apart : branch.deltas.victims.Nodup := by
    rw [victims, List.nodup_append]
    refine ⟨h.fits.nodup, nodup, fun victim old other hother same => ?_⟩
    exact (new other hother).1 (same ▸ old)
  exact
    { replay := rfl
      fits :=
        { slotted := effect.slotted h.fits.slotted
          placed := fun goes => h.fits.placed (moves ▸ goes)
          nodup := apart
          others := fun self => (foreign _ self).ne rfl }
      goes := fun placed => moves.trans (h.goes placed)
      stood := stood
      foreign := foreign }

/-- The story goes on to the end of a run. -/
theorem Leads.story {steps : List Step} {last : Link} (h : q.Leads steps link last)
    (once : q.board.PlacedOnce) (story : q.Story link) : q.Story last := by
  induction h with
  | stop link => exact story
  | pass passes next ih => exact ih (story.select _)
  | take clear found bound next ih =>
    exact ih (story.follow once (effect_of_mem_branches (List.mem_of_getElem? found)) _)

/-- Every finding tells the story. -/
theorem story_of_mem_findings (once : q.board.PlacedOnce) (h : link ∈ q.findings) :
    q.Story link := by
  obtain ⟨b, -, leads⟩ := exists_leads_of_mem_findings h
  exact leads.story once (q.story_start b)

/-! ## What the three say -/

/-- The piece of a run stands at its destination. -/
theorem Story.squareOf?_eq (h : q.Story link) (once : q.board.PlacedOnce) :
    link.board.squareOf? q.piece.id = link.deltas.destination? := by
  refine Option.ext fun square => ?_
  rw [Board.squareOf?_eq_some_iff (h.placedOnce once), h.placements once,
    Board.mem_rearrange_self_iff h.fits.others]
  constructor
  · rintro ⟨old, hold, rfl⟩
    obtain ⟨target, htarget⟩ := Option.isSome_iff_exists.1
      (h.goes (List.mem_map.2 ⟨_, hold, rfl⟩))
    rw [htarget]
    rfl
  · intro target
    obtain ⟨⟨id, old⟩, hold, rfl⟩ := List.mem_map.1 (h.fits.placed (by rw [target]; rfl))
    exact ⟨old, hold, by rw [target]; rfl⟩

/-- The records of pieces that stand on the board tell where each of them stands. -/
theorem forall₂_attackRecords {b : Board} {attacker : PieceId} {victims : List PieceId}
    (stood : ∀ victim ∈ victims, victim ∈ b.placements.map Prod.fst) :
    List.Forall₂ (fun victim record => record.attacker = attacker ∧ record.victim = victim ∧
      b.squareOf? victim = some record.square) victims (b.attackRecords attacker victims) := by
  induction victims with
  | nil => exact .nil
  | cons victim rest ih =>
    obtain ⟨square, hsquare⟩ := Option.isSome_iff_exists.1
      (Board.isSome_squareOf?_iff.2 (stood victim List.mem_cons_self))
    have head : b.attackRecords attacker (victim :: rest) =
        ⟨attacker, victim, square⟩ :: b.attackRecords attacker rest := by
      unfold Board.attackRecords
      rw [List.filterMap_cons_some]
      rw [hsquare]
      rfl
    rw [head]
    refine .cons ⟨rfl, rfl, hsquare⟩ (ih fun other hother => ?_)
    exact stood other (List.mem_cons_of_mem _ hother)

/-- A piece with findings has an owner. -/
theorem exists_owner_of_mem_findings (h : link ∈ q.findings) :
    ∃ owner, q.board.owner? q.piece.id = some owner := by
  rw [findings_eq] at h
  split at h
  · exact absurd h List.not_mem_nil
  · rename_i owned
    exact Option.ne_none_iff_exists'.1 (by simpa using owned)

/-- In every finding the deltas, the board and the log agree: the piece stands at its destination,
the victims are distinct pieces of other owners that stood on the board and have left it, everybody
else is still placed in the same order, and the log has one new record for each victim. -/
theorem findings_agree {q : Query} (once : q.board.PlacedOnce) {link : Link}
    (h : link ∈ q.findings) :
    link.board.squareOf? q.piece.id = link.deltas.destination? ∧
    link.deltas.victims.Nodup ∧
    (∃ owner, q.board.owner? q.piece.id = some owner ∧
      ∀ victim ∈ link.deltas.victims,
        (q.board.squareOf? victim).isSome = true ∧ q.board.owns owner.id victim = false ∧
          link.board.squareOf? victim = none) ∧
    link.board.placements.map Prod.fst =
      (q.board.placements.map Prod.fst).filter (· ∉ link.deltas.victims) ∧
    ∃ records, link.log.attacks = q.log.attacks ++ records ∧
      List.Forall₂ (fun victim record => record.attacker = q.piece.id ∧ record.victim = victim ∧
        q.board.squareOf? victim = some record.square) link.deltas.victims records := by
  have story := story_of_mem_findings once h
  have placed : link.board.placements.map Prod.fst =
      (q.board.placements.map Prod.fst).filter (· ∉ link.deltas.victims) := by
    rw [story.placements once, Board.map_fst_rearrange]
  obtain ⟨owner, owned⟩ := exists_owner_of_mem_findings h
  refine ⟨story.squareOf?_eq once, story.fits.nodup, ⟨owner, owned, fun victim hvictim => ?_⟩,
    placed, _, story.attacks once, forall₂_attackRecords story.stood⟩
  refine ⟨Board.isSome_squareOf?_iff.2 (story.stood victim hvictim), ?_, ?_⟩
  · have foreign := story.foreign victim hvictim
    rw [Foreign, owned] at foreign
    unfold Board.owns
    cases other : q.board.owner? victim with
    | none => rfl
    | some player =>
      rw [other] at foreign
      have differs : player.id ≠ owner.id := fun same => foreign (congrArg some same.symm)
      simpa using differs
  · rw [Board.squareOf?_eq_none_iff, placed, List.mem_filter, decide_eq_true_eq]
    exact fun still => still.2 hvictim

/-- Running up to the king, the raider has taken the guard and the king and recorded both. -/
theorem agreement_of_raid :
    raid.board.PlacedOnce ∧
      ∃ link ∈ raid.findings,
        link.deltas.victims = [⟨"guard"⟩, ⟨"king"⟩] ∧
        link.board.squareOf? ⟨"raider"⟩ = link.deltas.destination? ∧
        link.board.placements.map Prod.fst =
          (raid.board.placements.map Prod.fst).filter (· ∉ link.deltas.victims) ∧
        ∃ records, link.log.attacks = [] ++ records ∧
          List.Forall₂ (fun victim record => record.attacker = ⟨"raider"⟩ ∧
            record.victim = victim ∧ raid.board.squareOf? victim = some record.square)
            link.deltas.victims records := by
  have once : raid.board.PlacedOnce := by
    unfold Board.PlacedOnce
    decide
  have victims : raid.findings.map (·.deltas.victims) =
      [[⟨"guard"⟩], [⟨"guard"⟩, ⟨"king"⟩]] := by cbv
  obtain ⟨link, hlink, hvictims⟩ :=
    List.mem_map.1 (victims ▸ List.mem_cons_of_mem _ List.mem_cons_self)
  obtain ⟨square, -, -, placed, records⟩ := findings_agree once hlink
  exact ⟨once, link, hlink, hvictims, square, placed, records⟩

end Query

end BoardRules
