import Mathlib
import BoardRules.Proofs.Search.Chain
import BoardRules.Proofs.Search.Extension

/-!
# The turns of a chain of reactions

Behind the head of a candidate every piece of the board has one turn, in the order of the board.
What a piece does in its turn (`Extension.reaction?`) depends on the link behind which the turn
comes, and that link moves on while the pieces are visited: it is the last one of the pieces before
(`Extension.reactionsTo_append`).  `Candidate.Orderly` says what the links of a candidate are
without walking through the turns again, and `Extension.orderly_of_mem_candidates` that every
candidate is so, whatever actions and guards a game brings along.

That nobody is taken twice along a chain is another matter.  Whoever does not act cannot come back
to the board (`Extension.tally_reactionsTo`).  With the actions of this library nobody can: whoever
is in the log has left the board, which is an invariant of board and log together (`Board.RidOf`).
But a further action may put a piece that was taken back on the board in its turn, where a later one
takes it again (`teleporting_retakes`).
-/

namespace BoardRules

/-- What a piece does when its turn comes behind a link: its first passive finding there.  The piece
that moved does nothing, unless the settings let it react. -/
def Extension.reaction? (x : Extension) (settings : Settings) (initiator : PieceId) (tail : Link)
    (piece : Piece) : Option Link :=
  if piece.id = initiator ∧ !settings.initiatorReacts then none
  else (x.findings ⟨settings, tail.board, piece, .passive, tail.log⟩).head?

namespace Extension

variable {x : Extension} {settings : Settings} {initiator : PieceId} {tail reaction : Link}
  {piece : Piece} {before behind : List Piece}

/-! ## One turn -/

/-- A reaction is the first passive finding of a piece that may react. -/
theorem reaction?_eq_some_iff :
    x.reaction? settings initiator tail piece = some reaction ↔
      (piece.id ≠ initiator ∨ settings.initiatorReacts = true) ∧
        (x.findings ⟨settings, tail.board, piece, .passive, tail.log⟩).head? =
          some reaction := by
  unfold reaction?
  by_cases barred : piece.id = initiator ∧ !settings.initiatorReacts
  · rw [if_pos barred]
    constructor
    · intro none
      exact nomatch none
    · rintro ⟨other | allowed, -⟩
      · exact absurd barred.1 other
      · exact absurd barred.2 (by simp [allowed])
  · rw [if_neg barred]
    have free : piece.id ≠ initiator ∨ settings.initiatorReacts = true := by
      by_cases same : piece.id = initiator
      · exact Or.inr (by simpa [same] using barred)
      · exact Or.inl same
    exact (and_iff_right free).symm

/-- A piece that may react and does not has no passive finding. -/
theorem findings_of_reaction?_eq_none
    (free : piece.id ≠ initiator ∨ settings.initiatorReacts = true)
    (silent : x.reaction? settings initiator tail piece = none) :
    x.findings ⟨settings, tail.board, piece, .passive, tail.log⟩ = [] := by
  rw [← List.head?_eq_none_iff, Option.eq_none_iff_forall_ne_some]
  intro reaction first
  rw [reaction?_eq_some_iff.2 ⟨free, first⟩] at silent
  exact nomatch silent

/-- A reaction is a run of the piece whose turn it is. -/
theorem piece_of_reaction? (h : x.reaction? settings initiator tail piece = some reaction) :
    reaction.selection.piece = piece.id := by
  obtain ⟨-, first⟩ := reaction?_eq_some_iff.1 h
  exact (made_of_mem_findings (List.mem_of_head? first)).piece

/-- The reactions begin with the turn of the first piece. -/
theorem reactionsTo_cons (x : Extension) (settings : Settings) (initiator : PieceId) (piece : Piece)
    (rest : List Piece) (tail : Link) :
    x.reactionsTo settings initiator (piece :: rest) tail =
      match x.reaction? settings initiator tail piece with
      | none => x.reactionsTo settings initiator rest tail
      | some reaction => reaction :: x.reactionsTo settings initiator rest reaction := by
  rw [reactionsTo, reaction?]
  split <;> rfl

/-- A piece that does not react is passed over. -/
theorem reactionsTo_cons_of_none (h : x.reaction? settings initiator tail piece = none) :
    x.reactionsTo settings initiator (piece :: behind) tail =
      x.reactionsTo settings initiator behind tail := by
  rw [reactionsTo_cons, h]

/-- A piece that reacts comes next, and the pieces behind it react to its reaction. -/
theorem reactionsTo_cons_of_some (h : x.reaction? settings initiator tail piece = some reaction) :
    x.reactionsTo settings initiator (piece :: behind) tail =
      reaction :: x.reactionsTo settings initiator behind reaction := by
  rw [reactionsTo_cons, h]

/-! ## All turns -/

/-- The later pieces react behind the last reaction of the earlier ones. -/
theorem reactionsTo_append (x : Extension) (settings : Settings) (initiator : PieceId)
    (before behind : List Piece) (tail : Link) :
    x.reactionsTo settings initiator (before ++ behind) tail =
      x.reactionsTo settings initiator before tail ++
        x.reactionsTo settings initiator behind
          ((x.reactionsTo settings initiator before tail).getLast?.getD tail) := by
  induction before generalizing tail with
  | nil => rfl
  | cons piece rest ih =>
    rw [List.cons_append]
    cases turn : x.reaction? settings initiator tail piece with
    | none => rw [reactionsTo_cons_of_none turn, reactionsTo_cons_of_none turn, ih]
    | some reaction =>
      rw [reactionsTo_cons_of_some turn, reactionsTo_cons_of_some turn, ih, List.cons_append,
        List.getLast?_cons, Option.getD_some]

/-- Pieces react in the order of their turns. -/
theorem sublist_reactionsTo (x : Extension) (settings : Settings) (initiator : PieceId)
    (pieces : List Piece) (tail : Link) :
    ((x.reactionsTo settings initiator pieces tail).map (·.selection.piece)).Sublist
      (pieces.map (·.id)) := by
  induction pieces generalizing tail with
  | nil => exact List.Sublist.refl []
  | cons piece rest ih =>
    rw [List.map_cons]
    cases turn : x.reaction? settings initiator tail piece with
    | none =>
      rw [reactionsTo_cons_of_none turn]
      exact (ih tail).cons piece.id
    | some reaction =>
      rw [reactionsTo_cons_of_some turn, List.map_cons, piece_of_reaction? turn]
      exact (ih reaction).cons_cons piece.id

/-- Unless the settings let it, the initiator does not react. -/
theorem initiator_not_mem_reactionsTo (barred : settings.initiatorReacts = false)
    (pieces : List Piece) (tail : Link) :
    initiator ∉ (x.reactionsTo settings initiator pieces tail).map (·.selection.piece) := by
  induction pieces generalizing tail with
  | nil => exact List.not_mem_nil
  | cons piece rest ih =>
    cases turn : x.reaction? settings initiator tail piece with
    | none =>
      rw [reactionsTo_cons_of_none turn]
      exact ih tail
    | some reaction =>
      have other : piece.id ≠ initiator := by
        rcases (reaction?_eq_some_iff.1 turn).1 with other | allowed
        · exact other
        · exact absurd (barred.symm.trans allowed) Bool.false_ne_true
      rw [reactionsTo_cons_of_some turn, List.map_cons, piece_of_reaction? turn,
        List.mem_cons, not_or]
      exact ⟨other.symm, ih reaction⟩

/-- That a link is the reaction of one of the pieces to another link. -/
def Answers (x : Extension) (settings : Settings) (pieces : List Piece) (tail reaction : Link) :
    Prop :=
  ∃ piece ∈ pieces, piece.id = reaction.selection.piece ∧
    (x.findings ⟨settings, tail.board, piece, .passive, tail.log⟩).head? = some reaction

/-- Each reaction answers the link before it. -/
theorem isChain_reactionsTo (x : Extension) (settings : Settings) (initiator : PieceId)
    (pieces : List Piece) (tail : Link) :
    (tail :: x.reactionsTo settings initiator pieces tail).IsChain
      (x.Answers settings pieces) := by
  have wider : ∀ {piece : Piece} {rest : List Piece} {l m : Link},
      x.Answers settings rest l m → x.Answers settings (piece :: rest) l m := by
    rintro piece rest l m ⟨other, known, same, first⟩
    exact ⟨other, List.mem_cons_of_mem piece known, same, first⟩
  induction pieces generalizing tail with
  | nil => exact List.isChain_singleton tail
  | cons piece rest ih =>
    cases turn : x.reaction? settings initiator tail piece with
    | none =>
      rw [reactionsTo_cons_of_none turn]
      exact (ih tail).imp fun l m => wider
    | some reaction =>
      obtain ⟨-, first⟩ := reaction?_eq_some_iff.1 turn
      have answers : x.Answers settings (piece :: rest) tail reaction :=
        ⟨piece, List.mem_cons_self, (piece_of_reaction? turn).symm, first⟩
      rw [reactionsTo_cons_of_some turn, List.isChain_cons_cons]
      exact ⟨answers, (ih reaction).imp fun l m => wider⟩

/-- Each reaction keeps the attacks of the link before it. -/
theorem recorded_reactionsTo (x : Extension) (settings : Settings) (initiator : PieceId)
    (pieces : List Piece) (tail : Link) :
    (tail :: x.reactionsTo settings initiator pieces tail).IsChain
      fun l m => l.log.attacks <+: m.log.attacks := by
  refine (x.isChain_reactionsTo settings initiator pieces tail).imp fun l m => ?_
  rintro ⟨piece, -, -, first⟩
  exact (made_of_mem_findings (List.mem_of_head? first)).keeps_attacks

/-- Of the reactions of pieces with different names, those of the earlier pieces come first. -/
theorem filter_reactionsTo (distinct : ((before ++ behind).map (·.id)).Nodup) (tail : Link) :
    (x.reactionsTo settings initiator (before ++ behind) tail).filter
        (fun link => before.any (·.id = link.selection.piece)) =
      x.reactionsTo settings initiator before tail := by
  have named : ∀ (pieces : List Piece) (tail : Link),
      ∀ link ∈ x.reactionsTo settings initiator pieces tail,
        link.selection.piece ∈ pieces.map (·.id) := by
    intro pieces tail link hlink
    exact (x.sublist_reactionsTo settings initiator pieces tail).subset (List.mem_map_of_mem hlink)
  rw [List.map_append, List.nodup_append] at distinct
  obtain ⟨-, -, apart⟩ := distinct
  rw [reactionsTo_append, List.filter_append]
  have early : ∀ link ∈ x.reactionsTo settings initiator before tail,
      before.any (·.id = link.selection.piece) = true := by
    intro link hlink
    obtain ⟨piece, known, same⟩ := List.mem_map.1 (named before tail link hlink)
    exact List.any_eq_true.2 ⟨piece, known, decide_eq_true same⟩
  have late : ∀ (tail : Link), ∀ link ∈ x.reactionsTo settings initiator behind tail,
      ¬ before.any (·.id = link.selection.piece) = true := by
    intro tail link hlink found
    obtain ⟨piece, known, same⟩ := List.any_eq_true.1 found
    have earlier : link.selection.piece ∈ before.map (·.id) :=
      List.mem_map.2 ⟨piece, known, of_decide_eq_true same⟩
    exact apart _ earlier _ (named behind tail link hlink) rfl
  rw [List.filter_eq_self.2 early, List.filter_eq_nil_iff.2 (late _), List.append_nil]

/-- Whoever does not react is placed or recorded as taken as often behind the reactions as before
them. -/
theorem tally_reactionsTo {other : PieceId} (pieces : List Piece) (tail : Link)
    (absent : other ∉ (x.reactionsTo settings initiator pieces tail).map (·.selection.piece)) :
    ∀ link ∈ x.reactionsTo settings initiator pieces tail,
      tally other (link.board, link.log) = tally other (tail.board, tail.log) := by
  induction pieces generalizing tail with
  | nil => exact fun link hlink => absurd hlink List.not_mem_nil
  | cons piece rest ih =>
    cases turn : x.reaction? settings initiator tail piece with
    | none =>
      rw [reactionsTo_cons_of_none turn] at absent ⊢
      exact ih tail absent
    | some reaction =>
      obtain ⟨-, first⟩ := reaction?_eq_some_iff.1 turn
      rw [reactionsTo_cons_of_some turn, List.map_cons, List.mem_cons, not_or,
        piece_of_reaction? turn] at absent
      have here : tally other (reaction.board, reaction.log) = tally other (tail.board, tail.log) :=
        (made_of_mem_findings (List.mem_of_head? first)).tally_eq absent.1
      rw [reactionsTo_cons_of_some turn, List.forall_mem_cons]
      exact ⟨here, fun link later => (ih reaction absent.2 link later).trans here⟩

end Extension

/-! ## Nobody is taken twice -/

/-- No piece is placed twice, and the pieces that a log records as taken are different ones that
have left the board. -/
structure Board.RidOf (b : Board) (log : AttackLog) : Prop where
  /-- No piece is placed twice. -/
  once : b.PlacedOnce
  /-- No piece is recorded twice. -/
  distinct : (log.attacks.map (·.victim)).Nodup
  /-- Whoever is recorded has left the board. -/
  gone : ∀ victim ∈ log.attacks.map (·.victim), victim ∉ b.placements.map Prod.fst

/-- The records of pieces that stand on the board name these pieces. -/
theorem map_victim_attackRecords {b : Board} {attacker : PieceId} {victims : List PieceId}
    (stood : ∀ victim ∈ victims, victim ∈ b.placements.map Prod.fst) :
    (b.attackRecords attacker victims).map (·.victim) = victims := by
  have records : List.Forall₂ _ victims (b.attackRecords attacker victims) :=
    Query.forall₂_attackRecords stood
  generalize b.attackRecords attacker victims = attacks at records
  induction records with
  | nil => rfl
  | cons record rest ih =>
    have later := ih fun victim hvictim => stood victim (List.mem_cons_of_mem _ hvictim)
    rw [List.map_cons, record.2.1, later]

/-- A run that tells the story of a search takes only pieces that no log has recorded yet. -/
theorem Board.RidOf.story {q : Query} (h : q.board.RidOf q.log) {link : Link}
    (story : q.Story link) : link.board.RidOf link.log := by
  have victims : link.log.attacks.map (·.victim) =
      q.log.attacks.map (·.victim) ++ link.deltas.victims := by
    rw [story.attacks h.once, List.map_append, map_victim_attackRecords story.stood]
  have placed : link.board.placements.map Prod.fst =
      (q.board.placements.map Prod.fst).filter (· ∉ link.deltas.victims) := by
    rw [story.placements h.once, Board.map_fst_rearrange]
  refine ⟨story.placedOnce h.once, ?_, ?_⟩
  · rw [victims, List.nodup_append]
    refine ⟨h.distinct, story.fits.nodup, ?_⟩
    rintro victim old other new rfl
    exact h.gone victim old (story.stood victim new)
  · intro victim recorded still
    rw [placed, List.mem_filter, decide_eq_true_eq] at still
    rw [victims, List.mem_append] at recorded
    rcases recorded with old | new
    · exact h.gone victim old still.1
    · exact still.2 new

/-- A search takes only pieces that no log has recorded yet, if the extension has no action for its
piece. -/
theorem Board.RidOf.finding {x : Extension} {q : Query} (h : q.board.RidOf q.log)
    (spares : x.Spares q.piece) {link : Link} (hlink : link ∈ x.findings q) :
    link.board.RidOf link.log := h.story (Extension.story_of_mem_findings spares h.once hlink)

/-! ## Candidates -/

namespace Candidate

/-- The link behind which a turn comes: the last reaction of the pieces before it, or the head. -/
def tailBehind (c : Candidate) (before : List Piece) : Link :=
  (c.reactions.filter fun link => before.any (·.id = link.selection.piece)).getLast?.getD c.head

/-- What the links of a candidate are, if pieces have their turns in the order of a list. -/
structure Orderly (c : Candidate) (x : Extension) (settings : Settings) (pieces : List Piece) :
    Prop where
  /-- The reacting pieces come in the order of the list, each at most once. -/
  ordered : (c.reactions.map (·.selection.piece)).Sublist (pieces.map (·.id))
  /-- The piece that moved does not react, unless the settings let it. -/
  initiator : settings.initiatorReacts = false →
    c.head.selection.piece ∉ c.reactions.map (·.selection.piece)
  /-- Each reaction is the first passive finding of its piece on the board of the link before it,
  after the attacks of that link. -/
  answering : c.links.IsChain (x.Answers settings pieces)
  /-- A piece that may react and does not has no passive finding when its turn comes. -/
  silent : ∀ before piece behind, pieces = before ++ piece :: behind →
    (piece.id ≠ c.head.selection.piece ∨ settings.initiatorReacts = true) →
    piece.id ∉ c.reactions.map (·.selection.piece) →
    x.findings
      ⟨settings, (c.tailBehind before).board, piece, .passive, (c.tailBehind before).log⟩ = []
  /-- Each link keeps the attacks of the link before it and adds its own at the end. -/
  recorded : c.links.IsChain fun l m => l.log.attacks <+: m.log.attacks

end Candidate

namespace Extension

/-- A finished run and the reactions to it are orderly. -/
theorem orderly_candidate (x : Extension) {head : Link}
    (distinct : (head.board.pieces.map (·.id)).Nodup) (settings : Settings) :
    (x.candidate settings head).Orderly x settings head.board.pieces where
  ordered := x.sublist_reactionsTo settings _ _ head
  initiator barred := initiator_not_mem_reactionsTo barred _ head
  answering := x.isChain_reactionsTo settings _ _ head
  silent := by
    intro before piece behind split free unlinked
    have here : (x.candidate settings head).tailBehind before =
        (x.reactionsTo settings head.selection.piece before head).getLast?.getD head := by
      unfold Candidate.tailBehind candidate
      dsimp only
      rw [split] at distinct ⊢
      rw [filter_reactionsTo distinct]
    have links : (x.candidate settings head).reactions =
        x.reactionsTo settings head.selection.piece before head ++
          x.reactionsTo settings head.selection.piece (piece :: behind)
            ((x.candidate settings head).tailBehind before) := by
      rw [here, ← reactionsTo_append, ← split]
      rfl
    refine findings_of_reaction?_eq_none free ?_
    rw [Option.eq_none_iff_forall_ne_some]
    intro reaction turn
    change x.reaction? settings head.selection.piece _ piece = some reaction at turn
    -- A reaction in this turn would be a link of the piece.
    refine unlinked (List.mem_map.2 ⟨reaction, ?_, piece_of_reaction? turn⟩)
    rw [links, reactionsTo_cons_of_some turn]
    exact List.mem_append_right _ List.mem_cons_self
  recorded := x.recorded_reactionsTo settings _ _ head

/-- Every other piece has one chance to react, in the order of the board, whatever further actions
and guards there are.  For a board of distinct pieces, the links behind the head of a candidate come
in the order of the board, each is the first passive finding of its piece on the board and the log
of the link before it, whoever may react and does not had no passive finding in its turn, and the
log only grows.  If no piece is placed twice, no piece that does not act itself is taken twice along
the links, and nobody at all is if the extension has no action for the pieces of the board. -/
theorem orderly_of_mem_candidates (x : Extension) {b : Board}
    (distinct : (b.pieces.map (·.id)).Nodup) {settings : Settings} {phase : Phase}
    {include? : Piece → Bool} {c : Candidate}
    (hc : c ∈ (x.analysisWhere b settings phase include?).candidates) :
    c.Orderly x settings b.pieces ∧
      (b.PlacedOnce → ∀ link ∈ c.links,
        (∀ victim ∉ c.links.map (·.selection.piece),
          (link.log.attacks.map (·.victim)).count victim ≤ 1) ∧
        ((∀ piece ∈ b.pieces, x.Spares piece) → (link.log.attacks.map (·.victim)).Nodup)) := by
  obtain ⟨piece, known, -, head, hhead, rfl⟩ := exists_finding_of_mem_candidates hc
  have made := made_of_mem_findings hhead
  have orderly : (x.candidate settings head).Orderly x settings b.pieces := by
    rw [← made.sameTable.pieces] at distinct ⊢
    exact x.orderly_candidate distinct settings
  refine ⟨orderly, fun once link hlink => ⟨fun victim idle => ?_, fun spares => ?_⟩⟩
  · rw [Candidate.links, List.map_cons, List.mem_cons, not_or] at idle
    have other : victim ≠ piece.id := fun same => idle.1 (same.trans made.piece.symm)
    have first : tally victim (head.board, head.log) = tally victim (b, {}) := made.tally_eq other
    have throughout : tally victim (link.board, link.log) = tally victim (b, {}) := by
      rcases List.mem_cons.1 hlink with rfl | later
      · exact first
      · exact (tally_reactionsTo _ head idle.2 link later).trans first
    have placed : tally victim (b, {}) ≤ 1 := List.nodup_iff_count_le_one.1 once victim
    exact (Nat.le_add_left _ _).trans (throughout.trans_le placed)
  · have blank : b.RidOf {} := ⟨once, List.nodup_nil, fun _ taken => absurd taken List.not_mem_nil⟩
    have start : head.board.RidOf head.log :=
      Board.RidOf.finding (q := ⟨_, b, _, _, {}⟩) blank (spares piece known) hhead
    have step : ∀ ⦃l m : Link⦄, x.Answers settings b.pieces l m →
        l.board.RidOf l.log → m.board.RidOf m.log := by
      rintro l m ⟨other, listed, -, answer⟩ ridden
      exact Board.RidOf.finding (q := ⟨_, l.board, _, _, l.log⟩) ridden (spares other listed)
        (List.mem_of_head? answer)
    have throughout := orderly.answering.induction (fun link => link.board.RidOf link.log) _ step
      fun _ => start
    exact (throughout link hlink).distinct

end Extension

/-- When the raider takes guard and king, the guard stays silent in its turn and the king reacts in
his, and both victims are recorded once. -/
theorem orderly_raid :
    (raidBoard.pieces.map (·.id)).Nodup ∧ raidBoard.PlacedOnce ∧
      ∃ c ∈ (raidBoard.analysisFor {} .initiative ⟨"white"⟩).candidates,
        c.links.map (·.selection.piece) = [⟨"raider"⟩, ⟨"king"⟩] ∧
          c.Orderly .empty {} raidBoard.pieces ∧
            ∀ link ∈ c.links, (link.log.attacks.map (·.victim)).Nodup := by
  have distinct : (raidBoard.pieces.map (·.id)).Nodup := by decide
  have once : raidBoard.PlacedOnce := by
    unfold Board.PlacedOnce
    decide
  have chains : (raidBoard.analysisFor {} .initiative ⟨"white"⟩).candidates.map
      (fun c => c.links.map (·.selection.piece)) =
        [[⟨"raider"⟩], [⟨"raider"⟩, ⟨"king"⟩]] := by cbv
  obtain ⟨c, hc, chain⟩ := List.mem_map.1 (chains ▸ List.mem_cons_of_mem _ List.mem_cons_self)
  obtain ⟨orderly, victims⟩ := Extension.empty.orderly_of_mem_candidates distinct hc
  refine ⟨distinct, once, c, hc, chain, orderly, fun link hlink => ?_⟩
  exact (victims once link hlink).2 fun piece _ => Extension.spares_empty piece

/-! ## A piece that comes back -/

/-- An action that puts a piece on any empty square of a row. -/
def teleport (row : Int32) (board : Board) (deltas : DeltaSet) (_ : Piece) : List Branch :=
  (((List.range board.size.width.toInt.toNat).map fun x => (⟨.ofNat x, row⟩ : Square)).filter
    fun aim => (board.occupant? aim).isNone).map fun aim =>
      ⟨deltas.mergeAll [.position aim, .cell aim], [⟨.move, aim⟩]⟩

/-- A game with this action. -/
def teleporting : Extension where
  action? r :=
    if r.kind = "test.teleport" then (r.readOr "row" (0 : Int32)).toOption.map teleport else none
  guard? _ := none

/-- White's hunter may take what stands ahead of it, and steps back in reaction to anything. -/
def hunter : Piece where
  id := ⟨"hunter"⟩
  behaviours :=
    [{ id := ⟨"hunt"⟩, name := "hunt", trigger := .initiative,
       steps := [.action (.move { modes := .moveAttack, vectors := [⟨0, 1⟩] })] },
     { id := ⟨"back"⟩, name := "back", trigger := .passive,
       steps := [.action (.move { modes := .move, vectors := [⟨0, -1⟩] })] }]

/-- Black's ghost reacts by appearing in the third row. -/
def ghost : Piece where
  id := ⟨"ghost"⟩
  behaviours :=
    [{ id := ⟨"haunt"⟩, name := "haunt", trigger := .passive,
       steps := [.unresolved ⟨"test.teleport", {}, [("row", .int 2)]⟩] }]

/-- White's warden reacts by taking what stands below it. -/
def warden : Piece where
  id := ⟨"warden"⟩
  behaviours :=
    [{ id := ⟨"ward"⟩, name := "ward", trigger := .passive,
       steps := [.action (.move { modes := .moveAttack, vectors := [⟨0, -1⟩] })] }]

/-- A corridor with the ghost between the hunter and the warden. -/
def corridor : Board :=
  { Board.empty "corridor" ⟨1, 4⟩ with
    pieces := [hunter, ghost, warden]
    nations :=
      { nodes :=
          [{ id := ⟨"whites"⟩, monarch := some ⟨"white"⟩,
             children := [.piece ⟨"hunter"⟩, .piece ⟨"warden"⟩] },
           { id := ⟨"blacks"⟩, monarch := some ⟨"black"⟩, children := [.piece ⟨"ghost"⟩] }]
        roots := [0, 1] }
    players := [{ id := ⟨"white"⟩, seat := ⟨1⟩ }, { id := ⟨"black"⟩, seat := ⟨3⟩ }]
    placements := [(⟨"hunter"⟩, ⟨0, 0⟩), (⟨"ghost"⟩, ⟨0, 1⟩), (⟨"warden"⟩, ⟨0, 3⟩)] }

/-- What a link of the corridor says: who acts, who has been taken so far, and how many reactions
the hunter would have behind it. -/
def account (link : Link) : PieceId × List PieceId × ℕ :=
  (link.selection.piece, link.log.attacks.map (·.victim),
    (teleporting.findings ⟨{}, link.board, hunter, .passive, link.log⟩).length)

/-- With an action that a game brings along, a piece can be taken twice in one chain: the hunter
takes the ghost, the ghost comes back in its turn, and in the next one the warden takes it again.
The hunter, who may not react to its own move, is not linked, though it would have a reaction behind
every link. -/
theorem teleporting_retakes :
    (corridor.pieces.map (·.id)).Nodup ∧ corridor.PlacedOnce ∧
      ∃ c ∈ (teleporting.analysisWhere corridor {} .initiative fun _ => true).candidates,
        c.links.map (·.selection.piece) = [⟨"hunter"⟩, ⟨"ghost"⟩, ⟨"warden"⟩] ∧
          (∃ link ∈ c.links, ¬ (link.log.attacks.map (·.victim)).Nodup) ∧
          ∀ link ∈ c.links,
            teleporting.findings ⟨{}, link.board, hunter, .passive, link.log⟩ ≠ [] := by
  have chains : (teleporting.analysisWhere corridor {} .initiative fun _ => true).candidates.map
      (fun c => c.links.map account) =
        [[(⟨"hunter"⟩, [⟨"ghost"⟩], 1), (⟨"ghost"⟩, [⟨"ghost"⟩], 1),
          (⟨"warden"⟩, [⟨"ghost"⟩, ⟨"ghost"⟩], 1)]] := by cbv
  obtain ⟨c, hc, chain⟩ := List.mem_map.1 (chains ▸ List.mem_singleton_self _)
  refine ⟨by decide, ?_, c, hc, ?_, ?_, ?_⟩
  · unfold Board.PlacedOnce
    decide
  · have acting := congrArg (List.map Prod.fst) chain
    rwa [List.map_map] at acting
  · have twice : (⟨"warden"⟩, [⟨"ghost"⟩, ⟨"ghost"⟩], 1) ∈ c.links.map account := by
      rw [chain]
      exact List.mem_of_getLast? rfl
    obtain ⟨link, hlink, told⟩ := List.mem_map.1 twice
    have taken : link.log.attacks.map (·.victim) = [⟨"ghost"⟩, ⟨"ghost"⟩] :=
      congrArg (·.2.1) told
    exact ⟨link, hlink, by rw [taken]; decide⟩
  · intro link hlink none
    have one : ∀ told ∈ c.links.map account, told.2.2 = 1 := by
      rw [chain]
      decide
    have count : (account link).2.2 = 0 := congrArg List.length none
    exact Nat.zero_ne_one (count.symm.trans (one _ (List.mem_map_of_mem hlink)))

end BoardRules
