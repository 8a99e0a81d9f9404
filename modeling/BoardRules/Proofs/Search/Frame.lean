import Mathlib
import BoardRules.Proofs.Search.Count

/-!
# What a chain leaves alone

A link of a chain acts by one piece.  It leaves the table as it is, of the monitors it changes at
most the counter of its piece in step monitors, and whoever it neither moves nor records as taken
stands where it stood (`Board.Frame`).  Frames compose along a chain (`Linked.frame`), since the log
of a link has all the records before it (`recorded_of_mem_candidates`).  Nothing is assumed about
the placements.
-/

namespace BoardRules

/-! ## Monitors -/

namespace Monitor

/-- Two monitors of one kind with the same further fields; only step monitors may have counted
differently. -/
structure SameButCounts (m n : Monitor) : Prop where
  kind : n.kind = m.kind
  extra : n.extra = m.extra
  foreign : m.kind ≠ stepKind → n = m

/-- A monitor has counted some moves of a piece on top of another one, and has the same counters for
everybody else. -/
structure CountsOn (piece : PieceId) (moves : UInt32) (m n : Monitor) : Prop where
  count : n.count piece = m.count piece + moves
  others : n.counters.filter (·.1 ≠ piece) = m.counters.filter (·.1 ≠ piece)

variable {m n o : Monitor} {piece : PieceId}

theorem SameButCounts.refl (m : Monitor) : SameButCounts m m := ⟨rfl, rfl, fun _ => rfl⟩

theorem SameButCounts.trans (h : SameButCounts m n) (k : SameButCounts n o) :
    SameButCounts m o where
  kind := k.kind.trans h.kind
  extra := k.extra.trans h.extra
  foreign differs := (k.foreign (h.kind ▸ differs)).trans (h.foreign differs)

/-- A step monitor that counts changes its counts only. -/
theorem SameButCounts.increment (step : m.kind = stepKind) (piece : PieceId) :
    SameButCounts m (m.increment piece) := ⟨rfl, rfl, fun other => absurd step other⟩

theorem CountsOn.refl (piece : PieceId) (m : Monitor) : CountsOn piece 0 m m :=
  ⟨(UInt32.add_zero _).symm, rfl⟩

/-- Counting for a piece leaves the counters of the others. -/
theorem filter_incrementIn (piece : PieceId) (counters : List (PieceId × UInt32)) :
    (incrementIn piece counters).filter (·.1 ≠ piece) = counters.filter (·.1 ≠ piece) := by
  induction counters with
  | nil => simp [incrementIn]
  | cons counter rest ih =>
    obtain ⟨id, n⟩ := counter
    unfold incrementIn
    by_cases same : id = piece
    · simp [same]
    · rw [if_neg same, List.filter_cons, List.filter_cons, ih]

/-- An increment counts one for its piece. -/
theorem CountsOn.increment (piece : PieceId) (m : Monitor) :
    CountsOn piece 1 m (m.increment piece) :=
  ⟨m.count_increment_self piece, filter_incrementIn piece m.counters⟩

end Monitor

namespace Board

/-- The monitors of two boards are the same but for what the step monitors have counted. -/
def SameMonitors (b c : Board) : Prop :=
  List.Forall₂ Monitor.SameButCounts b.monitors c.monitors

variable {b c d : Board}

theorem SameMonitors.refl (b : Board) : SameMonitors b b :=
  List.forall₂_same.2 fun m _ => .refl m

/-- The monitors stay the same along a row of changes, their counts apart. -/
theorem SameMonitors.trans (h : SameMonitors b c) (k : SameMonitors c d) : SameMonitors b d := by
  unfold SameMonitors at h k ⊢
  generalize b.monitors = front, c.monitors = middle, d.monitors = last at h k ⊢
  induction h generalizing last with
  | nil => exact k
  | cons first rest ih =>
    obtain ⟨n, later, second, others, rfl⟩ := List.forall₂_cons_left_iff.1 k
    exact .cons (first.trans second) (ih later others)

/-- Counting a move changes the counts of the step monitors. -/
theorem SameMonitors.countMove (b : Board) (piece : PieceId) :
    SameMonitors b (b.countMove piece) := by
  refine List.forall₂_map_right_iff.2 (List.forall₂_same.2 fun m _ => ?_)
  split
  · rename_i step
    exact .increment step piece
  · exact .refl m

/-- Every change of a board in play keeps the monitors but for the counts. -/
theorem kept_sameMonitors (b : Board) : Kept (SameMonitors b) where
  lift _ _ h := h
  move c piece square h := h.trans (.countMove (c.place piece square) piece)
  eliminate c player h := by
    rw [eliminate_eq_enrol]
    exact h

/-- If a piece is found elsewhere than before, every step monitor has counted one move of it, and
otherwise none; nothing else has been counted. -/
theorem MoveCounted.countsOn {piece : PieceId} (h : MoveCounted piece b c) :
    List.Forall₂
      (fun m n : Monitor => m.kind = Monitor.stepKind →
        m.CountsOn piece (if c.squareOf? piece = b.squareOf? piece then 0 else 1) n)
      b.monitors c.monitors := by
  unfold MoveCounted at h
  rw [h]
  split
  · exact List.forall₂_same.2 fun m _ _ => .refl piece m
  · refine List.forall₂_map_right_iff.2 (List.forall₂_same.2 fun m _ step => ?_)
    rw [if_pos step]
    exact .increment piece m

/-! ## Frames -/

/-- What a change leaves alone that touches some pieces: the table, the monitors but for their
counts, and the squares of all other pieces. -/
structure Frame (touched : PieceId → Prop) (b c : Board) : Prop where
  table : SameTable b c
  monitors : SameMonitors b c
  still : ∀ piece, ¬ touched piece → c.squareOf? piece = b.squareOf? piece

namespace Frame

variable {touched wider : PieceId → Prop}

theorem refl (touched : PieceId → Prop) (b : Board) : Frame touched b b :=
  ⟨.refl b, .refl b, fun _ _ => rfl⟩

/-- What two changes leave alone, both together leave alone. -/
theorem trans (h : Frame touched b c) (k : Frame touched c d) : Frame touched b d where
  table := h.table.trans k.table
  monitors := h.monitors.trans k.monitors
  still piece free := (k.still piece free).trans (h.still piece free)

/-- A frame that allows more to be touched promises less. -/
theorem mono (h : Frame touched b c) (le : ∀ piece, touched piece → wider piece) :
    Frame wider b c where
  table := h.table
  monitors := h.monitors
  still piece free := h.still piece (mt (le piece) free)

end Frame

end Board

/-! ## Whoever is not recorded stays -/

section Spared

variable {other : PieceId}

/-- A piece that is not recorded as taken is not lifted. -/
theorem squareOf?_strike {attacker : PieceId} {state : Board × AttackLog} {victim : PieceId}
    (spared : other ∉ (strike attacker state victim).2.attacks.map (·.victim)) :
    (strike attacker state victim).1.squareOf? other = state.1.squareOf? other := by
  unfold strike at spared ⊢
  cases found : state.1.squareOf? victim with
  | none => rfl
  | some square =>
    rw [found] at spared
    have differs : other ≠ victim := by
      rintro rfl
      simp at spared
    exact state.1.squareOf?_lift_of_ne differs

/-- If steps that only add records leave everyone in place whom they do not record, then so they do
together. -/
theorem squareOf?_foldl {α : Type} {act : Board × AttackLog → α → Board × AttackLog}
    (grows : ∀ state a, state.2.attacks <+: (act state a).2.attacks)
    (spares : ∀ state a, other ∉ (act state a).2.attacks.map (·.victim) →
      (act state a).1.squareOf? other = state.1.squareOf? other)
    {state : Board × AttackLog} {items : List α}
    (spared : other ∉ (items.foldl act state).2.attacks.map (·.victim)) :
    (items.foldl act state).1.squareOf? other = state.1.squareOf? other := by
  induction items generalizing state with
  | nil => rfl
  | cons a rest ih =>
    have later := attacks_prefix_foldl grows (act state a) rest
    have first : other ∉ (act state a).2.attacks.map (·.victim) := fun taken =>
      spared ((later.map (·.victim)).subset taken)
    exact (ih spared).trans (spares state a first)

/-- A delta of another piece leaves whomever it does not record in place. -/
theorem Delta.squareOf?_apply {piece : PieceId} (differs : other ≠ piece) (d : Delta)
    {state : Board × AttackLog}
    (spared : other ∉ (d.apply piece state).2.attacks.map (·.victim)) :
    (d.apply piece state).1.squareOf? other = state.1.squareOf? other := by
  cases d with
  | position square =>
    rw [apply]
    split
    · rfl
    · exact state.1.squareOf?_place_of_ne differs square
  | cell square => rfl
  | attack victims =>
    exact squareOf?_foldl (attacks_prefix_strike piece) (fun _ _ => squareOf?_strike) spared
  | lose player =>
    rw [apply, Board.eliminate_eq_enrol]
    rfl

end Spared

/-! ## Findings and chains -/

/-- The pieces that a link may move: the one that acts, and those that are recorded as taken. -/
def Link.Touches (link : Link) (piece : PieceId) : Prop :=
  piece = link.selection.piece ∨ piece ∈ link.log.attacks.map (·.victim)

/-- A finding leaves everything alone but the piece that acts and those recorded as taken. -/
theorem Query.frame_of_mem_findings {q : Query} {link : Link} (found : link ∈ q.findings) :
    Board.Frame link.Touches q.board link.board := by
  have made := replay_of_mem_findings found
  have monitors : Board.SameMonitors q.board (link.deltas.apply q.piece.id (q.board, q.log)).1 :=
    (Board.kept_sameMonitors q.board).deltas (.refl q.board) q.piece.id link.deltas
  rw [← made] at monitors
  refine ⟨(precedes_of_mem_findings found).table, monitors, fun piece free => ?_⟩
  obtain ⟨differs, spared⟩ := not_or.1 free
  rw [piece_of_mem_findings found] at differs
  have still : piece ∉ (link.deltas.apply q.piece.id (q.board, q.log)).2.attacks.map (·.victim) →
      (link.deltas.apply q.piece.id (q.board, q.log)).1.squareOf? piece =
        q.board.squareOf? piece :=
    squareOf?_foldl (fun state d => d.attacks_prefix_apply q.piece.id state)
      fun _ d => d.squareOf?_apply differs
  rw [← made] at still
  exact still spared

/-- The board after links that start on a board. -/
def Board.afterLinks (b : Board) (links : List Link) : Board :=
  (links.getLast?.map (·.board)).getD b

/-- A chain that is cut at a link leads to the board on which this link was found. -/
theorem Linked.exists_query {b last : Board} {earlier later : List Link} {link : Link}
    (linked : Linked b (earlier ++ link :: later) last) :
    ∃ q : Query, Linked b earlier (b.afterLinks earlier) ∧ q.board = b.afterLinks earlier ∧
      link ∈ q.findings := by
  induction earlier generalizing b with
  | nil =>
    cases linked with
    | @cons q _ _ _ found further => exact ⟨q, .nil q.board, rfl, found⟩
  | cons first rest ih =>
    cases linked with
    | @cons q _ _ _ found further =>
      have onward : q.board.afterLinks (first :: rest) = first.board.afterLinks rest := by
        unfold Board.afterLinks
        cases rest with
        | nil => rfl
        | cons second others => rw [List.getLast?_cons_cons, List.getLast?_cons]; rfl
      obtain ⟨query, chain, board, answer⟩ := ih further
      rw [onward]
      exact ⟨query, .cons found chain, board, answer⟩

/-- A chain leaves everything alone but the pieces that act and those recorded as taken. -/
theorem Linked.frame {b last : Board} {links : List Link} (linked : Linked b links last) :
    Board.Frame (fun piece => ∃ link ∈ links, link.Touches piece) b last := by
  induction linked with
  | nil b => exact .refl _ b
  | @cons q link rest last found further ih =>
    have first := Query.frame_of_mem_findings found
    refine (first.mono fun piece touched => ?_).trans (ih.mono fun piece touched => ?_)
    · exact ⟨link, List.mem_cons_self, touched⟩
    · obtain ⟨other, hother, touched⟩ := touched
      exact ⟨other, List.mem_cons_of_mem _ hother, touched⟩

/-- Along a candidate no record of an attack is lost. -/
theorem pairwise_attacks_of_mem_candidates {b : Board} {settings : Settings} {phase : Phase}
    {include? : Piece → Bool} {c : Candidate}
    (hc : c ∈ (b.analysisWhere settings phase include?).candidates) :
    c.links.Pairwise fun l m => l.log.attacks <+: m.log.attacks := by
  obtain ⟨piece, -, -, head, -, rfl⟩ := exists_finding_of_mem_candidates hc
  let Earlier (l m : Link) : Prop := l.log.attacks <+: m.log.attacks
  have : IsTrans Link Earlier := ⟨fun _ _ _ => List.IsPrefix.trans⟩
  have chain : (head.candidate settings).links.IsChain Earlier :=
    Extension.empty.recorded_reactionsTo settings _ _ head
  exact chain.pairwise

/-- A link touches only what it acts on.  Its board has the table of the analysed board, and the
same monitors but for what the step monitors have counted; against the board before the link these
have counted nothing but one move of the acting piece, if it is found on another square than before.
Whoever has not acted and is not recorded as taken stands where it stood on the analysed board. -/
theorem Board.frame_of_mem_candidates {b : Board} {settings : Settings} {phase : Phase}
    {include? : Piece → Bool} {c : Candidate}
    (hc : c ∈ (b.analysisWhere settings phase include?).candidates) {earlier later : List Link}
    {link : Link} (split : c.links = earlier ++ link :: later) :
    SameTable b link.board ∧
      SameMonitors b link.board ∧
      List.Forall₂
        (fun m n : Monitor => m.kind = Monitor.stepKind →
          m.CountsOn link.selection.piece
            (if link.board.squareOf? link.selection.piece =
              (b.afterLinks earlier).squareOf? link.selection.piece then 0 else 1) n)
        (b.afterLinks earlier).monitors link.board.monitors ∧
      ∀ piece, piece ∉ (earlier ++ [link]).map (·.selection.piece) →
        piece ∉ link.log.attacks.map (·.victim) →
          link.board.squareOf? piece = b.squareOf? piece := by
  have linked := linked_of_mem_candidates hc
  rw [split] at linked
  obtain ⟨q, chain, board, found⟩ := linked.exists_query
  have before := chain.frame
  rw [← board] at before ⊢
  have own := Query.frame_of_mem_findings found
  have counted := (Query.moveCounted_of_mem_findings found).countsOn
  rw [← Query.piece_of_mem_findings found] at counted
  refine ⟨before.table.trans own.table, before.monitors.trans own.monitors, counted, ?_⟩
  intro piece idle spared
  rw [List.map_append, List.mem_append, not_or] at idle
  have recorded := pairwise_attacks_of_mem_candidates hc
  rw [split, List.pairwise_append] at recorded
  have untouched : ¬ ∃ l ∈ earlier, l.Touches piece := by
    rintro ⟨l, hl, acts | taken⟩
    · exact idle.1 (acts ▸ List.mem_map_of_mem hl)
    · exact spared (((recorded.2.2 l hl link List.mem_cons_self).map _).subset taken)
  refine (own.still piece (not_or.2 ⟨?_, spared⟩)).trans (before.still piece untouched)
  exact fun acts => idle.2 (acts ▸ List.mem_singleton_self _)

/-- White's sentry takes a step and then another one, forward or back; black's page answers with a
step of his own, and a post stands between them.  A clock runs beside the step monitor. -/
def patrolBoard : Board :=
  { Board.empty "patrol" ⟨3, 3⟩ with
    pieces :=
      [{ id := ⟨"sentry"⟩,
         behaviours :=
          [⟨⟨"pace"⟩, "pace", .initiative,
            [.action (.move { vectors := [⟨0, 1⟩] }),
             .action (.move { vectors := [⟨0, 1⟩, ⟨0, -1⟩] })]⟩] },
       { id := ⟨"page"⟩,
         behaviours :=
          [⟨⟨"answer"⟩, "answer", .passive, [.action (.move { vectors := [⟨0, 1⟩] })]⟩] },
       { id := ⟨"post"⟩ }]
    nations :=
      { nodes :=
          [{ id := ⟨"whites"⟩, monarch := some ⟨"white"⟩, children := [.piece ⟨"sentry"⟩] },
           { id := ⟨"blacks"⟩, monarch := some ⟨"black"⟩, children := [.piece ⟨"page"⟩] }]
        roots := [0, 1] }
    players := [{ id := ⟨"white"⟩, seat := ⟨1⟩ }, { id := ⟨"black"⟩, seat := ⟨3⟩ }]
    monitors := [⟨"mod.clock", [(⟨"sentry"⟩, 4)], [("limit", .string "noon")]⟩, .step]
    placements := [(⟨"sentry"⟩, ⟨0, 0⟩), (⟨"page"⟩, ⟨2, 2⟩), (⟨"post"⟩, ⟨1, 1⟩)] }

/-- When the sentry goes there and back, nothing is counted for him; then one move is counted for
the page, and the post stands where it stood. -/
theorem frame_of_patrol :
    ∃ c ∈ (patrolBoard.analysis {} .initiative).candidates, ∃ pace answer : Link,
      c.links = [pace, answer] ∧ pace.selection = ⟨⟨"sentry"⟩, ⟨"pace"⟩, [0, 1]⟩ ∧
        answer.selection = ⟨⟨"page"⟩, ⟨"answer"⟩, [0]⟩ ∧
        List.Forall₂ (fun m n : Monitor => m.kind = Monitor.stepKind → m.CountsOn ⟨"sentry"⟩ 0 n)
          patrolBoard.monitors pace.board.monitors ∧
        List.Forall₂ (fun m n : Monitor => m.kind = Monitor.stepKind → m.CountsOn ⟨"page"⟩ 1 n)
          pace.board.monitors answer.board.monitors ∧
        patrolBoard.SameTable answer.board ∧ patrolBoard.SameMonitors answer.board ∧
        answer.board.squareOf? ⟨"post"⟩ = patrolBoard.squareOf? ⟨"post"⟩ := by
  have chains : (patrolBoard.analysis {} .initiative).candidates.map
      (·.links.map fun link => (link.selection, link.log.attacks,
        link.board.squareOf? ⟨"sentry"⟩, link.board.squareOf? ⟨"page"⟩)) =
      [[(⟨⟨"sentry"⟩, ⟨"pace"⟩, [0, 0]⟩, [], some ⟨0, 2⟩, some ⟨2, 2⟩),
        (⟨⟨"page"⟩, ⟨"answer"⟩, [0]⟩, [], some ⟨0, 2⟩, some ⟨2, 1⟩)],
       [(⟨⟨"sentry"⟩, ⟨"pace"⟩, [0, 1]⟩, [], some ⟨0, 0⟩, some ⟨2, 2⟩),
        (⟨⟨"page"⟩, ⟨"answer"⟩, [0]⟩, [], some ⟨0, 0⟩, some ⟨2, 1⟩)]] := by cbv
  obtain ⟨c, listed, chain⟩ :=
    List.mem_map.1 (chains ▸ List.mem_cons_of_mem _ List.mem_cons_self)
  obtain ⟨pace, rest, links, first, second⟩ := List.map_eq_cons_iff.1 chain
  obtain ⟨answer, none, rfl, last, nothing⟩ := List.map_eq_cons_iff.1 second
  obtain rfl := List.map_eq_nil_iff.1 nothing
  simp only [Prod.mk.injEq] at first last
  obtain ⟨paces, -, home, stays⟩ := first
  obtain ⟨answers, quiet, -, goes⟩ := last
  have atPace : c.links = [] ++ pace :: [answer] := links
  have atAnswer : c.links = [pace] ++ answer :: [] := links
  obtain ⟨-, -, counted, -⟩ := Board.frame_of_mem_candidates listed atPace
  obtain ⟨table, monitors, counted', still⟩ := Board.frame_of_mem_candidates listed atAnswer
  have started : patrolBoard.squareOf? ⟨"sentry"⟩ = some ⟨0, 0⟩ := by decide
  have before : patrolBoard.afterLinks [] = patrolBoard := rfl
  have between : patrolBoard.afterLinks [pace] = pace.board := rfl
  rw [before, paces, home, started, if_pos rfl] at counted
  rw [between, answers, goes, stays, if_neg (by decide)] at counted'
  refine ⟨c, listed, pace, answer, links, paces, answers, counted, counted', table, monitors,
    still _ ?_ ?_⟩
  · simp [paces, answers]
  · simp [quiet]

end BoardRules
