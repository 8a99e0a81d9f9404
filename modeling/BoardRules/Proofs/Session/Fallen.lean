import Mathlib
import BoardRules.Proofs.Delta.Merging
import BoardRules.Proofs.Search.Count
import BoardRules.Proofs.Session.Run

/-!
# Those who fall along a chain

Eliminations are kept twice: a link has the player who loses by it among its deltas, and the boards
along a chain have the losers.  A behaviour holds at most one such delta
(`DeltaSet.filterMap_loser?`), so a finding enrols exactly its own loser
(`Query.losers_of_mem_findings`), and along a chain the losers of the deltas are enrolled one after
the other (`Linked.losers`).  Enrolling players one after the other adds those who are new, each
at its first occurrence (`foldl_enrol`).  So the final board of a candidate has recorded everyone
who falls, and committing the candidate enrols nobody any more.
-/

namespace BoardRules

/-- Enrolling players adds those who had not lost, in the order of their first occurrences. -/
theorem foldl_enrol (players losers : List PlayerId) :
    players.foldl enrol losers = losers ++ players.eraseDups.filter (· ∉ losers) := by
  induction players using List.reverseRecOn with
  | nil => simp
  | append_singleton players player ih =>
    rw [List.foldl_append, ih, eraseDups_concat, List.filter_append]
    by_cases lost : player ∈ losers
    · by_cases known : player ∈ players <;> simp [enrol, lost, known]
    · by_cases known : player ∈ players <;> simp [enrol, lost, known]

/-- Enrolling players among no losers drops the repetitions. -/
theorem foldl_enrol_nil (players : List PlayerId) :
    players.foldl enrol [] = players.eraseDups := by
  simp [foldl_enrol]

/-! ## One finding -/

/-- The player whom a delta eliminates. -/
def Delta.loser? : Delta → Option PlayerId
  | .lose player => some player
  | _ => none

/-- Deltas of different kinds eliminate at most one player, the one in their slot. -/
theorem DeltaSet.filterMap_loser? {ds : List Delta} (slotted : Slotted ⟨ds⟩) :
    ds.filterMap Delta.loser? = (loser? ⟨ds⟩).toList := by
  induction ds with
  | nil => rfl
  | cons d rest ih =>
    cases d with
    | lose player =>
      have others : rest.filterMap Delta.loser? = [] := by
        refine List.filterMap_eq_nil_iff.2 fun other later => ?_
        cases other with
        | lose second =>
          exact absurd (List.mem_map_of_mem (f := Delta.kind) later) (List.nodup_cons.1 slotted).1
        | _ => rfl
      rw [List.filterMap_cons, others]
      rfl
    | _ => exact ih slotted.tail

/-- Taking victims eliminates nobody. -/
theorem losers_foldl_strike (attacker : PieceId) (state : Board × AttackLog)
    (victims : List PieceId) :
    (victims.foldl (strike attacker) state).1.losers = state.1.losers := by
  induction victims generalizing state with
  | nil => rfl
  | cons victim rest ih =>
    rw [List.foldl_cons, ih]
    unfold strike
    split <;> rfl

/-- A delta enrols the player whom it eliminates. -/
theorem Delta.losers_apply (d : Delta) (piece : PieceId) (state : Board × AttackLog) :
    (d.apply piece state).1.losers = d.loser?.toList.foldl enrol state.1.losers := by
  cases d with
  | position square =>
    rw [apply]
    split <;> rfl
  | cell square => rfl
  | attack victims => exact losers_foldl_strike piece state victims
  | lose player =>
    rw [apply, Board.eliminate_eq_enrol]
    rfl

/-- Deltas enrol the players whom they eliminate. -/
theorem losers_foldl_apply (ds : List Delta) (piece : PieceId) (state : Board × AttackLog) :
    (ds.foldl (Delta.apply piece) state).1.losers =
      (ds.filterMap Delta.loser?).foldl enrol state.1.losers := by
  induction ds generalizing state with
  | nil => rfl
  | cons d rest ih =>
    rw [List.foldl_cons, ih, d.losers_apply]
    cases d <;> rfl

/-- A finding enrols the player who loses by it. -/
theorem Query.losers_of_mem_findings {q : Query} {link : Link} (found : link ∈ q.findings) :
    link.board.losers = link.deltas.loser?.toList.foldl enrol q.board.losers := by
  obtain ⟨b, -, run⟩ := exists_leads_of_mem_findings found
  have slotted : link.deltas.Slotted := run.slotted (q.slotted_start b)
  have applied := losers_foldl_apply link.deltas.deltas q.piece.id (q.board, q.log)
  have made := replay_of_mem_findings found
  unfold DeltaSet.apply at made
  rwa [← made, DeltaSet.filterMap_loser? slotted] at applied

/-! ## Along a chain -/

/-- The players who lose along links, link by link. -/
def fallenAlong (links : List Link) : List PlayerId := links.filterMap (·.deltas.loser?)

/-- Along a chain the player felled by the first link comes first. -/
theorem fallenAlong_cons (link : Link) (rest : List Link) :
    fallenAlong (link :: rest) = link.deltas.loser?.toList ++ fallenAlong rest := by
  unfold fallenAlong
  rw [List.filterMap_cons]
  cases link.deltas.loser? <;> rfl

/-- Along links those who lose by them are enrolled. -/
theorem Linked.losers {b last : Board} {links : List Link} (linked : Linked b links last) :
    last.losers = (fallenAlong links).foldl enrol b.losers := by
  induction linked with
  | nil b => rfl
  | @cons q link rest last found further ih =>
    rw [ih, Query.losers_of_mem_findings found, fallenAlong_cons, List.foldl_append]

/-- Whoever falls by a candidate is named once, at the first fall. -/
theorem Candidate.fallen_eq (c : Candidate) : c.fallen = (fallenAlong c.links).eraseDups :=
  foldl_enrol_nil (fallenAlong c.links)

/-- Committing a candidate that has enrolled everyone who falls leaves its final board. -/
theorem Candidate.outcome_eq_finalBoard {c : Candidate}
    (enrolled : ∀ player ∈ c.fallen, player ∈ c.finalBoard.losers) :
    c.outcome = c.finalBoard := by
  have nobody : c.fallen.eraseDups.filter (· ∉ c.finalBoard.losers) = [] := by
    refine List.filter_eq_nil_iff.2 fun player falls => ?_
    simpa using enrolled player (List.mem_eraseDups.1 falls)
  unfold outcome
  rw [Board.foldl_eliminate_eq_enrol, foldl_enrol, nobody, List.append_nil]

/-- The deltas of a candidate and its final board agree on who falls: the players who lose along
the links are named in the order of their first falls, the final board has them behind the earlier
losers unless they are among these, and committing the candidate enrols nobody further. -/
theorem Board.losers_of_mem_candidates {b : Board} {settings : Settings} {phase : Phase}
    {include? : Piece → Bool} {c : Candidate}
    (hc : c ∈ (b.analysisWhere settings phase include?).candidates) :
    c.fallen = (fallenAlong c.links).eraseDups ∧
      c.finalBoard.losers = b.losers ++ c.fallen.filter (· ∉ b.losers) ∧
      ∀ selection, (b.analysisWhere settings phase include?).find? selection = some c →
        (b.analysisWhere settings phase include?).play selection = .ok c.finalBoard := by
  have losers : c.finalBoard.losers = b.losers ++ c.fallen.filter (· ∉ b.losers) := by
    rw [(linked_of_mem_candidates hc).losers, foldl_enrol, c.fallen_eq]
  have enrolled : ∀ player ∈ c.fallen, player ∈ c.finalBoard.losers := by
    intro player falls
    rw [losers, List.mem_append, List.mem_filter, decide_eq_true_eq]
    exact or_iff_not_imp_left.2 fun new => ⟨falls, new⟩
  refine ⟨c.fallen_eq, losers, fun selection found => ?_⟩
  unfold Analysis.play
  rw [found]
  exact congrArg Except.ok (Candidate.outcome_eq_finalBoard enrolled)

/-- The raid with a guard of red, who falls with him, and a black squire who falls with anybody.
Red and white have lost before. -/
def routBoard : Board :=
  { raidBoard with
    pieces :=
      [{ id := ⟨"raider"⟩, behaviours := [raidBehaviour] },
       { id := ⟨"guard"⟩, behaviours := [fallBehaviour] },
       { id := ⟨"king"⟩, behaviours := [fallBehaviour] },
       { id := ⟨"squire"⟩, behaviours := [⟨⟨"flee"⟩, "flee", .passive, [.action (.lose {})]⟩] }]
    nations :=
      { nodes :=
          [{ id := ⟨"whites"⟩, monarch := some ⟨"white"⟩, children := [.piece ⟨"raider"⟩] },
           { id := ⟨"reds"⟩, monarch := some ⟨"red"⟩, children := [.piece ⟨"guard"⟩] },
           { id := ⟨"blacks"⟩, monarch := some ⟨"black"⟩,
             children := [.piece ⟨"king"⟩, .piece ⟨"squire"⟩] }]
        roots := [0, 1, 2] }
    players := raidBoard.players ++ [{ id := ⟨"red"⟩, seat := ⟨2⟩ }]
    losers := [⟨"red"⟩, ⟨"white"⟩] }

/-- When the raider takes the guard and the king, red falls, then black by the king, and black by
the squire; only black is a new loser. -/
theorem losers_of_rout :
    ∃ c ∈ (routBoard.analysisFor {} .initiative ⟨"white"⟩).candidates,
      fallenAlong c.links = [⟨"red"⟩, ⟨"black"⟩, ⟨"black"⟩] ∧
        c.fallen = [⟨"red"⟩, ⟨"black"⟩] ∧
        c.finalBoard.losers = [⟨"red"⟩, ⟨"white"⟩, ⟨"black"⟩] ∧
        (routBoard.analysisFor {} .initiative ⟨"white"⟩).play ⟨⟨"raider"⟩, ⟨"raid"⟩, [0, 1]⟩ =
          .ok c.finalBoard := by
  have found : ((routBoard.analysisFor {} .initiative ⟨"white"⟩).find?
      ⟨⟨"raider"⟩, ⟨"raid"⟩, [0, 1]⟩).map (fun c => fallenAlong c.links) =
        some [⟨"red"⟩, ⟨"black"⟩, ⟨"black"⟩] := by cbv
  obtain ⟨c, named, falls⟩ := Option.map_eq_some_iff.1 found
  have listed : c ∈ (routBoard.analysisFor {} .initiative ⟨"white"⟩).candidates :=
    Analysis.mem_candidates_of_find? named
  obtain ⟨once, losers, plays⟩ := Board.losers_of_mem_candidates listed
  rw [falls] at once
  have fallen : c.fallen = [⟨"red"⟩, ⟨"black"⟩] := once.trans (by decide)
  rw [fallen] at losers
  exact ⟨c, listed, falls, fallen, losers.trans (by decide), plays _ named⟩

end BoardRules
