import Mathlib
import BoardRules.Proofs.Search.Occupancy
import BoardRules.Proofs.Session.Course

/-!
# Whole games

A game is a session that is asked one thing after the other (`Session.run`).  Whatever is asked, the
session changes in three ways only (`Session.Changes`): a lapse that is due passes, a choice is
played, or the turn is passed on.  Every call is a sequence of such changes, no longer than its
effort (`Session.reachesWithin_after`), and so is the whole game (`Session.reachesWithin_run`).

What searches hand on and eliminations keep (`Lasting`) survives every single change, and so the
whole game (`Lasting.run`).  A well-placed board is the case in point: neither a chain of reactions
nor a game leads to a board that is not well placed (`wellPlaced_throughout`).
-/

namespace BoardRules

/-- What can be asked of a session. -/
inductive Session.Call where
  /-- Settle what needs no choice, for a local player. -/
  | settle (player : PlayerId)
  /-- Play a choice. -/
  | play (selection : Selection)
  /-- Pass the turn on. -/
  | endTurn
  /-- Play random choices. -/
  | playout (plies : ℕ) (g : Generator)

namespace Session

/-- The session after a call.  A call that is refused, or that does not come to an end, changes
nothing. -/
def after (s : Session) : Call → Session
  | .settle player => ((s.settle? player).map Prod.snd).getD s
  | .play selection =>
    match s.play selection with
    | .ok next => next
    | .error _ => s
  | .endTurn => s.endTurn
  | .playout plies g => (playout plies s g).2.1

/-- The session after calls. -/
def run (s : Session) (calls : List Call) : Session := calls.foldl after s

variable {s next : Session}

/-- A game starts on a board with players, at the beginning of the first round. -/
theorem start_eq_ok_iff {board : Board} {settings : Settings} :
    start board settings = .ok s ↔ board.players ≠ [] ∧ s = { board, settings } := by
  unfold start
  split
  · rename_i nobody
    exact iff_of_false nofun fun h => h.1 (List.isEmpty_iff.1 nobody)
  · rename_i seats
    rw [List.isEmpty_iff] at seats
    rw [Except.ok.injEq, eq_comm]
    exact (and_iff_right seats).symm

/-! ## Changes -/

/-- One change of a session. -/
inductive Changes (s : Session) : Session → Prop
  /-- A lapse that is due passes. -/
  | lapse {l : Lapse} (due : s.Due l) : Changes s (s.lapse l)
  /-- A choice is played. -/
  | play {selection : Selection} {next : Session} (played : s.play selection = .ok next) :
      Changes s next
  /-- The turn is passed on. -/
  | endTurn : Changes s s.endTurn

/-- One session comes out of another one by changes. -/
def Reaches : Session → Session → Prop := Relation.ReflTransGen Changes

/-- The lapses of a course are changes. -/
theorem Course.reaches {player : PlayerId} {ls : List Lapse} (course : Course player s ls) :
    Reaches s (s.lapses ls) := by
  induction course with
  | nil s => exact .refl
  | cons running due rest ih => exact .head (.lapse due) ih

end Session

/-! ## Candidates on offer -/

/-- A candidate that is found is one of the candidates. -/
theorem Analysis.mem_candidates_of_find? {a : Analysis} {selection : Selection} {c : Candidate}
    (h : a.find? selection = some c) : c ∈ a.candidates := by
  have listed : c ∈ a.of selection.piece := List.mem_of_find?_eq_some h
  unfold of at listed
  cases found : a.entries.lookup selection.piece with
  | none =>
    rw [found] at listed
    exact absurd listed List.not_mem_nil
  | some candidates =>
    rw [found] at listed
    obtain ⟨before, behind, entries, -⟩ := List.lookup_eq_some_iff.1 found
    have entry : (selection.piece, candidates) ∈ a.entries := by
      rw [entries]
      exact List.mem_append_right before List.mem_cons_self
    exact List.mem_flatMap.2 ⟨_, entry, listed⟩

/-- Whatever is on offer comes from an analysis of the board. -/
theorem Session.exists_analysis_of_mem_offered {s : Session} {c : Candidate}
    (h : c ∈ s.offered.candidates) :
    ∃ phase include?, c ∈ (s.board.analysisWhere s.settings phase include?).candidates := by
  unfold offered at h
  split at h
  · exact absurd h List.not_mem_nil
  · split at h
    · exact ⟨_, _, h⟩
    · split at h
      · exact ⟨_, _, h⟩
      · exact absurd h List.not_mem_nil
    · exact ⟨_, _, h⟩

/-! ## What lasts -/

/-- Properties of boards that searches hand on and eliminations keep. -/
structure Lasting (P : Board → Prop) : Prop where
  /-- Searches hand the property on. -/
  search : HandedOn P
  /-- Eliminations keep it. -/
  elimination : ∀ b player, P b → P (b.eliminate player)

/-- What every change of a board keeps lasts. -/
theorem Board.Kept.lasting {P : Board → Prop} (kept : Board.Kept P) : Lasting P where
  search q h link hlink := by
    have made : P (link.deltas.apply q.piece.id (q.board, q.log)).1 :=
      kept.deltas h q.piece.id link.deltas
    rwa [← Query.replay_of_mem_findings hlink] at made
  elimination := kept.eliminate

namespace Lasting

variable {P : Board → Prop} {s next : Session}

/-- Eliminating several players keeps what lasts. -/
theorem foldl_eliminate (lasting : Lasting P) {b : Board} (h : P b) (players : List PlayerId) :
    P (players.foldl Board.eliminate b) := by
  induction players generalizing b with
  | nil => exact h
  | cons player rest ih => exact ih (lasting.elimination b player h)

/-- The outcome of a candidate keeps what lasts. -/
theorem outcome (lasting : Lasting P) {b : Board} (h : P b) {settings : Settings} {phase : Phase}
    {include? : Piece → Bool} {c : Candidate}
    (hc : c ∈ (b.analysisWhere settings phase include?).candidates) : P c.outcome := by
  have final : P c.finalBoard := lasting.search.links h hc c.last c.last_mem_links
  exact lasting.foldl_eliminate final c.fallen

/-- Every change keeps what lasts. -/
theorem changes (lasting : Lasting P) (h : P s.board) (change : s.Changes next) :
    P next.board := by
  cases change with
  | lapse due =>
    rcases due.onward.board with same | ⟨loser, fewer⟩
    · rw [same]
      exact h
    · rw [fewer]
      exact lasting.elimination s.board loser h
  | play played =>
    obtain ⟨active, -, -, c, found, rfl⟩ := Session.play_eq_ok played
    obtain ⟨phase, include?, hc⟩ :=
      Session.exists_analysis_of_mem_offered (Analysis.mem_candidates_of_find? found)
    exact lasting.outcome h hc
  | endTurn => exact h

/-- Any number of changes keeps what lasts. -/
theorem reaches (lasting : Lasting P) (h : P s.board) (reached : s.Reaches next) :
    P next.board := by
  induction reached with
  | refl => exact h
  | tail _ change ih => exact lasting.changes ih change

end Lasting

/-! ## Counting changes -/

namespace Session

variable {s t next : Session}

/-- A call takes no more changes than this.  Settling takes as many as it has passes, and playing
one more.  A playout settles once more than it plays. -/
def effort (s : Session) : Call → ℕ
  | .settle _ => s.passBound
  | .play _ => 1
  | .endTurn => 1
  | .playout plies g => ((playout plies s g).1.length + 1) * (s.passBound + 1)

/-- The efforts of calls, each of the session after those before it. -/
def efforts (s : Session) : List Call → ℕ
  | [] => 0
  | call :: rest => s.effort call + (s.after call).efforts rest

/-- The effort of calls in two goes: the later ones are made where the earlier ones lead. -/
theorem efforts_append (s : Session) (calls more : List Call) :
    s.efforts (calls ++ more) = s.efforts calls + (s.run calls).efforts more := by
  induction calls generalizing s with
  | nil => exact (Nat.zero_add _).symm
  | cons call rest ih =>
    rw [List.cons_append, efforts, ih, efforts, Nat.add_assoc]
    rfl

/-- One session comes out of another one by at most so many changes. -/
inductive ReachesWithin : ℕ → Session → Session → Prop
  /-- Nothing changes. -/
  | stay (n : ℕ) (s : Session) : ReachesWithin n s s
  /-- There is a change, and then others. -/
  | change {n : ℕ} {s t next : Session} (first : s.Changes t) (rest : ReachesWithin n t next) :
      ReachesWithin (n + 1) s next

/-- Some number of changes are changes. -/
theorem ReachesWithin.reaches {n : ℕ} (h : ReachesWithin n s t) : Reaches s t := by
  induction h with
  | stay n s => exact .refl
  | change first rest ih => exact .head first ih

/-- More changes are allowed. -/
theorem ReachesWithin.mono {n more : ℕ} (h : ReachesWithin n s t) (le : n ≤ more) :
    ReachesWithin more s t := by
  induction h generalizing more with
  | stay n s => exact .stay more s
  | change first rest ih =>
    obtain ⟨more, rfl⟩ := Nat.exists_eq_add_of_le' (Nat.le_trans (Nat.succ_pos _) le)
    exact .change first (ih (Nat.le_of_succ_le_succ le))

/-- Changes after changes add up. -/
theorem ReachesWithin.trans {m n : ℕ} (h : ReachesWithin m s t) (k : ReachesWithin n t next) :
    ReachesWithin (m + n) s next := by
  induction h with
  | stay m s => exact k.mono (Nat.le_add_left n m)
  | @change m s t _ first rest ih =>
    rw [Nat.succ_add]
    exact .change first (ih k)

/-- The same players are seated after changes. -/
theorem Reaches.players (h : Reaches s t) : t.board.players = s.board.players :=
  ((Board.kept_sameTable s.board).lasting.reaches (.refl s.board) h).players

/-- Settling takes at most one change for each pass. -/
theorem reachesWithin_settleWithin {player : PlayerId} {passes : ℕ} {report : Report}
    (settles : settleWithin player passes s = some (report, next)) :
    ReachesWithin passes s next := by
  induction passes generalizing s report with
  | zero => exact nomatch settles
  | succ passes ih =>
    rcases s.settled_or_due player with ⟨found, settled⟩ | ⟨-, l, due, goes⟩
    · rw [settleWithin_of_settled settled, Option.some.injEq, Prod.mk.injEq] at settles
      obtain ⟨-, rfl⟩ := settles
      exact .stay _ s
    · rw [goes, Option.map_eq_some_iff] at settles
      obtain ⟨⟨later, final⟩, hlater, heq⟩ := settles
      obtain ⟨-, rfl⟩ := Prod.mk.inj heq
      exact .change (.lapse due) (ih hlater)

/-- A playout takes a change for each choice, and those of settling before it and at the end. -/
theorem reachesWithin_playout (plies : ℕ) (s : Session) (g : Generator) :
    ReachesWithin (((playout plies s g).1.length + 1) * (s.passBound + 1)) s
      (playout plies s g).2.1 := by
  induction plies generalizing s g with
  | zero => exact .stay _ s
  | succ plies ih =>
    unfold playout
    split
    · exact .stay _ s
    · split
      · exact .stay _ s
      · rename_i report settled settles
        have first : ReachesWithin s.passBound s settled := reachesWithin_settleWithin settles
        have alone : ReachesWithin ((0 + 1) * (s.passBound + 1)) s settled :=
          first.mono (by omega)
        split
        · exact alone
        · split
          · exact alone
          · split
            · exact alone
            · rename_i g' _ _ next played
              have both := first.trans (.change (.play played) (.stay 0 next))
              have same : next.passBound = s.passBound := by
                rw [passBound, passBound, both.reaches.players]
              have rest := both.trans (ih next g')
              rw [same, Nat.add_comm (_ + _), ← Nat.succ_mul] at rest
              exact rest

/-- No call takes more changes than its effort. -/
theorem reachesWithin_after (s : Session) (call : Call) :
    ReachesWithin (s.effort call) s (s.after call) := by
  cases call with
  | settle player =>
    rw [after]
    cases settles : s.settle? player with
    | none => exact .stay _ s
    | some result => exact reachesWithin_settleWithin settles
  | play selection =>
    rw [after]
    cases played : s.play selection with
    | error fault => exact .stay 1 s
    | ok next => exact .change (.play played) (.stay 0 next)
  | endTurn => exact .change .endTurn (.stay 0 s.endTurn)
  | playout plies g => exact reachesWithin_playout plies s g

/-- No game takes more changes than the efforts of its calls. -/
theorem reachesWithin_run (s : Session) (calls : List Call) :
    ReachesWithin (s.efforts calls) s (s.run calls) := by
  induction calls generalizing s with
  | nil => exact .stay 0 s
  | cons call rest ih => exact (s.reachesWithin_after call).trans (ih (s.after call))

/-- A whole game is a sequence of changes. -/
theorem reaches_run (s : Session) (calls : List Call) : Reaches s (s.run calls) :=
  (s.reachesWithin_run calls).reaches

end Session

/-- A whole game keeps what lasts. -/
theorem Lasting.run {P : Board → Prop} {s : Session} (lasting : Lasting P) (h : P s.board)
    (calls : List Session.Call) : P (s.run calls).board := lasting.reaches h (s.reaches_run calls)

/-! ## Well-placed boards -/

/-- That a board is well placed lasts. -/
theorem lasting_wellPlaced : Lasting Board.WellPlaced where
  search := handedOn_wellPlaced
  elimination b player h := h.congr (.eliminate b player) (b.placements_eliminate player)

/-- From a well-placed board, neither a link of a candidate nor a game leads to a board that is not
well placed. -/
theorem wellPlaced_throughout :
    (∀ b : Board, b.WellPlaced → ∀ (settings : Settings) (phase : Phase) (include? : Piece → Bool),
      ∀ c ∈ (b.analysisWhere settings phase include?).candidates,
        ∀ link ∈ c.links, link.board.WellPlaced) ∧
    ∀ s : Session, s.board.WellPlaced → ∀ calls : List Session.Call,
      (s.run calls).board.WellPlaced := by
  refine ⟨fun b h settings phase include? c hc => ?_, fun s h calls => ?_⟩
  · exact handedOn_wellPlaced.links h hc
  · exact lasting_wellPlaced.run h calls

/-- The raid as a game. -/
def raidSession : Session where
  board := raidBoard
  settings := {}

/-- White settles, plays the raid up to the king, and black settles. -/
def raidCalls : List Session.Call :=
  [.settle ⟨"white"⟩, .play ⟨⟨"raider"⟩, ⟨"raid"⟩, [0, 1]⟩, .settle ⟨"black"⟩]

/-- The king's fall is a link of the raid, and the raider alone is left on the board. -/
theorem wellPlaced_throughout_raid :
    raidBoard.WellPlaced ∧
      (∃ c ∈ (raidBoard.analysisFor {} .initiative ⟨"white"⟩).candidates,
        c.links.map (·.selection.piece) = [⟨"raider"⟩, ⟨"king"⟩] ∧
          ∀ link ∈ c.links, link.board.WellPlaced) ∧
      (raidSession.run raidCalls).board.placements = [(⟨"raider"⟩, ⟨0, 2⟩)] ∧
      (raidSession.run raidCalls).board.WellPlaced := by
  have placed : raidBoard.WellPlaced :=
    { once := by
        unfold Board.PlacedOnce
        decide
      registered := by decide
      inside := by decide
      apart := by decide }
  have chains : (raidBoard.analysisFor {} .initiative ⟨"white"⟩).candidates.map
      (fun c => c.links.map (·.selection.piece)) =
        [[⟨"raider"⟩], [⟨"raider"⟩, ⟨"king"⟩]] := by cbv
  obtain ⟨c, hc, chain⟩ := List.mem_map.1 (chains ▸ List.mem_cons_of_mem _ List.mem_cons_self)
  obtain ⟨links, games⟩ := wellPlaced_throughout
  refine ⟨placed, ⟨c, hc, chain, links raidBoard placed {} .initiative _ c hc⟩, ?_, ?_⟩
  · cbv
  · exact games raidSession placed raidCalls

end BoardRules
