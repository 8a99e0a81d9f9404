import Mathlib
import BoardRules.Guard.Basic
import BoardRules.Proofs.Search.Count
import BoardRules.Proofs.Session.Playout
import BoardRules.Proofs.Session.Reload

/-!
# The tally of a game

Every choice that is played commits a chain of links (`Commit`), and `Session.commits` collects the
chains of a whole game.  Nothing but a commit moves a piece or counts a move, so over a game the
step monitors of the board count the moves along its commits (`Session.counted_run`).  A guard that
asks how often its piece has moved reads this count.  But it reads zero for ever on a board without
a step monitor, and loading gives a board one only if its snapshot lists no monitor at all
(`Board.keepsCount_of_load`): a snapshot that lists monitors of other kinds, and no step monitor, is
accepted, and nothing is counted on its board (`Session.miscounted_sprint`).
-/

namespace BoardRules

/-- A chain that was committed, with the board on which the choice was made. -/
structure Commit where
  board : Board
  candidate : Candidate

/-- How often a piece moved along commits: the number of links by which it acted and left its
square. -/
def movesOf (piece : PieceId) (commits : List Commit) : ℕ :=
  (commits.map fun c => movesAlong piece c.board c.candidate.links).sum

/-- The moves of a piece in two rows of commits add up. -/
theorem movesOf_append (piece : PieceId) (earlier later : List Commit) :
    movesOf piece (earlier ++ later) = movesOf piece earlier + movesOf piece later := by
  unfold movesOf
  rw [List.map_append, List.sum_append]

namespace Session

/-! ## The commits of a game -/

/-- What is committed by playing a choice; nothing if the choice is refused. -/
def commit? (s : Session) (selection : Selection) : Option Commit :=
  match s.play selection with
  | .ok _ => (s.offered.find? selection).map (⟨s.board, ·⟩)
  | .error _ => none

/-- What is committed by playing random choices. -/
def commitsOfPlayout : (plies : ℕ) → Session → Generator → List Commit
  | 0, _, _ => []
  | plies + 1, s, g =>
    match s.settleOwn? with
    | none => []
    | some (report, settled) =>
      if report.win || report.active.isNone then []
      else
        match g.choose report.choices with
        | (none, _) => []
        | (some selection, rest) =>
          match settled.play selection with
          | .error _ => []
          | .ok next => (settled.commit? selection).toList ++ commitsOfPlayout plies next rest

/-- What is committed by a call. -/
def commitsOf (s : Session) : Call → List Commit
  | .play selection => (s.commit? selection).toList
  | .playout plies g => commitsOfPlayout plies s g
  | .settle _ | .endTurn => []

/-- What is committed over a game. -/
def commits : Session → List Call → List Commit
  | _, [] => []
  | s, call :: rest => s.commitsOf call ++ (s.after call).commits rest

/-! ## Counting over a game -/

variable {s next : Session}

/-- Lapses count nothing. -/
theorem Course.counted {player : PlayerId} {ls : List Lapse} (course : Course player s ls)
    (piece : PieceId) : Board.Counted piece 0 s.board (s.lapses ls).board := by
  induction course with
  | nil s => exact .of_monitors_eq rfl piece
  | @cons s l ls running due rest ih =>
    rcases due.onward.board with same | ⟨loser, fewer⟩
    · rw [same] at ih
      exact ih
    · rw [fewer] at ih
      exact (Board.Counted.eliminate s.board loser piece).trans ih

/-- Settling counts nothing. -/
theorem counted_settle? {player : PlayerId} {report : Report}
    (settles : s.settle? player = some (report, next)) (piece : PieceId) :
    Board.Counted piece 0 s.board next.board := by
  obtain ⟨ls, found, course, rfl, -, -⟩ := exists_course_of_settleWithin settles
  exact course.counted piece

/-- A choice that is played counts the moves along its commit. -/
theorem counted_play {selection : Selection} (played : s.play selection = .ok next)
    (piece : PieceId) :
    Board.Counted piece (movesOf piece (s.commit? selection).toList) s.board next.board := by
  obtain ⟨active, -, -, c, found, rfl⟩ := play_eq_ok played
  obtain ⟨phase, include?, hc⟩ :=
    exists_analysis_of_mem_offered (Analysis.mem_candidates_of_find? found)
  have chain : s.commit? selection = some ⟨s.board, c⟩ := by
    unfold commit?
    rw [played, found]
    rfl
  have fall : Board.Counted piece 0 c.finalBoard c.outcome := by
    refine .of_monitors_eq ?_ piece
    unfold Candidate.outcome
    rw [Board.foldl_eliminate_eq_enrol]
  rw [chain]
  exact ((linked_of_mem_candidates hc).counted piece).trans fall

/-- Playing random choices counts the moves along its commits. -/
theorem counted_playout (plies : ℕ) (s : Session) (g : Generator) (piece : PieceId) :
    Board.Counted piece (movesOf piece (commitsOfPlayout plies s g)) s.board
      (playout plies s g).2.1.board := by
  induction plies generalizing s g with
  | zero => exact .of_monitors_eq rfl piece
  | succ plies ih =>
    rw [playout_succ]
    unfold commitsOfPlayout
    cases settles : s.settleOwn? with
    | none => exact .of_monitors_eq rfl piece
    | some result =>
      obtain ⟨report, settled⟩ := result
      obtain ⟨active, -, settles⟩ := Option.bind_eq_some_iff.1 settles
      have before := counted_settle? settles piece
      dsimp only
      split
      · exact before
      · cases draws : g.choose report.choices with
        | mk drawn rest =>
          cases drawn with
          | none => exact before
          | some selection =>
            dsimp only
            cases played : settled.play selection with
            | error fault => exact before
            | ok next =>
              have ply := (before.trans (counted_play played piece)).trans (ih next rest)
              rw [Nat.zero_add] at ply
              dsimp only
              rw [movesOf_append]
              exact ply

/-- Every call counts the moves along its commits. -/
theorem counted_after (s : Session) (call : Call) (piece : PieceId) :
    Board.Counted piece (movesOf piece (s.commitsOf call)) s.board (s.after call).board := by
  cases call with
  | settle player =>
    rw [after]
    cases settles : s.settle? player with
    | none => exact .of_monitors_eq rfl piece
    | some result => exact counted_settle? settles piece
  | play selection =>
    rw [after, commitsOf]
    cases played : s.play selection with
    | error fault =>
      unfold commit?
      rw [played]
      exact .of_monitors_eq rfl piece
    | ok next => exact counted_play played piece
  | endTurn => exact .of_monitors_eq rfl piece
  | playout plies g => exact counted_playout plies s g piece

/-- A game counts the moves along its commits. -/
theorem counted_run (s : Session) (calls : List Call) (piece : PieceId) :
    Board.Counted piece (movesOf piece (s.commits calls)) s.board (s.run calls).board := by
  induction calls generalizing s with
  | nil => exact .of_monitors_eq rfl piece
  | cons call rest ih =>
    rw [commits, movesOf_append]
    exact (s.counted_after call piece).trans (ih (s.after call))

end Session

/-! ## Loaded boards -/

namespace Board

/-- Play neither adds nor removes monitors. -/
theorem lasting_keepsCount (b : Board) : Lasting fun c => c.keepsCount = b.keepsCount := by
  refine Kept.lasting ⟨fun c piece h => h, fun c piece square h => ?_, fun c player h => ?_⟩
  · exact (Counted.countMove (c.place piece square) piece piece).keepsCount.trans h
  · exact (Counted.eliminate c player .nil).keepsCount.trans h

/-- A loaded board counts changes of square if its snapshot lists a step monitor, or no monitor at
all. -/
theorem keepsCount_of_load {registries : Registries} {settings : Settings}
    {data : Snapshot.Board} {b : Board} {issues : List Issue}
    (loaded : load registries settings data = .ok (b, issues)) :
    b.keepsCount = true ↔
      data.monitors = [] ∨ ∃ m ∈ data.monitors, m.kind = Monitor.stepKind := by
  have monitors : b.monitors = if data.monitors.isEmpty then [.step] else data.monitors := by
    rw [(built_of_load loaded).1]
    rfl
  unfold keepsCount monitor?
  rw [monitors, List.find?_isSome]
  by_cases unlisted : data.monitors = []
  · rw [unlisted]
    exact iff_of_true ⟨.step, List.mem_singleton_self _, rfl⟩ (Or.inl rfl)
  · rw [if_neg (mt List.isEmpty_iff.1 unlisted)]
    simp only [unlisted, false_or, decide_eq_true_eq]

end Board

/-- The guard that asks how often its piece has moved. -/
theorem Guard.compile_moveCount :
    compile .vanilla "(vanilla.step (self))" = .ok (.call .moveCount [.call .self []]) := by
  cbv

/-- On a loaded board, what the guard `(vanilla.step (self))` gives for a piece grows over a game by
the number of links, over all chains that are committed, by which the piece acted and left its
square; provided that the snapshot lists a step monitor, or no monitor at all.  If it lists other
monitors only, the value stays what it was, however often the piece moves. -/
theorem Session.tally_of_load {registries : Registries} {settings : Settings}
    {data : Snapshot.Board} {b : Board} {issues : List Issue}
    (loaded : Board.load registries settings data = .ok (b, issues)) :
    ∃ g, Guard.compile .vanilla "(vanilla.step (self))" = .ok g ∧
      ∀ s : Session, b.Reached s.board → ∀ (calls : List Call) (piece : PieceId)
        (attacker : Option PieceId), ∃ n : ℕ, g.eval ⟨s.board, piece, attacker⟩ = .int n ∧
          (n + movesOf piece (s.commits calls) < UInt32.size →
            g.eval ⟨(s.run calls).board, piece, attacker⟩ =
              .int (n + if data.monitors = [] ∨ ∃ m ∈ data.monitors, m.kind = Monitor.stepKind then
                movesOf piece (s.commits calls) else 0 : ℕ)) := by
  refine ⟨_, Guard.compile_moveCount, fun s reached calls piece attacker => ?_⟩
  refine ⟨(s.board.moveCount piece).toNat, rfl, fun room => ?_⟩
  have counted := (s.counted_run calls piece).toNat_count room
  have keeps : s.board.keepsCount = b.keepsCount := b.lasting_keepsCount.reached rfl reached
  rw [keeps] at counted
  simp only [Board.keepsCount_of_load loaded] at counted
  rw [← counted]
  rfl

namespace Session

/-- Over the raid the raider moves once, and the guard counts it. -/
theorem tally_of_raid :
    ∃ g, Guard.compile .vanilla "(vanilla.step (self))" = .ok g ∧
      movesOf ⟨"raider"⟩ (raidSession.commits raidCalls) = 1 ∧
      g.eval ⟨raidBoard, ⟨"raider"⟩, none⟩ = .int 0 ∧
      g.eval ⟨(raidSession.run raidCalls).board, ⟨"raider"⟩, none⟩ = .int 1 := by
  have loaded : Board.load {} {} raidBoard.toSnapshot = .ok (raidBoard, []) := by cbv
  have moves : movesOf ⟨"raider"⟩ (raidSession.commits raidCalls) = 1 := by cbv
  obtain ⟨g, compiled, tally⟩ := tally_of_load loaded
  obtain ⟨n, before, after⟩ := tally raidSession .start raidCalls ⟨"raider"⟩ none
  have value : g.eval ⟨raidBoard, ⟨"raider"⟩, none⟩ = .int 0 := by
    rw [← Except.ok.inj (Guard.compile_moveCount.symm.trans compiled)]
    cbv
  have zero : n = 0 := by simpa using before.symm.trans value
  rw [moves, zero] at after
  exact ⟨g, compiled, moves, value, after (by decide)⟩

/-- A runner who may step forward as long as it has not moved, on a board with a clock for its only
monitor. -/
def sprint : Snapshot.Board where
  kind := Board.basicKind
  name := "sprint"
  id := ⟨"board"⟩
  pieces :=
    [{ name := "", template := .nil, id := ⟨"runner"⟩, image := "",
       behaviours :=
        [{ name := "", trigger := .initiative, id := ⟨"run"⟩,
           actions :=
            [⟨Condition.kind, { id := ⟨"c"⟩ },
                [("code", .string "(eq (vanilla.step (self)) 0)")]⟩,
             ⟨Move.kind, { id := ⟨"m"⟩ },
                [("moveType", toJson MoveModes.move),
                 ("stepPosition", toJson [(⟨0, 1⟩ : Square)])]⟩] }] }]
  nations :=
    [{ head := { name := "White", id := ⟨"whites"⟩, color := 0, monarch := "white" },
       members := [.piece ⟨"runner"⟩] }]
  players := [{ id := ⟨"white"⟩, seat := ⟨1⟩ }, { id := ⟨"black"⟩, seat := ⟨3⟩ }]
  monitors := [⟨"mod.clock", [], []⟩]
  state := [(⟨"runner"⟩, ⟨0, 0⟩)]
  size := ⟨3, 3⟩
  losers := []

/-- The sprint as a game. -/
def sprintSession : Session where
  board := (Board.build {} sprint).1
  settings := {}

/-- White runs, and runs again in the next round. -/
def sprintCalls : List Call :=
  [.play ⟨⟨"runner"⟩, ⟨"run"⟩, [0, 0]⟩, .endTurn, .endTurn,
   .play ⟨⟨"runner"⟩, ⟨"run"⟩, [0, 0]⟩]

/-- The board loads without an issue, and the runner moves twice, though its guard asks that it has
not moved: the value of the guard is zero before the game and after it. -/
theorem miscounted_sprint :
    Board.load {} {} sprint = .ok (sprintSession.board, []) ∧
      movesOf ⟨"runner"⟩ (sprintSession.commits sprintCalls) = 2 ∧
      (sprintSession.run sprintCalls).board.placements = [(⟨"runner"⟩, ⟨0, 2⟩)] ∧
      ∃ g, Guard.compile .vanilla "(vanilla.step (self))" = .ok g ∧
        g.eval ⟨sprintSession.board, ⟨"runner"⟩, none⟩ = .int 0 ∧
        g.eval ⟨(sprintSession.run sprintCalls).board, ⟨"runner"⟩, none⟩ = .int 0 :=
  ⟨by cbv, by cbv, by cbv, _, Guard.compile_moveCount, by cbv, by cbv⟩

end Session

end BoardRules
