import Mathlib
import BoardRules.Proofs.Random.Generator
import BoardRules.Proofs.Session.Forward
import BoardRules.Proofs.Session.Offer

/-!
# Playouts and their replay

A playout goes around a loop: settle for the player whose turn it is, draw one of the selections on
offer, play it.  `Playout` tells of every time around, with the reason why the loop is left in the
end, and `exists_playout` says that this is what playing random choices comes to.  In a game that
has begun, where no player and no piece is there twice (`Session.Begun`), a selection is drawn
whenever somebody is to move, and what is drawn can be played, so a playout stops only because
enough has been played or because the game is over (`Playout.full_or_decided`).  Replaying settles
and plays the recorded selections in the same way (`replay`), and comes to the session where the
last choice was played (`Session.replay_playout`).
-/

namespace BoardRules

/-- The selections that may be chosen, in the order of the report. -/
def Report.choices (r : Report) : List Selection := r.analysis.candidates.map (·.head.selection)

namespace Session

/-- Settle for the player whose turn it is. -/
def settleOwn? (s : Session) : Option (Report × Session) :=
  s.active?.bind fun active => s.settle? active.id

/-- Replay selections.  Before each of them everything is settled for the player whose turn it
is. -/
def replay : List Selection → Session → Option Session
  | [], s => some s
  | selection :: rest, s =>
    match s.settleOwn? with
    | none => none
    | some (_, settled) =>
      match settled.play selection with
      | .error _ => none
      | .ok next => replay rest next

end Session

/-- One choice of a playout. -/
structure Ply where
  /-- The session before settling. -/
  before : Session
  /-- What the player is told whose turn it was before settling. -/
  report : Report
  /-- The session after settling, in which the choice is played. -/
  settled : Session
  selection : Selection

/-- Why a playout stops. -/
inductive Stop where
  /-- As many choices as allowed have been played. -/
  | full
  /-- The report tells of a win, or that nobody is to move. -/
  | decided
  /-- Nobody is seated, or settling does not come to an end. -/
  | unsettled
  /-- No selection is drawn. -/
  | undrawn
  /-- The selection that is drawn is refused. -/
  | refused
  deriving DecidableEq, Repr

open Session

/-- The choices of a playout, one time around the loop after the other, why it stops, and the
session and the generator that it leaves. -/
inductive Playout : ℕ → Session → Generator → List Ply → Stop → Session → Generator → Prop
  | full (s : Session) (g : Generator) : Playout 0 s g [] .full s g
  | unsettled {plies : ℕ} {s : Session} (g : Generator) (endless : s.settleOwn? = none) :
      Playout (plies + 1) s g [] .unsettled s g
  | decided {plies : ℕ} {s last : Session} (g : Generator) {report : Report}
      (settles : s.settleOwn? = some (report, last))
      (told : report.win = true ∨ report.active = none) :
      Playout (plies + 1) s g [] .decided last g
  | undrawn {plies : ℕ} {s last : Session} {g rest : Generator} {report : Report} {id : PlayerId}
      (settles : s.settleOwn? = some (report, last))
      (goes : report.win = false) (choice : report.active = some id)
      (draws : g.choose report.choices = (none, rest)) :
      Playout (plies + 1) s g [] .undrawn last rest
  | refused {plies : ℕ} {s last : Session} {g rest : Generator} {report : Report} {id : PlayerId}
      {selection : Selection} {fault : TurnFault}
      (settles : s.settleOwn? = some (report, last))
      (goes : report.win = false) (choice : report.active = some id)
      (draws : g.choose report.choices = (some selection, rest))
      (refusal : last.play selection = .error fault) :
      Playout (plies + 1) s g [] .refused last rest
  | ply {plies : ℕ} {s settled next last : Session} {g rest final : Generator} {report : Report}
      {id : PlayerId} {selection : Selection} {later : List Ply} {stop : Stop}
      (settles : s.settleOwn? = some (report, settled))
      (goes : report.win = false) (choice : report.active = some id)
      (draws : g.choose report.choices = (some selection, rest))
      (played : settled.play selection = .ok next)
      (further : Playout plies next rest later stop last final) :
      Playout (plies + 1) s g (⟨s, report, settled, selection⟩ :: later) stop last final

/-! ## Playing random choices -/

/-- A playout settles for the player whose turn it is before anything else. -/
theorem Session.playout_succ (plies : ℕ) (s : Session) (g : Generator) :
    playout (plies + 1) s g =
      match s.settleOwn? with
      | none => ([], s, g)
      | some (report, settled) =>
        if report.win || report.active.isNone then ([], settled, g)
        else
          match g.choose report.choices with
          | (none, rest) => ([], settled, rest)
          | (some selection, rest) =>
            match settled.play selection with
            | .error _ => ([], settled, rest)
            | .ok next =>
              (selection :: (playout plies next rest).1, (playout plies next rest).2) := by
  unfold settleOwn?
  rw [playout]
  cases s.active? <;> rfl

/-- A playout stops where the report tells of a win, or that nobody is to move. -/
theorem Session.playout_of_decided {s last : Session} {report : Report}
    (settles : s.settleOwn? = some (report, last))
    (told : report.win = true ∨ report.active = none) (plies : ℕ) (g : Generator) :
    playout (plies + 1) s g = ([], last, g) := by
  have ends : (report.win || report.active.isNone) = true := by
    rcases told with win | nobody
    · rw [win, Bool.true_or]
    · rw [nobody, Option.isNone_none, Bool.or_true]
  rw [playout_succ, settles]
  dsimp only
  rw [if_pos ends]

/-- A playout plays the only choice there is, whatever the generator. -/
theorem Session.exists_playout_of_only {s settled next : Session} {report : Report} {id : PlayerId}
    {selection : Selection} (settles : s.settleOwn? = some (report, settled))
    (goes : report.win = false) (choice : report.active = some id)
    (only : report.choices = [selection]) (played : settled.play selection = .ok next)
    (plies : ℕ) (g : Generator) :
    ∃ rest, playout (plies + 1) s g =
      (selection :: (playout plies next rest).1, (playout plies next rest).2) := by
  obtain ⟨drawn, listed, rest, draws⟩ := g.exists_choose_eq_some (List.cons_ne_nil selection [])
  obtain rfl := List.mem_singleton.1 listed
  refine ⟨rest, ?_⟩
  rw [playout_succ, settles]
  dsimp only
  rw [goes, choice, Option.isNone_some, Bool.or_false, if_neg Bool.false_ne_true, only, draws]
  dsimp only
  rw [played]

/-- Playing random choices comes to a playout, and gives its selections. -/
theorem exists_playout (plies : ℕ) (s : Session) (g : Generator) :
    ∃ choices stop, Playout plies s g choices stop (playout plies s g).2.1 (playout plies s g).2.2 ∧
      (playout plies s g).1 = choices.map (·.selection) := by
  induction plies generalizing s g with
  | zero => exact ⟨[], .full, .full s g, rfl⟩
  | succ plies ih =>
    rw [playout_succ]
    cases settles : s.settleOwn? with
    | none => exact ⟨[], .unsettled, .unsettled g settles, rfl⟩
    | some result =>
      obtain ⟨report, settled⟩ := result
      dsimp only
      cases win : report.win with
      | true => exact ⟨[], .decided, .decided g settles (.inl win), rfl⟩
      | false =>
        cases choice : report.active with
        | none => exact ⟨[], .decided, .decided g settles (.inr choice), rfl⟩
        | some id =>
          rw [Option.isNone_some, Bool.or_false, if_neg Bool.false_ne_true]
          cases draws : g.choose report.choices with
          | mk drawn rest =>
            cases drawn with
            | none => exact ⟨[], .undrawn, .undrawn settles win choice draws, rfl⟩
            | some selection =>
              dsimp only
              cases played : settled.play selection with
              | error fault =>
                exact ⟨[], .refused, .refused settles win choice draws played, rfl⟩
              | ok next =>
                obtain ⟨later, stop, further, selections⟩ := ih next rest
                exact ⟨_, stop, .ply settles win choice draws played further,
                  congrArg (selection :: ·) selections⟩

/-! ## Games that have begun -/

namespace Session

/-- Somebody is seated, rounds reach every seat, and no player and no piece is there twice. -/
structure Begun (s : Session) : Prop where
  seated : s.board.players ≠ []
  seats : s.board.players.length ≤ UInt64.size
  players : (s.board.players.map (·.id)).Nodup
  pieces : (s.board.pieces.map (·.id)).Nodup

variable {s t last : Session} {report : Report}

/-- A session that is reached from one that has begun properly has begun properly. -/
theorem Reaches.begun (h : Reaches s t) (begun : s.Begun) : t.Begun where
  seated := by
    rw [h.forward.board.table.players]
    exact begun.seated
  seats := by
    rw [h.forward.board.table.players]
    exact begun.seats
  players := by
    rw [h.forward.board.table.players]
    exact begun.players
  pieces := by
    rw [h.forward.board.table.pieces]
    exact begun.pieces

/-- Settling for the player whose turn it is leads to a session that a pass for this player
settles. -/
theorem settled_of_settleOwn? (settles : s.settleOwn? = some (report, last)) :
    ∃ active ls found, s.active? = some active ∧ Course active.id s ls ∧ last = s.lapses ls ∧
      last.pass active.id = .settled found ∧ report = found.preceded ls := by
  obtain ⟨active, turn, settles⟩ := Option.bind_eq_some_iff.1 settles
  obtain ⟨ls, found, course, outcome, settled, told⟩ := exists_course_of_settleWithin settles
  exact ⟨active, ls, found, turn, course, outcome, settled, told⟩

/-- A session settled for its own player is reached. -/
theorem reaches_settleOwn? (settles : s.settleOwn? = some (report, last)) : Reaches s last := by
  obtain ⟨active, ls, found, -, course, rfl, -, -⟩ := settled_of_settleOwn? settles
  exact course.reaches

namespace Begun

/-- In a game that has begun, settling comes to an end. -/
theorem exists_settleOwn? (begun : s.Begun) :
    ∃ report last, s.settleOwn? = some (report, last) := by
  obtain ⟨active, turn⟩ := Option.isSome_iff_exists.1 (isSome_active? begun.seated)
  obtain ⟨report, last, settles⟩ := exists_settle? begun.players begun.seats active.id
  refine ⟨report, last, ?_⟩
  unfold settleOwn?
  rw [turn, Option.bind_some, settles]

/-- When somebody is to move, there is something to choose from, and every choice can be played. -/
theorem choices (begun : s.Begun) (settles : s.settleOwn? = some (report, last)) {id : PlayerId}
    (choice : report.active = some id) :
    report.choices ≠ [] ∧ ∀ selection ∈ report.choices, ∃ next, last.play selection = .ok next := by
  have pieces := ((reaches_settleOwn? settles).begun begun).pieces
  obtain ⟨asker, ls, found, -, -, -, settled, rfl⟩ := settled_of_settleOwn? settles
  obtain ⟨active, turn, -, -, shown, nonempty⟩ := offering_of_settled settled choice
  have offer : (found.preceded ls).choices = last.offered.candidates.map (·.head.selection) := by
    rw [← shown]
    rfl
  rw [offer]
  constructor
  · intro none
    rw [List.map_eq_nil_iff, ← isEmpty_offered_iff turn, nonempty] at none
    exact Bool.false_ne_true none
  · intro selection listed
    exact (exists_play_eq_ok_iff turn pieces selection).2 (List.mem_map.1 listed)

end Begun

end Session

/-! ## The end of a playout -/

namespace Playout

variable {plies : ℕ} {s last : Session} {g rest : Generator} {choices : List Ply} {stop : Stop}

/-- In a game that has begun, a playout stops when enough has been played or when the game is
over. -/
theorem full_or_decided (h : Playout plies s g choices stop last rest) (begun : s.Begun) :
    stop = .full ∨ stop = .decided := by
  induction h with
  | full s g => exact .inl rfl
  | decided g settles told => exact .inr rfl
  | unsettled g endless =>
    obtain ⟨report, last, settles⟩ := begun.exists_settleOwn?
    rw [endless] at settles
    exact nomatch settles
  | @undrawn plies s last g rest report id settles goes choice draws =>
    obtain ⟨nonempty, -⟩ := begun.choices settles choice
    obtain ⟨selection, -, later, drawn⟩ := g.exists_choose_eq_some nonempty
    rw [draws] at drawn
    exact nomatch drawn
  | @refused plies s last g rest report id selection fault settles goes choice draws refusal =>
    obtain ⟨nonempty, playable⟩ := begun.choices settles choice
    obtain ⟨other, listed, later, drawn⟩ := g.exists_choose_eq_some nonempty
    rw [draws] at drawn
    obtain rfl : selection = other := Option.some.inj (Prod.mk.inj drawn).1
    obtain ⟨next, played⟩ := playable selection listed
    rw [refusal] at played
    exact nomatch played
  | ply settles goes choice draws played further ih =>
    have before := reaches_settleOwn? settles
    exact ih (Reaches.begun (before.tail (.play played)) begun)

/-- A playout stops with as many choices as are allowed exactly if that is why it stops. -/
theorem length_eq_iff (h : Playout plies s g choices stop last rest) :
    choices.length = plies ↔ stop = .full := by
  induction h with
  | full s g => simp
  | unsettled g endless => simp
  | decided g settles told => simp
  | undrawn settles goes choice draws => simp
  | refused settles goes choice draws refusal => simp
  | ply settles goes choice draws played further ih =>
    rw [List.length_cons, Nat.add_right_cancel_iff]
    exact ih

/-- Replaying the selections of a playout comes to where its last choice has been played.  That is
where the playout stops if it is full, and from where it settles once more if the game is over. -/
theorem exists_replay (h : Playout plies s g choices stop last rest) :
    ∃ replayed, replay (choices.map (·.selection)) s = some replayed ∧
      (stop = .full → last = replayed) ∧
      (stop = .decided → ∃ report, replayed.settleOwn? = some (report, last) ∧
        (report.win = true ∨ report.active = none)) := by
  induction h with
  | full s g => exact ⟨s, rfl, fun _ => rfl, nofun⟩
  | @unsettled plies s g endless => exact ⟨s, rfl, nofun, nofun⟩
  | @decided plies s last g report settles told =>
    exact ⟨s, rfl, nofun, fun _ => ⟨report, settles, told⟩⟩
  | @undrawn plies s => exact ⟨s, rfl, nofun, nofun⟩
  | @refused plies s => exact ⟨s, rfl, nofun, nofun⟩
  | ply settles goes choice draws played further ih =>
    obtain ⟨replayed, outcome, ends⟩ := ih
    refine ⟨replayed, ?_, ends⟩
    rw [List.map_cons, replay, settles]
    dsimp only
    rw [played]
    exact outcome

end Playout

/-- A playout can be replayed.  It stops because enough has been played or because the game is over,
and for no other reason.  Replaying its selections from the same session never fails, and comes to
the session that the playout leaves: at once if as many choices as allowed were played, and
otherwise after settling once more, which tells that the game is over. -/
theorem Session.replay_playout {s : Session} (seated : s.board.players ≠ [])
    (seats : s.board.players.length ≤ UInt64.size)
    (players : (s.board.players.map (·.id)).Nodup) (pieces : (s.board.pieces.map (·.id)).Nodup)
    (plies : ℕ) (g : Generator) :
    ∃ choices stop,
      Playout plies s g choices stop (playout plies s g).2.1 (playout plies s g).2.2 ∧
      choices.map (·.selection) = (playout plies s g).1 ∧
      (stop = .full ∨ stop = .decided) ∧
      ∃ replayed, replay (playout plies s g).1 s = some replayed ∧
        if (playout plies s g).1.length = plies then (playout plies s g).2.1 = replayed
        else ∃ report, replayed.settleOwn? = some (report, (playout plies s g).2.1) ∧
          (report.win = true ∨ report.active = none) := by
  obtain ⟨choices, stop, h, selections⟩ := exists_playout plies s g
  have ends := h.full_or_decided ⟨seated, seats, players, pieces⟩
  obtain ⟨replayed, outcome, full, decided⟩ := h.exists_replay
  refine ⟨choices, stop, h, selections.symm, ends, replayed, by rw [selections]; exact outcome, ?_⟩
  have count : (playout plies s g).1.length = plies ↔ stop = .full := by
    rw [selections, List.length_map]
    exact h.length_eq_iff
  split
  · rename_i enough
    exact full (count.1 enough)
  · rename_i short
    exact decided (ends.resolve_left (mt count.2 short))

/-- A step forward. -/
def forwardBehaviour (name : String) (trigger : Trigger) : Behaviour where
  id := ⟨name⟩
  name := name
  trigger := trigger
  steps := [.action (.move { vectors := [⟨0, 1⟩] })]

/-- A piece that may step forward, as a move and as a further step. -/
def runner (name : String) : Piece where
  id := ⟨name⟩
  behaviours := [forwardBehaviour "step" .initiative, forwardBehaviour "dash" .immediately]

/-- Black has a runner, and white has nothing. -/
def loneRunner : Session where
  board :=
    { Board.empty "lone" ⟨3, 3⟩ with
      pieces := [runner "runner"]
      nations :=
        { nodes :=
            [{ id := ⟨"blacks"⟩, monarch := some ⟨"black"⟩, children := [.piece ⟨"runner"⟩] }]
          roots := [0] }
      players := [{ id := ⟨"white"⟩, seat := ⟨1⟩ }, { id := ⟨"black"⟩, seat := ⟨3⟩ }]
      placements := [(⟨"runner"⟩, ⟨0, 2⟩)] }
  settings := {}

/-- The runner's step. -/
def loneStep : Selection := ⟨⟨"runner"⟩, ⟨"step"⟩, [0]⟩

/-- Settling for white eliminates white and leaves the step to black. -/
theorem settleOwn?_loneRunner :
    ∃ report settled, loneRunner.settleOwn? = some (report, settled) ∧ report.win = false ∧
      report.active = some ⟨"black"⟩ ∧ report.choices = [loneStep] ∧
      settled.board.losers = [⟨"white"⟩] := by
  have told : loneRunner.settleOwn?.map (fun result =>
      (result.1.win, result.1.active, result.1.choices, result.2.board.losers)) =
      some (false, some ⟨"black"⟩, [loneStep], [⟨"white"⟩]) := by cbv
  obtain ⟨⟨report, settled⟩, settles, parts⟩ := Option.map_eq_some_iff.1 told
  simp only [Prod.mk.injEq] at parts
  obtain ⟨goes, choice, only, lost⟩ := parts
  exact ⟨report, settled, settles, goes, choice, only, lost⟩

/-- The runner steps once, and then the game is over. -/
theorem playout_loneRunner (plies : ℕ) (g : Generator) :
    (playout (plies + 2) loneRunner g).1 = [loneStep] := by
  have begun : loneRunner.Begun := ⟨List.cons_ne_nil _ _, by decide, by decide, by decide⟩
  obtain ⟨report, settled, settles, goes, choice, only, -⟩ := settleOwn?_loneRunner
  obtain ⟨-, playable⟩ := begun.choices settles choice
  obtain ⟨next, played⟩ := playable loneStep (by rw [only]; exact List.mem_singleton_self _)
  obtain ⟨rest, first⟩ := exists_playout_of_only settles goes choice only played (plies + 1) g
  have replayed : replay [loneStep] loneRunner = some next := by
    rw [replay, settles]
    dsimp only
    rw [played]
    rfl
  have won : ((replay [loneStep] loneRunner).bind settleOwn?).map (·.1.win) = some true := by cbv
  rw [replayed, Option.bind_some] at won
  obtain ⟨⟨later, last⟩, ends, win⟩ := Option.map_eq_some_iff.1 won
  rw [first, playout_of_decided ends (.inl win)]

/-- White is eliminated, the runner steps, and then black has won.  So the playout stops before five
choices are played, and the replay takes one more settling to get there. -/
theorem Session.replay_playout_loneRunner :
    loneRunner.board.players ≠ [] ∧ loneRunner.board.players.length ≤ UInt64.size ∧
      (loneRunner.board.players.map (·.id)).Nodup ∧ (loneRunner.board.pieces.map (·.id)).Nodup ∧
      ∃ choices,
        Playout 5 loneRunner (.ofSeed 9) choices .decided (playout 5 loneRunner (.ofSeed 9)).2.1
          (playout 5 loneRunner (.ofSeed 9)).2.2 ∧
        choices.map (·.selection) = [loneStep] ∧
        ∃ replayed report, replay [loneStep] loneRunner = some replayed ∧
          replayed.settleOwn? = some (report, (playout 5 loneRunner (.ofSeed 9)).2.1) ∧
          (report.win = true ∨ report.active = none) := by
  have seated : loneRunner.board.players ≠ [] := List.cons_ne_nil _ _
  have seats : loneRunner.board.players.length ≤ UInt64.size := by decide
  have players : (loneRunner.board.players.map (·.id)).Nodup := by decide
  have pieces : (loneRunner.board.pieces.map (·.id)).Nodup := by decide
  have step : (playout 5 loneRunner (.ofSeed 9)).1 = [loneStep] := playout_loneRunner 3 _
  obtain ⟨choices, stop, h, selections, ends, replayed, outcome, last⟩ :=
    replay_playout seated seats players pieces 5 (.ofSeed 9)
  rw [step] at selections outcome last
  obtain ⟨report, settles, told⟩ := last
  have short : choices.length ≠ 5 := by
    rw [← List.length_map, selections]
    decide
  obtain rfl := ends.resolve_left (mt h.length_eq_iff.2 short)
  exact ⟨seated, seats, players, pieces, choices, h, selections, replayed, report, outcome, settles,
    told⟩

end BoardRules
