import Mathlib
import BoardRules.Proofs.Session.Offer

/-!
# What settling changes and tells

A report is an account of the lapses that settling passed over (`Session.Accounted`).  Whoever is
skipped has lost by then, and whoever is eliminated has not, but has no move.  Every lapse takes one
round, and only the first one can be the end of a turn that has begun (`Course.length_eq`), so the
lists of the report count the rounds.  Settling stops where a pass settles the session, and there it
has nothing left to do: asked again, it changes nothing and repeats the report without the lapses
(`Session.settle?_accounted`).
-/

namespace BoardRules

namespace Lapse

/-- The number of lapses that a report lists. -/
def listed (ls : List Lapse) : ℕ :=
  (ls.filterMap skipped?).length + (ls.filterMap eliminated?).length

/-- A report lists every lapse but the end of a turn. -/
theorem listed_cons (l : Lapse) (ls : List Lapse) :
    listed (l :: ls) + (decide (l = .ended)).toNat = listed ls + 1 := by
  unfold listed
  cases l with
  | skipped loser =>
    have here : skipped? (.skipped loser) = some loser := rfl
    have begun : decide (Lapse.skipped loser = .ended) = false := rfl
    rw [List.filterMap_cons_some here, List.filterMap_cons_none rfl, List.length_cons, begun]
    exact Nat.add_right_comm _ 1 _
  | eliminated loser =>
    have here : eliminated? (.eliminated loser) = some loser := rfl
    have begun : decide (Lapse.eliminated loser = .ended) = false := rfl
    rw [List.filterMap_cons_none rfl, List.filterMap_cons_some here, List.length_cons, begun]
    exact (Nat.add_assoc _ _ 1).symm
  | ended =>
    rw [List.filterMap_cons_none rfl, List.filterMap_cons_none rfl]
    rfl

end Lapse

namespace Session

/-- Whether settling stops with this pass. -/
def Pass.isSettled : Pass → Bool
  | .settled _ => true
  | _ => false

/-- Whether the first pass of settling ends a turn: it does not settle the session, something has
been played in the round, and the active player has not lost. -/
def endsTurn (s : Session) (player : PlayerId) : Bool :=
  !(s.pass player).isSettled && decide (0 < s.subRound) &&
    s.active?.any (!s.board.hasLost ·.id)

/-- That a report and a session are what settling makes of the lapses it passes over. -/
structure Accounted (s : Session) (player : PlayerId) (ls : List Lapse) (report : Report)
    (last : Session) : Prop where
  /-- The session has gone through the lapses and nothing else. -/
  outcome : last = s.lapses ls
  /-- The report lists those who were skipped. -/
  skipped : report.skipped = ls.filterMap Lapse.skipped?
  /-- The report lists those who were eliminated. -/
  eliminated : report.eliminated = ls.filterMap Lapse.eliminated?
  /-- The board is as before, with those who were eliminated as further losers. -/
  board : last.board = s.board.addLosers report.eliminated
  /-- Whoever was skipped was the active player, and had lost by then. -/
  lost : ∀ before loser behind, ls = before ++ .skipped loser :: behind →
    (s.lapses before).active?.map (·.id) = some loser ∧
      (s.lapses before).board.hasLost loser = true
  /-- Whoever was eliminated was the active player, had not lost, and had no move on the board as it
  was then. -/
  stuck : ∀ before loser behind, ls = before ++ .eliminated loser :: behind →
    (s.lapses before).active?.map (·.id) = some loser ∧
      (s.lapses before).board.hasLost loser = false ∧
      ((s.lapses before).board.analysisFor s.settings .initiative loser).candidates = []
  /-- One round went by for everybody on the lists, and one more if a turn was ended.  Counting
  wraps around at the end of a word. -/
  round : last.round.toNat =
    (s.round.toNat + report.skipped.length + report.eliminated.length + (s.endsTurn player).toNat) %
      UInt64.size
  /-- The turn that was ended had no further step. -/
  ended : s.endsTurn player = true → s.offered.candidates = []
  /-- Whoever is to move is the active player, who has not lost and has a choice. -/
  choice : ∀ id, report.active = some id →
    last.active?.map (·.id) = some id ∧ last.board.hasLost id = false ∧
      report.analysis = last.offered ∧ last.offered.candidates ≠ []

variable {s : Session} {player : PlayerId} {ls : List Lapse}

/-! ## The moments of a course -/

/-- A lapse of a course is due after the ones before it. -/
theorem Course.due_of_append {before behind : List Lapse} {l : Lapse}
    (course : Course player s (before ++ l :: behind)) : (s.lapses before).Due l := by
  obtain ⟨-, rest⟩ := course_append_iff.1 course
  cases rest with
  | cons running due rest => exact due

/-- A player who is due to be skipped is the active player, and has lost. -/
theorem turn_of_due_skipped {loser : PlayerId} (due : s.Due (.skipped loser)) :
    s.active?.map (·.id) = some loser ∧ s.board.hasLost loser = true := by
  cases due with
  | skipped turn lost => exact ⟨congrArg (Option.map (·.id)) turn, lost⟩

/-- A player who is due to be eliminated is the active player, has not lost, and has no move. -/
theorem turn_of_due_eliminated {loser : PlayerId} (due : s.Due (.eliminated loser)) :
    s.active?.map (·.id) = some loser ∧ s.board.hasLost loser = false ∧
      (s.board.analysisFor s.settings .initiative loser).candidates = [] := by
  cases due with
  | eliminated turn alive stuck fresh =>
    rw [isEmpty_offered_iff turn, offered_of_fresh turn fresh] at stuck
    exact ⟨congrArg (Option.map (·.id)) turn, alive, stuck⟩

/-! ## Counting rounds -/

/-- From a round that begins, every lapse is listed. -/
theorem Course.length_eq_of_fresh (course : Course player s ls) (fresh : s.subRound = 0) :
    ls.length = Lapse.listed ls := by
  induction course with
  | nil s => rfl
  | @cons s l ls running due rest ih =>
    have begun : l ≠ .ended := by
      rintro rfl
      cases due with
      | ended turn alive stuck moved => exact moved fresh
    have count := Lapse.listed_cons l ls
    rw [decide_eq_false begun, Bool.toNat_false, Nat.add_zero] at count
    rw [List.length_cons, ih (s.subRound_lapse l), count]

/-- A pass that settles the session ends no turn. -/
theorem endsTurn_of_settled {report : Report} (settled : s.pass player = .settled report) :
    s.endsTurn player = false := by
  rw [endsTurn, settled]
  rfl

/-- Settling ends a turn exactly if that is the lapse that is due first. -/
theorem endsTurn_of_due {l : Lapse} (running : s.Running player) (due : s.Due l) :
    s.endsTurn player = decide (l = .ended) := by
  have goes : (s.pass player).isSettled = false := by
    cases found : s.pass player with
    | settled report => exact absurd found (pass_ne_settled running due report)
    | skip _ _ => rfl
    | eliminate _ _ => rfl
    | finish _ => rfl
  unfold endsTurn
  cases due with
  | skipped turn lost => simp [turn, lost]
  | eliminated turn alive stuck fresh => simp [fresh]
  | ended turn alive stuck moved => simp [goes, turn, alive, UInt64.pos_iff_ne_zero.2 moved]

/-- The lapses on the way are those that are listed, and the end of a turn. -/
theorem Course.length_eq (course : Course player s ls) {found : Report}
    (settled : (s.lapses ls).pass player = .settled found) :
    ls.length = Lapse.listed ls + (s.endsTurn player).toNat := by
  cases course with
  | nil =>
    have none : s.endsTurn player = false := endsTurn_of_settled settled
    rw [none]
    rfl
  | @cons _ l ls running due rest =>
    -- Behind the first lapse all rounds begin afresh.
    have later := rest.length_eq_of_fresh (s.subRound_lapse l)
    rw [List.length_cons, later, endsTurn_of_due running due, Lapse.listed_cons]

/-! ## The account -/

/-- The report of a pass that settles the session lists nobody. -/
theorem lists_of_settled {found : Report} (settled : s.pass player = .settled found) :
    found.skipped = [] ∧ found.eliminated = [] := by
  have spec := s.passing_pass player
  rw [settled] at spec
  cases spec with
  | won last alive => exact ⟨rfl, rfl⟩
  | ended nobody => exact ⟨rfl, rfl⟩
  | offer running turn alive offer => exact ⟨rfl, rfl⟩

/-- A course to a session that a pass settles accounts for the report. -/
theorem Course.accounted (course : Course player s ls) {found : Report}
    (settled : (s.lapses ls).pass player = .settled found) :
    s.Accounted player ls (found.preceded ls) (s.lapses ls) := by
  obtain ⟨noSkips, noEliminations⟩ := lists_of_settled settled
  have skipped : (found.preceded ls).skipped = ls.filterMap Lapse.skipped? := by
    simp [Report.preceded, noSkips]
  have eliminated : (found.preceded ls).eliminated = ls.filterMap Lapse.eliminated? := by
    simp [Report.preceded, noEliminations]
  exact
    { outcome := rfl
      skipped := skipped
      eliminated := eliminated
      board := by rw [eliminated, course.board]
      lost := by
        rintro before loser behind rfl
        exact turn_of_due_skipped course.due_of_append
      stuck := by
        rintro before loser behind rfl
        have moment := turn_of_due_eliminated course.due_of_append
        rwa [settings_lapses] at moment
      round := by
        have word : UInt64.size = 2 ^ 64 := rfl
        rw [round_lapses, UInt64.toNat_add, UInt64.toNat_ofNat', course.length_eq settled, skipped,
          eliminated, Lapse.listed, word]
        omega
      ended := by
        intro ends
        cases course with
        | nil =>
          have none : s.endsTurn player = false := endsTurn_of_settled settled
          rw [none] at ends
          exact absurd ends Bool.false_ne_true
        | cons running due rest =>
          rw [endsTurn_of_due running due, decide_eq_true_eq] at ends
          subst ends
          cases due with
          | ended turn alive stuck moved => exact (isEmpty_offered_iff turn).1 stuck
      choice := by
        intro id choice
        obtain ⟨active, turn, rfl, alive, shown, some⟩ := offering_of_settled settled choice
        refine ⟨by rw [turn]; rfl, alive, shown, fun none => ?_⟩
        rw [← isEmpty_offered_iff turn, some] at none
        exact Bool.false_ne_true none }

/-- Settling comes to an end.  It changes the session only by the lapses of which its report is an
account, and settling again for the same player changes nothing and tells the same, but for the
lapses. -/
theorem settle?_accounted (distinct : (s.board.players.map (·.id)).Nodup)
    (seats : s.board.players.length ≤ UInt64.size) (player : PlayerId) :
    ∃ report last, s.settle? player = some (report, last) ∧
      (∃ ls, s.Accounted player ls report last) ∧
      last.settle? player = some ({ report with skipped := [], eliminated := [] }, last) := by
  obtain ⟨report, last, settles⟩ := exists_settle? distinct seats player
  obtain ⟨ls, found, course, rfl, settled, rfl⟩ := exists_course_of_settleWithin settles
  refine ⟨_, _, settles, ⟨ls, course.accounted settled⟩, ?_⟩
  obtain ⟨noSkips, noEliminations⟩ := lists_of_settled settled
  have plain : { found.preceded ls with skipped := [], eliminated := [] } = found := by
    cases found
    obtain rfl := noSkips
    obtain rfl := noEliminations
    rfl
  rw [plain]
  exact settle?_of_settled settled

/-- The raid with two more players, who have no piece.  Blue has lost already, and black is due a
further step in the last round but two. -/
def raidOfFour : Session where
  board :=
    { raidBoard with
      players := raidBoard.players ++
        [{ id := ⟨"red"⟩, seat := ⟨2⟩ }, { id := ⟨"blue"⟩, seat := ⟨4⟩ }]
      losers := [⟨"blue"⟩] }
  settings := {}
  round := 18446744073709551613
  subRound := 1

/-- Settling ends black's turn, eliminates red, skips blue in the last round that can be counted,
and stops at white's move in the first one. -/
theorem settle?_accounted_raidOfFour :
    (raidOfFour.board.players.map (·.id)).Nodup ∧
      raidOfFour.board.players.length ≤ UInt64.size ∧
      ∃ report last, raidOfFour.settle? ⟨"black"⟩ = some (report, last) ∧
        (report.eliminated, report.skipped, report.active, last.round) =
          ([⟨"red"⟩], [⟨"blue"⟩], some ⟨"white"⟩, 0) ∧
        (∃ ls, raidOfFour.Accounted ⟨"black"⟩ ls report last) ∧
        last.settle? ⟨"black"⟩ = some ({ report with skipped := [], eliminated := [] }, last) := by
  have distinct : (raidOfFour.board.players.map (·.id)).Nodup := by decide
  have seats : raidOfFour.board.players.length ≤ UInt64.size := by decide
  have told : (raidOfFour.settle? ⟨"black"⟩).map
      (fun result =>
        (result.1.eliminated, result.1.skipped, result.1.active, result.2.round)) =
          some ([⟨"red"⟩], [⟨"blue"⟩], some ⟨"white"⟩, 0) := by cbv
  obtain ⟨report, last, settles, account, again⟩ := settle?_accounted distinct seats ⟨"black"⟩
  rw [settles] at told
  exact ⟨distinct, seats, report, last, settles, Option.some.inj told, account, again⟩

end Session

end BoardRules
