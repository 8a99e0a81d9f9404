import Mathlib
import BoardRules.Proofs.Session.Settling

/-!
# The course that settling takes

The lapses that settling passes over make a `Course`: each is due after the ones before it, and the
game goes on until then.  No local player has a part in what is due, so two courses from the same
session take the same way as far as both of them go (`Course.prefix_or_prefix`).  Whatever settling
comes to is the session after a course, and its report is the one that is given there, preceded by
the lapses of the course (`exists_course_of_settleWithin`).  Conversely, settling goes on from
wherever a course leads (`settle?_of_course`).
-/

namespace BoardRules

namespace Session

variable {s : Session} {player : PlayerId}

/-! ## Several lapses -/

/-- The session after several lapses. -/
def lapses (s : Session) (ls : List Lapse) : Session := ls.foldl lapse s

@[simp] theorem lapses_nil (s : Session) : s.lapses [] = s := rfl

@[simp] theorem lapses_cons (s : Session) (l : Lapse) (ls : List Lapse) :
    s.lapses (l :: ls) = (s.lapse l).lapses ls := rfl

theorem lapses_append (s : Session) (ls more : List Lapse) :
    s.lapses (ls ++ more) = (s.lapses ls).lapses more := List.foldl_append

/-- Every lapse takes one round. -/
theorem round_lapses (s : Session) (ls : List Lapse) :
    (s.lapses ls).round = s.round + UInt64.ofNat ls.length := by
  induction ls generalizing s with
  | nil => exact (UInt64.add_zero s.round).symm
  | cons l ls ih =>
    rw [lapses_cons, ih, round_lapse, List.length_cons, Nat.add_comm ls.length, UInt64.ofNat_add,
      UInt64.add_assoc]
    rfl

/-- After lapses a round begins. -/
theorem subRound_lapses {ls : List Lapse} (lapsed : ls ≠ []) : (s.lapses ls).subRound = 0 := by
  obtain ⟨before, l, rfl⟩ := (List.eq_nil_or_concat' ls).resolve_left lapsed
  rw [lapses_append]
  exact subRound_lapse _ l

/-- Rounds that lapse leave the settings alone. -/
theorem settings_lapses (s : Session) (ls : List Lapse) :
    (s.lapses ls).settings = s.settings := by
  induction ls generalizing s with
  | nil => rfl
  | cons l ls ih => rw [lapses_cons, ih, settings_lapse]

/-! ## Courses -/

/-- Lapses that are due one after the other, while the game goes on for a local player. -/
inductive Course (player : PlayerId) : Session → List Lapse → Prop
  /-- Nothing lapses. -/
  | nil (s : Session) : Course player s []
  /-- One lapse is due, and the others after it. -/
  | cons {s : Session} {l : Lapse} {ls : List Lapse} (running : s.Running player) (due : s.Due l)
      (rest : Course player (s.lapse l) ls) : Course player s (l :: ls)

/-- A course that goes on is a course to some point and one from there. -/
theorem course_append_iff {ls more : List Lapse} :
    Course player s (ls ++ more) ↔ Course player s ls ∧ Course player (s.lapses ls) more := by
  induction ls generalizing s with
  | nil => exact ⟨fun h => ⟨.nil s, h⟩, fun h => h.2⟩
  | cons l ls ih =>
    constructor
    · rintro (_ | ⟨running, due, rest⟩)
      obtain ⟨first, later⟩ := ih.1 rest
      exact ⟨.cons running due first, later⟩
    · rintro ⟨_ | ⟨running, due, first⟩, later⟩
      exact .cons running due (ih.2 ⟨first, later⟩)

/-- Along a course the board gains those who are eliminated as losers, in order, and does not
change otherwise. -/
theorem Course.board {ls : List Lapse} (course : Course player s ls) :
    (s.lapses ls).board = s.board.addLosers (ls.filterMap Lapse.eliminated?) := by
  induction course with
  | nil s => exact s.board.addLosers_nil.symm
  | @cons s l ls running due rest ih =>
    rw [lapses_cons, ih, due.board, Board.addLosers_addLosers]
    cases l <;> rfl

/-- Two courses from the same session take the same way as far as both of them go. -/
theorem Course.prefix_or_prefix {p q : PlayerId} {ls ms : List Lapse} (hp : Course p s ls)
    (hq : Course q s ms) : ls <+: ms ∨ ms <+: ls := by
  induction hp generalizing ms with
  | nil s => exact Or.inl (List.nil_prefix)
  | @cons s l ls running due rest ih =>
    cases hq with
    | nil => exact Or.inr (List.nil_prefix)
    | @cons _ m ms running' due' rest' =>
      obtain rfl : l = m := due.unique due'
      rcases ih rest' with shorter | longer
      · exact Or.inl ((List.prefix_cons_inj l).2 shorter)
      · exact Or.inr ((List.prefix_cons_inj l).2 longer)

/-! ## Settling along a course -/

/-- Settling follows a course to a session that a pass settles. -/
theorem exists_course_of_settleWithin {passes : ℕ} {report : Report} {last : Session}
    (settles : settleWithin player passes s = some (report, last)) :
    ∃ ls found, Course player s ls ∧ last = s.lapses ls ∧ last.pass player = .settled found ∧
      report = found.preceded ls := by
  induction passes generalizing s report with
  | zero => exact nomatch settles
  | succ passes ih =>
    rcases s.settled_or_due player with ⟨found, settled⟩ | ⟨running, l, due, goes⟩
    · rw [settleWithin_of_settled settled, Option.some.injEq, Prod.mk.injEq] at settles
      obtain ⟨rfl, rfl⟩ := settles
      exact ⟨[], found, .nil s, rfl, settled, rfl⟩
    · rw [goes, Option.map_eq_some_iff] at settles
      obtain ⟨⟨later, final⟩, hlater, heq⟩ := settles
      obtain ⟨rfl, rfl⟩ := Prod.mk.inj heq
      obtain ⟨ls, found, course, outcome, settled, rfl⟩ := ih hlater
      exact ⟨l :: ls, found, .cons running due course, outcome, settled,
        found.preceded_preceded [l] ls⟩

/-- Settling goes on from wherever a course leads. -/
theorem settleWithin_of_course {ls : List Lapse} (course : Course player s ls) {passes : ℕ}
    {report : Report} {last : Session}
    (settles : settleWithin player passes (s.lapses ls) = some (report, last)) :
    settleWithin player (passes + ls.length) s = some (report.preceded ls, last) := by
  induction course with
  | nil s => exact settles
  | @cons s l ls running due rest ih =>
    rw [List.length_cons, ← Nat.add_assoc, settleWithin_of_due running due, ih settles,
      Option.map_some, Prod.map_apply, Report.preceded_preceded, List.singleton_append, id]

/-! ## Settling in enough passes -/

/-- What some number of passes comes to is what settling comes to. -/
theorem settle?_of_settleWithin {passes : ℕ} {result : Report × Session}
    (settles : settleWithin player passes s = some result) : s.settle? player = some result := by
  cases enough : s.settle? player with
  | none =>
    have never := settle?_eq_none_iff.1 enough passes
    rw [never] at settles
    exact nomatch settles
  | some other =>
    have more := settleWithin_mono (Nat.le_max_left passes s.passBound) settles
    have most := settleWithin_mono (Nat.le_max_right passes s.passBound) enough
    rw [more] at most
    exact most.symm

/-- Where no player is seated twice and rounds reach every seat, settling comes to an end. -/
theorem exists_settle? (distinct : (s.board.players.map (·.id)).Nodup)
    (seats : s.board.players.length ≤ UInt64.size) (player : PlayerId) :
    ∃ report last, s.settle? player = some (report, last) := by
  rcases s.settles_or_endless player with settles | endless
  · obtain ⟨⟨report, last⟩, settles⟩ := Option.isSome_iff_exists.1 settles
    exact ⟨report, last, settles⟩
  · obtain ⟨last, players, out, running⟩ := endless.uncounted
    exact absurd running (out.not_running (players ▸ distinct) (players ▸ seats))

/-- Settling a session that a pass settles changes nothing. -/
theorem settle?_of_settled {report : Report} (settled : s.pass player = .settled report) :
    s.settle? player = some (report, s) :=
  settle?_of_settleWithin (settleWithin_of_settled settled 0)

/-- Settling from the end of a course comes to what settling from its start comes to. -/
theorem settle?_of_course {ls : List Lapse} (course : Course player s ls) {report : Report}
    {last : Session} (settles : (s.lapses ls).settle? player = some (report, last)) :
    s.settle? player = some (report.preceded ls, last) :=
  settle?_of_settleWithin (settleWithin_of_course course settles)

end Session

end BoardRules
