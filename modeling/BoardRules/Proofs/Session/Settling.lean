import Mathlib
import BoardRules.Proofs.Search.Enumeration
import BoardRules.Proofs.Session.Lapse

/-!
# Settling comes to an end

Every pass that goes on begins a round, and whoever is active in a round that began afresh has lost
when the pass is over.  Rounds follow the table around, but for the one place where counting them
begins anew, so every seat comes up within two turns around the table (`exists_round_of_seat`), and
then everybody has lost (`Cleared.allOut`).  Where no player is seated twice there are then as many
losers as players, and the next pass settles (`settle?_eq_some`).  Where somebody is, the losers may
never be as many: every further pass skips one of them (`pass_eq_skip`), and settling would go on
for ever.  Nothing else keeps it from ending, and so as many passes as `passBound` always tell
(`settle?_eq_none_iff`).
-/

namespace BoardRules

namespace Session

variable {s next : Session} {player : PlayerId}

/-- Whoever is active in some round has lost. -/
def AllOut (s : Session) : Prop :=
  ∀ round : UInt64, ∀ p, s.board.players[round.toNat % s.board.players.length]? = some p →
    s.board.hasLost p.id = true

/-- As many rounds as are told have gone by since the first one, all of them began afresh, and
whoever was active in them is out. -/
structure Cleared (first : UInt64) (gone : ℕ) (s : Session) : Prop where
  /-- The round has begun afresh. -/
  fresh : s.subRound = 0
  /-- So many rounds after the first one. -/
  round : s.round = first + UInt64.ofNat gone
  /-- Whoever was active since the first round has lost. -/
  out : ∀ before < gone, ∀ p,
    s.board.players[(first + UInt64.ofNat before).toNat % s.board.players.length]? = some p →
      s.board.hasLost p.id = true

/-! ## Around the table -/

/-- The seat that is active in some round comes up within two turns around the table, whatever the
round to begin with.  Where counting the rounds wraps around, the first of the two turns is cut off,
and the second one begins with the first seat. -/
theorem exists_round_of_seat (first round : UInt64) {seats : ℕ} (some : 0 < seats) :
    ∃ gone < 2 * seats, (first + UInt64.ofNat gone).toNat % seats = round.toNat % seats := by
  have word : UInt64.size = 2 ^ 64 := rfl
  have small : first.toNat < UInt64.size := first.toNat_lt_size
  have seat : round.toNat % seats < seats := Nat.mod_lt _ some
  by_cases room : first.toNat + seats ≤ UInt64.size
  · -- As many rounds in a row as there are seats take in every seat.
    have visited := Nat.image_Ico_mod first.toNat seats
    rw [Finset.ext_iff] at visited
    obtain ⟨here, since, same⟩ := Finset.mem_image.1 ((visited _).2 (Finset.mem_range.2 seat))
    rw [Finset.mem_Ico] at since
    refine ⟨here - first.toNat, by omega, ?_⟩
    have counted : (first + UInt64.ofNat (here - first.toNat)).toNat = here := by
      rw [UInt64.toNat_add, UInt64.toNat_ofNat']
      omega
    rw [counted, same]
  · -- The rounds begin at zero again before the table has been gone around.
    refine ⟨UInt64.size - first.toNat + round.toNat % seats, by omega, ?_⟩
    have within : round.toNat % seats ≤ round.toNat := Nat.mod_le _ _
    have counts : round.toNat < UInt64.size := round.toNat_lt_size
    have counted : (first + UInt64.ofNat (UInt64.size - first.toNat + round.toNat % seats)).toNat =
        round.toNat % seats := by
      rw [UInt64.toNat_add, UInt64.toNat_ofNat']
      omega
    rw [counted, Nat.mod_mod]

/-- The round after a pass is the first of those that began afresh. -/
theorem cleared_of_onward (onward : Onward s next) : Cleared next.round 0 next where
  fresh := onward.subRound
  round := (UInt64.add_zero next.round).symm
  out _ before := absurd before (Nat.not_lt_zero _)

/-- A pass clears one more round. -/
theorem Cleared.onward {first : UInt64} {gone : ℕ} (cleared : Cleared first gone s)
    (onward : Onward s next) : Cleared first (gone + 1) next where
  fresh := onward.subRound
  round := by
    rw [onward.round, cleared.round, UInt64.ofNat_add, UInt64.add_assoc]
    rfl
  out before earlier p seat := by
    rw [onward.players] at seat
    rcases Nat.lt_succ_iff_lt_or_eq.1 earlier with already | rfl
    · exact onward.hasLost (cleared.out before already p seat)
    · rw [← cleared.round] at seat
      exact onward.out cleared.fresh p seat

/-- After two turns around the table everybody whose turn may come has lost. -/
theorem Cleared.allOut {first : UInt64} {gone : ℕ} (cleared : Cleared first gone s)
    (around : 2 * s.board.players.length ≤ gone) : s.AllOut := by
  intro round p seat
  have some : 0 < s.board.players.length := List.length_pos_of_mem (List.mem_of_getElem? seat)
  obtain ⟨before, soon, here⟩ := exists_round_of_seat first round some
  refine cleared.out before (Nat.lt_of_lt_of_le soon around) p ?_
  rw [here]
  exact seat

/-- If no player is seated twice, the rounds reach every seat and whoever is active in some round
has lost, the game is over. -/
theorem AllOut.not_running (out : s.AllOut) (distinct : (s.board.players.map (·.id)).Nodup)
    (seats : s.board.players.length ≤ UInt64.size) : ¬ s.Running player := by
  intro running
  have losers : s.board.players.map (·.id) ⊆ s.board.losers := by
    intro id hid
    obtain ⟨p, hp, rfl⟩ := List.mem_map.1 hid
    obtain ⟨seat, hseat, rfl⟩ := List.getElem_of_mem hp
    have word : (UInt64.ofNat seat).toNat = seat :=
      UInt64.toNat_ofNat_of_lt' (Nat.lt_of_lt_of_le hseat seats)
    have turn : s.board.players[(UInt64.ofNat seat).toNat % s.board.players.length]? =
        some s.board.players[seat] := by
      rw [word, Nat.mod_eq_of_lt hseat]
      exact List.getElem?_eq_getElem hseat
    exact List.contains_iff_mem.1 (out _ _ turn)
  have counted := (distinct.subperm losers).length_le
  rw [List.length_map] at counted
  exact Nat.not_lt_of_le counted running.survivors

/-! ## Settling that does not end -/

/-- Where everybody has lost and the game goes on, a pass skips a loser. -/
theorem pass_eq_skip (out : s.AllOut) (running : s.Running player) :
    ∃ active : Player, s.pass player = .skip active.id s.endTurn := by
  have lost : ∀ {active : Player}, s.active? = some active → s.board.hasLost active.id = true :=
    fun turn => out s.round _ turn
  have spec := s.passing_pass player
  generalize s.pass player = pass at spec
  cases spec with
  | won last alive => exact absurd ⟨last, alive⟩ running.rivals
  | ended nobody => exact absurd running.survivors (Nat.not_lt_of_le nobody)
  | @skip active => exact ⟨active, rfl⟩
  | offer _ turn alive => exact absurd (lost turn) (by simp [alive])
  | eliminate _ turn alive => exact absurd (lost turn) (by simp [alive])
  | finish _ turn alive => exact absurd (lost turn) (by simp [alive])

/-- Where everybody has lost and the game goes on, settling never ends. -/
theorem settleWithin_eq_none (out : s.AllOut) (running : s.Running player) (passes : ℕ) :
    settleWithin player passes s = none := by
  induction passes generalizing s with
  | zero => rfl
  | succ passes ih =>
    obtain ⟨active, skips⟩ := pass_eq_skip out running
    have later := ih (s := s.endTurn) out ⟨running.rivals, running.survivors⟩
    rw [settleWithin, skips]
    dsimp only
    rw [later]
    rfl

/-- Settling goes on for ever: sooner or later everybody has lost, but the game is not over. -/
structure Endless (s : Session) (player : PlayerId) : Prop where
  /-- No number of passes is enough. -/
  never : ∀ passes, settleWithin player passes s = none
  /-- Players who are all out are not counted as such. -/
  uncounted : ∃ last : Session, last.board.players = s.board.players ∧ last.AllOut ∧
    last.Running player

/-- One pass does not make settling end. -/
theorem Endless.of_onward (onward : Onward s next) {adds : Report → Report}
    (goes : ∀ passes, settleWithin player (passes + 1) s =
      (settleWithin player passes next).map (Prod.map adds id))
    (endless : next.Endless player) : s.Endless player where
  never passes := by
    cases passes with
    | zero => rfl
    | succ passes =>
      rw [goes, endless.never]
      rfl
  uncounted := by
    obtain ⟨last, players, out, running⟩ := endless.uncounted
    exact ⟨last, players.trans onward.players, out, running⟩

/-- Settling ends once the turn has gone around the table twice, or goes on for ever. -/
theorem Cleared.settles_or_endless {first : UInt64} {gone left : ℕ}
    (cleared : Cleared first gone s) (around : gone + left = 2 * s.board.players.length) :
    (settleWithin player (left + 1) s).isSome = true ∨ s.Endless player := by
  induction left generalizing s gone with
  | zero =>
    rcases settled_or_onward s player with ⟨report, ends⟩ | ⟨running, -⟩
    · left
      rw [ends]
      rfl
    · right
      have out : s.AllOut := cleared.allOut (Nat.le_of_eq around.symm)
      exact ⟨settleWithin_eq_none out running, s, rfl, out, running⟩
  | succ left ih =>
    rcases settled_or_onward s player with ⟨report, ends⟩ | ⟨-, next, onward, adds, goes⟩
    · left
      rw [ends]
      rfl
    · have later : gone + 1 + left = 2 * next.board.players.length := by
        rw [onward.players, ← around]
        omega
      rcases ih (cleared.onward onward) later with settles | endless
      · left
        rw [goes, Option.isSome_map]
        exact settles
      · exact Or.inr (.of_onward onward goes endless)

/-! ## Enough passes -/

/-- As many passes as `passBound` settle, or settling goes on for ever. -/
theorem settles_or_endless (s : Session) (player : PlayerId) :
    (s.settle? player).isSome = true ∨ s.Endless player := by
  rcases settled_or_onward s player with ⟨report, ends⟩ | ⟨running, next, onward, adds, goes⟩
  · left
    unfold settle? passBound
    rw [Nat.succ_mul_succ, ends]
    rfl
  · have cleared := cleared_of_onward onward
    have ends : (settleWithin player (2 * next.board.players.length + 1) next).isSome = true ∨
        next.Endless player := cleared.settles_or_endless (Nat.zero_add _)
    rcases ends with settles | endless
    · left
      obtain ⟨result, hresult⟩ := Option.isSome_iff_exists.1 settles
      have soon : settleWithin player (2 * next.board.players.length + 1 + 1) s =
          some (Prod.map adds id result) := by
        rw [goes, hresult]
        rfl
      have enough : 2 * next.board.players.length + 1 + 1 ≤ s.passBound := by
        have seated := running.survivors
        rw [onward.players]
        unfold passBound
        nlinarith
      unfold settle?
      rw [settleWithin_mono enough soon]
      rfl
    · exact Or.inr (.of_onward onward goes endless)

/-- When settling is given up, no number of passes is enough. -/
theorem settle?_eq_none_iff :
    s.settle? player = none ↔ ∀ passes, settleWithin player passes s = none := by
  refine ⟨fun none => ?_, fun never => never s.passBound⟩
  rcases s.settles_or_endless player with settles | endless
  · rw [none] at settles
    exact nomatch settles
  · exact endless.never

/-- Settling ends after at most (n + 1)² passes if no player is seated twice, whoever has lost and
whatever the round, the last one that can be counted included.  No more players may be seated than
rounds can be told apart, which is no more than a list in memory can hold. -/
theorem settle?_eq_some (distinct : (s.board.players.map (·.id)).Nodup)
    (seats : s.board.players.length ≤ UInt64.size) (player : PlayerId) :
    ∃ passes ≤ (s.board.players.length + 1) ^ 2, ∃ result, s.settle? player = some result ∧
      ∀ more, passes ≤ more → settleWithin player more s = some result := by
  rcases s.settles_or_endless player with settles | endless
  · obtain ⟨result, hresult⟩ := Option.isSome_iff_exists.1 settles
    refine ⟨s.passBound, ?_, result, hresult, fun more le => settleWithin_mono le hresult⟩
    rw [Nat.pow_two]
    rfl
  · obtain ⟨last, players, out, running⟩ := endless.uncounted
    exact absurd running (out.not_running (players ▸ distinct) (players ▸ seats))

/-- The raid with a third player in front, who has no piece.  Somebody who is not seated has lost,
and black is due a further step in the last round but one. -/
def raidOfThree : Session where
  board :=
    { raidBoard with
      players := { id := ⟨"red"⟩, seat := ⟨2⟩ } :: raidBoard.players
      losers := [⟨"ghost"⟩] }
  settings := {}
  round := 18446744073709551614
  subRound := 1

/-- Settling ends black's turn and eliminates red in the last round that can be counted.  The next
round is red's again, because counting begins anew, and is skipped; settling stops at white's. -/
theorem settle?_raidOfThree :
    (raidOfThree.board.players.map (·.id)).Nodup ∧
      raidOfThree.board.players.length ≤ UInt64.size ∧
      ∃ passes ≤ 16, ∃ result, raidOfThree.settle? ⟨"ghost"⟩ = some result ∧
        (result.1.eliminated, result.1.skipped, result.1.active, result.2.round) =
          ([⟨"red"⟩], [⟨"red"⟩], some ⟨"white"⟩, 1) ∧
        ∀ more, passes ≤ more → settleWithin ⟨"ghost"⟩ more raidOfThree = some result := by
  have distinct : (raidOfThree.board.players.map (·.id)).Nodup := by decide
  have seats : raidOfThree.board.players.length ≤ UInt64.size := by decide
  have settled : (raidOfThree.settle? ⟨"ghost"⟩).map
      (fun result =>
        (result.1.eliminated, result.1.skipped, result.1.active, result.2.round)) =
          some ([⟨"red"⟩], [⟨"red"⟩], some ⟨"white"⟩, 1) := by cbv
  obtain ⟨passes, bound, result, settles, stable⟩ := settle?_eq_some distinct seats ⟨"ghost"⟩
  rw [settles] at settled
  exact ⟨distinct, seats, passes, bound, result, settles, Option.some.inj settled, stable⟩

end Session

end BoardRules
