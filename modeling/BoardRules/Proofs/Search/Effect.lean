import Mathlib
import BoardRules.Proofs.Delta.Slots
import BoardRules.Search.Branch

/-!
# What a branch does

Whatever an action is, a branch of it does one of four things to the deltas of its piece
(`Effect`): the piece arrives on an empty square, captures by going there, captures from where it
stands, or its owner loses.  `effect_of_mem_branches` reads this off the branches.  The lemmas
behind it say what an effect means for the slots, so that nothing else looks at the cases: there is
at most one new victim, who stood on the board (`Effect.victims_eq`), and a new destination is a
square whose occupant, if there was one, is taken (`Effect.destination?_eq`).
-/

namespace BoardRules

/-- What an action may do to the deltas of a piece on a board. -/
inductive Effect (b : Board) (piece : PieceId) (s : DeltaSet) : DeltaSet → Prop
  /-- The owner of the piece loses. -/
  | lose {owner : Player} (owned : b.owner? piece = some owner) :
      Effect b piece s (s.merge (.lose owner.id))
  /-- The piece goes to an empty square. -/
  | arrive {aim : Square} (started : s.destination?.isSome = true) (inside : b.onBoard aim = true)
      (empty : b.occupant? aim = none) : Effect b piece s (s.mergeAll [.cell aim, .position aim])
  /-- The piece goes to the square of a piece that its owner does not own, and takes it. -/
  | capture {aim : Square} {target : PieceId} (started : s.destination?.isSome = true)
      (inside : b.onBoard aim = true) (occupied : b.occupant? aim = some target)
      (foreign : (b.owner? piece).map (·.id) ≠ (b.owner? target).map (·.id)) :
      Effect b piece s (s.mergeAll [.cell aim, .position aim, .attack [target]])
  /-- The piece takes a piece that its owner does not own from where it stands. -/
  | snipe {aim : Square} {target : PieceId} (started : s.destination?.isSome = true)
      (inside : b.onBoard aim = true) (occupied : b.occupant? aim = some target)
      (foreign : (b.owner? piece).map (·.id) ≠ (b.owner? target).map (·.id)) :
      Effect b piece s (s.mergeAll [.cell aim, .attack [target]])

/-! ## Squares that a move reaches -/

/-- A ray stays on the board. -/
theorem contains_of_mem_ray {size : Extent} {occupied : Square → Bool} {v p q : Square}
    (h : q ∈ ray size occupied v p) : size.contains q = true := by
  fun_induction ray size occupied v p with
  | case1 p zero => exact absurd h List.not_mem_nil
  | case2 p moves next => exact absurd h List.not_mem_nil
  | case3 p moves next hnext inside nearer blocked =>
    rw [List.mem_singleton] at h
    exact h ▸ inside
  | case4 p moves next hnext inside nearer free ih =>
    rcases List.mem_cons.1 h with rfl | later
    · exact inside
    · exact ih later
  | case5 p moves next hnext outside => exact absurd h List.not_mem_nil

/-- A move reaches squares of the board only. -/
theorem onBoard_of_mem_targets {m : Move} {b : Board} {origin v aim : Square}
    (h : aim ∈ m.targets b origin v) : b.onBoard aim = true := by
  unfold Move.targets at h
  split at h
  · exact contains_of_mem_ray h
  · split at h
    · split at h
      · rename_i inside
        rw [List.mem_singleton] at h
        exact h ▸ inside
      · exact absurd h List.not_mem_nil
    · exact absurd h List.not_mem_nil

/-- What a move does on a square of the board. -/
theorem effect_of_mem_outcomes {m : Move} {b : Board} {s : DeltaSet} {piece : PieceId}
    {aim : Square} {branch : Branch} (started : s.destination?.isSome = true)
    (inside : b.onBoard aim = true) (h : branch ∈ m.outcomes b s piece aim) :
    Effect b piece s branch.deltas := by
  unfold Move.outcomes at h
  split at h
  · rename_i empty
    split at h
    · rw [List.mem_singleton] at h
      exact h ▸ .arrive started inside empty
    · exact absurd h List.not_mem_nil
  · rename_i target occupied
    split at h
    · exact absurd h List.not_mem_nil
    · rename_i foreign
      rcases List.mem_append.1 h with goes | stays
      · split at goes
        · rw [List.mem_singleton] at goes
          exact goes ▸ .capture started inside occupied foreign
        · exact absurd goes List.not_mem_nil
      · split at stays
        · rw [List.mem_singleton] at stays
          exact stays ▸ .snipe started inside occupied foreign
        · exact absurd stays List.not_mem_nil

/-- Every branch of an action has one of the four effects. -/
theorem effect_of_mem_branches {a : Action} {b : Board} {s : DeltaSet} {piece : PieceId}
    {branch : Branch} (h : branch ∈ a.branches b s piece) : Effect b piece s branch.deltas := by
  cases a with
  | move m =>
    rw [Action.branches, Move.branches] at h
    split at h
    · rename_i owner origin owned started
      obtain ⟨v, -, h⟩ := List.mem_flatMap.1 h
      obtain ⟨aim, haim, h⟩ := List.mem_flatMap.1 h
      exact effect_of_mem_outcomes (by rw [started]; rfl) (onBoard_of_mem_targets haim) h
    · exact absurd h List.not_mem_nil
  | lose header =>
    rw [Action.branches] at h
    split at h
    · rename_i owner owned
      rw [List.mem_singleton] at h
      exact h ▸ .lose owned
    · exact absurd h List.not_mem_nil

/-! ## The slots after an effect -/

namespace Effect

variable {b : Board} {piece : PieceId} {s t : DeltaSet}

/-- The effect of an action does not give a kind a second slot. -/
theorem slotted (h : Effect b piece s t) (hs : s.Slotted) : t.Slotted := by
  cases h with
  | lose owned => exact hs.merge _
  | _ => exact hs.mergeAll _

/-- A piece that stood nowhere goes nowhere, and a piece that stood somewhere goes somewhere. -/
theorem isSome_destination? (h : Effect b piece s t) :
    t.destination?.isSome = s.destination?.isSome := by
  cases h with
  | lose owned => simp [DeltaSet.destination?_merge, Delta.destination?]
  | _ started inside occupied =>
    simp [DeltaSet.mergeAll, DeltaSet.destination?_merge, Delta.destination?, started]

/-- An effect adds at most one victim: a piece on the board that the owner of the acting piece does
not own. -/
theorem victims_eq (h : Effect b piece s t) :
    t.victims = s.victims ∨
      ∃ aim target, b.occupant? aim = some target ∧
        (b.owner? piece).map (·.id) ≠ (b.owner? target).map (·.id) ∧
        t.victims = s.victims ++ [target] := by
  cases h with
  | lose owned => exact Or.inl (by simp [DeltaSet.victims_merge, Delta.victims])
  | arrive started inside empty =>
    exact Or.inl (by simp [DeltaSet.mergeAll, DeltaSet.victims_merge, Delta.victims])
  | capture started inside occupied foreign =>
    exact Or.inr ⟨_, _, occupied, foreign,
      by simp [DeltaSet.mergeAll, DeltaSet.victims_merge, Delta.victims]⟩
  | snipe started inside occupied foreign =>
    exact Or.inr ⟨_, _, occupied, foreign,
      by simp [DeltaSet.mergeAll, DeltaSet.victims_merge, Delta.victims]⟩

/-- An effect keeps the destination, or replaces it by a square of the board whose occupant, if it
has one, is taken. -/
theorem destination?_eq (h : Effect b piece s t) :
    t.destination? = s.destination? ∨
      ∃ aim, t.destination? = some aim ∧ b.onBoard aim = true ∧
        ∀ target, b.occupant? aim = some target → target ∈ t.victims := by
  cases h with
  | lose owned => exact Or.inl (by simp [DeltaSet.destination?_merge, Delta.destination?])
  | arrive started inside empty =>
    refine Or.inr ⟨_, ?_, inside, fun target occupied => ?_⟩
    · simp [DeltaSet.mergeAll, DeltaSet.destination?_merge, Delta.destination?]
    · rw [empty] at occupied
      exact nomatch occupied
  | capture started inside occupied foreign =>
    refine Or.inr ⟨_, ?_, inside, fun target same => ?_⟩
    · simp [DeltaSet.mergeAll, DeltaSet.destination?_merge, Delta.destination?]
    · rw [occupied] at same
      rw [← Option.some.inj same]
      simp [DeltaSet.mergeAll, DeltaSet.victims_merge, Delta.victims]
  | snipe started inside occupied foreign =>
    exact Or.inl (by simp [DeltaSet.mergeAll, DeltaSet.destination?_merge, Delta.destination?])

end Effect

end BoardRules
