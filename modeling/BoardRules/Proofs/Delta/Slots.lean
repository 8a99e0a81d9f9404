import Mathlib
import BoardRules.Delta

/-!
# The slots of a delta set

A delta set that was built by merging has at most one delta of each kind (`Slotted`).  What merging
does to a set is said slot by slot: a newer destination replaces the older one
(`destination?_merge`), newer victims come behind the older ones (`victims_merge`), and nothing
else touches the two.  The `_cons` lemmas read the slots off the front of a set, for inductions
along its deltas.
-/

namespace BoardRules

/-- The square that a delta sends its piece to. -/
def Delta.destination? : Delta → Option Square
  | .position square => some square
  | _ => none

/-- The pieces that a delta takes. -/
def Delta.victims : Delta → List PieceId
  | .attack pieces => pieces
  | _ => []

namespace DeltaSet

/-- At most one delta of each kind. -/
def Slotted (s : DeltaSet) : Prop := (s.deltas.map Delta.kind).Nodup

/-! ## One delta of each kind -/

/-- Merging keeps the kinds in order and adds a new one at the end. -/
theorem map_kind_mergeInto (d : Delta) (ds : List Delta) :
    (mergeInto d ds).map Delta.kind =
      if d.kind ∈ ds.map Delta.kind then ds.map Delta.kind else ds.map Delta.kind ++ [d.kind] := by
  induction ds with
  | nil => rfl
  | cons e rest ih =>
    unfold mergeInto
    by_cases same : e.kind = d.kind
    · simp [same]
    · rw [if_neg same, List.map_cons, ih]
      have other : d.kind ≠ e.kind := Ne.symm same
      by_cases known : d.kind ∈ rest.map Delta.kind <;> simp [known, other]

theorem slotted_empty : Slotted empty := List.nodup_nil

/-- Merging a delta does not give a kind a second slot. -/
theorem Slotted.merge {s : DeltaSet} (h : s.Slotted) (d : Delta) : (s.merge d).Slotted := by
  unfold Slotted at h ⊢
  rw [DeltaSet.merge, map_kind_mergeInto]
  split
  · exact h
  · rename_i fresh
    rw [← List.concat_eq_append]
    exact h.concat fresh

/-- Merging any number of deltas does not give a kind a second slot. -/
theorem Slotted.mergeAll {s : DeltaSet} (h : s.Slotted) (ds : List Delta) :
    (s.mergeAll ds).Slotted := by
  induction ds generalizing s with
  | nil => exact h
  | cons d rest ih => exact ih (h.merge d)

/-- Every set made by merging a list has one slot for each kind. -/
theorem slotted_ofList (ds : List Delta) : (ofList ds).Slotted := slotted_empty.mergeAll ds

/-! ## Reading slots after a merge -/

/-- The slot of a kind holds a delta of that kind. -/
theorem kind_of_get? {s : DeltaSet} {kind : DeltaKind} {d : Delta} (h : s.get? kind = some d) :
    d.kind = kind := by
  have found := List.find?_some h
  exact of_decide_eq_true found

/-- A newer destination replaces the older one. -/
theorem destination?_merge (s : DeltaSet) (d : Delta) :
    (s.merge d).destination? = d.destination?.or s.destination? := by
  unfold destination?
  cases d with
  | position square =>
    have slot := s.get?_merge_self (.position square)
    rw [Delta.kind] at slot
    rw [slot]
    cases s.get? .position with
    | none => rfl
    | some e => cases e <;> rfl
  | _ =>
    rw [get?_merge_of_ne s (by simp [Delta.kind])]
    rfl

/-- Newer victims come behind the older ones. -/
theorem victims_merge (s : DeltaSet) (d : Delta) :
    (s.merge d).victims = s.victims ++ d.victims := by
  unfold victims
  cases d with
  | attack pieces =>
    have slot := s.get?_merge_self (.attack pieces)
    rw [Delta.kind] at slot
    rw [slot]
    cases old : s.get? .attack with
    | none => rfl
    | some e =>
      have kind := kind_of_get? old
      cases e with
      | attack taken => rfl
      | _ => exact nomatch kind
  | _ =>
    rw [get?_merge_of_ne s (by simp [Delta.kind])]
    exact (List.append_nil _).symm

/-! ## Reading slots along the deltas -/

/-- Without a position delta the piece is sent nowhere. -/
theorem destination?_eq_none {ds : List Delta} (h : .position ∉ ds.map Delta.kind) :
    destination? ⟨ds⟩ = none := by
  have empty : get? ⟨ds⟩ .position = none := by
    refine List.find?_eq_none.2 fun d hd kind => h ?_
    exact List.mem_map.2 ⟨d, hd, of_decide_eq_true kind⟩
  rw [destination?, empty]

/-- Without an attack delta nobody is taken. -/
theorem victims_eq_nil {ds : List Delta} (h : .attack ∉ ds.map Delta.kind) :
    victims ⟨ds⟩ = [] := by
  have empty : get? ⟨ds⟩ .attack = none := by
    refine List.find?_eq_none.2 fun d hd kind => h ?_
    exact List.mem_map.2 ⟨d, hd, of_decide_eq_true kind⟩
  rw [victims, empty]

/-- What stands behind the first delta has one slot for each kind too. -/
theorem Slotted.tail {d : Delta} {ds : List Delta} (h : Slotted ⟨d :: ds⟩) : Slotted ⟨ds⟩ :=
  (List.nodup_cons.1 h).2

/-- Only one delta of a slotted set has a destination. -/
theorem destination?_cons {d : Delta} {ds : List Delta} (h : Slotted ⟨d :: ds⟩) :
    destination? ⟨d :: ds⟩ = (destination? ⟨ds⟩).or d.destination? := by
  cases d with
  | position square =>
    rw [destination?_eq_none (List.nodup_cons.1 h).1]
    rfl
  | _ => exact (Option.or_none).symm

/-- The one position delta of a slotted set says where the piece goes. -/
theorem destination?_of_mem {s : DeltaSet} (h : s.Slotted) {square : Square}
    (listed : .position square ∈ s.deltas) : s.destination? = some square := by
  obtain ⟨ds⟩ := s
  induction ds with
  | nil => exact absurd listed List.not_mem_nil
  | cons d rest ih =>
    rcases List.mem_cons.1 listed with rfl | later
    · rfl
    · rw [destination?_cons h, ih h.tail later, Option.some_or]

/-- Only one delta of a slotted set has victims. -/
theorem victims_cons {d : Delta} {ds : List Delta} (h : Slotted ⟨d :: ds⟩) :
    victims ⟨d :: ds⟩ = d.victims ++ victims ⟨ds⟩ := by
  cases d with
  | attack pieces =>
    rw [victims_eq_nil (List.nodup_cons.1 h).1]
    exact (List.append_nil _).symm
  | _ => rfl

end DeltaSet

end BoardRules
