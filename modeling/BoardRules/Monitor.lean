import BoardRules.Identity

/-!
# Monitors

A monitor counts something for each piece. The rules know one kind, which counts how often a piece
has changed its square. Fields that a monitor does not define are kept as they are, so a monitor is
read from a finite document. Counting for one piece changes its count by one and no other
(`count_increment_self`, `count_increment_of_ne`).
-/

namespace BoardRules

/-- Counters by piece. Reading looks at the first counter of a piece. -/
structure Monitor where
  kind : String
  counters : List (PieceId × UInt32) := []
  /-- Fields that are kept and not interpreted. -/
  extra : Fields := []
  deriving DecidableEq, Repr

namespace Monitor

/-- The kind that counts changes of square. -/
def stepKind : String := "vanilla.step"

/-- A step monitor that has counted nothing. -/
def step : Monitor := ⟨stepKind, [], []⟩

/-- The count of a piece, zero when it has no counter. -/
def count (m : Monitor) (piece : PieceId) : UInt32 := (m.counters.lookup piece).getD 0

/-- Add one to the first counter of a piece, or start one at the end. -/
def incrementIn (piece : PieceId) : List (PieceId × UInt32) → List (PieceId × UInt32)
  | [] => [(piece, 1)]
  | (id, n) :: rest => if id = piece then (id, n + 1) :: rest else (id, n) :: incrementIn piece rest

/-- Count one for a piece. -/
def increment (m : Monitor) (piece : PieceId) : Monitor :=
  { m with counters := incrementIn piece m.counters }

theorem lookup_incrementIn_self (piece : PieceId) (counters : List (PieceId × UInt32)) :
    (incrementIn piece counters).lookup piece = some ((counters.lookup piece).getD 0 + 1) := by
  induction counters with
  | nil => simp [incrementIn]
  | cons counter rest ih =>
    obtain ⟨id, n⟩ := counter
    unfold incrementIn
    split
    · rename_i h
      simp [h]
    · rename_i h
      have h : (piece == id) = false := beq_eq_false_iff_ne.2 (Ne.symm h)
      rw [List.lookup_cons, List.lookup_cons, h]
      exact ih

theorem lookup_incrementIn_of_ne {piece other : PieceId} (h : other ≠ piece)
    (counters : List (PieceId × UInt32)) :
    (incrementIn piece counters).lookup other = counters.lookup other := by
  induction counters with
  | nil =>
    rw [incrementIn, List.lookup_cons, beq_eq_false_iff_ne.2 h]
  | cons counter rest ih =>
    obtain ⟨id, n⟩ := counter
    unfold incrementIn
    split
    · rename_i same
      have h : (other == id) = false := beq_eq_false_iff_ne.2 (same ▸ h)
      rw [List.lookup_cons, List.lookup_cons, h]
    · rw [List.lookup_cons, List.lookup_cons, ih]

@[simp] theorem count_increment_self (m : Monitor) (piece : PieceId) :
    (m.increment piece).count piece = m.count piece + 1 := by
  unfold count increment
  rw [lookup_incrementIn_self]
  rfl

theorem count_increment_of_ne (m : Monitor) {piece other : PieceId} (h : other ≠ piece) :
    (m.increment piece).count other = m.count other := by
  unfold count increment
  rw [lookup_incrementIn_of_ne h]

/-- Rename the counted pieces; a piece without a new name keeps its own. -/
def rename (m : Monitor) (new? : PieceId → Option PieceId) : Monitor :=
  { m with counters := m.counters.map fun c => ((new? c.1).getD c.1, c.2) }

/-- The fields that a monitor defines. -/
def knownFields : List String := ["type", "counters"]

instance : Wire Monitor where
  toJson m := .object
    (Fields.set "type" (toJson m.kind) (Fields.set "counters" (toJson m.counters) m.extra))
  ofJson? j := do
    let fields ← (← j.finite?).fields?
    return { kind := ← fields.required "type",
             counters := ← fields.withDefault "counters" [],
             extra := fields.without knownFields }

end Monitor

end BoardRules
