import BoardRules.Json.Wire

/-!
# Squares and extents

Squares and relative vectors have 32-bit coordinates. Offsets are checked: an offset past the range
of the coordinates gives no square. An extent is the declared size of a rectangular board.
-/

namespace BoardRules

/-- A square of the board, or a vector between squares. -/
structure Square where
  x : Int32
  y : Int32
  deriving DecidableEq, Repr, Inhabited

/-- The coordinate of an integer, if it is in the range of coordinates. -/
def coordinate? (n : Int) : Option Int32 :=
  if Int32.minValue.toInt ≤ n ∧ n ≤ Int32.maxValue.toInt then some (Int32.ofInt n) else none

theorem toInt_of_coordinate? {n : Int} {c : Int32} (h : coordinate? n = some c) : c.toInt = n := by
  unfold coordinate? at h
  split at h
  · rename_i bounds
    rw [Int32.toInt_minValue, Int32.toInt_maxValue] at bounds
    rw [← Option.some.inj h]
    exact Int32.toInt_ofInt_of_le bounds.1 (Int.lt_of_le_sub_one bounds.2)
  · exact nomatch h

theorem coordinate?_toInt (c : Int32) : coordinate? c.toInt = some c := by
  rw [coordinate?, if_pos ⟨c.minValue_le_toInt, c.toInt_le⟩, Int32.ofInt_toInt]

namespace Square

/-- The origin, and the vector that leads nowhere. -/
def zero : Square := ⟨0, 0⟩

/-- Whether the vector leads nowhere. -/
def isZero (v : Square) : Bool := v = zero

/-- The square that `v` leads to from `p`. -/
def offset? (p v : Square) : Option Square := do
  return ⟨← coordinate? (p.x.toInt + v.x.toInt), ← coordinate? (p.y.toInt + v.y.toInt)⟩

theorem toInt_of_offset? {p v q : Square} (h : p.offset? v = some q) :
    q.x.toInt = p.x.toInt + v.x.toInt ∧ q.y.toInt = p.y.toInt + v.y.toInt := by
  simp only [offset?, bind, pure, Option.bind_eq_some_iff, Option.some.injEq] at h
  obtain ⟨x, hx, y, hy, rfl⟩ := h
  exact ⟨toInt_of_coordinate? hx, toInt_of_coordinate? hy⟩

theorem ne_zero_iff {v : Square} : v ≠ zero ↔ v.x.toInt ≠ 0 ∨ v.y.toInt ≠ 0 := by
  have key : ∀ a : Int32, a.toInt = 0 ↔ a = 0 := fun a => by
    rw [← Int32.toInt_inj]; simp
  rw [ne_eq, ne_eq, ne_eq, zero, Square.mk.injEq, key, key]
  by_cases hx : v.x = 0 <;> simp [hx]

/-- Squares are ordered by `x`, then by `y`. -/
def order (p q : Square) : Ordering := (compare p.x q.x).then (compare p.y q.y)

/-- How messages show a square. -/
def display (p : Square) : String := "(" ++ toString p.x ++ ", " ++ toString p.y ++ ")"

instance : Wire Square where
  toJson p := toJson (p.x, p.y)
  ofJson? j := (Wire.ofJson? j).map fun (p : Int32 × Int32) => ⟨p.1, p.2⟩

instance : LawfulWire Square where
  ofJson?_toJson p := congrArg (Option.map _) (ofJson?_toJson (p.x, p.y))

end Square

/-- The declared size of a board. -/
structure Extent where
  width : Int32
  height : Int32
  deriving DecidableEq, Repr

namespace Extent

/-- Eight by eight. -/
def standard : Extent := ⟨8, 8⟩

/-- Whether a square lies on a board of this size. -/
def contains (size : Extent) (p : Square) : Bool :=
  0 ≤ p.x && p.x < size.width && 0 ≤ p.y && p.y < size.height

theorem contains_iff {size : Extent} {p : Square} :
    size.contains p = true ↔
      (0 ≤ p.x.toInt ∧ p.x.toInt < size.width.toInt) ∧
        (0 ≤ p.y.toInt ∧ p.y.toInt < size.height.toInt) := by
  simp [Extent.contains, Int32.le_iff_toInt_le, Int32.lt_iff_toInt_lt, and_assoc]

/-- The corner opposite the origin. -/
def far (size : Extent) : Square := ⟨size.width - 1, size.height - 1⟩

instance : Wire Extent where
  toJson size := toJson (size.width, size.height)
  ofJson? j := (Wire.ofJson? j).map fun (p : Int32 × Int32) => ⟨p.1, p.2⟩

instance : LawfulWire Extent where
  ofJson?_toJson size := congrArg (Option.map _) (ofJson?_toJson (size.width, size.height))

end Extent

end BoardRules
