import BoardRules.Json.Basic

/-!
# Values with a JSON form

`Wire α` says how a value of type `α` is written as a document and read back. Integers are read
only from JSON integers in the range of their type, lists from arrays, pairs from arrays of exactly
two items. A structure is written as an object and read from one, or from an array of its values in
the order of their declaration (`Json.structure?`). Its fields are read by name, with or without a
value to fall back on.
-/

namespace BoardRules

/-- A type whose values have a JSON form. -/
class Wire (α : Type) where
  /-- The document of a value. -/
  toJson : α → Json
  /-- The value a document stands for, if it stands for one. -/
  ofJson? : Json → Option α

export Wire (toJson)

namespace Json

/-- The integer of a document, if it lies between two bounds. -/
def intIn? (low high : Int) : Json → Option Int
  | .int n => if low ≤ n ∧ n ≤ high then some n else none
  | _ => none

/-- The natural number of a document, if it lies below a bound. -/
def natBelow? (bound : Nat) : Json → Option Nat
  | .int (.ofNat n) => if n < bound then some n else none
  | _ => none

/-- Read a document as a value. -/
def as? (α : Type) [Wire α] (j : Json) : Option α := Wire.ofJson? j

end Json

instance : Wire Json := ⟨id, some⟩

instance : Wire Bool where
  toJson := .bool
  ofJson?
    | .bool b => some b
    | _ => none

instance : Wire String where
  toJson := .string
  ofJson?
    | .string s => some s
    | _ => none

instance : Wire Int32 where
  toJson n := .int n.toInt
  ofJson? j := (j.intIn? Int32.minValue.toInt Int32.maxValue.toInt).map Int32.ofInt

instance : Wire Int64 where
  toJson n := .int n.toInt
  ofJson? j := (j.intIn? Int64.minValue.toInt Int64.maxValue.toInt).map Int64.ofInt

instance : Wire UInt8 where
  toJson n := .int n.toNat
  ofJson? j := (j.natBelow? UInt8.size).map UInt8.ofNat

instance : Wire UInt16 where
  toJson n := .int n.toNat
  ofJson? j := (j.natBelow? UInt16.size).map UInt16.ofNat

instance : Wire UInt32 where
  toJson n := .int n.toNat
  ofJson? j := (j.natBelow? UInt32.size).map UInt32.ofNat

instance : Wire UInt64 where
  toJson n := .int n.toNat
  ofJson? j := (j.natBelow? UInt64.size).map UInt64.ofNat

/-- Naturals are read from 64-bit integers. -/
instance : Wire Nat where
  toJson n := .int n
  ofJson? j := j.natBelow? UInt64.size

instance {α : Type} [Wire α] : Wire (List α) where
  toJson xs := .array (xs.map toJson)
  ofJson?
    | .array items => items.mapM Wire.ofJson?
    | _ => none

instance {α β : Type} [Wire α] [Wire β] : Wire (α × β) where
  toJson p := .array [toJson p.1, toJson p.2]
  ofJson?
    | .array [a, b] => do return (← Wire.ofJson? a, ← Wire.ofJson? b)
    | _ => none

/-- An optional value is written as `null` when absent. -/
instance {α : Type} [Wire α] : Wire (Option α) where
  toJson
    | none => .null
    | some a => toJson a
  ofJson?
    | .null => some none
    | j => (Wire.ofJson? j).map some

/-! ## Reading what was written -/

/-- Types whose written values read back as they were. -/
class LawfulWire (α : Type) [Wire α] : Prop where
  ofJson?_toJson (a : α) : Wire.ofJson? (toJson a) = some a

export LawfulWire (ofJson?_toJson)

attribute [simp] ofJson?_toJson

instance : LawfulWire Json := ⟨fun _ => rfl⟩

instance : LawfulWire Bool := ⟨fun _ => rfl⟩

instance : LawfulWire String := ⟨fun _ => rfl⟩

instance : LawfulWire Int32 where
  ofJson?_toJson n := by
    change Option.map _ (if _ then _ else _) = _
    rw [if_pos ⟨n.minValue_le_toInt, n.toInt_le⟩, Option.map_some, Int32.ofInt_toInt]

instance : LawfulWire Int64 where
  ofJson?_toJson n := by
    change Option.map _ (if _ then _ else _) = _
    rw [if_pos ⟨n.minValue_le_toInt, n.toInt_le⟩, Option.map_some, Int64.ofInt_toInt]

instance : LawfulWire UInt8 where
  ofJson?_toJson n := by
    change Option.map _ (if _ then _ else _) = _
    rw [if_pos n.toNat_lt_size, Option.map_some, UInt8.ofNat_toNat]

instance : LawfulWire UInt16 where
  ofJson?_toJson n := by
    change Option.map _ (if _ then _ else _) = _
    rw [if_pos n.toNat_lt_size, Option.map_some, UInt16.ofNat_toNat]

instance : LawfulWire UInt32 where
  ofJson?_toJson n := by
    change Option.map _ (if _ then _ else _) = _
    rw [if_pos n.toNat_lt_size, Option.map_some, UInt32.ofNat_toNat]

instance : LawfulWire UInt64 where
  ofJson?_toJson n := by
    change Option.map _ (if _ then _ else _) = _
    rw [if_pos n.toNat_lt_size, Option.map_some, UInt64.ofNat_toNat]

theorem mapM_ofJson?_toJson {α : Type} [Wire α] [LawfulWire α] (xs : List α) :
    (xs.map toJson).mapM Wire.ofJson? = some xs := by
  induction xs with
  | nil => rfl
  | cons x rest ih => rw [List.map_cons, List.mapM_cons, ofJson?_toJson, ih]; rfl

instance {α : Type} [Wire α] [LawfulWire α] : LawfulWire (List α) := ⟨mapM_ofJson?_toJson⟩

instance {α β : Type} [Wire α] [LawfulWire α] [Wire β] [LawfulWire β] : LawfulWire (α × β) where
  ofJson?_toJson p := by
    change (Wire.ofJson? (toJson p.1)).bind _ = _
    rw [ofJson?_toJson, Option.bind_some]
    change (Wire.ofJson? (toJson p.2)).bind _ = _
    rw [ofJson?_toJson]
    rfl

/-! ## Fields -/

/-- The fields from which a structure with named fields is read: those of an object, or the items of
an array in the order of the names, which may end early but not go on behind the last name. -/
def Json.structure? (names : List String) : Json → Option Fields
  | .object fields => some fields
  | .array items => if items.length ≤ names.length then some (names.zip items) else none
  | _ => none

namespace Fields

/-- Read a field that must be there. -/
def required {α : Type} [Wire α] (fields : Fields) (name : String) : Option α :=
  (fields.get? name).bind Wire.ofJson?

/-- Read a field, with a value for when it is absent. A field that is there must be readable, so
`null` does not count as absent. -/
def withDefault {α : Type} [Wire α] (fields : Fields) (name : String) (fallback : α) : Option α :=
  match fields.get? name with
  | none => some fallback
  | some j => Wire.ofJson? j

end Fields

end BoardRules
