import Mathlib
import BoardRules.Proofs.Json.Rereading
import BoardRules.Step.Move

/-!
# Values with one document

Of most values there is one document only: the document that is read as a value is the one that is
written of it (`ExactWire`).  So a field that was read is written back as it stood
(`StepRecord.toJson_of_readOr`).
-/

namespace BoardRules

/-- Types whose values are read only from what is written of them. -/
class ExactWire (α : Type) [Wire α] : Prop where
  toJson_of_read {j : Json} {a : α} (read : Wire.ofJson? j = some a) : toJson a = j

export ExactWire (toJson_of_read)

section

variable {α β : Type}

instance : ExactWire Bool where
  toJson_of_read {j} b read := by
    cases j with
    | bool value => rw [← Option.some.inj read]; rfl
    | _ => exact nomatch read

instance : ExactWire String where
  toJson_of_read {j} text read := by
    cases j with
    | string value => rw [← Option.some.inj read]; rfl
    | _ => exact nomatch read

instance : ExactWire UInt32 where
  toJson_of_read {j} n read := by
    obtain ⟨m, small, rfl⟩ := Option.map_eq_some_iff.1 read
    unfold Json.natBelow? at small
    split at small
    · split at small
      · rename_i bound
        obtain rfl := Option.some.inj small
        exact congrArg (fun k : ℕ => Json.int k) (UInt32.toNat_ofNat_of_lt' bound)
      · exact nomatch small
    · exact nomatch small

instance : ExactWire Int32 where
  toJson_of_read {j} n read := by
    obtain ⟨m, small, rfl⟩ := Option.map_eq_some_iff.1 read
    unfold Json.intIn? at small
    split at small
    · split at small
      · rename_i bounds
        obtain rfl := Option.some.inj small
        rw [Int32.toInt_minValue, Int32.toInt_maxValue] at bounds
        exact congrArg Json.int
          (Int32.toInt_ofInt_of_le bounds.1 (Int.lt_of_le_sub_one bounds.2))
      · exact nomatch small
    · exact nomatch small

/-- A pair is read from an array of two items that are read as its parts. -/
theorem items_of_read_pair [Wire α] [Wire β] {j : Json} {p : α × β}
    (read : Wire.ofJson? j = some p) :
    ∃ first second, j = .array [first, second] ∧ Wire.ofJson? first = some p.1 ∧
      Wire.ofJson? second = some p.2 := by
  match j with
  | .array [first, second] =>
    obtain ⟨a, left, read⟩ := Option.bind_eq_some_iff.1 read
    obtain ⟨b, right, read⟩ := Option.bind_eq_some_iff.1 read
    obtain rfl := Option.some.inj read
    exact ⟨first, second, rfl, left, right⟩
  | .array [] | .array [_] | .array (_ :: _ :: _ :: _) => exact nomatch read
  | .null | .bool _ | .int _ | .float _ | .overflow _ | .string _ | .object _ => exact nomatch read

instance [Wire α] [ExactWire α] [Wire β] [ExactWire β] : ExactWire (α × β) where
  toJson_of_read {j} p read := by
    obtain ⟨first, second, rfl, left, right⟩ := items_of_read_pair read
    change Json.array [toJson p.1, toJson p.2] = _
    rw [toJson_of_read left, toJson_of_read right]

/-- Items that were read one by one are written as they were. -/
theorem map_toJson_of_read [Wire α] [ExactWire α] {items : List Json} {xs : List α}
    (read : List.Forall₂ (fun item x => Wire.ofJson? item = some x) items xs) :
    xs.map toJson = items := by
  induction read with
  | nil => rfl
  | cons first _ ih => rw [List.map_cons, toJson_of_read first, ih]

instance [Wire α] [ExactWire α] : ExactWire (List α) where
  toJson_of_read {j} xs read := by
    cases j with
    | array items => exact congrArg Json.array (map_toJson_of_read (forall₂_of_mapM read))
    | _ => exact nomatch read

end

instance : ExactWire Square where
  toJson_of_read {j} square read := by
    obtain ⟨p, pair, rfl⟩ := Option.map_eq_some_iff.1 read
    have coordinates : toJson p = j := toJson_of_read pair
    exact coordinates

instance : ExactWire MoveModes where
  toJson_of_read {j} modes read := by
    obtain ⟨bits, number, rfl⟩ := Option.map_eq_some_iff.1 read
    have coded : toJson bits = j := toJson_of_read number
    exact coded

/-- A field that is there and was read is written as it stood. -/
theorem StepRecord.toJson_of_readOr {α : Type} [Wire α] [ExactWire α] {r : StepRecord}
    {name : String} {value : Json} {a fallback : α} (stored : r.fields.get? name = some value)
    (present : value ≠ .null) (read : r.readOr name fallback = .ok a) : toJson a = value := by
  unfold readOr read? at read
  rw [stored] at read
  cases found : (Wire.ofJson? value : Option α) with
  | none =>
    cases value with
    | null => exact absurd rfl present
    | _ =>
      dsimp only at read
      rw [found] at read
      exact nomatch read
  | some b =>
    have same : a = b := by
      cases value with
      | null => exact absurd rfl present
      | _ =>
        dsimp only at read
        rw [found] at read
        exact (Except.ok.inj read).symm
    rw [same]
    exact toJson_of_read found

end BoardRules
