import Mathlib
import BoardRules.Json.Wire

/-!
# Reading again what was read and written

A document that is read is not kept: names are sorted, what was left out is filled in, and fields
that nobody asks for are gone.  So writing a value need not give the document from which it was
read.  But reading what is written gives the value again (`StableWire`).  For a type whose written
values always read back this is clear; a type that keeps parts of a document as they are may have
values that no document has, and then it matters that the value was read.

Objects come in two forms.  One is written from named fields (`Json.exists_fields_ofFields`), and
its fields are found again one by one (`Fields.required_of_get?`, `Fields.withDefault_of_get?`).
The other keeps the fields that it does not know beside those that it knows
(`Fields.without_set`).
-/

namespace BoardRules

/-- Types whose values, once read from a document, read back from what is written of them. -/
class StableWire (α : Type) [Wire α] : Prop where
  reread {j : Json} {a : α} (read : Wire.ofJson? j = some a) : Wire.ofJson? (toJson a) = some a

export StableWire (reread)

section

variable {α β : Type}

/-- Where all written values read back, those that were read do. -/
instance (priority := low) [Wire α] [LawfulWire α] : StableWire α := ⟨fun _ => ofJson?_toJson _⟩

/-- Items that are read as a row are read one by one. -/
theorem forall₂_of_mapM [Wire α] {items : List Json} {xs : List α}
    (read : items.mapM Wire.ofJson? = some xs) :
    List.Forall₂ (fun item x => Wire.ofJson? item = some x) items xs := by
  induction items generalizing xs with
  | nil =>
    obtain rfl := Option.some.inj read
    exact .nil
  | cons item rest ih =>
    rw [List.mapM_cons] at read
    obtain ⟨x, first, read⟩ := Option.bind_eq_some_iff.1 read
    obtain ⟨others, later, read⟩ := Option.bind_eq_some_iff.1 read
    obtain rfl := Option.some.inj read
    exact .cons first (ih later)

/-- Items that were read one by one read back one by one. -/
theorem mapM_reread [Wire α] [StableWire α] {items : List Json} {xs : List α}
    (read : List.Forall₂ (fun item x => Wire.ofJson? item = some x) items xs) :
    (xs.map toJson).mapM Wire.ofJson? = some xs := by
  induction read with
  | nil => rfl
  | cons first _ ih =>
    rw [List.map_cons, List.mapM_cons, reread first, ih]
    rfl

instance [Wire α] [StableWire α] : StableWire (List α) where
  reread {j} xs read := by
    cases j with
    | array items => exact mapM_reread (forall₂_of_mapM read)
    | _ => exact nomatch read

/-- A reading in several parts succeeds if the parts do. -/
theorem bind_eq_some_of_eq_some {first : Option α} {next : α → Option β} {a : α} {b : β}
    (head : first = some a) (tail : next a = some b) : first.bind next = some b :=
  Option.bind_eq_some_iff.2 ⟨a, head, tail⟩

end

/-! ## Named fields -/

/-- An object that is written from named fields is read from these fields, the last one of each
name, whatever names are declared. -/
theorem Json.exists_fields_ofFields (names : List String) (given : List (String × Json)) :
    ∃ fields : Fields, ofFields given = .object fields ∧
      (ofFields given).structure? names = some fields ∧
      ∀ name, fields.get? name = given.reverse.lookup name :=
  ⟨_, rfl, rfl, get?_ofFields given⟩

namespace Fields

variable {α : Type} [Wire α] {fields : Fields} {name : String} {a fallback : α}

/-- A required field that holds a written value is read as the value. -/
theorem required_of_get? (stored : fields.get? name = some (toJson a))
    (back : Wire.ofJson? (toJson a) = some a) : fields.required name = some a := by
  rw [required, stored, Option.bind_some, back]

/-- A field that holds a written value is read as the value, whatever it would default to. -/
theorem withDefault_of_get? (stored : fields.get? name = some (toJson a))
    (back : Wire.ofJson? (toJson a) = some a) : fields.withDefault name fallback = some a := by
  rw [withDefault, stored]
  exact back

/-- The value of a field that may be left out reads back, if the one to fall back on does. -/
theorem reread_withDefault [StableWire α] (back : Wire.ofJson? (toJson fallback) = some fallback)
    (read : fields.withDefault name fallback = some a) : Wire.ofJson? (toJson a) = some a := by
  unfold withDefault at read
  split at read
  · obtain rfl := Option.some.inj read
    exact back
  · exact reread read

end Fields

/-! ## Fields that are kept -/

namespace Fields

/-- Setting a field that is left out anyway leaves the others. -/
theorem without_set {names : List String} {name : String} (known : name ∈ names) (value : Json)
    (fields : Fields) : (fields.set name value).without names = fields.without names := by
  have dropped : ∀ (j : Json) (rest : Fields), without names ((name, j) :: rest) =
      rest.without names := fun j rest => List.filter_cons_of_neg (by simpa using known)
  induction fields with
  | nil => exact dropped value []
  | cons field rest ih =>
    obtain ⟨other, old⟩ := field
    unfold set
    split
    · exact dropped value _
    · split
      · rename_i same
        subst same
        rw [dropped, dropped]
      · unfold without at ih ⊢
        rw [List.filter_cons, List.filter_cons, ih]

/-- Leaving the same fields out twice is leaving them out once. -/
theorem without_without (names : List String) (fields : Fields) :
    (fields.without names).without names = fields.without names :=
  List.filter_eq_self.2 fun _ listed => (List.mem_filter.1 listed).2

end Fields

namespace Json

/-- An object whose fields are finite is read as a finite document. -/
theorem finite?_object {fields : Fields} (finite : fieldsFinite fields = true) :
    (Json.object fields).finite? = some (.object fields) := finite?_eq_some_iff.2 ⟨finite, rfl⟩

/-- A finite document that is an object has finite fields. -/
theorem fieldsFinite_of_finite? {j k : Json} {fields : Fields} (finite : j.finite? = some k)
    (opened : k.fields? = some fields) : fieldsFinite fields = true ∧ j = .object fields := by
  obtain ⟨whole, rfl⟩ := finite?_eq_some_iff.1 finite
  cases j with
  | object given =>
    obtain rfl := Option.some.inj opened
    exact ⟨whole, rfl⟩
  | _ => exact nomatch opened

/-- An object that is written from finite values has finite fields. -/
theorem fieldsFinite_foldl_set {given : List (String × Json)}
    (finite : ∀ field ∈ given, field.2.isFinite = true) {acc : Fields}
    (before : fieldsFinite acc = true) :
    fieldsFinite (given.foldl (fun acc field => Fields.set field.1 field.2 acc) acc) = true := by
  induction given generalizing acc with
  | nil => exact before
  | cons field rest ih =>
    have first : fieldsFinite (Fields.set field.1 field.2 acc) = true :=
      fieldsFinite_set before field.1 (finite field List.mem_cons_self)
    exact ih (fun other later => finite other (List.mem_cons_of_mem field later)) first

end Json

end BoardRules
