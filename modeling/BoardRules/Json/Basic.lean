import BoardRules.Json.Binary64

/-!
# JSON values

The tree of a JSON document. Integers are exact and kept apart from other numbers, so `1` and `1.0`
differ. The fields of an object are held in ascending order of their names, which makes equality of
trees the equality of documents. Setting a field puts it at its place in that order and changes what
is read under its name only (`Fields.get?_set_self`, `Fields.get?_set_of_ne`).

A document may hold numerals too large for any number. They do no harm where nobody looks; a value
that keeps parts of a document as they are is read from finite documents only (`Json.finite?`).
-/

namespace BoardRules

/-- A JSON document. -/
inductive Json where
  | null
  | bool (value : Bool)
  | int (value : Int)
  | float (value : Binary64)
  /-- A numeral beyond the largest finite number. -/
  | overflow (negative : Bool)
  | string (value : String)
  | array (items : List Json)
  | object (fields : List (String × Json))
  deriving Repr, Inhabited

namespace Json

mutual

/-- Equality of documents is decidable. -/
def decEq : (a b : Json) → Decidable (a = b)
  | .null, .null => isTrue rfl
  | .bool a, .bool b => decidable_of_iff (a = b) (by simp)
  | .int a, .int b => decidable_of_iff (a = b) (by simp)
  | .float a, .float b => decidable_of_iff (a = b) (by simp)
  | .overflow a, .overflow b => decidable_of_iff (a = b) (by simp)
  | .string a, .string b => decidable_of_iff (a = b) (by simp)
  | .array a, .array b => @decidable_of_iff _ (a = b) (by simp) (decEqItems a b)
  | .object a, .object b => @decidable_of_iff _ (a = b) (by simp) (decEqFields a b)
  | .null, .bool _ | .null, .int _ | .null, .float _ | .null, .overflow _ | .null, .string _
  | .null, .array _ | .null, .object _ => isFalse (by simp)
  | .bool _, .null | .bool _, .int _ | .bool _, .float _ | .bool _, .overflow _ | .bool _, .string _
  | .bool _, .array _ | .bool _, .object _ => isFalse (by simp)
  | .int _, .null | .int _, .bool _ | .int _, .float _ | .int _, .overflow _ | .int _, .string _
  | .int _, .array _ | .int _, .object _ => isFalse (by simp)
  | .float _, .null | .float _, .bool _ | .float _, .int _ | .float _, .overflow _
  | .float _, .string _ | .float _, .array _ | .float _, .object _ => isFalse (by simp)
  | .overflow _, .null | .overflow _, .bool _ | .overflow _, .int _ | .overflow _, .float _
  | .overflow _, .string _ | .overflow _, .array _ | .overflow _, .object _ => isFalse (by simp)
  | .string _, .null | .string _, .bool _ | .string _, .int _ | .string _, .float _
  | .string _, .overflow _ | .string _, .array _ | .string _, .object _ => isFalse (by simp)
  | .array _, .null | .array _, .bool _ | .array _, .int _ | .array _, .float _
  | .array _, .overflow _ | .array _, .string _ | .array _, .object _ => isFalse (by simp)
  | .object _, .null | .object _, .bool _ | .object _, .int _ | .object _, .float _
  | .object _, .overflow _ | .object _, .string _ | .object _, .array _ => isFalse (by simp)

/-- Equality of lists of documents is decidable. -/
def decEqItems : (a b : List Json) → Decidable (a = b)
  | [], [] => isTrue rfl
  | [], _ :: _ | _ :: _, [] => isFalse (by simp)
  | x :: xs, y :: ys =>
    @decidable_of_iff _ (x = y ∧ xs = ys) (by simp)
      (@instDecidableAnd _ _ (decEq x y) (decEqItems xs ys))

/-- Equality of field lists is decidable. -/
def decEqFields : (a b : List (String × Json)) → Decidable (a = b)
  | [], [] => isTrue rfl
  | [], _ :: _ | _ :: _, [] => isFalse (by simp)
  | (k, x) :: xs, (l, y) :: ys =>
    @decidable_of_iff _ (k = l ∧ x = y ∧ xs = ys) (by simp [and_assoc])
      (@instDecidableAnd _ _ _ (@instDecidableAnd _ _ (decEq x y) (decEqFields xs ys)))

end

instance : DecidableEq Json := decEq

end Json

/-- The fields of an object, by ascending name. -/
abbrev Fields := List (String × Json)

namespace Fields

/-- The value of a field. -/
def get? (fields : Fields) (name : String) : Option Json := fields.lookup name

/-- Set a field, replacing its value or inserting it at its place in the order of names. -/
def set (name : String) (value : Json) : Fields → Fields
  | [] => [(name, value)]
  | (other, old) :: rest =>
    if name < other then (name, value) :: (other, old) :: rest
    else if name = other then (name, value) :: rest
    else (other, old) :: set name value rest

theorem get?_cons (name other : String) (value : Json) (rest : Fields) :
    get? ((other, value) :: rest) name = if name = other then some value else get? rest name := by
  unfold get?
  rw [List.lookup_cons]
  by_cases h : name = other
  · rw [if_pos h, beq_iff_eq.2 h]
  · rw [if_neg h, beq_eq_false_iff_ne.2 h]

@[simp] theorem get?_set_self (name : String) (value : Json) (fields : Fields) :
    (set name value fields).get? name = some value := by
  fun_induction set name value fields <;> grind [get?_cons, get?]

theorem get?_set_of_ne {name other : String} (h : name ≠ other) (value : Json) (fields : Fields) :
    (set other value fields).get? name = fields.get? name := by
  fun_induction set other value fields <;> grind [get?_cons, get?]

theorem mem_set {name : String} {value : Json} {fields : Fields} {field : String × Json}
    (h : field ∈ set name value fields) : field = (name, value) ∨ field ∈ fields := by
  fun_induction set name value fields <;> grind

/-- The fields whose names are not among `names`. -/
def without (names : List String) (fields : Fields) : Fields :=
  fields.filter fun field => !names.contains field.1

theorem mem_without {names : List String} {fields : Fields} {field : String × Json} :
    field ∈ fields.without names ↔ field ∈ fields ∧ field.1 ∉ names := by
  simp [without]

theorem get?_without_of_not_mem {names : List String} {name : String} (h : name ∉ names)
    (fields : Fields) : (fields.without names).get? name = fields.get? name := by
  induction fields with
  | nil => rfl
  | cons field rest ih => grind [without, get?_cons]

end Fields

namespace Json

/-- An object from fields in any order; of two fields with one name the later counts. -/
def ofFields (fields : List (String × Json)) : Json :=
  .object (fields.foldl (fun acc field => Fields.set field.1 field.2 acc) [])

theorem get?_foldl_set (fields acc : Fields) (name : String) :
    (fields.foldl (fun acc field => Fields.set field.1 field.2 acc) acc).get? name =
      (fields.reverse.lookup name).or (acc.get? name) := by
  induction fields generalizing acc with
  | nil => rfl
  | cons field rest ih =>
    obtain ⟨other, value⟩ := field
    rw [List.foldl_cons, ih, List.reverse_cons, List.lookup_append, Option.or_assoc]
    congr 1
    by_cases h : name = other
    · subst h
      rw [Fields.get?_set_self, List.lookup_cons_self, Option.some_or]
    · rw [Fields.get?_set_of_ne h, List.lookup_cons, beq_eq_false_iff_ne.2 h]
      rfl

/-- The fields of an object. -/
def fields? : Json → Option Fields
  | .object fields => some fields
  | _ => none

/-- The items of an array. -/
def items? : Json → Option (List Json)
  | .array items => some items
  | _ => none

/-- The named field of an object; none for anything else. -/
def get? (j : Json) (name : String) : Option Json := j.fields?.bind (·.get? name)

/-- A field of an object is the last one given under its name. -/
theorem get?_ofFields (fields : List (String × Json)) (name : String) :
    (ofFields fields).get? name = fields.reverse.lookup name :=
  (get?_foldl_set fields [] name).trans Option.or_none

/-! ## Finite documents -/

mutual

/-- No numeral of a document overflows. -/
def isFinite : Json → Bool
  | .overflow _ => false
  | .array items => itemsFinite items
  | .object fields => fieldsFinite fields
  | _ => true

/-- No numeral of the items of an array overflows. -/
def itemsFinite : List Json → Bool
  | [] => true
  | item :: rest => item.isFinite && itemsFinite rest

/-- No numeral of the fields of an object overflows. -/
def fieldsFinite : List (String × Json) → Bool
  | [] => true
  | (_, value) :: rest => value.isFinite && fieldsFinite rest

end

/-- The document itself, if it is finite. -/
def finite? (j : Json) : Option Json := if j.isFinite then some j else none

@[simp] theorem finite?_eq_some_iff {j k : Json} : j.finite? = some k ↔ j.isFinite ∧ j = k := by
  simp [finite?]

theorem fieldsFinite_iff {fields : Fields} :
    fieldsFinite fields ↔ ∀ field ∈ fields, field.2.isFinite := by
  induction fields with
  | nil => simp [fieldsFinite]
  | cons field rest ih => simp [fieldsFinite, ih]

/-- Setting a finite value keeps the fields finite. -/
theorem fieldsFinite_set {fields : Fields} (h : fieldsFinite fields) (name : String) {value : Json}
    (hv : value.isFinite) : fieldsFinite (fields.set name value) := by
  rw [fieldsFinite_iff] at h ⊢
  intro field mem
  rcases Fields.mem_set mem with rfl | mem
  · exact hv
  · exact h field mem

theorem fieldsFinite_without {fields : Fields} (h : fieldsFinite fields) (names : List String) :
    fieldsFinite (fields.without names) := by
  rw [fieldsFinite_iff] at h ⊢
  exact fun field mem => h field (Fields.mem_without.1 mem).1

end Json

end BoardRules
