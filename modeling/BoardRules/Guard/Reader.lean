import BoardRules.Guard.Syntax
import BoardRules.Text.Blank

/-!
# Reading guards

One pass from left to right over the characters, by recursive descent. Every reading step leaves a
shorter text than it was given, which is why reading ends.
-/

namespace BoardRules.Guard

open Text (isBlank)

/-- What reading a part of `input` gives: a value, the offset behind it and the text left over. -/
structure Taken (α : Type) (input : List Char) where
  value : α
  pos : Nat
  rest : List Char
  shorter : rest.length < input.length

/-- The characters of bare tokens. -/
def isTokenChar (c : Char) : Bool := c.isAlphanum || c = '_' || c = '-' || c = '.'

/-- The length of characters in bytes of UTF-8. -/
def byteLength : List Char → Nat
  | [] => 0
  | c :: rest => c.utf8Size + byteLength rest

theorem byteLength_append (cs ds : List Char) :
    byteLength (cs ++ ds) = byteLength cs + byteLength ds := by
  induction cs with
  | nil => exact (Nat.zero_add _).symm
  | cons c rest ih => rw [List.cons_append, byteLength, byteLength, ih, Nat.add_assoc]

/-- Drop blanks, moving the offset along. -/
def skipBlanks (pos : Nat) : List Char → Nat × List Char
  | [] => (pos, [])
  | c :: rest => if isBlank c then skipBlanks (pos + c.utf8Size) rest else (pos, c :: rest)

theorem length_skipBlanks_le (pos : Nat) (cs : List Char) :
    (skipBlanks pos cs).2.length ≤ cs.length := by
  fun_induction skipBlanks pos cs <;> grind

/-- Read to the closing quotation mark. A backslash stands for the character behind it. -/
def takeQuoted (pos : Nat) : (cs : List Char) → Option (Taken (List Char) cs)
  | [] => none
  | ['\\'] => none
  | '"' :: rest => some ⟨[], pos + 1, rest, by simp⟩
  | '\\' :: c :: rest =>
    (takeQuoted (pos + 1 + c.utf8Size) rest).map fun r =>
      ⟨c :: r.value, r.pos, r.rest, by have := r.shorter; simp; omega⟩
  | c :: rest =>
    (takeQuoted (pos + c.utf8Size) rest).map fun r =>
      ⟨c :: r.value, r.pos, r.rest, by have := r.shorter; simp; omega⟩

theorem length_dropWhile_le (p : Char → Bool) (cs : List Char) :
    (cs.dropWhile p).length ≤ cs.length :=
  (List.dropWhile_sublist p).length_le

/-- Read a bare token whose first character is `c`. -/
def takeToken (pos : Nat) (c : Char) (rest : List Char) : Taken Expr (c :: rest) :=
  let word := c :: rest.takeWhile isTokenChar
  { value := .token pos (String.ofList word)
    pos := pos + byteLength word
    rest := rest.dropWhile isTokenChar
    shorter := Nat.lt_succ_of_le (length_dropWhile_le isTokenChar rest) }

mutual

/-- Read one expression, which starts right here. -/
def takeExpr (pos : Nat) (cs : List Char) : Except Refusal (Taken Expr cs) :=
  match cs with
  | [] => .error ⟨pos, .unexpectedEnd⟩
  | c :: rest =>
    if c = '(' then
      match takeItems pos (pos + 1) rest with
      | .error e => .error e
      | .ok r =>
        match r.value with
        | [] => .error ⟨pos, .emptyList⟩
        | head :: tail =>
          .ok ⟨.list pos head tail, r.pos, r.rest, by have := r.shorter; simp; omega⟩
    else if c = '"' then
      match takeQuoted (pos + 1) rest with
      | none => .error ⟨pos, .unterminatedString⟩
      | some r =>
        .ok ⟨.quoted pos (String.ofList r.value), r.pos, r.rest,
          by have := r.shorter; simp; omega⟩
    else if isTokenChar c then .ok (takeToken pos c rest)
    else .error ⟨pos, .unexpectedCharacter c⟩
termination_by 2 * cs.length

/-- Read the items of the list that was opened at `start`, and its closing parenthesis. -/
def takeItems (start pos : Nat) (cs : List Char) : Except Refusal (Taken (List Expr) cs) :=
  have skipped := length_skipBlanks_le pos cs
  match h : skipBlanks pos cs with
  | (_, []) => .error ⟨start, .unterminatedList⟩
  | (pos, c :: rest) =>
    have short : rest.length + 1 ≤ cs.length := by rw [h] at skipped; exact skipped
    if c = ')' then .ok ⟨[], pos + 1, rest, short⟩
    else
      match takeExpr pos (c :: rest) with
      | .error e => .error e
      | .ok first =>
        have nearer : first.rest.length < rest.length + 1 := first.shorter
        match takeItems start first.pos first.rest with
        | .error e => .error e
        | .ok more =>
          .ok ⟨first.value :: more.value, more.pos, more.rest, by have := more.shorter; omega⟩
termination_by 2 * cs.length + 1

end

/-- Read a whole text as one expression, with blanks around it. -/
def parse (code : String) : Except Refusal Expr :=
  match skipBlanks 0 code.toList with
  | (_, []) => .error ⟨0, .emptyCondition⟩
  | (pos, cs) =>
    match takeExpr pos cs with
    | .error e => .error e
    | .ok r =>
      match skipBlanks r.pos r.rest with
      | (_, []) => .ok r.value
      | (pos, _) => .error ⟨pos, .trailingInput⟩

end BoardRules.Guard
