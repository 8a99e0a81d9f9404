import Mathlib
import BoardRules.Guard.Reader
import BoardRules.Proofs.Text.Numeral

/-!
# The grammar of guards

An expression is a quoted text, a bare token or a list in parentheses.  `Spells` says which
characters spell an expression whose first character stands at some offset, and `SpellsItems` which
characters stand between the parentheses of a list: blanks may precede each item and the closing
parenthesis, and need not.  Since items may follow each other without a blank, a bare token must be
told where it ends: it takes as many token characters as there are (`Expr.EndsBefore`).

No blank starts an expression, nor does a closing parenthesis (`Spells.starts`), and behind blanks
or before a closing parenthesis every expression ends (`EndsBefore.of_blank`,
`EndsBefore.closing`).  So the characters of an expression can be told from what surrounds them.
-/

namespace BoardRules.Guard

open Text (isBlank)

/-! ## Characters -/

/-- Tokens are made of visible characters. -/
theorem visible_of_isTokenChar {c : Char} (token : isTokenChar c = true) :
    0x20 < c.toNat ∧ c.toNat < 0x7F := by
  simp only [isTokenChar, Char.isAlphanum, Char.isAlpha, Char.isUpper, Char.isLower, Char.isDigit,
    Bool.or_eq_true, Bool.and_eq_true, decide_eq_true_eq, UInt32.le_iff_toNat_le, ge_iff_le]
    at token
  change ((((((65 ≤ c.toNat ∧ c.toNat ≤ 90) ∨ (97 ≤ c.toNat ∧ c.toNat ≤ 122)) ∨
    (48 ≤ c.toNat ∧ c.toNat ≤ 57)) ∨ c = '_') ∨ c = '-') ∨ c = '.') at token
  rcases token with ((((upper | lower) | digit) | rfl) | rfl) | rfl
  · omega
  · omega
  · omega
  all_goals decide

/-- A blank is not a character of tokens. -/
theorem isTokenChar_of_isBlank {c : Char} (blank : isBlank c = true) : isTokenChar c = false := by
  rw [Bool.eq_false_iff]
  intro token
  have visible := visible_of_isTokenChar token
  rw [Text.isBlank_of_visible visible.1 visible.2] at blank
  exact nomatch blank

/-- Offsets count the bytes of a text. -/
theorem utf8ByteSize_ofList (cs : List Char) : (String.ofList cs).utf8ByteSize = byteLength cs := by
  rw [String.utf8ByteSize_ofList]
  induction cs with
  | nil => rfl
  | cons c rest ih => rw [String.utf8Len, ih, byteLength, Nat.add_comm]

/-- Where an expression ends that is enclosed in two characters of one byte each. -/
theorem offset_enclosed (c d : Char) (opens : c.utf8Size = 1) (closes : d.utf8Size = 1) (pos : ℕ)
    (cs : List Char) : pos + 1 + byteLength cs + 1 = pos + byteLength (c :: (cs ++ [d])) := by
  rw [byteLength, byteLength_append, byteLength, byteLength, opens, closes]
  omega

/-- Where further items end behind an item and the blanks before it. -/
theorem offset_items (pos : ℕ) (blanks word inner : List Char) :
    pos + byteLength blanks + byteLength word + byteLength inner =
      pos + byteLength (blanks ++ (word ++ inner)) := by
  rw [byteLength_append, byteLength_append]
  omega

/-! ## Expressions -/

/-- The characters between quotation marks, and the text they stand for: a backslash stands for the
character behind it. -/
inductive Quotes : List Char → List Char → Prop
  /-- Nothing stands for the empty text. -/
  | nil : Quotes [] []
  /-- A character stands for itself. -/
  | plain {c : Char} {written text : List Char} (unquoted : c ≠ '"') (bare : c ≠ '\\')
      (rest : Quotes written text) : Quotes (c :: written) (c :: text)
  /-- A backslash lets any character stand for itself. -/
  | escaped {c : Char} {written text : List Char} (rest : Quotes written text) :
      Quotes ('\\' :: c :: written) (c :: text)

/-- A bare token ends where the token characters end; other expressions tell their end
themselves. -/
def Expr.EndsBefore : Expr → List Char → Prop
  | .token _ _, rest => ∀ c ∈ rest.head?, isTokenChar c = false
  | _, _ => True

mutual

/-- The characters that spell an expression whose first character stands at an offset. -/
inductive Spells : ℕ → List Char → Expr → Prop
  /-- A text in quotation marks. -/
  | quoted {pos : ℕ} {written text : List Char} (content : Quotes written text) :
      Spells pos ('"' :: (written ++ ['"'])) (.quoted pos (String.ofList text))
  /-- A run of token characters. -/
  | token {pos : ℕ} {c : Char} {word : List Char} (chars : ∀ d ∈ c :: word, isTokenChar d = true) :
      Spells pos (c :: word) (.token pos (String.ofList (c :: word)))
  /-- A list of at least one item. -/
  | list {pos : ℕ} {inner : List Char} {head : Expr} {rest : List Expr}
      (items : SpellsItems (pos + 1) inner (head :: rest)) :
      Spells pos ('(' :: (inner ++ [')'])) (.list pos head rest)

/-- The characters from an offset up to a closing parenthesis that spell items. -/
inductive SpellsItems : ℕ → List Char → List Expr → Prop
  /-- No item, but blanks. -/
  | nil {pos : ℕ} {blanks : List Char} (blank : ∀ c ∈ blanks, isBlank c = true) :
      SpellsItems pos blanks []
  /-- Blanks, an item up to its end, and further items. -/
  | cons {pos : ℕ} {blanks word inner : List Char} {item : Expr} {items : List Expr}
      (blank : ∀ c ∈ blanks, isBlank c = true)
      (first : Spells (pos + byteLength blanks) word item) (ends : item.EndsBefore inner)
      (more : SpellsItems (pos + byteLength blanks + byteLength word) inner items) :
      SpellsItems pos (blanks ++ (word ++ inner)) (item :: items)

end

variable {pos : ℕ} {word rest : List Char} {e : Expr}

/-- An expression starts with a character that is neither blank nor a closing parenthesis. -/
theorem Spells.starts (h : Spells pos word e) :
    ∃ c tail, word = c :: tail ∧ isBlank c = false ∧ c ≠ ')' := by
  cases h with
  | quoted content => exact ⟨_, _, rfl, by decide, by decide⟩
  | @token _ c word chars =>
    have first : isTokenChar c = true := chars c List.mem_cons_self
    refine ⟨c, word, rfl, ?_, ?_⟩
    · rw [Bool.eq_false_iff]
      intro blank
      exact absurd (isTokenChar_of_isBlank blank) (by simp [first])
    · rintro rfl
      exact absurd first (by decide)
  | list items => exact ⟨_, _, rfl, by decide, by decide⟩

namespace Expr.EndsBefore

/-- Before blanks every expression ends. -/
theorem of_blank (e : Expr) (blank : ∀ c ∈ rest, isBlank c = true) : e.EndsBefore rest := by
  cases e with
  | token offset text =>
    intro c hc
    exact isTokenChar_of_isBlank (blank c (List.mem_of_head? hc))
  | quoted offset text => trivial
  | list offset head tail => trivial

/-- Whatever ends before some characters ends before them and a closing parenthesis. -/
theorem closing (h : e.EndsBefore rest) (behind : List Char) :
    e.EndsBefore (rest ++ ')' :: behind) := by
  cases e with
  | token offset text =>
    cases rest with
    | nil =>
      intro c hc
      obtain rfl := Option.some.inj hc
      decide
    | cons d rest => exact h
  | quoted offset text => trivial
  | list offset head tail => trivial

/-- Whatever ends before some characters ends before any first part of them. -/
theorem of_append {front behind : List Char} (h : e.EndsBefore (front ++ behind)) :
    e.EndsBefore front := by
  cases e with
  | token offset text =>
    cases front with
    | nil => exact fun c hc => nomatch hc
    | cons d front => exact h
  | quoted offset text => trivial
  | list offset head tail => trivial

end Expr.EndsBefore

end BoardRules.Guard
