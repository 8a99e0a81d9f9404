import Mathlib
import BoardRules.Text.Blank
import BoardRules.Text.Numeral

/-!
# Numerals and the blanks around them

An integer is written as a sign, which may be missing, and decimal digits (`Numeral`).  Two readers
meet such texts.  `readInt?` accepts them and nothing else, as far as 64 bits reach
(`readInt?_eq_some_iff`).  `isZeroNumeral` accepts points and exponents too and rounds as binary64
numbers do, but without these there is nothing to round: it finds zero exactly if all digits are
zeros (`isZeroNumeral_iff`), which is when the integer is zero (`Numeral.eq_zero_iff`).

Trimming takes blanks off both ends (`exists_blanks_trim`), and it takes all of them: a text without
blanks comes back from between blanks (`trim_of_plain`).
-/

namespace BoardRules.Text

/-! ## Blanks -/

variable {before cs behind : List Char} {c : Char}

/-- No visible character of ASCII is blank. -/
theorem isBlank_of_visible (low : 0x20 < c.toNat) (high : c.toNat < 0x7F) : isBlank c = false := by
  simp only [isBlank, blankRanges, List.any_cons, List.any_nil, Bool.or_eq_false_iff,
    Bool.and_eq_false_iff, decide_eq_false_iff_not, and_true]
  omega

/-- No digit is a blank. -/
theorem isBlank_of_isDigit (digit : c.isDigit = true) : isBlank c = false := by
  have bounds : 0x30 ≤ c.toNat ∧ c.toNat ≤ 0x39 := Char.isDigit_iff_toNat.1 digit
  exact isBlank_of_visible (by omega) (by omega)

/-- What trimming takes off is blank. -/
theorem exists_blanks_trim (cs : List Char) :
    ∃ before behind, cs = before ++ trim cs ++ behind ∧ (∀ c ∈ before, isBlank c = true) ∧
      ∀ c ∈ behind, isBlank c = true := by
  have front : cs.takeWhile isBlank ++ trimLeft cs = cs := List.takeWhile_append_dropWhile
  have back : trim cs ++ (trimLeft cs).rtakeWhile isBlank = trimLeft cs :=
    List.rdropWhile_append_rtakeWhile
  refine ⟨cs.takeWhile isBlank, (trimLeft cs).rtakeWhile isBlank, ?_,
    fun c => List.mem_takeWhile_imp, fun c => List.mem_rtakeWhile_imp⟩
  rw [List.append_assoc, back, front]

/-- Leading blanks are dropped up to a character that is not blank. -/
theorem trimLeft_of_plain (blank : ∀ c ∈ before, isBlank c = true) (ne_nil : cs ≠ [])
    (plain : ∀ c ∈ cs, isBlank c = false) : trimLeft (before ++ cs ++ behind) = cs ++ behind := by
  obtain ⟨c, rest, rfl⟩ := List.exists_cons_of_ne_nil ne_nil
  have first : isBlank c = false := plain c List.mem_cons_self
  rw [List.append_assoc, trimLeft, List.dropWhile_append_of_pos blank, List.cons_append,
    List.dropWhile_cons_of_neg (by simp [first])]

/-- Trimming gives back a text without blanks that has blanks around it. -/
theorem trim_of_plain (front : ∀ c ∈ before, isBlank c = true)
    (back : ∀ c ∈ behind, isBlank c = true) (ne_nil : cs ≠ [])
    (plain : ∀ c ∈ cs, isBlank c = false) : trim (before ++ cs ++ behind) = cs := by
  have backwards : trimLeft (behind.reverse ++ cs.reverse ++ []) = cs.reverse ++ [] :=
    trimLeft_of_plain (by simpa using back) (by simpa using ne_nil) (by simpa using plain)
  rw [List.append_nil, List.append_nil] at backwards
  rw [trim, trimLeft_of_plain front ne_nil plain, List.reverse_append, backwards,
    List.reverse_reverse]

/-! ## Digits -/

/-- One or more decimal digits. -/
structure Digits (ds : List Char) : Prop where
  ne_nil : ds ≠ []
  isDigit : ∀ c ∈ ds, c.isDigit = true

variable {ds : List Char}

/-- The digits that are read, as the reader tests for them. -/
theorem digits_iff : Digits ds ↔ ¬(ds.isEmpty = true ∨ (!ds.all Char.isDigit) = true) := by
  rw [not_or, List.isEmpty_iff, Bool.not_eq_true', Bool.not_eq_false, List.all_eq_true]
  exact ⟨fun h => ⟨h.ne_nil, h.isDigit⟩, fun h => ⟨h.1, h.2⟩⟩

/-- The value of digits is the one that the library gives them. -/
theorem digitsValue_eq (ds : List Char) : digitsValue ds = Nat.ofDigitChars 10 ds 0 := by
  simp only [digitsValue, Nat.ofDigitChars, Nat.mul_comm]

/-- Only zeros have the value zero. -/
theorem ofDigitChars_eq_zero_iff (digits : ∀ c ∈ ds, c.isDigit = true) :
    Nat.ofDigitChars 10 ds 0 = 0 ↔ ∀ c ∈ ds, c = '0' := by
  induction ds with
  | nil => simp
  | cons c ds ih =>
    have first : '0'.toNat ≤ c.toNat :=
      (Char.isDigit_iff_toNat.1 (digits c List.mem_cons_self)).1
    have zero : c.toNat - '0'.toNat = 0 ↔ c = '0' := by
      rw [← Char.toNat_inj]
      omega
    rw [Nat.ofDigitChars_cons, Nat.ofDigitChars_eq_ofDigitChars_zero, Nat.add_eq_zero_iff,
      ih fun d hd => digits d (List.mem_cons_of_mem c hd), List.forall_mem_cons, ← zero]
    simp

/-- Digits have no sign in front of them. -/
theorem splitSign_of_digits (digits : Digits ds) : splitSign ds = (false, ds) := by
  obtain ⟨c, rest, rfl⟩ := List.exists_cons_of_ne_nil digits.ne_nil
  have first := digits.isDigit c List.mem_cons_self
  unfold splitSign
  split
  · simp_all
  · simp_all
  · rfl

/-! ## Integers -/

/-- An integer in writing: a sign, which may be missing, and decimal digits. -/
inductive Numeral : List Char → ℤ → Prop
  | bare {ds : List Char} (digits : Digits ds) : Numeral ds (Nat.ofDigitChars 10 ds 0)
  | plus {ds : List Char} (digits : Digits ds) : Numeral ('+' :: ds) (Nat.ofDigitChars 10 ds 0)
  | minus {ds : List Char} (digits : Digits ds) : Numeral ('-' :: ds) (-Nat.ofDigitChars 10 ds 0)

variable {n : ℤ}

/-- What is left of a numeral without its sign. -/
theorem numeral_iff :
    Numeral cs n ↔ Digits (splitSign cs).2 ∧
      (if (splitSign cs).1 then -(digitsValue (splitSign cs).2 : ℤ)
        else digitsValue (splitSign cs).2) = n := by
  constructor
  · intro numeral
    cases numeral with
    | bare digits => simp [splitSign_of_digits digits, digits, digitsValue_eq]
    | plus digits => exact ⟨digits, by simp [splitSign, digitsValue_eq]⟩
    | minus digits => exact ⟨digits, by simp [splitSign, digitsValue_eq]⟩
  · rintro ⟨digits, rfl⟩
    rw [digitsValue_eq]
    revert digits
    fun_cases splitSign cs with
    | case1 rest => exact .minus
    | case2 rest => exact .plus
    | case3 => exact .bare

/-- Numerals are read as integers if these fit in 64 bits, and nothing else is. -/
theorem readInt?_eq_some_iff :
    readInt? cs = some n ↔ Numeral cs n ∧ -2 ^ 63 ≤ n ∧ n < 2 ^ 63 := by
  rw [numeral_iff, digits_iff]
  simp only [readInt?, Option.ite_none_left_eq_some, Option.ite_none_right_eq_some,
    Option.some.injEq, Int64.toInt_minValue, Int64.toInt_maxValue, Int.le_sub_one_iff]
  constructor
  · rintro ⟨digits, bounds, rfl⟩
    exact ⟨⟨digits, rfl⟩, bounds⟩
  · rintro ⟨⟨digits, rfl⟩, bounds⟩
    exact ⟨digits, bounds, rfl⟩

namespace Numeral

variable (numeral : Numeral cs n)
include numeral

/-- No numeral is a word. -/
theorem exists_isDigit : ∃ c ∈ cs, c.isDigit = true := by
  have some_digit {ds : List Char} (digits : Digits ds) : ∃ c ∈ ds, c.isDigit = true :=
    (List.exists_mem_of_ne_nil ds digits.ne_nil).imp fun c hc => ⟨hc, digits.isDigit c hc⟩
  cases numeral with
  | bare digits => exact some_digit digits
  | plus digits | minus digits =>
    obtain ⟨c, hc, digit⟩ := some_digit digits
    exact ⟨c, List.mem_cons_of_mem _ hc, digit⟩

theorem ne_nil : cs ≠ [] := by
  obtain ⟨c, hc, -⟩ := numeral.exists_isDigit
  exact List.ne_nil_of_mem hc

/-- Numerals have no blanks. -/
theorem plain : ∀ c ∈ cs, isBlank c = false := by
  cases numeral with
  | bare digits => exact fun c hc => isBlank_of_isDigit (digits.isDigit c hc)
  | plus digits | minus digits =>
    refine List.forall_mem_cons.2 ⟨by decide, fun c hc => ?_⟩
    exact isBlank_of_isDigit (digits.isDigit c hc)

/-- The integer is zero if the digits are. -/
theorem eq_zero_iff : n = 0 ↔ ∀ c ∈ (splitSign cs).2, c = '0' := by
  obtain ⟨digits, rfl⟩ := numeral_iff.1 numeral
  rw [← ofDigitChars_eq_zero_iff digits.isDigit, digitsValue_eq]
  split_ifs <;> omega

end Numeral

/-! ## Zeros -/

/-- Without a point and an exponent, the digits are all there is to a decimal numeral. -/
theorem readDecimal?_of_digits (digits : Digits ds) : readDecimal? ds = some (ds, 0) := by
  have whole : ds.takeWhile Char.isDigit = ds := List.takeWhile_eq_self_iff.2 digits.isDigit
  have rest : ds.dropWhile Char.isDigit = [] := List.dropWhile_eq_nil_iff.2 digits.isDigit
  simp [readDecimal?, whole, rest, digits.ne_nil, readExponent?]

/-- An integer in writing is found to be zero exactly if all its digits are zeros. -/
theorem isZeroNumeral_iff (digits : Digits (splitSign cs).2) :
    isZeroNumeral cs = true ↔ ∀ c ∈ (splitSign cs).2, c = '0' := by
  rw [isZeroNumeral, readDecimal?_of_digits digits, ← ofDigitChars_eq_zero_iff digits.isDigit,
    ← digitsValue_eq]
  simp [roundsToZero]

end BoardRules.Text
