import Mathlib
import BoardRules.Guard.Value
import BoardRules.Proofs.Text.Numeral

/-!
# How values are read

A guard reads a value as an integer, as a truth value, or compares it with another value.  A text
goes through a different reader each time: integers are read within 64 bits, truth looks for a few
words and then for a binary64 zero, and a comparison with an integer reads an integer but one with a
text compares characters.  These readings agree.

Texts that are read as integers are numerals between blanks (`Value.toInt?_text_eq_some_iff`).  A
numeral is none of the words, and both number readers take it for zero if all its digits are zeros,
so a value that counts as an integer is true exactly if the integer is not zero
(`Value.isTrue_iff_of_toInt?`).  Two values agree if they are the same or if one of them is an
integer and both are read as this integer (`Value.agrees_iff`), from which the laws of agreement can
be read off.
-/

namespace BoardRules.Guard.Value

open Text (isBlank trim Numeral readInt?_eq_some_iff)

variable {v : Value} {s : String} {cs : List Char} {n : ℤ}

/-! ## Integers -/

/-- The numeral in a text that is read as an integer. -/
theorem numeral_of_toInt? (reads : (text s).toInt? = some n) : Numeral (trim s.toList) n :=
  (readInt?_eq_some_iff.1 reads).1

/-- A text is read as an integer of 64 bits if it is a numeral between blanks. -/
theorem toInt?_text_eq_some_iff :
    (text s).toInt? = some n ↔
      (∃ before numeral behind, s.toList = before ++ numeral ++ behind ∧
        (∀ c ∈ before, isBlank c = true) ∧ (∀ c ∈ behind, isBlank c = true) ∧
        Numeral numeral n) ∧ -2 ^ 63 ≤ n ∧ n < 2 ^ 63 := by
  have read : (text s).toInt? = some n ↔ Numeral (trim s.toList) n ∧ -2 ^ 63 ≤ n ∧ n < 2 ^ 63 :=
    readInt?_eq_some_iff
  rw [read]
  refine and_congr_left' ⟨fun numeral => ?_, ?_⟩
  · obtain ⟨before, behind, parts, front, back⟩ := Text.exists_blanks_trim s.toList
    exact ⟨before, _, behind, parts, front, back, numeral⟩
  · rintro ⟨before, numeral, behind, parts, front, back, stands⟩
    rwa [parts, Text.trim_of_plain front back stands.ne_nil stands.plain]

/-! ## Truth -/

/-- A numeral is true if it does not stand for zero. -/
theorem isTrueText_of_numeral (numeral : Numeral cs n) : isTrueText cs = true ↔ n ≠ 0 := by
  have no_word : ¬(cs = [] ∨ cs = "false".toList ∨ cs = "null".toList) := by
    obtain ⟨c, hc, digit⟩ := numeral.exists_isDigit
    have letters : ∀ c ∈ "false".toList ++ "null".toList, c.isDigit = false := by simp
    rintro (rfl | rfl | rfl)
    · exact List.not_mem_nil hc
    · exact Bool.eq_false_iff.1 (letters c (List.mem_append_left _ hc)) digit
    · exact Bool.eq_false_iff.1 (letters c (List.mem_append_right _ hc)) digit
  have digits := (Text.numeral_iff.1 numeral).1
  rw [isTrueText, if_neg no_word, Bool.not_eq_true', Bool.eq_false_iff, ne_eq, ne_eq,
    Text.isZeroNumeral_iff digits, numeral.eq_zero_iff]

/-- A value that is read as an integer is true if this is not zero. -/
theorem isTrue_iff_of_toInt? (reads : v.toInt? = some n) : v.isTrue = true ↔ n ≠ 0 := by
  cases v with
  | null | piece | player => exact nomatch reads
  | bool b =>
    obtain rfl := Option.some.inj reads
    cases b <;> decide
  | int m =>
    obtain rfl := Option.some.inj reads
    exact decide_eq_true_iff
  | text s => exact isTrueText_of_numeral (numeral_of_toInt? reads)

/-! ## Agreement -/

/-- Values agree that are the same, or of which one is an integer and the other is read as it. -/
theorem agrees_iff {a b : Value} :
    a.agrees b = true ↔
      a = b ∨ ∃ n, (a = .int n ∨ b = .int n) ∧ a.toInt? = some n ∧ b.toInt? = some n := by
  cases a <;> cases b <;> simp only [agrees, decide_eq_true_eq] <;> simp [toInt?]
  -- two integers are left
  omega

/-- An integer agrees with whatever is read as this integer. -/
theorem int_agrees_iff : (int n).agrees v = true ↔ v.toInt? = some n := by
  rw [agrees_iff]
  constructor
  · rintro (rfl | ⟨m, -, same, reads⟩)
    · rfl
    · exact reads.trans same.symm
  · exact fun reads => .inr ⟨n, .inl rfl, rfl, reads⟩

/-- The readings of values agree.  Agreement of values is reflexive and symmetric, and values that
agree have the same truth and are read as the same integer, if as any.  An integer agrees with
whatever is read as this integer, and this is true exactly if the integer is not zero.  The texts
that are read as an integer are, for all integers of 64 bits, those of an optional sign and digits,
leading zeros included, with any blanks around them. -/
theorem readings_spec (a b : Value) :
    a.agrees a = true ∧ a.agrees b = b.agrees a ∧
      (a.agrees b = true → a.isTrue = b.isTrue ∧ a.toInt? = b.toInt?) ∧
      (∀ n, (int n).agrees a = true ↔ a.toInt? = some n) ∧
      (∀ n, a.toInt? = some n → (a.isTrue = true ↔ n ≠ 0)) ∧
      ∀ s n, (text s).toInt? = some n ↔
        (∃ before numeral behind, s.toList = before ++ numeral ++ behind ∧
          (∀ c ∈ before, isBlank c = true) ∧ (∀ c ∈ behind, isBlank c = true) ∧
          Numeral numeral n) ∧ -2 ^ 63 ≤ n ∧ n < 2 ^ 63 := by
  refine ⟨agrees_iff.2 (.inl rfl), ?_, ?_, fun n => int_agrees_iff,
    fun n => isTrue_iff_of_toInt?, fun s n => toInt?_text_eq_some_iff⟩
  · rw [Bool.eq_iff_iff, agrees_iff, agrees_iff]
    exact or_congr eq_comm (exists_congr fun n => and_congr or_comm and_comm)
  · intro agree
    rcases agrees_iff.1 agree with rfl | ⟨n, -, readsA, readsB⟩
    · exact ⟨rfl, rfl⟩
    · refine ⟨Bool.eq_iff_iff.2 ?_, readsA.trans readsB.symm⟩
      rw [isTrue_iff_of_toInt? readsA, isTrue_iff_of_toInt? readsB]

/-- Minus seven between wide blanks and with leading zeros agrees with the integer. -/
theorem readings_of_padded_numeral :
    (text "\u2003-0007\u3000").agrees (int (-7)) = true ∧
      (text "\u2003-0007\u3000").isTrue = (int (-7)).isTrue ∧
      (text "\u2003-0007\u3000").toInt? = (int (-7)).toInt? ∧
      (int (-7)).toInt? = some (-7) ∧ ((text "\u2003-0007\u3000").isTrue = true ↔ (-7 : ℤ) ≠ 0) := by
  have agree : (text "\u2003-0007\u3000").agrees (int (-7)) = true := by cbv
  have reads : (int (-7)).toInt? = some (-7) := rfl
  obtain ⟨-, -, same, -, truth, -⟩ := readings_spec (text "\u2003-0007\u3000") (int (-7))
  obtain ⟨sameTruth, sameInt⟩ := same agree
  exact ⟨agree, sameTruth, sameInt, reads, truth _ (sameInt.trans reads)⟩

end BoardRules.Guard.Value
