import Mathlib
import BoardRules.Proofs.Guard.Reading

/-!
# Parsing accepts the grammar

A text that parses is an expression with blanks around it (`SpellsText`), and every such text parses
as this expression; any other text is refused (`parse_spec`).  That offsets never fall inside a
character is an invariant of all readers (`Stands`): what is left over is the text behind the
offset, so the offset lies between two characters, or at an end.
-/

namespace BoardRules.Guard

open Text (isBlank)

variable {code : String} {pos : ℕ} {cs word rest : List Char}

/-! ## Where readers stand -/

/-- That a reader stands between two characters of a text, or at one of its ends: at some offset,
with the characters behind it left over. -/
def Stands (code : String) (pos : ℕ) (rest : List Char) : Prop :=
  ∃ front : String, code = front ++ String.ofList rest ∧ front.utf8ByteSize = pos

namespace Stands

/-- Reading starts at the start. -/
theorem start (code : String) : Stands code 0 code.toList :=
  ⟨"", by rw [String.ofList_toList, String.empty_append], rfl⟩

/-- Whoever passes some characters stands behind them. -/
theorem advance (h : Stands code pos (word ++ rest)) :
    Stands code (pos + byteLength word) rest := by
  obtain ⟨front, rfl, rfl⟩ := h
  refine ⟨front ++ String.ofList word, ?_, ?_⟩
  · rw [String.ofList_append, String.append_assoc]
  · rw [String.utf8ByteSize_append, utf8ByteSize_ofList]

/-- Whoever passes some characters and another one of one byte stands behind it. -/
theorem advance_past {c : Char} (byte : c.utf8Size = 1) (h : Stands code pos (word ++ c :: rest)) :
    Stands code (pos + byteLength word + 1) rest := by
  have split : Stands code pos ((word ++ [c]) ++ rest) := by
    rw [List.append_assoc]
    exact h
  have past := split.advance
  rw [byteLength_append, byteLength, byteLength, byte] at past
  exact past

/-- Somewhere among the characters that are left one may stand as well. -/
theorem exists_of_prefix {front : List Char} (h : Stands code pos cs) (within : front <+: cs) :
    ∃ rest, Stands code (pos + byteLength front) rest := by
  obtain ⟨rest, rfl⟩ := within
  exact ⟨rest, h.advance⟩

/-- The offset is that of a character, or of the end. -/
theorem isValid (h : Stands code pos rest) : (⟨pos⟩ : String.Pos.Raw).IsValid code := by
  obtain ⟨front, rfl, rfl⟩ := h
  exact String.Pos.Raw.isValid_iff_exists_append.2 ⟨front, _, rfl, rfl⟩

/-- The offset does not lie behind the end. -/
theorem le_utf8ByteSize (h : Stands code pos rest) : pos ≤ code.utf8ByteSize := by
  obtain ⟨front, rfl, rfl⟩ := h
  rw [String.utf8ByteSize_append]
  exact Nat.le_add_right _ _

/-- Skipping blanks ends at a boundary of the same code. -/
theorem skipBlanks (h : Stands code pos cs) :
    Stands code (skipBlanks pos cs).1 (skipBlanks pos cs).2 := by
  rcases blanks_or_other cs with blank | ⟨blanks, c, rest, rfl, blank, other⟩
  · rw [skipBlanks_blanks blank]
    rw [← List.append_nil cs] at h
    exact h.advance
  · rw [skipBlanks_append blank pos other]
    exact h.advance

/-- A string ends at a boundary of the same code. -/
theorem takeQuoted (h : Stands code pos cs) {r : Taken (List Char) cs}
    (taken : takeQuoted pos cs = some r) : Stands code r.pos r.rest := by
  have read : readQuoted pos cs = some (r.value, r.pos, r.rest) := by
    rw [readQuoted, taken]
    rfl
  obtain ⟨written, parts, behind, -⟩ := quotes_of_readQuoted read
  rw [parts] at h
  rw [behind]
  exact h.advance_past rfl

/-- An expression ends at a boundary of the same code. -/
theorem takeExpr (h : Stands code pos cs) {r : Taken Expr cs}
    (taken : takeExpr pos cs = .ok r) : Stands code r.pos r.rest := by
  have spec := readsExpr pos cs
  rw [readExpr, taken] at spec
  obtain ⟨value, behind, rest, shorter⟩ := r
  cases spec with
  | read split spells ends =>
    rw [split] at h
    exact h.advance

/-- The items of a list end at a boundary of the same code. -/
theorem takeItems (h : Stands code pos cs) {first : ℕ} {r : Taken (List Expr) cs}
    (taken : takeItems first pos cs = .ok r) : Stands code r.pos r.rest := by
  have spec := readsItems first pos cs
  rw [readItems, taken] at spec
  obtain ⟨value, behind, rest, shorter⟩ := r
  cases spec with
  | read split spells =>
    rw [split] at h
    exact h.advance_past rfl

end Stands

/-! ## Whole texts -/

/-- A text is an expression, with blanks around it. -/
def SpellsText (code : String) (e : Expr) : Prop :=
  ∃ before word behind, code.toList = before ++ word ++ behind ∧
    (∀ c ∈ before, isBlank c = true) ∧ (∀ c ∈ behind, isBlank c = true) ∧
    Spells (byteLength before) word e

/-- Blanks alone do not parse. -/
theorem parse_of_blank (blank : ∀ c ∈ code.toList, isBlank c = true) :
    parse code = .error ⟨0, .emptyCondition⟩ := by
  rw [parse, skipBlanks_blanks blank]

/-- Behind blanks an expression is read, and nothing but blanks may be left over. -/
theorem parse_of_other {blanks : List Char} {c : Char} (parts : code.toList = blanks ++ c :: cs)
    (blank : ∀ c ∈ blanks, isBlank c = true) (other : isBlank c = false) :
    parse code =
      match readExpr (byteLength blanks) (c :: cs) with
      | .error e => .error e
      | .ok (e, pos, rest) =>
        match skipBlanks pos rest with
        | (_, []) => .ok e
        | (pos, _) => .error ⟨pos, .trailingInput⟩ := by
  rw [parse, parts, skipBlanks_append blank 0 other, Nat.zero_add]
  dsimp only
  rw [readExpr]
  cases takeExpr (byteLength blanks) (c :: cs) <;> rfl

/-- What parsing a text may come to. -/
inductive Parses (code : String) : Except Refusal Expr → Prop
  /-- The text is an expression with blanks around it. -/
  | read {e : Expr} (spells : SpellsText code e) : Parses code (.ok e)
  /-- The text is refused at one of its characters, or at its end. -/
  | refused {r : Refusal} {rest : List Char} (here : Stands code r.offset rest) :
      Parses code (.error r)

/-- Parsing comes to one of these. -/
theorem parses (code : String) : Parses code (parse code) := by
  have begins := Stands.start code
  rcases blanks_or_other code.toList with blank | ⟨blanks, c, cs, parts, blank, other⟩
  · rw [parse_of_blank blank]
    exact .refused begins
  · have spec := readsExpr (byteLength blanks) (c :: cs)
    rw [parse_of_other parts blank other]
    generalize readExpr (byteLength blanks) (c :: cs) = outcome at spec
    rw [parts] at begins
    have reached : Stands code (byteLength blanks) (c :: cs) := by
      have passed := begins.advance
      rwa [Nat.zero_add] at passed
    cases spec with
    | @refused front r within here =>
      obtain ⟨rest, stands⟩ := reached.exists_of_prefix within
      rw [← here] at stands
      exact .refused stands
    | @read word rest e split spells ends =>
      dsimp only
      rw [split] at reached
      rcases blanks_or_other rest with trailing | ⟨more, d, tail, rfl, trailing, further⟩
      · rw [skipBlanks_blanks trailing]
        refine .read ⟨blanks, word, rest, ?_, blank, trailing, spells⟩
        rw [parts, split, List.append_assoc]
      · rw [skipBlanks_append trailing _ further]
        exact .refused reached.advance.advance

/-- An expression with blanks around it parses. -/
theorem parse_of_spellsText {e : Expr} (text : SpellsText code e) : parse code = .ok e := by
  obtain ⟨before, word, behind, parts, blank, trailing, spells⟩ := text
  have read := readExpr_of_spells spells behind (.of_blank e trailing)
  obtain ⟨c, tail, rfl, other, -⟩ := spells.starts
  rw [List.append_assoc, List.cons_append] at parts
  rw [List.cons_append] at read
  rw [parse_of_other parts blank other, read]
  dsimp only
  rw [skipBlanks_blanks trailing]

/-- Parsing accepts exactly the texts that are an expression with blanks around it, and gives this
expression, with the offset of its first character at every part of it.  Any other text is refused
at an offset within the text that does not fall inside a character.  And no reader ever stands
inside a character: from wherever it starts between two characters, it leaves off between two, with
what is left of the text behind its offset. -/
theorem parse_spec (code : String) :
    (∀ e, parse code = .ok e ↔ SpellsText code e) ∧
      ((∀ e, ¬ SpellsText code e) → ∃ r, parse code = .error r ∧
        r.offset ≤ code.utf8ByteSize ∧ (⟨r.offset⟩ : String.Pos.Raw).IsValid code) ∧
      Stands code 0 code.toList ∧
      ∀ pos cs, Stands code pos cs →
        Stands code (skipBlanks pos cs).1 (skipBlanks pos cs).2 ∧
        (∀ r, takeQuoted pos cs = some r → Stands code r.pos r.rest) ∧
        (∀ r, takeExpr pos cs = .ok r → Stands code r.pos r.rest) ∧
        ∀ first r, takeItems first pos cs = .ok r → Stands code r.pos r.rest := by
  refine ⟨fun e => ⟨fun parsed => ?_, parse_of_spellsText⟩, fun none => ?_, .start code,
    fun pos cs stands => ?_⟩
  · have spec := parses code
    rw [parsed] at spec
    cases spec with
    | read spells => exact spells
  · have spec := parses code
    generalize parse code = outcome at spec
    cases spec with
    | @read e spells => exact absurd spells (none e)
    | @refused r rest here => exact ⟨r, rfl, here.le_utf8ByteSize, here.isValid⟩
  · exact ⟨stands.skipBlanks, fun r => stands.takeQuoted, fun r => stands.takeExpr,
      fun first r => stands.takeItems⟩

/-- A list with an escaped quotation mark behind a character of two bytes, and a text with something
left over behind the list. -/
theorem parse_spec_of_texts :
    SpellsText " (eq \"é\\\"\" x)" (.list 1 (.token 2 "eq") [.quoted 5 "é\"", .token 12 "x"]) ∧
      (∀ e, ¬ SpellsText "(self)é" e) ∧
      ∃ r, parse "(self)é" = .error r ∧ r.offset ≤ "(self)é".utf8ByteSize ∧
        (⟨r.offset⟩ : String.Pos.Raw).IsValid "(self)é" := by
  have parsed : parse " (eq \"é\\\"\" x)" =
      .ok (.list 1 (.token 2 "eq") [.quoted 5 "é\"", .token 12 "x"]) := by cbv
  have trailing : parse "(self)é" = .error ⟨6, .trailingInput⟩ := by cbv
  have none : ∀ e, ¬ SpellsText "(self)é" e := by
    intro e spells
    cases trailing.symm.trans (((parse_spec _).1 e).2 spells)
  exact ⟨((parse_spec _).1 _).1 parsed, none, (parse_spec _).2.1 none⟩

end BoardRules.Guard
