import Mathlib
import BoardRules.Proofs.Guard.Grammar

/-!
# Readers of the grammar

The readers of guards go through the characters from left to right.  Their results carry the reason
why less text is left, and nothing else depends on it, so here they are looked at without it
(`readQuoted`, `readExpr`, `readItems`), each with one equation for every part of the grammar.

What a reader comes to follows the grammar: an expression spelled by the characters in front of what
is left, or a refusal at one of the characters (`readsExpr`, `readsItems`).  Conversely, characters
that spell an expression are read up to where it ends, whatever stands behind it
(`readExpr_of_spells`, `readItems_of_spells`).  The first is an induction on the length of the text,
the second one on how the expression is spelled.
-/

namespace BoardRules.Guard

open Text (isBlank)

variable {pos start : ℕ} {cs blanks word rest : List Char}

/-! ## Blanks -/

/-- Blanks are skipped up to the first other character. -/
theorem skipBlanks_append (blank : ∀ c ∈ blanks, isBlank c = true) (pos : ℕ) {c : Char}
    (other : isBlank c = false) (rest : List Char) :
    skipBlanks pos (blanks ++ c :: rest) = (pos + byteLength blanks, c :: rest) := by
  induction blanks generalizing pos with
  | nil => rw [List.nil_append, skipBlanks, if_neg (by simp [other])]; rfl
  | cons d blanks ih =>
    have first : isBlank d = true := blank d List.mem_cons_self
    have more := ih (fun c hc => blank c (List.mem_cons_of_mem d hc)) (pos + d.utf8Size)
    rw [List.cons_append, skipBlanks, if_pos first, more, byteLength, Nat.add_assoc]

/-- Blanks alone are skipped to their end. -/
theorem skipBlanks_blanks (blank : ∀ c ∈ blanks, isBlank c = true) (pos : ℕ) :
    skipBlanks pos blanks = (pos + byteLength blanks, []) := by
  induction blanks generalizing pos with
  | nil => rfl
  | cons d blanks ih =>
    have first : isBlank d = true := blank d List.mem_cons_self
    have more := ih (fun c hc => blank c (List.mem_cons_of_mem d hc)) (pos + d.utf8Size)
    rw [skipBlanks, if_pos first, more, byteLength, Nat.add_assoc]

/-- Characters are blanks, or blanks and some other character behind them. -/
theorem blanks_or_other (cs : List Char) :
    (∀ c ∈ cs, isBlank c = true) ∨
      ∃ blanks c rest, cs = blanks ++ c :: rest ∧ (∀ c ∈ blanks, isBlank c = true) ∧
        isBlank c = false := by
  induction cs with
  | nil => exact Or.inl fun c hc => absurd hc List.not_mem_nil
  | cons d cs ih =>
    cases first : isBlank d with
    | false => exact Or.inr ⟨[], d, cs, rfl, fun c hc => absurd hc List.not_mem_nil, first⟩
    | true =>
      rcases ih with blank | ⟨blanks, c, rest, rfl, blank, other⟩
      · exact Or.inl (List.forall_mem_cons.2 ⟨first, blank⟩)
      · exact Or.inr ⟨d :: blanks, c, rest, rfl, List.forall_mem_cons.2 ⟨first, blank⟩, other⟩

/-- Characters begin with a run of token characters that ends where they end, or before some other
character. -/
theorem exists_run (cs : List Char) :
    ∃ word rest, cs = word ++ rest ∧ (∀ c ∈ word, isTokenChar c = true) ∧
      ∀ c ∈ rest.head?, isTokenChar c = false := by
  refine ⟨cs.takeWhile isTokenChar, cs.dropWhile isTokenChar,
    List.takeWhile_append_dropWhile.symm, fun c hc => List.mem_takeWhile_imp hc, fun c hc => ?_⟩
  have stops := List.head?_dropWhile_not isTokenChar cs
  rw [Option.mem_def.1 hc] at stops
  simpa using stops

/-! ## Readers -/

/-- What is read, without the reason why less text is left: a value, the offset behind it and the
text left over. -/
def Taken.parts {α : Type} {input : List Char} (t : Taken α input) : α × ℕ × List Char :=
  (t.value, t.pos, t.rest)

/-- Read to the closing quotation mark. -/
def readQuoted (pos : ℕ) (cs : List Char) : Option (List Char × ℕ × List Char) :=
  (takeQuoted pos cs).map Taken.parts

/-- Read one expression. -/
def readExpr (pos : ℕ) (cs : List Char) : Except Refusal (Expr × ℕ × List Char) :=
  (takeExpr pos cs).map Taken.parts

/-- Read items and the closing parenthesis. -/
def readItems (start pos : ℕ) (cs : List Char) : Except Refusal (List Expr × ℕ × List Char) :=
  (takeItems start pos cs).map Taken.parts

/-- Where the code ends there is no expression to read. -/
theorem readExpr_nil (pos : ℕ) : readExpr pos [] = .error ⟨pos, .unexpectedEnd⟩ := by
  rw [readExpr, takeExpr]
  rfl

/-- An opening bracket starts a list, which must not be empty. -/
theorem readExpr_list (pos : ℕ) (cs : List Char) :
    readExpr pos ('(' :: cs) =
      match readItems pos (pos + 1) cs with
      | .error e => .error e
      | .ok ([], _) => .error ⟨pos, .emptyList⟩
      | .ok (head :: tail, behind) => .ok (.list pos head tail, behind) := by
  rw [readExpr, takeExpr, if_pos rfl, readItems]
  cases takeItems pos (pos + 1) cs with
  | error e => rfl
  | ok r =>
    obtain ⟨items, pos', rest, shorter⟩ := r
    cases items <;> rfl

/-- A quotation mark starts a string, which must be closed. -/
theorem readExpr_quoted (pos : ℕ) (cs : List Char) :
    readExpr pos ('"' :: cs) =
      match readQuoted (pos + 1) cs with
      | none => .error ⟨pos, .unterminatedString⟩
      | some (literal, behind) => .ok (.quoted pos (String.ofList literal), behind) := by
  rw [readExpr, takeExpr, if_neg (by decide), if_pos rfl, readQuoted]
  cases takeQuoted (pos + 1) cs <;> rfl

/-- Token characters up to the first other one make a token. -/
theorem readExpr_token {c : Char} (chars : ∀ d ∈ c :: word, isTokenChar d = true)
    (ends : ∀ d ∈ rest.head?, isTokenChar d = false) (pos : ℕ) :
    readExpr pos (c :: (word ++ rest)) =
      .ok (.token pos (String.ofList (c :: word)), pos + byteLength (c :: word), rest) := by
  have first : isTokenChar c = true := chars c List.mem_cons_self
  have nobracket : c ≠ '(' := by
    rintro rfl
    exact absurd first (by decide)
  have nomark : c ≠ '"' := by
    rintro rfl
    exact absurd first (by decide)
  have inside : ∀ d ∈ word, isTokenChar d = true := fun d hd => chars d (List.mem_cons_of_mem c hd)
  have stops : rest.takeWhile isTokenChar = [] ∧ rest.dropWhile isTokenChar = rest := by
    cases rest with
    | nil => exact ⟨rfl, rfl⟩
    | cons d rest =>
      have beyond : ¬ isTokenChar d = true := by simp [ends d rfl]
      exact ⟨List.takeWhile_cons_of_neg beyond, List.dropWhile_cons_of_neg beyond⟩
  have run : (word ++ rest).takeWhile isTokenChar = word := by
    rw [List.takeWhile_append_of_pos inside, stops.1, List.append_nil]
  have left : (word ++ rest).dropWhile isTokenChar = rest := by
    rw [List.dropWhile_append_of_pos inside, stops.2]
  rw [readExpr, takeExpr, if_neg nobracket, if_neg nomark, if_pos first]
  change Except.ok (takeToken pos c (word ++ rest)).parts = _
  unfold takeToken Taken.parts
  dsimp only
  rw [run, left]

/-- No expression starts with any other character. -/
theorem readExpr_other {c : Char} (nobracket : c ≠ '(') (nomark : c ≠ '"')
    (other : isTokenChar c = false) (pos : ℕ) (cs : List Char) :
    readExpr pos (c :: cs) = .error ⟨pos, .unexpectedCharacter c⟩ := by
  rw [readExpr, takeExpr, if_neg nobracket, if_neg nomark, if_neg (by simp [other])]
  rfl

/-- A list that is not closed is refused at its opening bracket, not at the end of the code. -/
theorem readItems_blanks (blank : ∀ c ∈ blanks, isBlank c = true) (start pos : ℕ) :
    readItems start pos blanks = .error ⟨start, .unterminatedList⟩ := by
  have skipped := skipBlanks_blanks blank pos
  rw [readItems, takeItems]
  split
  · rfl
  · rename_i found
    cases skipped.symm.trans found

/-- Behind blanks a closing bracket ends the items. -/
theorem readItems_closing (blank : ∀ c ∈ blanks, isBlank c = true) (start pos : ℕ)
    (rest : List Char) :
    readItems start pos (blanks ++ ')' :: rest) =
      .ok ([], pos + byteLength blanks + 1, rest) := by
  have skipped := skipBlanks_append blank pos (c := ')') (by decide) rest
  rw [readItems, takeItems]
  split
  · rename_i found
    cases skipped.symm.trans found
  · rename_i found
    cases skipped.symm.trans found
    rw [if_pos rfl]
    rfl

/-- Behind blanks anything else is an item, and the others follow. -/
theorem readItems_item (blank : ∀ c ∈ blanks, isBlank c = true) {c : Char}
    (other : isBlank c = false) (unclosed : c ≠ ')') (start pos : ℕ) (rest : List Char) :
    readItems start pos (blanks ++ c :: rest) =
      match readExpr (pos + byteLength blanks) (c :: rest) with
      | .error e => .error e
      | .ok (first, pos', rest') =>
        match readItems start pos' rest' with
        | .error e => .error e
        | .ok (more, behind) => .ok (first :: more, behind) := by
  have skipped := skipBlanks_append blank pos other rest
  rw [readItems, takeItems]
  split
  · rename_i found
    cases skipped.symm.trans found
  · rename_i found
    cases skipped.symm.trans found
    rw [if_neg unclosed, readExpr]
    cases takeExpr (pos + byteLength blanks) (c :: rest) with
    | error e => rfl
    | ok first =>
      dsimp only [Except.map, Taken.parts]
      rw [readItems]
      cases takeItems start first.pos first.rest <;> rfl

/-! ## Quoted texts -/

/-- A quotation mark ends the string. -/
theorem readQuoted_mark (pos : ℕ) (rest : List Char) :
    readQuoted pos ('"' :: rest) = some ([], pos + 1, rest) := by
  rw [readQuoted, takeQuoted]
  rfl

/-- Behind a backslash every character stands for itself. -/
theorem readQuoted_escaped (pos : ℕ) (c : Char) (rest : List Char) :
    readQuoted pos ('\\' :: c :: rest) =
      (readQuoted (pos + 1 + c.utf8Size) rest).map (Prod.map (c :: ·) id) := by
  rw [readQuoted, takeQuoted, readQuoted, Option.map_map, Option.map_map]
  rfl

/-- Other characters stand for themselves. -/
theorem readQuoted_plain {c : Char} (unquoted : c ≠ '"') (bare : c ≠ '\\') (pos : ℕ)
    (rest : List Char) :
    readQuoted pos (c :: rest) =
      (readQuoted (pos + c.utf8Size) rest).map (Prod.map (c :: ·) id) := by
  have taken : takeQuoted pos (c :: rest) =
      (takeQuoted (pos + c.utf8Size) rest).map fun r =>
        ⟨c :: r.value, r.pos, r.rest, by have := r.shorter; simp; omega⟩ := by
    rw [takeQuoted]
    · exact fun slash _ => bare slash
    · exact unquoted
    · exact fun d tail slash _ => bare slash
  rw [readQuoted, taken, readQuoted, Option.map_map, Option.map_map]
  rfl

/-- What is read behind a quotation mark is a text as it is written between two of them. -/
theorem quotes_of_readQuoted {text : List Char} {behind : ℕ}
    (read : readQuoted pos cs = some (text, behind, rest)) :
    ∃ written, cs = written ++ '"' :: rest ∧ behind = pos + byteLength written + 1 ∧
      Quotes written text := by
  induction pos, cs using takeQuoted.induct generalizing text with
  | case1 pos => exact nomatch read
  | case2 pos => exact nomatch read
  | case3 pos left =>
    rw [readQuoted_mark] at read
    obtain ⟨rfl, rfl, rfl⟩ := read
    exact ⟨[], rfl, rfl, .nil⟩
  | case4 pos c left ih =>
    rw [readQuoted_escaped, Option.map_eq_some_iff] at read
    obtain ⟨⟨inner, behind', rest'⟩, later, parts⟩ := read
    obtain ⟨rfl, rfl, rfl⟩ := parts
    obtain ⟨written, rfl, rfl, content⟩ := ih later
    have slash : '\\'.utf8Size = 1 := rfl
    refine ⟨'\\' :: c :: written, rfl, ?_, .escaped content⟩
    rw [byteLength, byteLength, slash]
    omega
  | case5 pos c left slash unquoted escapes ih =>
    have bare : c ≠ '\\' := by
      rintro rfl
      cases left with
      | nil => exact slash rfl rfl
      | cons d tail => exact escapes d tail rfl rfl
    rw [readQuoted_plain unquoted bare, Option.map_eq_some_iff] at read
    obtain ⟨⟨inner, behind', rest'⟩, later, parts⟩ := read
    obtain ⟨rfl, rfl, rfl⟩ := parts
    obtain ⟨written, rfl, rfl, content⟩ := ih later
    refine ⟨c :: written, rfl, ?_, .plain unquoted bare content⟩
    rw [byteLength, Nat.add_assoc pos]

/-- A text as it is written between two quotation marks is read. -/
theorem readQuoted_of_quotes {written text : List Char} (content : Quotes written text) (pos : ℕ)
    (rest : List Char) :
    readQuoted pos (written ++ '"' :: rest) =
      some (text, pos + byteLength written + 1, rest) := by
  induction content generalizing pos with
  | nil => exact readQuoted_mark pos rest
  | @plain c written text unquoted bare content ih =>
    rw [List.cons_append, readQuoted_plain unquoted bare, ih, byteLength, Nat.add_assoc pos]
    rfl
  | @escaped c written text content ih =>
    have slash : '\\'.utf8Size = 1 := rfl
    have size : pos + 1 + c.utf8Size + byteLength written + 1 =
        pos + byteLength ('\\' :: c :: written) + 1 := by
      rw [byteLength, byteLength, slash]
      omega
    rw [List.cons_append, List.cons_append, readQuoted_escaped, ih, size]
    rfl

/-! ## Soundness -/

/-- What reading an expression may come to. -/
inductive ReadsExpr (pos : ℕ) (cs : List Char) :
    Except Refusal (Expr × ℕ × List Char) → Prop
  /-- Some characters spell an expression that ends there. -/
  | read {word rest : List Char} {e : Expr} (split : cs = word ++ rest) (spells : Spells pos word e)
      (ends : e.EndsBefore rest) : ReadsExpr pos cs (.ok (e, pos + byteLength word, rest))
  /-- Reading is refused at some character, or at the end. -/
  | refused {front : List Char} {r : Refusal} (within : front <+: cs)
      (here : r.offset = pos + byteLength front) : ReadsExpr pos cs (.error r)

/-- What reading items may come to. -/
inductive ReadsItems (start pos : ℕ) (cs : List Char) :
    Except Refusal (List Expr × ℕ × List Char) → Prop
  /-- Some characters up to a closing parenthesis spell items. -/
  | read {inner rest : List Char} {items : List Expr} (split : cs = inner ++ ')' :: rest)
      (spells : SpellsItems pos inner items) :
      ReadsItems start pos cs (.ok (items, pos + byteLength inner + 1, rest))
  /-- Reading is refused because the list does not end. -/
  | unterminated : ReadsItems start pos cs (.error ⟨start, .unterminatedList⟩)
  /-- Reading is refused at some character, or at the end. -/
  | refused {front : List Char} {r : Refusal} (within : front <+: cs)
      (here : r.offset = pos + byteLength front) : ReadsItems start pos cs (.error r)

/-- Reading is refused where an expression starts. -/
theorem ReadsExpr.here (pos : ℕ) (cs : List Char) (reason : Reason) :
    ReadsExpr pos cs (.error ⟨pos, reason⟩) := .refused (List.nil_prefix) rfl

mutual

/-- Reading an expression comes to one of these. -/
theorem readsExpr (pos : ℕ) (cs : List Char) : ReadsExpr pos cs (readExpr pos cs) := by
  match cs with
  | [] =>
    rw [readExpr_nil]
    exact .here pos [] _
  | c :: cs =>
    by_cases bracket : c = '('
    · subst bracket
      have inside := readsItems pos (pos + 1) cs
      rw [readExpr_list]
      generalize readItems pos (pos + 1) cs = outcome at inside
      cases inside with
      | @read inner rest items split spells =>
        subst split
        cases items with
        | nil => exact .here pos _ _
        | cons head tail =>
          dsimp only
          rw [offset_enclosed '(' ')' rfl rfl]
          exact .read (by simp) (.list spells) trivial
      | unterminated => exact .here pos _ _
      | @refused front r within here =>
        have opening : '('.utf8Size = 1 := rfl
        refine .refused ((List.prefix_cons_inj '(').2 within) ?_
        rw [here, byteLength, opening, Nat.add_assoc]
    · by_cases mark : c = '"'
      · subst mark
        rw [readExpr_quoted]
        cases read : readQuoted (pos + 1) cs with
        | none => exact .here pos _ _
        | some parts =>
          obtain ⟨text, behind, rest⟩ := parts
          obtain ⟨written, rfl, rfl, content⟩ := quotes_of_readQuoted read
          dsimp only
          rw [offset_enclosed '"' '"' rfl rfl]
          exact .read (by simp) (.quoted content) trivial
      · cases token : isTokenChar c with
        | false =>
          rw [readExpr_other bracket mark token]
          exact .here pos _ _
        | true =>
          obtain ⟨word, rest, rfl, inside, ends⟩ := exists_run cs
          have chars : ∀ d ∈ c :: word, isTokenChar d = true :=
            List.forall_mem_cons.2 ⟨token, inside⟩
          rw [readExpr_token chars ends]
          exact .read rfl (.token chars) ends
termination_by 2 * cs.length

/-- Reading items comes to one of these. -/
theorem readsItems (start pos : ℕ) (cs : List Char) :
    ReadsItems start pos cs (readItems start pos cs) := by
  rcases blanks_or_other cs with blank | ⟨blanks, c, rest, parts, blank, other⟩
  · rw [readItems_blanks blank]
    exact .unterminated
  · have fewer : rest.length < cs.length := by
      rw [parts, List.length_append, List.length_cons]
      omega
    rw [parts]
    by_cases closes : c = ')'
    · subst closes
      rw [readItems_closing blank]
      exact .read rfl (.nil blank)
    · have first := readsExpr (pos + byteLength blanks) (c :: rest)
      rw [readItems_item blank other closes]
      generalize readExpr (pos + byteLength blanks) (c :: rest) = outcome at first
      cases first with
      | @refused front r within here =>
        refine .refused ((List.prefix_append_right_inj blanks).2 within) ?_
        rw [here, byteLength_append, Nat.add_assoc]
      | @read word left e split spells ends =>
        have shorter : left.length < rest.length + 1 := by
          obtain ⟨d, tail, rfl, -, -⟩ := spells.starts
          have lengths := congrArg List.length split
          rw [List.length_cons, List.length_append, List.length_cons] at lengths
          omega
        have more := readsItems start (pos + byteLength blanks + byteLength word) left
        dsimp only
        generalize readItems start (pos + byteLength blanks + byteLength word) left = outcome
          at more
        rw [split]
        cases more with
        | @read inner rest' items split' spells' =>
          subst split'
          dsimp only
          rw [offset_items]
          exact .read (by simp) (.cons blank spells ends.of_append spells')
        | unterminated => exact .unterminated
        | @refused front r within here =>
          have further : blanks ++ (word ++ front) <+: blanks ++ (word ++ left) :=
            (List.prefix_append_right_inj blanks).2 ((List.prefix_append_right_inj word).2 within)
          exact .refused further (here.trans (offset_items pos blanks word front))
termination_by 2 * cs.length + 1
decreasing_by
  · rw [List.length_cons]
    omega
  · omega

end

/-! ## Completeness -/

mutual

/-- The characters that spell an expression are read, up to where the expression ends. -/
theorem readExpr_of_spells {pos : ℕ} {word : List Char} {e : Expr} (spells : Spells pos word e)
    (rest : List Char) (ends : e.EndsBefore rest) :
    readExpr pos (word ++ rest) = .ok (e, pos + byteLength word, rest) := by
  match spells with
  | @Spells.quoted _ written _ content =>
    rw [List.cons_append, List.append_assoc, List.singleton_append, readExpr_quoted,
      readQuoted_of_quotes content, offset_enclosed '"' '"' rfl rfl]
  | .token chars => exact readExpr_token chars ends pos
  | @Spells.list _ inner _ _ items =>
    have inside := readItems_of_spells items pos rest
    rw [List.cons_append, List.append_assoc, List.singleton_append, readExpr_list, inside,
      offset_enclosed '(' ')' rfl rfl]

/-- The characters that spell items are read, up to the closing parenthesis. -/
theorem readItems_of_spells {pos : ℕ} {inner : List Char} {items : List Expr}
    (spells : SpellsItems pos inner items) (start : ℕ) (rest : List Char) :
    readItems start pos (inner ++ ')' :: rest) =
      .ok (items, pos + byteLength inner + 1, rest) := by
  match spells with
  | .nil blank => exact readItems_closing blank start pos rest
  | @SpellsItems.cons _ blanks word inner item items blank first ends more =>
    have item' := readExpr_of_spells first (inner ++ ')' :: rest) (ends.closing rest)
    have further := readItems_of_spells more start rest
    have size := offset_items pos blanks word inner
    obtain ⟨c, tail, rfl, other, unclosed⟩ := first.starts
    rw [List.append_assoc, List.append_assoc, List.cons_append, readItems_item blank other unclosed,
      ← List.cons_append, item']
    dsimp only
    rw [further, size]

end

end BoardRules.Guard
