import Mathlib
import BoardRules.Guard.Basic

/-!
# What compiles

A guard compiles if every list in it starts with the name of a primitive, however deeply the list is
nested and whether or not evaluation would ever look at it.  `Expr.parts` is an expression with all
that is nested in it, each list before its items and the items from left to right.  A list is at
fault for its own head alone (`Expr.headFault?`), and compilation stops at the first part that is at
fault (`fault?_ofExpr`).  So a text is refused where parsing refuses it, or else at the head of the
first list that does not start with a name (`compile_spec`).
-/

namespace BoardRules

/-- There is an entry for a name exactly if the name is registered. -/
theorem Catalogue.isSome_get?_iff {α : Type} (c : Catalogue α) (name : String) :
    (c.get? name).isSome = true ↔ name ∈ c.names := by
  unfold get? names
  rw [List.lookup_isSome_iff, List.mem_map]
  refine exists_congr fun entry => and_congr_right fun _ => ?_
  rw [beq_iff_eq, eq_comm]

namespace Guard

variable {vocabulary : Vocabulary}

namespace Expr

/-! ## Parts -/

mutual

/-- An expression and everything nested in it, each list before its items. -/
def parts : Expr → List Expr
  | .quoted offset word => [.quoted offset word]
  | .token offset word => [.token offset word]
  | .list offset head rest => .list offset head rest :: (head.parts ++ partsOfAll rest)

/-- The parts of expressions, one expression after the other. -/
def partsOfAll : List Expr → List Expr
  | [] => []
  | e :: rest => e.parts ++ partsOfAll rest

end

/-! ## Heads -/

/-- The expression is a text, quoted or bare, that names a primitive. -/
def Names (vocabulary : Vocabulary) (e : Expr) : Prop :=
  ∃ name, e.literal? = some name ∧ name ∈ vocabulary.names

/-- Why an expression that names no primitive is no head of a list. -/
def reasonAsHead (e : Expr) : Reason :=
  match e.literal? with
  | none => .headNotName
  | some name => .unknownPrimitive name

/-- The expression is no list, or one that starts with the name of a primitive. -/
def HeadNamed (vocabulary : Vocabulary) : Expr → Prop
  | .list _ head _ => head.Names vocabulary
  | _ => True

/-- What a list is refused for that does not start with the name of a primitive. -/
def headFault? (vocabulary : Vocabulary) : Expr → Option Refusal
  | .list _ head _ =>
    if (head.literal?.bind vocabulary.get?).isSome then none
    else some ⟨head.offset, head.reasonAsHead⟩
  | _ => none

/-- The compiler's own test of whether an expression names a primitive. -/
theorem names_iff {e : Expr} :
    e.Names vocabulary ↔ (e.literal?.bind vocabulary.get?).isSome = true := by
  unfold Names
  cases e.literal? with
  | none => simp
  | some name => simp [vocabulary.isSome_get?_iff name]

/-- A node is faultless exactly if its head names a primitive. -/
theorem headFault?_eq_none_iff {e : Expr} :
    e.headFault? vocabulary = none ↔ e.HeadNamed vocabulary := by
  cases e with
  | list offset head rest =>
    rw [headFault?, HeadNamed, names_iff]
    split <;> simp [*]
  | _ => simp [headFault?, HeadNamed]

/-- The fault of a node is the offset of its head and the reason why this is no head. -/
theorem headFault?_eq_some_iff {e : Expr} {refusal : Refusal} :
    e.headFault? vocabulary = some refusal ↔
      ∃ offset head rest, e = .list offset head rest ∧ ¬ head.Names vocabulary ∧
        refusal = ⟨head.offset, head.reasonAsHead⟩ := by
  cases e with
  | list offset head rest =>
    by_cases named : head.Names vocabulary
    · simp [headFault?, if_pos (names_iff.1 named), named]
    · rw [headFault?, if_neg (mt names_iff.2 named), Option.some.injEq, eq_comm]
      simp [named]
  | _ => simp [headFault?]

/-- The first of some parts that is at fault is a list without a name at its head, behind parts that
are not at fault. -/
theorem findSome?_headFault?_eq_some_iff {es : List Expr} {refusal : Refusal} :
    es.findSome? (headFault? vocabulary) = some refusal ↔
      ∃ before offset head rest behind, es = before ++ .list offset head rest :: behind ∧
        (∀ part ∈ before, part.HeadNamed vocabulary) ∧ ¬ head.Names vocabulary ∧
        refusal = ⟨head.offset, head.reasonAsHead⟩ := by
  rw [List.findSome?_eq_some_iff]
  constructor
  · rintro ⟨before, part, behind, split, fault, earlier⟩
    obtain ⟨offset, head, rest, rfl, unnamed, blamed⟩ := headFault?_eq_some_iff.1 fault
    refine ⟨before, offset, head, rest, behind, split, fun part hpart => ?_, unnamed, blamed⟩
    exact headFault?_eq_none_iff.1 (earlier part hpart)
  · rintro ⟨before, offset, head, rest, behind, split, earlier, unnamed, blamed⟩
    refine ⟨before, .list offset head rest, behind, split, ?_, fun part hpart => ?_⟩
    · exact headFault?_eq_some_iff.2 ⟨offset, head, rest, rfl, unnamed, blamed⟩
    · exact headFault?_eq_none_iff.2 (earlier part hpart)

end Expr

/-! ## Compilation -/

/-- What something is refused for, if it is. -/
def fault? {α : Type} : Except Refusal α → Option Refusal
  | .ok _ => none
  | .error refusal => some refusal

/-- An outcome has no fault exactly if there is a value. -/
theorem fault?_eq_none_iff {α : Type} {outcome : Except Refusal α} :
    fault? outcome = none ↔ ∃ a, outcome = .ok a := by
  cases outcome <;> simp [fault?]

theorem fault?_eq_some_iff {α : Type} {outcome : Except Refusal α} {refusal : Refusal} :
    fault? outcome = some refusal ↔ outcome = .error refusal := by
  cases outcome <;> simp [fault?]

mutual

/-- An expression is refused for the first fault among its parts. -/
theorem fault?_ofExpr (vocabulary : Vocabulary) (e : Expr) :
    fault? (ofExpr vocabulary e) = e.parts.findSome? (Expr.headFault? vocabulary) := by
  match e with
  | .quoted offset word => simp [ofExpr, fault?, Expr.parts, Expr.headFault?]
  | .token offset word => simp [ofExpr, fault?, Expr.parts, Expr.headFault?]
  | .list offset head rest =>
    have items := fault?_ofExprs vocabulary rest
    rw [Expr.parts, List.findSome?_cons]
    -- the head is looked at before the items, and a head that is a list is not looked into
    cases literal : head.literal? with
    | none => simp [ofExpr, literal, fault?, Expr.headFault?, Expr.reasonAsHead]
    | some name =>
      cases found : vocabulary.get? name with
      | none => simp [ofExpr, literal, found, fault?, Expr.headFault?, Expr.reasonAsHead]
      | some word =>
        have named : (Expr.list offset head rest).headFault? vocabulary = none := by
          simp [Expr.headFault?, literal, found]
        have bare : head.parts.findSome? (Expr.headFault? vocabulary) = none := by
          cases head with
          | list => exact nomatch literal
          | _ => simp [Expr.parts, Expr.headFault?]
        rw [named, List.findSome?_append, bare, ← items]
        cases compiled : ofExprs vocabulary rest <;> simp [ofExpr, literal, found, compiled, fault?]

/-- Expressions are refused for the first fault among their parts. -/
theorem fault?_ofExprs (vocabulary : Vocabulary) (es : List Expr) :
    fault? (ofExprs vocabulary es) =
      (Expr.partsOfAll es).findSome? (Expr.headFault? vocabulary) := by
  match es with
  | [] => rfl
  | e :: rest =>
    have first := fault?_ofExpr vocabulary e
    have later := fault?_ofExprs vocabulary rest
    rw [Expr.partsOfAll, List.findSome?_append, ← first, ← later]
    cases compiled : ofExpr vocabulary e with
    | error refusal => simp [ofExprs, compiled, fault?]
    | ok guard => cases more : ofExprs vocabulary rest <;> simp [ofExprs, compiled, more, fault?]

end

/-- Compilation checks the whole expression and blames the first fault.  A text compiles exactly if
it parses and every list in it starts with a text that names a primitive.  Otherwise it is refused
where parsing refuses it, or else at the head of the first list that does not, because the head is
no text or because it names no primitive. -/
theorem compile_spec (vocabulary : Vocabulary) (code : String) :
    ((∃ guard, compile vocabulary code = .ok guard) ↔
      ∃ e, parse code = .ok e ∧
        ∀ offset head rest, .list offset head rest ∈ e.parts →
          ∃ name, head.literal? = some name ∧ name ∈ vocabulary.names) ∧
    ∀ refusal, compile vocabulary code = .error refusal ↔
      parse code = .error refusal ∨
        ∃ e, parse code = .ok e ∧
          ∃ before offset head rest behind, e.parts = before ++ .list offset head rest :: behind ∧
            (∀ part ∈ before, part.HeadNamed vocabulary) ∧ ¬ head.Names vocabulary ∧
            refusal = ⟨head.offset, head.reasonAsHead⟩ := by
  have listed (es : List Expr) : (∀ part ∈ es, part.HeadNamed vocabulary) ↔
      ∀ offset head rest, .list offset head rest ∈ es → head.Names vocabulary := by
    refine ⟨fun named offset head rest hlist => named _ hlist, fun named part hpart => ?_⟩
    cases part with
    | list offset head rest => exact named offset head rest hpart
    | _ => trivial
  unfold compile
  cases parsed : parse code with
  | error refusal => simp
  | ok e =>
    constructor
    · dsimp only
      rw [← fault?_eq_none_iff, fault?_ofExpr, List.findSome?_eq_none_iff]
      simp only [Expr.headFault?_eq_none_iff, listed]
      exact ⟨fun named => ⟨e, rfl, named⟩, fun ⟨_, same, named⟩ => Except.ok.inj same ▸ named⟩
    · intro refusal
      dsimp only
      rw [← fault?_eq_some_iff, fault?_ofExpr, Expr.findSome?_headFault?_eq_some_iff]
      constructor
      · exact fun first => .inr ⟨e, rfl, first⟩
      · rintro (refused | ⟨other, same, first⟩)
        · exact nomatch refused
        · exact Except.ok.inj same ▸ first

/-- Evaluation would not look behind `true`, compilation does: `nope` comes before the `1`, which is
no name of a primitive either. -/
example : compile .vanilla "(or true (nope (1)))" = .error ⟨10, .unknownPrimitive "nope"⟩ := by cbv

end Guard

end BoardRules
