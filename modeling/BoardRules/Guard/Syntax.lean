/-!
# Guards as written

A guard is a text, quoted or bare, or a list in parentheses. Every expression remembers the offset
of its first character, counted in bytes of UTF-8.
-/

namespace BoardRules.Guard

/-- A parsed expression. A list has at least one item. -/
inductive Expr where
  | quoted (offset : Nat) (text : String)
  | token (offset : Nat) (text : String)
  | list (offset : Nat) (head : Expr) (rest : List Expr)
  deriving Repr

namespace Expr

/-- Where the expression starts. -/
def offset : Expr → Nat
  | .quoted offset _ | .token offset _ | .list offset _ _ => offset

/-- The text of an expression that is not a list. -/
def literal? : Expr → Option String
  | .quoted _ text | .token _ text => some text
  | .list _ _ _ => none

/-- The items of a list. -/
def items : Expr → List Expr
  | .list _ head rest => head :: rest
  | _ => []

end Expr

/-- Why a text is no guard. -/
inductive Reason where
  | emptyCondition
  | trailingInput
  | unexpectedCharacter (c : Char)
  | unexpectedEnd
  | unterminatedList
  | unterminatedString
  | emptyList
  | headNotName
  | unknownPrimitive (name : String)
  deriving DecidableEq, Repr

/-- The wording of a reason. -/
def Reason.message : Reason → String
  | .emptyCondition => "empty condition"
  | .trailingInput => "unexpected trailing input"
  | .unexpectedCharacter c => "unexpected character `" ++ c.toString ++ "`"
  | .unexpectedEnd => "unexpected end of input"
  | .unterminatedList => "unterminated list"
  | .unterminatedString => "unterminated string"
  | .emptyList => "empty list"
  | .headNotName => "list head must name a primitive"
  | .unknownPrimitive name => "unknown primitive `" ++ name ++ "`"

/-- A reason and the offset it applies to. -/
structure Refusal where
  offset : Nat
  reason : Reason
  deriving DecidableEq, Repr

end BoardRules.Guard
