import BoardRules.Identity
import BoardRules.Text.Blank
import BoardRules.Text.Numeral

/-!
# Values of guards

What an expression of a guard evaluates to, and the three readings of a value: as an integer, as a
truth value, and as equal to another. Texts that spell integers count as those integers.
-/

namespace BoardRules.Guard

open Text (trim readInt? isZeroNumeral)

/-- The value of an expression. -/
inductive Value where
  | null
  | bool (value : Bool)
  | int (value : Int)
  | text (value : String)
  | piece (id : PieceId)
  | player (id : PlayerId)
  deriving DecidableEq, Repr

namespace Value

/-- Whether this is the null value. -/
def isNull (v : Value) : Bool := v = .null

/-- The value as an integer: truth values are 0 and 1, texts are read without the blanks around
them. -/
def toInt? : Value → Option Int
  | .int n => some n
  | .bool b => some (if b then 1 else 0)
  | .text s => readInt? (trim s.toList)
  | _ => none

/-- The piece that the value is. -/
def piece? : Value → Option PieceId
  | .piece id => some id
  | _ => none

/-- The player that the value is. -/
def player? : Value → Option PlayerId
  | .player id => some id
  | _ => none

/-- The truth of a text without the blanks around it: the empty text, `false`, `null` and numerals
for zero are false. -/
def isTrueText (cs : List Char) : Bool :=
  if cs = [] ∨ cs = "false".toList ∨ cs = "null".toList then false
  else !isZeroNumeral cs

/-- Whether the value counts as true. -/
def isTrue : Value → Bool
  | .null => false
  | .bool b => b
  | .int n => n ≠ 0
  | .text s => isTrueText (trim s.toList)
  | .piece _ | .player _ => true

/-- Whether two values count as equal: an integer equals the texts that spell it and the truth
value of its number, everything else only itself. -/
def agrees : Value → Value → Bool
  | .int a, .text b => (Value.text b).toInt? = some a
  | .text a, .int b => (Value.text a).toInt? = some b
  | .bool a, .int b => (if a then 1 else 0) = b
  | .int a, .bool b => (if b then 1 else 0) = a
  | a, b => a = b

end Value

end BoardRules.Guard
