/-!
# Numerals in text

Two readings of a text as a number. `readInt?` takes an optional sign and decimal digits, within 64
bits. `isZeroNumeral` takes any decimal numeral, with a point and an exponent if it likes, and says
whether the binary64 number nearest to it is zero.
-/

namespace BoardRules.Text

/-- The value of a list of decimal digits. -/
def digitsValue (cs : List Char) : Nat :=
  cs.foldl (fun n c => n * 10 + (c.toNat - '0'.toNat)) 0

/-- Cut an optional sign off: whether it was a minus, and the rest. -/
def splitSign : List Char → Bool × List Char
  | '-' :: rest => (true, rest)
  | '+' :: rest => (false, rest)
  | rest => (false, rest)

/-- The integer of an optional sign and one or more decimal digits, if it fits in 64 bits. -/
def readInt? (cs : List Char) : Option Int :=
  let (negative, digits) := splitSign cs
  if digits.isEmpty ∨ !digits.all Char.isDigit then none
  else
    let n : Int := if negative then -(digitsValue digits : Int) else digitsValue digits
    if Int64.minValue.toInt ≤ n ∧ n ≤ Int64.maxValue.toInt then some n else none

/-- The exponent part of a numeral: nothing at all counts as zero. -/
def readExponent? : List Char → Option Int
  | [] => some 0
  | c :: rest =>
    if c = 'e' ∨ c = 'E' then
      let (negative, digits) := splitSign rest
      if digits.isEmpty ∨ !digits.all Char.isDigit then none
      else some (if negative then -(digitsValue digits : Int) else digitsValue digits)
    else none

/-- The digits and the power of ten of an unsigned decimal numeral: digits with at most one point
among or around them, then an optional exponent. -/
def readDecimal? (cs : List Char) : Option (List Char × Int) := do
  let whole := cs.takeWhile Char.isDigit
  let rest := cs.dropWhile Char.isDigit
  let (fraction, rest) := match rest with
    | '.' :: rest => (rest.takeWhile Char.isDigit, rest.dropWhile Char.isDigit)
    | rest => ([], rest)
  if whole.isEmpty ∧ fraction.isEmpty then failure
  let exponent ← readExponent? rest
  return (whole ++ fraction, exponent - (fraction.length : Int))

/-- Whether `digits * 10 ^ power` rounds to zero: it does up to half of the smallest positive
binary64 number, `2 ^ -1075`. Far below that bound no large power is computed. -/
def roundsToZero (digits : List Char) (power : Int) : Bool :=
  let n := digitsValue digits
  if n = 0 then true
  else if 0 ≤ power then false
  else
    let k := power.natAbs
    if digits.length + 400 < k then true else n * Nat.pow 2 1075 ≤ Nat.pow 10 k

/-- Whether a text is a decimal numeral that reads as zero. -/
def isZeroNumeral (cs : List Char) : Bool :=
  match readDecimal? (splitSign cs).2 with
  | some (digits, power) => roundsToZero digits power
  | none => false

end BoardRules.Text
