/-!
# Binary floating-point numbers

Finite binary64 numbers as exact triples of sign, mantissa and exponent. `Binary64.nearest?` rounds
a quotient of natural numbers to the nearest number, ties going to the even mantissa; products and
quotients are the exact ones rounded once. `Binary64.shortest` finds the fewest decimal digits that
round back to a number, which is how numbers are written.
-/

namespace BoardRules

/-- A finite binary64 number: `mantissa * 2 ^ exponent`, negated when `negative`. -/
structure Binary64 where
  negative : Bool
  mantissa : Nat
  exponent : Int
  deriving DecidableEq, Repr

namespace Binary64

/-- The exponent of the smallest positive number. -/
def minExponent : Int := -1074

/-- The exponent of the largest finite number. -/
def maxExponent : Int := 971

/-- Zero, with a sign. -/
def zero (negative : Bool) : Binary64 := ⟨negative, 0, minExponent⟩

/-- `num / den` rounded to a whole number, halves to the even neighbour. -/
def roundQuotient (num den : Nat) : Nat :=
  let q := num / den
  let r := num % den
  if 2 * r < den then q
  else if den < 2 * r then q + 1
  else if q % 2 = 0 then q else q + 1

/-- `num * b ^ e / den` as a pair of numerator and denominator, for `e` of either sign. -/
def scaled (num den b : Nat) (e : Int) : Nat × Nat :=
  if 0 ≤ e then (num * b.pow e.toNat, den) else (num, den * b.pow (-e).toNat)

/-- The exponent `l` with `2 ^ l ≤ num / den < 2 ^ (l + 1)`, for positive `num` and `den`. -/
def magnitude (num den : Nat) : Int :=
  let guess : Int := num.log2 - den.log2
  let (n, d) := scaled num den 2 (-guess)
  if d ≤ n then guess else guess - 1

/-- The number nearest to `num / den`, or none when it lies beyond the largest finite number. -/
def nearest? (negative : Bool) (num den : Nat) : Option Binary64 :=
  if num = 0 then some (zero negative)
  else
    let e := max minExponent (magnitude num den - 52)
    let (n, d) := scaled num den 2 (-e)
    let m := roundQuotient n d
    let (m, e) := if m = Nat.pow 2 53 then (Nat.pow 2 52, e + 1) else (m, e)
    if maxExponent < e then none
    else if m = 0 then some (zero negative)
    else some ⟨negative, m, e⟩

/-- The magnitude as a quotient of natural numbers. -/
def quotient (x : Binary64) : Nat × Nat := scaled x.mantissa 1 2 x.exponent

/-- The rounded product, with the sign of the first factor. -/
def mul? (x y : Binary64) : Option Binary64 :=
  let (n, d) := x.quotient
  let (n', d') := y.quotient
  nearest? x.negative (n * n') (d * d')

/-- The rounded quotient, with the sign of the dividend. -/
def div? (x y : Binary64) : Option Binary64 :=
  let (n, d) := x.quotient
  let (n', d') := y.quotient
  nearest? x.negative (n * d') (d * n')

/-- The number nearest to `10 ^ k`. -/
def powerOfTen? (k : Nat) : Option Binary64 := nearest? false (Nat.pow 10 k) 1

/-- The largest power of ten that is a finite number, as an exponent. -/
def tenStride : Nat := 308

/-- Multiply by `10 ^ k`, rounding once for each stride of 308 powers. Going down takes as many
strides as it needs, at most `strides` of them; going up by more than one stride overflows. -/
def shiftDecimal? : (strides : Nat) → (x : Binary64) → (k : Int) → Option Binary64
  | 0, x, _ => some x
  | strides + 1, x, k =>
    if k.natAbs ≤ tenStride then do
      let p ← powerOfTen? k.natAbs
      if 0 ≤ k then x.mul? p else x.div? p
    else if x.mantissa = 0 then some x
    else if 0 ≤ k then none
    else do
      let p ← powerOfTen? tenStride
      shiftDecimal? strides (← x.div? p) (k + tenStride)

/-- The number written as `significand * 10 ^ k`: the significand is rounded first, and each stride
of powers of ten once more. None when the result is out of range. -/
def ofDecimal? (negative : Bool) (significand : Nat) (k : Int) : Option Binary64 := do
  let x ← nearest? negative significand 1
  shiftDecimal? (k.natAbs / tenStride + 1) x k

/-- The power of ten of the leading decimal digit of a positive `num / den`. -/
def leadingPower (num den : Nat) : Int :=
  if den ≤ num then ((num / den).repr.length : Int) - 1
  else
    let places := ((List.range 400).find? (fun p => den ≤ num * Nat.pow 10 p)).getD 400
    Int.negOfNat places

/-- The nearer of the two multiples of `10 ^ k` around the number that round back to it; halfway
between them, the even one. -/
def digitsAt? (x : Binary64) (k : Int) : Option Nat :=
  let (n, d) := x.quotient
  let (n, d) := scaled n d 10 (-k)
  let low := n / d
  let readsBack (c : Nat) : Bool :=
    let (a, b) := scaled c 1 10 k
    nearest? x.negative a b == some x
  match readsBack low, readsBack (low + 1) with
  | true, true => some (roundQuotient n d)
  | true, false => some low
  | false, true => some (low + 1)
  | false, false => none

/-- Decimal digits `c` and a power `k` with `c * 10 ^ k` rounding back to the number, `c` having as
few digits as possible. Seventeen digits always suffice. -/
def shortest (x : Binary64) : Nat × Int :=
  if x.mantissa = 0 then (0, 0)
  else
    let (n, d) := x.quotient
    let top := leadingPower n d
    let found := (List.range 17).findSome? fun (extra : Nat) =>
      let k : Int := top - extra
      (x.digitsAt? k).map fun c => (c, k)
    found.getD (0, 0)

/-- Drop the trailing zeros of `c`, moving them into the power. -/
def trimZeros : (bound : Nat) → Nat × Int → Nat × Int
  | 0, r => r
  | bound + 1, (c, k) => if c ≠ 0 ∧ c % 10 = 0 then trimZeros bound (c / 10, k + 1) else (c, k)

/-- The decimal text of the number: positional with a point for ten-powers from `-5` to `16`, with
an exponent elsewhere. It always shows a point or an exponent, so it never reads as an integer. -/
def text (x : Binary64) : String :=
  let (c, k) := trimZeros 20 x.shortest
  let digits := c.repr
  let point : Int := digits.length + k
  let sign := if x.negative then "-" else ""
  let body :=
    if c = 0 then "0.0"
    else if 0 ≤ k ∧ point ≤ 16 then digits ++ "".pushn '0' k.toNat ++ ".0"
    else if 0 < point ∧ point ≤ 16 then
      String.ofList (digits.toList.take point.toNat) ++ "." ++
        String.ofList (digits.toList.drop point.toNat)
    else if -5 < point ∧ point ≤ 0 then "0." ++ "".pushn '0' (-point).toNat ++ digits
    else
      let tail := String.ofList (digits.toList.drop 1)
      let head := String.ofList (digits.toList.take 1)
      head ++ (if tail.isEmpty then "" else "." ++ tail) ++ "e" ++ toString (point - 1)
  sign ++ body

end Binary64

end BoardRules
