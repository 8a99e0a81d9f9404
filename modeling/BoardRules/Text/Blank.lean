/-!
# Blanks

The characters with the Unicode property `White_Space`: twenty-five code points, in ten ranges.
They separate the tokens of a guard and are trimmed from texts that are read as numbers or truth
values.
-/

namespace BoardRules.Text

/-- The ranges of blank code points, ends included. -/
def blankRanges : List (Nat × Nat) :=
  [(0x0009, 0x000D), (0x0020, 0x0020), (0x0085, 0x0085), (0x00A0, 0x00A0), (0x1680, 0x1680),
   (0x2000, 0x200A), (0x2028, 0x2029), (0x202F, 0x202F), (0x205F, 0x205F), (0x3000, 0x3000)]

/-- Whether a character is blank. -/
def isBlank (c : Char) : Bool :=
  blankRanges.any fun range => range.1 ≤ c.toNat && c.toNat ≤ range.2

/-- Drop leading blanks. -/
def trimLeft (cs : List Char) : List Char := cs.dropWhile isBlank

/-- Drop leading and trailing blanks. -/
def trim (cs : List Char) : List Char := (trimLeft (trimLeft cs).reverse).reverse

/-- There are twenty-five blank code points. -/
example : blankRanges.foldr (fun range n => range.2 + 1 - range.1 + n) 0 = 25 := by decide

end BoardRules.Text
