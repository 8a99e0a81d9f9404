import BoardRules.Identity
import BoardRules.Random.Stream

/-!
# Random generators

A generator is a place in the stream of its seed. Drawing moves the place on; forking starts
another stream whose seed depends on how often the generator was forked, and draws nothing.
-/

namespace BoardRules

open BoardRules.Random

/-- A place in the stream of a seed, with the number of forks taken so far. -/
structure Generator where
  seed : UInt64
  position : BitVec positionBits
  forks : UInt64
  deriving DecidableEq, Repr

namespace Generator

/-- The beginning of a seed's stream. -/
def ofSeed (seed : UInt64) : Generator := ⟨seed, 0, 0⟩

/-- What separates the seeds of successive forks. -/
def forkStride : UInt64 := 0x9E3779B97F4A7C15

/-- The seed of the next fork. -/
def forkSeed (g : Generator) : UInt64 := g.seed + (g.forks + 1) * forkStride

/-- Start an independent stream. Gives the new generator and this one with the fork counted. -/
def fork (g : Generator) : Generator × Generator :=
  (ofSeed g.forkSeed, { g with forks := g.forks + 1 })

/-- The next word. -/
def next32 (g : Generator) : UInt32 × Generator :=
  (word g.seed g.position, { g with position := g.position + 1 })

/-- The next two words as one, the low half first. -/
def next64 (g : Generator) : Nat × Generator :=
  let (low, g) := g.next32
  let (high, g) := g.next32
  (low.toNat + UInt32.size * high.toNat, g)

/-- A number below `n` from draws of `bits` bits, each number equally likely. The product of a draw
with `n` has the number in its high half; a draw whose low half lies above the largest multiple of
`n` that `bits` bits hold is drawn again. -/
def drawBelow (bits : Nat) (draw : Generator → Nat × Generator) (n : Nat) :
    (tries : Nat) → Generator → Nat × Generator
  | 0, g => (0, g)
  | tries + 1, g =>
    let (v, g) := draw g
    let zone := n * Nat.pow 2 (bits - 1 - n.log2) - 1
    let (high, low) := (v * n / Nat.pow 2 bits, v * n % Nat.pow 2 bits)
    if low ≤ zone then (high, g) else drawBelow bits draw n tries g

/-- No more draws than the stream has words. -/
def maxTries : Nat := Nat.pow 2 positionBits

/-- A number from `low` up to but not including `high`; none when there is no such number. -/
def range? (g : Generator) (low high : Nat) : Option (Nat × Generator) :=
  if high ≤ low then none
  else
    let (n, g) := drawBelow 64 next64 (high - low) maxTries g
    some (low + n, g)

/-- The wording of a range that holds no number. -/
def emptyRangeMessage : String := "cannot sample empty range"

/-- An item of a list, each place equally likely. Nothing is drawn for the empty list. -/
def choose {α : Type} (g : Generator) (items : List α) : Option α × Generator :=
  if items.isEmpty then (none, g)
  else
    let draw (g : Generator) : Nat × Generator := (g.next32.1.toNat, g.next32.2)
    let (n, g) := drawBelow 32 draw items.length maxTries g
    (items[n]?, g)

/-- The four bytes of a word, the lowest first. -/
def wordBytes (w : UInt32) : List UInt8 :=
  [w.toUInt8, (w >>> 8).toUInt8, (w >>> 16).toUInt8, (w >>> 24).toUInt8]

/-- A byte in two hexadecimal digits. -/
def hexByte (b : UInt8) : List Char :=
  [Nat.digitChar (b.toNat / 16), Nat.digitChar (b.toNat % 16)]

/-- Sixteen bytes in the layout of a random unique identity: version 4 in the seventh byte, the
variant in the ninth, and groups of 8, 4, 4, 4 and 12 digits. -/
def identityText (bytes : List UInt8) : String :=
  let bytes := bytes.modify 6 fun b => (b &&& 0x0f) ||| 0x40
  let bytes := bytes.modify 8 fun b => (b &&& 0x3f) ||| 0x80
  let digits := bytes.flatMap hexByte
  let group (start count : Nat) : String := String.ofList ((digits.drop start).take count)
  "-".intercalate [group 0 8, group 8 4, group 12 4, group 16 4, group 20 12]

/-- A fresh identity text from the next four words. -/
def freshText (g : Generator) : String × Generator :=
  let (a, g) := g.next32
  let (b, g) := g.next32
  let (c, g) := g.next32
  let (d, g) := g.next32
  (identityText ([a, b, c, d].flatMap wordBytes), g)

/-- Go on from a saved place; the place is taken around the stream. -/
def resume (seed : UInt64) (wordPosition : Nat) (forks : UInt64) : Generator :=
  ⟨seed, BitVec.ofNat _ wordPosition, forks⟩

end Generator

/-- The saved form of a generator. -/
structure GeneratorState where
  seed : UInt64
  wordPosition : Nat
  forks : UInt64
  deriving DecidableEq, Repr

namespace GeneratorState

instance : Wire GeneratorState where
  toJson s := .ofFields
    [("seed", toJson s.seed), ("word_pos", toJson s.wordPosition), ("fork_counter", toJson s.forks)]
  ofJson? j := do
    let fields ← j.structure? ["seed", "word_pos", "fork_counter"]
    return { seed := ← fields.required "seed",
             wordPosition := ← fields.required "word_pos",
             forks := ← fields.required "fork_counter" }

end GeneratorState

/-- Save a generator. -/
def Generator.state (g : Generator) : GeneratorState := ⟨g.seed, g.position.toNat, g.forks⟩

end BoardRules
