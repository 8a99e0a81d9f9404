/-!
# A keyed stream of words

The ChaCha stream cipher with eight rounds, as a function from a seed and a position to a 32-bit
word. Sixteen words make a block; blocks are numbered with 64 bits, so the stream of a seed repeats
after `2 ^ 68` words.
-/

namespace BoardRules.Random

/-- A block of sixteen words. -/
abbrev Block := Vector UInt32 16

/-- Turn the bits of a word left. -/
def rotateLeft (x : UInt32) (n : UInt32) : UInt32 := (x <<< n) ||| (x >>> (32 - n))

/-- Turn the bits of a word right. -/
def rotateRight (x : UInt32) (n : UInt32) : UInt32 := (x >>> n) ||| (x <<< ((32 - n) % 32))

/-- One step of the generator that spreads a seed over the key: the next state and its word. -/
def keyStep (s : UInt64) : UInt64 × UInt32 :=
  let s := s * 6364136223846793005 + 11634580027462260723
  let x := (((s >>> 18) ^^^ s) >>> 27).toUInt32
  (s, rotateRight x (s >>> 59).toUInt32)

/-- The first `n` words that a seed spreads into. -/
def keyWords (s : UInt64) : Nat → List UInt32
  | 0 => []
  | n + 1 => (keyStep s).2 :: keyWords (keyStep s).1 n

/-- Mix four words of a block. -/
def quarterRound (b : Block) (i j k l : Fin 16) : Block :=
  let a₁ := b[i] + b[j]
  let d₁ := rotateLeft (b[l] ^^^ a₁) 16
  let c₁ := b[k] + d₁
  let b₁ := rotateLeft (b[j] ^^^ c₁) 12
  let a₂ := a₁ + b₁
  let d₂ := rotateLeft (d₁ ^^^ a₂) 8
  let c₂ := c₁ + d₂
  let b₂ := rotateLeft (b₁ ^^^ c₂) 7
  (((b.set i a₂).set j b₂).set k c₂).set l d₂

/-- A round over the columns and a round over the diagonals. -/
def doubleRound (b : Block) : Block :=
  let b := quarterRound b 0 4 8 12
  let b := quarterRound b 1 5 9 13
  let b := quarterRound b 2 6 10 14
  let b := quarterRound b 3 7 11 15
  let b := quarterRound b 0 5 10 15
  let b := quarterRound b 1 6 11 12
  let b := quarterRound b 2 7 8 13
  quarterRound b 3 4 9 14

/-- The words that begin every block. -/
def constants : List UInt32 := [0x61707865, 0x3320646e, 0x79622d32, 0x6b206574]

/-- The block before mixing: constants, key, block number, and two zero words. -/
def startBlock (seed counter : UInt64) : Block :=
  let words := constants ++ keyWords seed 8 ++ [counter.toUInt32, (counter >>> 32).toUInt32, 0, 0]
  Vector.ofFn fun i => words.getD i 0

/-- The numbered block of a seed: four double rounds, added to the block before mixing. -/
def block (seed counter : UInt64) : Block :=
  let start := startBlock seed counter
  let mixed := doubleRound (doubleRound (doubleRound (doubleRound start)))
  Vector.zipWith (· + ·) start mixed

/-- How many bits number the words of a stream. -/
def positionBits : Nat := 68

/-- The word of a seed's stream at a position. -/
def word (seed : UInt64) (position : BitVec positionBits) : UInt32 :=
  let p := position.toNat
  (block seed (UInt64.ofNat (p / 16))).get ⟨p % 16, Nat.mod_lt _ (by decide)⟩

end BoardRules.Random
