import BoardRules.Json.Basic

/-!
# Reading JSON text

The text is cut into tokens by a scanner that looks at one character at a time, and the tokens are
put together by a machine with a stack of open containers. Both walk their input once, so reading
always ends. Any fault in the text gives no document at all. A numeral too large for any number is
no fault of the text: it stands in the document as an overflow.
-/

namespace BoardRules.Json

/-- A piece of JSON text. -/
inductive Token where
  | openArray
  | closeArray
  | openObject
  | closeObject
  | comma
  | colon
  | scalar (value : Json)

/-! ## Numerals -/

/-- The largest significand that is accumulated; a digit that would pass it is dropped. -/
def maxSignificand : Nat := UInt64.size - 1

/-- Append decimal digits to a significand, as long as it does not pass the largest one. Gives the
significand and the digits left over. -/
def accumulate (significand : Nat) : List Char → Nat × List Char
  | [] => (significand, [])
  | c :: rest =>
    let next := significand * 10 + (c.toNat - '0'.toNat)
    if next ≤ maxSignificand then accumulate next rest else (significand, c :: rest)

/-- A numeral cut into its parts: the digits before the point, the digits after it, and the
exponent with its sign. -/
structure Numeral where
  negative : Bool
  whole : List Char
  fraction : Option (List Char)
  exponent : Option Int

/-- Read `e` or `E`, a sign and at least one digit, or nothing. -/
def exponent? : List Char → Option (Option Int)
  | [] => some none
  | c :: rest =>
    if c = 'e' ∨ c = 'E' then
      let (negative, digits) := match rest with
        | '-' :: ds => (true, ds)
        | '+' :: ds => (false, ds)
        | ds => (false, ds)
      if digits.isEmpty ∨ !digits.all Char.isDigit then none
      else
        let n : Nat := digits.foldl (fun n d => n * 10 + (d.toNat - '0'.toNat)) 0
        some (some (if negative then -(n : Int) else n))
    else none

/-- Cut a numeral into its parts. A leading zero stands alone, and a point has digits after it. -/
def numeral? (cs : List Char) : Option Numeral := do
  let (negative, cs) := match cs with
    | '-' :: rest => (true, rest)
    | rest => (false, rest)
  let whole := cs.takeWhile Char.isDigit
  let rest := cs.dropWhile Char.isDigit
  if whole.isEmpty then failure
  if whole.head? = some '0' ∧ whole.length ≠ 1 then failure
  match rest with
  | '.' :: rest =>
    let fraction := rest.takeWhile Char.isDigit
    if fraction.isEmpty then failure
    return ⟨negative, whole, some fraction, ← exponent? (rest.dropWhile Char.isDigit)⟩
  | rest => return ⟨negative, whole, none, ← exponent? rest⟩

/-- The number `significand * 10 ^ scale` as a document. -/
def ofDecimal (negative : Bool) (significand : Nat) (scale : Int) : Json :=
  match Binary64.ofDecimal? negative significand scale with
  | some x => .float x
  | none => .overflow negative

/-- The number a numeral stands for. Whole numerals within 64 bits are integers; every other one is
the significand scaled by a power of ten. -/
def Numeral.value (n : Numeral) : Json :=
  let (significand, dropped) := accumulate 0 n.whole
  match n.fraction, n.exponent with
  | none, none =>
    if dropped.isEmpty ∧ (!n.negative ∨ (0 < significand ∧ significand ≤ Nat.pow 2 63)) then
      .int (if n.negative then -(significand : Int) else significand)
    else ofDecimal n.negative significand dropped.length
  | fraction, exponent =>
    let digits := fraction.getD []
    let (significand, unread) := accumulate significand digits
    let scale : Int := dropped.length - (digits.length - unread.length : Nat) + exponent.getD 0
    ofDecimal n.negative significand scale

/-! ## The scanner -/

/-- What the scanner is in the middle of. Text is kept with its last character first. -/
inductive Scan where
  | between
  | word (text : List Char)
  | number (text : List Char)
  | quoted (text : List Char)
  | escape (text : List Char)
  | unit (text : List Char) (high : Option Nat) (digits : Nat) (value : Nat)
  | pair (text : List Char) (high : Nat)
  | pairUnit (text : List Char) (high : Nat)

/-- The blanks of JSON text. -/
def isBlank (c : Char) : Bool := c = ' ' ∨ c = '\n' ∨ c = '\t' ∨ c = '\r'

/-- The characters that numerals are made of. -/
def isNumeric (c : Char) : Bool := c.isDigit ∨ c = '-' ∨ c = '+' ∨ c = '.' ∨ c = 'e' ∨ c = 'E'

/-- The literal that a word spells. -/
def word? (text : List Char) : Option Token :=
  match text with
  | ['n', 'u', 'l', 'l'] => some (.scalar .null)
  | ['t', 'r', 'u', 'e'] => some (.scalar (.bool true))
  | ['f', 'a', 'l', 's', 'e'] => some (.scalar (.bool false))
  | _ => none

/-- Start a token with a character that stands between tokens. -/
def startToken? (c : Char) : Option (List Token × Scan) :=
  if isBlank c then some ([], .between)
  else if c = '[' then some ([.openArray], .between)
  else if c = ']' then some ([.closeArray], .between)
  else if c = '\x7b' then some ([.openObject], .between)
  else if c = '\x7d' then some ([.closeObject], .between)
  else if c = ',' then some ([.comma], .between)
  else if c = ':' then some ([.colon], .between)
  else if c = '"' then some ([], .quoted [])
  else if c = '-' ∨ c.isDigit then some ([], .number [c])
  else if c.isLower then some ([], .word [c])
  else none

/-- The token of a finished word or number; nothing between tokens; none inside a quotation. -/
def Scan.finish? : Scan → Option (List Token)
  | .between => some []
  | .word text => (word? text.reverse).map ([·])
  | .number text => (numeral? text.reverse).map fun n => [.scalar n.value]
  | _ => none

/-- The character of a one-letter escape. -/
def escaped? (c : Char) : Option Char :=
  match c with
  | '"' => some '"'
  | '\\' => some '\\'
  | '/' => some '/'
  | 'b' => some '\x08'
  | 'f' => some '\x0c'
  | 'n' => some '\n'
  | 'r' => some '\r'
  | 't' => some '\t'
  | _ => none

/-- The value of a hexadecimal digit. -/
def hexDigit? (c : Char) : Option Nat :=
  if c.isDigit then some (c.toNat - '0'.toNat)
  else if 'a' ≤ c ∧ c ≤ 'f' then some (c.toNat - 'a'.toNat + 10)
  else if 'A' ≤ c ∧ c ≤ 'F' then some (c.toNat - 'A'.toNat + 10)
  else none

/-- Go on after a complete 16-bit unit. The first half of a pair waits for the second; a half on
its own is a fault. -/
def Scan.afterUnit? (text : List Char) (high : Option Nat) (unit : Nat) : Option Scan :=
  let isHigh : Bool := 0xD800 ≤ unit ∧ unit ≤ 0xDBFF
  let isLow : Bool := 0xDC00 ≤ unit ∧ unit ≤ 0xDFFF
  match high with
  | some h =>
    if isLow then
      some (.quoted (Char.ofNat (0x10000 + (h - 0xD800) * 0x400 + (unit - 0xDC00)) :: text))
    else none
  | none =>
    if isHigh then some (.pair text unit)
    else if isLow then none
    else some (.quoted (Char.ofNat unit :: text))

/-- Take one character: the tokens it completes and what the scanner is in then. -/
def Scan.step? (scan : Scan) (c : Char) : Option (List Token × Scan) :=
  match scan with
  | .between => startToken? c
  | .word text =>
    if c.isLower then some ([], .word (c :: text))
    else do
      let (more, next) ← startToken? c
      return ((← scan.finish?) ++ more, next)
  | .number text =>
    if isNumeric c then some ([], .number (c :: text))
    else do
      let (more, next) ← startToken? c
      return ((← scan.finish?) ++ more, next)
  | .quoted text =>
    if c = '"' then some ([.scalar (.string (String.ofList text.reverse))], .between)
    else if c = '\\' then some ([], .escape text)
    else if c.toNat < 0x20 then none
    else some ([], .quoted (c :: text))
  | .escape text =>
    if c = 'u' then some ([], .unit text none 0 0)
    else (escaped? c).map fun e => ([], .quoted (e :: text))
  | .unit text high digits value => do
    let d ← hexDigit? c
    let value := value * 16 + d
    if digits = 3 then return ([], ← Scan.afterUnit? text high value)
    else return ([], .unit text high (digits + 1) value)
  | .pair text high => if c = '\\' then some ([], .pairUnit text high) else none
  | .pairUnit text high => if c = 'u' then some ([], .unit text (some high) 0 0) else none

/-- The tokens of a text. -/
def tokens? (scan : Scan) : List Char → Option (List Token)
  | [] => scan.finish?
  | c :: rest => do
    let (done, next) ← scan.step? c
    return done ++ (← tokens? next rest)

/-! ## The stack of open containers -/

/-- A container that is still open: the items read so far, last first, or the fields read so far
and the name of the one being read. -/
inductive Container where
  | array (items : List Json)
  | object (fields : Fields) (name : String)

/-- What may come next. -/
inductive Place where
  | value
  | itemOrClose
  | nameOrClose
  | name
  | colon
  | commaOrClose
  | done (value : Json)

/-- Hand a finished value to the innermost open container. -/
def deliver (value : Json) : List Container → List Container × Place
  | [] => ([], .done value)
  | .array items :: outer => (.array (value :: items) :: outer, .commaOrClose)
  | .object fields name :: outer => (.object (fields.set name value) name :: outer, .commaOrClose)

/-- Start a value: a scalar is complete, a bracket opens a container. -/
def startValue? (stack : List Container) : Token → Option (List Container × Place)
  | .scalar value => some (deliver value stack)
  | .openArray => some (.array [] :: stack, .itemOrClose)
  | .openObject => some (.object [] "" :: stack, .nameOrClose)
  | _ => none

/-- Close the innermost container if the token is its bracket. -/
def close? (stack : List Container) : Token → Option (List Container × Place)
  | .closeArray => match stack with
    | .array items :: outer => some (deliver (.array items.reverse) outer)
    | _ => none
  | .closeObject => match stack with
    | .object fields _ :: outer => some (deliver (.object fields) outer)
    | _ => none
  | _ => none

/-- Take one token. -/
def build? (state : List Container × Place) (token : Token) : Option (List Container × Place) :=
  let (stack, place) := state
  match place, stack, token with
  | .value, _, _ => startValue? stack token
  | .itemOrClose, _, .closeArray => close? stack token
  | .itemOrClose, _, _ => startValue? stack token
  | .nameOrClose, _, .closeObject => close? stack token
  | .nameOrClose, .object fields _ :: outer, .scalar (.string name)
  | .name, .object fields _ :: outer, .scalar (.string name) =>
    some (.object fields name :: outer, .colon)
  | .colon, _, .colon => some (stack, .value)
  | .commaOrClose, .array _ :: _, .comma => some (stack, .value)
  | .commaOrClose, .object _ _ :: _, .comma => some (stack, .name)
  | .commaOrClose, _, _ => close? stack token
  | _, _, _ => none

/-- Read a document. -/
def parse? (text : String) : Option Json := do
  let tokens ← tokens? .between text.toList
  match ← tokens.foldlM build? ([], .value) with
  | ([], .done value) => some value
  | _ => none

end BoardRules.Json
