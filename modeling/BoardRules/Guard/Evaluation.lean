import BoardRules.Board.Basic
import BoardRules.Guard.Value

/-!
# Evaluating guards

A guard is evaluated for one piece on one board. A primitive with the wrong number of arguments
gives null, which is not true, so a malformed guard stops instead of letting pass.
-/

namespace BoardRules.Guard

/-- What a guard can look at. -/
structure Context where
  board : Board
  /-- The piece whose behaviour is tried. -/
  this : PieceId
  /-- The piece that has taken this one in the chain so far. -/
  attacker : Option PieceId := none

/-- The player who owns a piece, as a value. -/
def ownerValue (board : Board) (piece : PieceId) : Value :=
  match board.owner? piece with
  | some player => .player player.id
  | none => .null

/-- Where a piece stands in the frame of its owner, who must be seated. -/
def ownView? (board : Board) (piece : PieceId) : Option Square := do
  let square ← board.squareOf? piece
  let owner ← board.owner? piece
  if owner.seat.isAtTable then some (owner.seat.localSquare board.size square) else none

/-- The piece on a square in the frame of a seated player. -/
def pieceSeenAt? (board : Board) (x y viewer : Value) : Option PieceId := do
  let x ← x.toInt?
  let y ← y.toInt?
  let square : Square := ⟨← coordinate? x, ← coordinate? y⟩
  let player ← board.player? (← viewer.player?)
  if player.seat.isAtTable then board.occupant? (player.seat.globalSquare board.size square)
  else none

/-- The value of a primitive from those of its arguments. -/
def Primitive.apply (context : Context) : Primitive → List Value → Value
  | .and, args => .bool (args.all Value.isTrue)
  | .or, args => .bool (args.any Value.isTrue)
  | .not, [a] => .bool !a.isTrue
  | .xor, [a, b] => .bool (a.isTrue != b.isTrue)
  | .equal, [a, b] => .bool (a.agrees b)
  | .different, [a, b] => .bool !(a.agrees b)
  | .isNull, [a] => .bool a.isNull
  | .isNull, _ => .bool false
  | .self, [] => .piece context.this
  | .owner, [.piece id] => ownerValue context.board id
  | .me, [] => ownerValue context.board context.this
  | .localX, [.piece id] =>
    match ownView? context.board id with
    | some square => .int square.x.toInt
    | none => .null
  | .localY, [.piece id] =>
    match ownView? context.board id with
    | some square => .int square.y.toInt
    | none => .null
  | .pieceOn, [x, y, viewer] =>
    match pieceSeenAt? context.board x y viewer with
    | some id => .piece id
    | none => .null
  | .moveCount, [.piece id] => .int (context.board.moveCount id).toNat
  | .attacker, [] =>
    match context.attacker with
    | some id => .piece id
    | none => .null
  | _, _ => .null

mutual

/-- The value of a guard. -/
def eval (context : Context) : Guard → Value
  | .text s => .text s
  | .call primitive args => primitive.apply context (evalAll context args)

/-- The values of guards in order. -/
def evalAll (context : Context) : List Guard → List Value
  | [] => []
  | g :: rest => eval context g :: evalAll context rest

end

/-- Whether a guard lets pass. -/
def holds (guard : Guard) (context : Context) : Bool := (guard.eval context).isTrue

end BoardRules.Guard

namespace BoardRules

/-- Whether a condition lets a behaviour go on; one that does not compile never does. -/
def Condition.passes (c : Condition) (context : Guard.Context) : Bool :=
  c.guard?.any (·.holds context)

end BoardRules
