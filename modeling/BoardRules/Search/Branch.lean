import BoardRules.Board.Basic
import BoardRules.Delta

/-!
# Branches of actions

An action turns the deltas gathered so far into alternatives, each a whole delta set with the
squares to highlight. What a move does on a square depends on who stands there: on an empty square
it may arrive, from a piece of another owner or of none it may take, and a piece of the same owner
stops it.
-/

namespace BoardRules

/-- What a highlighted square stands for. -/
inductive TagKind where
  | move
  | attack
  | moveAttack
  deriving DecidableEq, Repr

namespace TagKind

/-- The word for a tag. -/
def name : TagKind → String
  | .move => "Move"
  | .attack => "Attack"
  | .moveAttack => "MoveAttack"

/-- The tag of a word. -/
def ofName? (word : String) : Option TagKind :=
  if word = "Move" then some .move
  else if word = "Attack" then some .attack
  else if word = "MoveAttack" then some .moveAttack
  else none

/-- A tag is written as its word; an object whose one field is the word with `null` is read as
well. -/
instance : Wire TagKind where
  toJson kind := .string kind.name
  ofJson?
    | .string word => ofName? word
    | .object [(word, .null)] => ofName? word
    | _ => none

instance : LawfulWire TagKind where
  ofJson?_toJson kind := by cases kind <;> rfl

end TagKind

/-- A highlighted square. -/
structure Tag where
  kind : TagKind
  square : Square
  deriving DecidableEq, Repr

instance : Wire Tag where
  toJson tag := .ofFields [("kind", toJson tag.kind), ("square", toJson tag.square)]
  ofJson? j := do
    let fields ← j.structure? ["kind", "square"]
    return { kind := ← fields.required "kind", square := ← fields.required "square" }

/-- One alternative of an action. -/
structure Branch where
  deltas : DeltaSet
  tags : List Tag
  deriving DecidableEq, Repr

/-! ## Slides -/

namespace Square

/-- How far a square is from the edge that a vector leads to. -/
def room (size : Extent) (v p : Square) : Nat :=
  if 0 < v.x.toInt then (size.width.toInt - p.x.toInt).toNat
  else if v.x.toInt < 0 then (p.x.toInt + 1).toNat
  else if 0 < v.y.toInt then (size.height.toInt - p.y.toInt).toNat
  else (p.y.toInt + 1).toNat

/-- A step that stays on the board comes nearer to the edge. -/
theorem room_lt {size : Extent} {v p q : Square} (hv : v ≠ zero)
    (hq : p.offset? v = some q) (inside : size.contains q = true) :
    room size v q < room size v p := by
  obtain ⟨hx, hy⟩ := toInt_of_offset? hq
  have := ne_zero_iff.1 hv
  have := Extent.contains_iff.1 inside
  unfold room
  split
  · omega
  · split
    · omega
    · split <;> omega

end Square

/-- The squares that repeated steps along a vector meet, up to the edge or the first one that is
occupied. The zero vector meets none. -/
def ray (size : Extent) (occupied : Square → Bool) (v p : Square) : List Square :=
  if hv : v = .zero then []
  else
    match hq : p.offset? v with
    | none => []
    | some q =>
      if inside : size.contains q = true then
        have := Square.room_lt hv hq inside
        if occupied q then [q] else q :: ray size occupied v q
      else []
termination_by Square.room size v p

/-! ## Actions -/

namespace Move

/-- What a move of `piece` may do on a square of the board. -/
def outcomes (m : Move) (board : Board) (deltas : DeltaSet) (piece : PieceId) (aim : Square) :
    List Branch :=
  match board.occupant? aim with
  | none =>
    if m.modes.meets (MoveModes.move.or .moveAttack) then
      [⟨deltas.mergeAll [.cell aim, .position aim], [⟨.move, aim⟩]⟩]
    else []
  | some target =>
    if (board.owner? piece).map (·.id) = (board.owner? target).map (·.id) then []
    else
      (if m.modes.meets .moveAttack then
        [⟨deltas.mergeAll [.cell aim, .position aim, .attack [target]], [⟨.moveAttack, aim⟩]⟩]
      else []) ++
      (if m.modes.meets .attack then
        [⟨deltas.mergeAll [.cell aim, .attack [target]], [⟨.attack, aim⟩]⟩]
      else [])

/-- The squares that a move reaches along one global vector. -/
def targets (m : Move) (board : Board) (origin v : Square) : List Square :=
  if m.sliding then ray board.size (fun q => (board.occupant? q).isSome) v origin
  else
    match origin.offset? v with
    | some q => if board.onBoard q then [q] else []
    | none => []

/-- The branches of a move, vector by vector. There are none when nobody owns the piece or the
deltas place it nowhere. -/
def branches (m : Move) (board : Board) (deltas : DeltaSet) (piece : PieceId) : List Branch :=
  match board.owner? piece, deltas.destination? with
  | some owner, some origin =>
    m.vectors.flatMap fun v =>
      (m.targets board origin (owner.seat.globalVector v)).flatMap
        (m.outcomes board deltas piece)
  | _, _ => []

end Move

/-- The branches of an action. -/
def Action.branches (action : Action) (board : Board) (deltas : DeltaSet) (piece : PieceId) :
    List Branch :=
  match action with
  | .move m => m.branches board deltas piece
  | .lose _ =>
    match board.owner? piece with
    | some owner => [⟨deltas.mergeAll [.lose owner.id], []⟩]
    | none => []

end BoardRules
