import Mathlib
import BoardRules.Guard.Evaluation
import BoardRules.Proofs.Guise.Lookup

/-!
# Guards under a guise

What a guard can see of squares are coordinates in the frames of seated players.  A guise leaves
those alone if it turns seats, squares and extents together (`Guise.Frames`).  Then every primitive
gives the same value, with pieces under their new names (`Guard.Primitive.apply_under`), and so does
every guard (`Guard.eval_under`); since texts never name pieces, a condition lets pass what it let
pass before (`Condition.passes_under`).
-/

namespace BoardRules

/-- A seat sees on a board under a guise what it sees without it. -/
structure Guise.Frames (g : Guise) (size : Extent) (seat : Seat) : Prop where
  /-- Whoever sits at the table still does. -/
  atTable : (g.seat seat).isAtTable = seat.isAtTable
  /-- Every square has the same coordinates in the frame of the seat. -/
  localSquare : ∀ p, (g.seat seat).localSquare (g.extent size) (g.square p) =
    seat.localSquare size p

/-- Coordinates in the frame of the seat lead to the same square. -/
theorem Guise.Frames.globalSquare {g : Guise} {size : Extent} {seat : Seat}
    (frames : g.Frames size seat) (p : Square) :
    (g.seat seat).globalSquare (g.extent size) p = g.square (seat.globalSquare size p) := by
  have seen := frames.localSquare (seat.globalSquare size p)
  rw [Seat.localSquare_globalSquare] at seen
  have back := (g.seat seat).globalSquare_localSquare (g.extent size)
    (g.square (seat.globalSquare size p))
  rwa [seen] at back

namespace Guard

/-! ## Values -/

namespace Value

/-- A value under a guise. -/
def under (v : Value) (g : Guise) : Value :=
  match v with
  | .piece id => .piece (g.piece id)
  | v => v

variable (v w : Value) (g : Guise)

@[simp] theorem under_null : Value.null.under g = .null := rfl

@[simp] theorem under_bool (b : Bool) : (Value.bool b).under g = .bool b := rfl

@[simp] theorem under_piece (id : PieceId) : (Value.piece id).under g = .piece (g.piece id) := rfl

@[simp] theorem isTrue_under : (v.under g).isTrue = v.isTrue := by
  cases v <;> rfl

/-- A guise keeps which integer a value is read as: no name of a piece is one. -/
@[simp] theorem toInt?_under : (v.under g).toInt? = v.toInt? := by
  cases v <;> rfl

@[simp] theorem player?_under : (v.under g).player? = v.player? := by
  cases v <;> rfl

@[simp] theorem isNull_under : (v.under g).isNull = v.isNull := by
  cases v <;> rfl

/-- Values agree as before: pieces are the same if their names are, and no text is a piece. -/
@[simp] theorem agrees_under : (v.under g).agrees (w.under g) = v.agrees w := by
  cases v <;> cases w <;> simp [under, agrees, g.piece_injective.eq_iff]

end Value

/-! ## Primitives -/

/-- What a guard can look at under a guise. -/
def Context.under (context : Context) (g : Guise) : Context where
  board := context.board.under g
  this := g.piece context.this
  attacker := context.attacker.map g.piece

variable (g : Guise)

/-- The owner of a piece is the same value. -/
theorem ownerValue_under (b : Board) (piece : PieceId) :
    ownerValue (b.under g) (g.piece piece) = (ownerValue b piece).under g := by
  unfold ownerValue
  rw [Board.owner?_under]
  cases b.owner? piece <;> rfl

variable {g}

/-- A piece has the same coordinates in the frame of its owner. -/
theorem ownView?_under {b : Board} (frames : ∀ player ∈ b.players, g.Frames b.size player.seat)
    (piece : PieceId) : ownView? (b.under g) (g.piece piece) = ownView? b piece := by
  unfold ownView?
  rw [Board.squareOf?_under, Board.owner?_under]
  cases b.squareOf? piece with
  | none => rfl
  | some square =>
    cases owned : b.owner? piece with
    | none => rfl
    | some owner =>
      have frame := frames owner (b.mem_players_of_owner? owned)
      have seated : (owner.under g).seat.isAtTable = owner.seat.isAtTable := frame.atTable
      have seen : (owner.under g).seat.localSquare (b.under g).size (g.square square) =
          owner.seat.localSquare b.size square := frame.localSquare square
      simp only [bind, Option.map_some, Option.bind_some, seated, seen]

/-- The same piece is seen on a square in the frame of a player. -/
theorem pieceSeenAt?_under {b : Board}
    (frames : ∀ player ∈ b.players, g.Frames b.size player.seat) (x y viewer : Value) :
    pieceSeenAt? (b.under g) (x.under g) (y.under g) (viewer.under g) =
      (pieceSeenAt? b x y viewer).map g.piece := by
  unfold pieceSeenAt?
  simp only [Value.toInt?_under, Value.player?_under, Board.player?_under, bind, Option.map_bind,
    Option.bind_map, Function.comp_def]
  -- the coordinates and the viewer's name are read as before, up to the viewer's seat
  refine Option.bind_congr fun x _ => Option.bind_congr fun y _ => Option.bind_congr fun cx _ =>
    Option.bind_congr fun cy _ => Option.bind_congr fun id _ =>
      Option.bind_congr fun player found => ?_
  have frame := frames player (List.mem_of_find?_eq_some found)
  have seated : (player.under g).seat.isAtTable = player.seat.isAtTable := frame.atTable
  have seen : (player.under g).seat.globalSquare (b.under g).size ⟨cx, cy⟩ =
      g.square (player.seat.globalSquare b.size ⟨cx, cy⟩) := frame.globalSquare ⟨cx, cy⟩
  rw [seated, seen, Board.occupant?_under]
  split <;> rfl

variable {context : Context}

/-- A question about a piece has the same answer. -/
theorem Primitive.apply_piece_under
    (frames : ∀ player ∈ context.board.players, g.Frames context.board.size player.seat)
    (primitive : Primitive) (id : PieceId) :
    primitive.apply (context.under g) [.piece (g.piece id)] =
      (primitive.apply context [.piece id]).under g := by
  cases primitive with
  | owner => exact ownerValue_under g context.board id
  | localX | localY =>
    simp only [apply, Context.under, ownView?_under frames id]
    cases ownView? context.board id <;> rfl
  | moveCount =>
    simp only [apply, Context.under, Board.moveCount_under]
    rfl
  | _ => rfl

/-- A primitive gives the same value. -/
theorem Primitive.apply_under
    (frames : ∀ player ∈ context.board.players, g.Frames context.board.size player.seat)
    (primitive : Primitive) (args : List Value) :
    primitive.apply (context.under g) (args.map (·.under g)) =
      (primitive.apply context args).under g := by
  cases primitive with
  | and => simp [apply, Function.comp_def]
  | or => simp [apply, Function.comp_def]
  | not | xor | equal | different | isNull =>
    rcases args with _ | ⟨v, _ | ⟨w, _ | ⟨u, rest⟩⟩⟩ <;> simp [apply]
  | self =>
    cases args <;> rfl
  | me =>
    cases args with
    | nil => exact ownerValue_under g context.board context.this
    | cons v rest => rfl
  | attacker =>
    cases args with
    | nil =>
      simp only [apply, Context.under, List.map_nil]
      cases context.attacker <;> rfl
    | cons v rest => rfl
  | owner | localX | localY | moveCount =>
    rcases args with _ | ⟨v, _ | ⟨w, rest⟩⟩
    · rfl
    · cases v with
      | piece id => exact apply_piece_under frames _ id
      | _ => rfl
    · cases v <;> rfl
  | pieceOn =>
    rcases args with _ | ⟨x, _ | ⟨y, _ | ⟨viewer, _ | ⟨w, rest⟩⟩⟩⟩
    · rfl
    · rfl
    · rfl
    · simp only [apply, Context.under, List.map_cons, List.map_nil, pieceSeenAt?_under frames]
      cases pieceSeenAt? context.board x y viewer <;> rfl
    · rfl

/-! ## Whole guards -/

mutual

/-- A guard gives the same value. -/
theorem eval_under
    (frames : ∀ player ∈ context.board.players, g.Frames context.board.size player.seat) :
    ∀ guard : Guard, guard.eval (context.under g) = (guard.eval context).under g
  | .text s => rfl
  | .call primitive args => by
    rw [eval, eval, evalAll_under frames args, primitive.apply_under frames]

/-- Arguments give the same values. -/
theorem evalAll_under
    (frames : ∀ player ∈ context.board.players, g.Frames context.board.size player.seat) :
    ∀ guards : List Guard,
      evalAll (context.under g) guards = (evalAll context guards).map (·.under g)
  | [] => rfl
  | guard :: rest => by
    rw [evalAll, evalAll, eval_under frames guard, evalAll_under frames rest, List.map_cons]

end

end Guard

/-- A condition lets pass what it let pass before. -/
theorem Condition.passes_under {g : Guise} (context : Guard.Context)
    (frames : ∀ player ∈ context.board.players, g.Frames context.board.size player.seat)
    (c : Condition) : c.passes (context.under g) = c.passes context := by
  unfold passes Guard.holds
  cases c.guard? with
  | none => rfl
  | some guard =>
    rw [Option.any_some, Option.any_some, Guard.eval_under frames, Guard.Value.isTrue_under]

end BoardRules
