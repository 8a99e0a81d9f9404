import Mathlib
import BoardRules.Guard.Evaluation
import BoardRules.Proofs.Board.Placement

/-!
# What guards see of squares

A guard asks for the coordinates of a piece in the frame of the piece's owner, and for the piece
that stands at coordinates in the frame of a player.  Both need a player at the table, and both
resolve the owner by way of the nations; the coordinates are read from values, which may be texts.
Where a piece is seen (`Guard.ownView?_eq_some_iff`) and what is seen at a place
(`Guard.pieceSeenAt?_eq_some_iff`) are inverse to each other, since turns of the board wrap and so
can be undone on every square of every board.  So a piece that asks who stands where it stands
itself finds itself (`Guard.pieceSeenAt?_of_ownView?`), and the coordinates at which it finds a
piece of its owner are those at which this piece is seen (`Guard.ownView?_of_pieceSeenAt?`).
-/

namespace BoardRules

/-- Whoever owns a piece is the player found under the own name. -/
theorem Board.player?_of_owner? {b : Board} {piece : PieceId} {owner : Player}
    (owned : b.owner? piece = some owner) : b.player? owner.id = some owner := by
  obtain ⟨id, -, found⟩ := Option.bind_eq_some_iff.1 owned
  have named : owner.id = id := by simpa using List.find?_some found
  rwa [named]

namespace Guard

variable {board : Board} {piece : PieceId} {view : Square} {x y viewer : Value}

/-! ## Seeing -/

/-- A placed piece is seen where its owner sees its square, if the owner sits at the table. -/
theorem ownView?_eq_some_iff :
    ownView? board piece = some view ↔
      ∃ square owner, board.squareOf? piece = some square ∧ board.owner? piece = some owner ∧
        owner.seat.isAtTable = true ∧ owner.seat.localSquare board.size square = view := by
  simp only [ownView?, bind, Option.bind_eq_some_iff, Option.ite_none_right_eq_some,
    Option.some.injEq, exists_and_left]

/-- The piece that is seen at a place is the occupant of the square that a player at the table sees
there. -/
theorem pieceSeenAt?_eq_some_iff :
    pieceSeenAt? board x y viewer = some piece ↔
      ∃ (view : Square) (id : PlayerId) (player : Player),
        x.toInt? = some view.x.toInt ∧ y.toInt? = some view.y.toInt ∧
        viewer.player? = some id ∧ board.player? id = some player ∧
        player.seat.isAtTable = true ∧
        board.occupant? (player.seat.globalSquare board.size view) = some piece := by
  simp only [pieceSeenAt?, bind, Option.bind_eq_some_iff, Option.ite_none_right_eq_some]
  constructor
  · rintro ⟨m, hm, n, hn, cx, hx, cy, hy, id, named, player, known, seated, stands⟩
    rw [← toInt_of_coordinate? hx] at hm
    rw [← toInt_of_coordinate? hy] at hn
    exact ⟨⟨cx, cy⟩, id, player, hm, hn, named, known, seated, stands⟩
  · rintro ⟨⟨cx, cy⟩, id, player, hm, hn, named, known, seated, stands⟩
    exact ⟨_, hm, _, hn, cx, coordinate?_toInt cx, cy, coordinate?_toInt cy, id, named, player,
      known, seated, stands⟩

/-- Where squares are not shared, a piece is seen where its owner looks for it. -/
theorem pieceSeenAt?_of_ownView? (apart : (board.placements.map Prod.snd).Nodup) {owner : Player}
    (owned : board.owner? piece = some owner) (seen : ownView? board piece = some view) :
    pieceSeenAt? board (.int view.x.toInt) (.int view.y.toInt) (.player owner.id) =
      some piece := by
  obtain ⟨square, player, stands, owns, seated, rfl⟩ := ownView?_eq_some_iff.1 seen
  obtain rfl : owner = player := Option.some.inj (owned.symm.trans owns)
  have placed : (piece, square) ∈ board.placements := by
    obtain ⟨before, behind, split, -⟩ := List.lookup_eq_some_iff.1 stands
    rw [split]
    exact List.mem_append_right before List.mem_cons_self
  refine pieceSeenAt?_eq_some_iff.2 ⟨_, owner.id, owner, rfl, rfl, rfl,
    Board.player?_of_owner? owned, seated, ?_⟩
  rw [Seat.globalSquare_localSquare]
  exact (Board.occupant?_eq_some_iff apart).2 placed

/-- Where pieces are placed once, a piece that its owner sees at a place is seen there. -/
theorem ownView?_of_pieceSeenAt? (once : board.PlacedOnce) {owner : Player}
    (owned : board.owner? piece = some owner)
    (seen : pieceSeenAt? board x y (.player owner.id) = some piece) :
    ∃ view, ownView? board piece = some view ∧ x.toInt? = some view.x.toInt ∧
      y.toInt? = some view.y.toInt := by
  obtain ⟨view, id, player, hx, hy, named, known, seated, stands⟩ :=
    pieceSeenAt?_eq_some_iff.1 seen
  obtain rfl : owner.id = id := Option.some.inj named
  obtain rfl : owner = player := Option.some.inj ((Board.player?_of_owner? owned).symm.trans known)
  have placed := Board.mem_placements_of_occupant? stands
  have stood := (Board.squareOf?_eq_some_iff once).2 placed
  have back := owner.seat.localSquare_globalSquare board.size view
  exact ⟨view, ownView?_eq_some_iff.2 ⟨_, owner, stood, owned, seated, back⟩, hx, hy⟩

/-! ## Asking -/

/-- The piece that asks. -/
def asSelf : Guard := .call .self []

/-- The first coordinate of a piece. -/
def xOf (piece : Guard) : Guard := .call .localX [piece]

/-- The second coordinate of a piece. -/
def yOf (piece : Guard) : Guard := .call .localY [piece]

/-- The piece at coordinates in the frame of the owner of the piece that asks. -/
def lookAt (x y : Guard) : Guard := .call .pieceOn [x, y, .call .me []]

variable {context : Context} {x y e : Guard}

/-- What the piece that asks finds is what its owner sees. -/
theorem eval_lookAt_eq_piece_iff :
    (lookAt x y).eval context = .piece piece ↔
      ∃ owner, context.board.owner? context.this = some owner ∧
        pieceSeenAt? context.board (x.eval context) (y.eval context) (.player owner.id) =
          some piece := by
  have opened : (lookAt x y).eval context = .piece piece ↔
      pieceSeenAt? context.board (x.eval context) (y.eval context)
        (ownerValue context.board context.this) = some piece := by
    simp only [lookAt, eval, evalAll, Primitive.apply]
    cases pieceSeenAt? context.board (x.eval context) (y.eval context)
      (ownerValue context.board context.this) <;> simp
  rw [opened, ownerValue]
  cases context.board.owner? context.this with
  | none =>
    -- the value of an unowned piece's owner names no player
    have blind : pieceSeenAt? context.board (x.eval context) (y.eval context) .null = none := by
      refine Option.eq_none_iff_forall_not_mem.2 fun other seen => ?_
      obtain ⟨_, id, _, -, -, named, -⟩ := pieceSeenAt?_eq_some_iff.1 seen
      exact absurd named.symm (Option.some_ne_none id)
    simp [blind]
  | some owner => simp

/-- The coordinates of a piece are those at which its owner sees it. -/
theorem eval_coordinates (found : e.eval context = .piece piece)
    (seen : ownView? context.board piece = some view) :
    (xOf e).eval context = .int view.x.toInt ∧ (yOf e).eval context = .int view.y.toInt := by
  simp [xOf, yOf, eval, evalAll, found, Primitive.apply, seen]

/-- On a board where neither pieces nor squares occur twice among the placements, coordinates that
guards read lead back to the piece.  A placed piece whose owner sits at the table finds itself where
it is seen, on the board or off it.  Wherever a piece finds one of the same owner, the coordinates
that it looks at are integers, and they are the coordinates of the piece that it finds, whoever asks
for them and however this piece is named. -/
theorem sight_spec {b : Board} (once : b.PlacedOnce) (apart : (b.placements.map Prod.snd).Nodup)
    (this : PieceId) (attacker : Option PieceId) :
    (∀ owner, this ∈ b.placements.map Prod.fst → b.owner? this = some owner →
        owner.seat.isAtTable = true →
          ∃ guard, compile .vanilla
              "(vanilla.get-piece (vanilla.x (self)) (vanilla.y (self)) (me))" = .ok guard ∧
            guard.eval ⟨b, this, attacker⟩ = .piece this) ∧
      ∀ x y found, (lookAt x y).eval ⟨b, this, attacker⟩ = .piece found →
        b.owner? found = b.owner? this →
          ∃ m n : ℤ, (x.eval ⟨b, this, attacker⟩).toInt? = some m ∧
            (y.eval ⟨b, this, attacker⟩).toInt? = some n ∧
            ∀ context : Context, context.board = b → ∀ e, e.eval context = .piece found →
              (xOf e).eval context = .int m ∧ (yOf e).eval context = .int n := by
  constructor
  · intro owner placed owned seated
    refine ⟨lookAt (xOf asSelf) (yOf asSelf), by cbv, ?_⟩
    obtain ⟨square, stands⟩ := Option.isSome_iff_exists.1 (Board.isSome_squareOf?_iff.2 placed)
    have seen : ownView? b this = some (owner.seat.localSquare b.size square) :=
      ownView?_eq_some_iff.2 ⟨square, owner, stands, owned, seated, rfl⟩
    have own : asSelf.eval ⟨b, this, attacker⟩ = .piece this := rfl
    have coordinates := eval_coordinates own seen
    refine eval_lookAt_eq_piece_iff.2 ⟨owner, owned, ?_⟩
    rw [coordinates.1, coordinates.2]
    exact pieceSeenAt?_of_ownView? apart owned seen
  · intro x y found looks same
    obtain ⟨owner, owned, sees⟩ := eval_lookAt_eq_piece_iff.1 looks
    obtain ⟨view, seen, hx, hy⟩ := ownView?_of_pieceSeenAt? once (same.trans owned) sees
    exact ⟨_, _, hx, hy, fun context table e names =>
      eval_coordinates names (table.symm ▸ seen)⟩

/-- White sits at seat 4 of a narrow board, with a scout far off the board and a guard in a
corner. -/
def outpost : Board :=
  { Board.empty "outpost" ⟨3, 5⟩ with
    players := [{ id := ⟨"white"⟩, seat := ⟨4⟩ }]
    nations :=
      { nodes := [{ id := ⟨"whites"⟩, monarch := some ⟨"white"⟩,
                    children := [.piece ⟨"scout"⟩, .piece ⟨"guard"⟩] }],
        roots := [0] }
    placements := [(⟨"scout"⟩, ⟨-7, 2147483647⟩), (⟨"guard"⟩, ⟨2, 4⟩)] }

/-- The scout finds itself, and finds the guard at coordinates that are spelt with a sign and
blanks. -/
theorem sight_of_outpost :
    outpost.PlacedOnce ∧ (outpost.placements.map Prod.snd).Nodup ∧
      (∃ guard, compile .vanilla
          "(vanilla.get-piece (vanilla.x (self)) (vanilla.y (self)) (me))" = .ok guard ∧
        guard.eval ⟨outpost, ⟨"scout"⟩, none⟩ = .piece ⟨"scout"⟩) ∧
      (lookAt (.text " +0 ") (.text "2")).eval ⟨outpost, ⟨"scout"⟩, none⟩ = .piece ⟨"guard"⟩ ∧
      (xOf asSelf).eval ⟨outpost, ⟨"guard"⟩, some ⟨"scout"⟩⟩ = .int 0 ∧
      (yOf asSelf).eval ⟨outpost, ⟨"guard"⟩, some ⟨"scout"⟩⟩ = .int 2 := by
  have once : (outpost.placements.map Prod.fst).Nodup := by decide
  have apart : (outpost.placements.map Prod.snd).Nodup := by decide
  have owned : outpost.owner? ⟨"scout"⟩ = some { id := ⟨"white"⟩, seat := ⟨4⟩ } := by cbv
  have same : outpost.owner? ⟨"guard"⟩ = outpost.owner? ⟨"scout"⟩ := by cbv
  have looks : (lookAt (.text " +0 ") (.text "2")).eval ⟨outpost, ⟨"scout"⟩, none⟩ =
      .piece ⟨"guard"⟩ := by cbv
  obtain ⟨finds, reads⟩ := sight_spec once apart ⟨"scout"⟩ none
  obtain ⟨m, n, hm, hn, coordinates⟩ := reads _ _ _ looks same
  have zero : (Value.text " +0 ").toInt? = some 0 := by cbv
  have two : (Value.text "2").toInt? = some 2 := by cbv
  obtain rfl : 0 = m := Option.some.inj (zero.symm.trans hm)
  obtain rfl : 2 = n := Option.some.inj (two.symm.trans hn)
  exact ⟨once, apart, finds _ (by decide) owned (by decide), looks,
    coordinates ⟨outpost, ⟨"guard"⟩, some ⟨"scout"⟩⟩ rfl asSelf rfl⟩

end Guard

end BoardRules
