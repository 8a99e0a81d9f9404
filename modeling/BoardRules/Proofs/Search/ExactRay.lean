import Mathlib
import BoardRules.Proofs.Search.Enumeration
import BoardRules.Proofs.Search.Ray

/-!
# Moves in exact arithmetic

The rules describe a move with integers: turn its vectors into the global frame, add them up from
where the piece stands, go on until the edge or the first piece (`Move.Aims`), and look up in a
table what to do there (`Move.Tabled`).  The move computes with 32-bit coordinates, and from a
square of the board it finds the same squares in the same order: a slide that comes to its end is
the ray of exact arithmetic (`Slides.exactRay`), and there is only one such ray (`ExactRay.unique`).
`Move.branches_eq_exact` puts the pieces together.
-/

namespace BoardRules

/-! ## Rays -/

/-- The squares `o + d`, `o + 2 • d` and so on, up to and including the first one that is occupied,
or up to the edge of the board. -/
structure ExactRay (size : Extent) (occupied : Square → Bool) (o d : ℤ × ℤ)
    (squares : List Square) : Prop where
  /-- The squares are on the board, each one vector from the one before. -/
  steps : ∀ k, (h : k < squares.length) →
    size.contains squares[k] = true ∧ squares[k].coords = o + (k + 1) • d
  /-- No square before the last one is occupied. -/
  free : ∀ q ∈ squares.dropLast, occupied q = false
  /-- The last square is occupied, or the board ends there. -/
  ends : (∃ q, squares.getLast? = some q ∧ occupied q = true) ∨
    ∀ q, size.contains q = true → q.coords ≠ o + (squares.length + 1) • d

namespace ExactRay

variable {size : Extent} {occupied : Square → Bool} {o d : ℤ × ℤ} {squares others : List Square}

/-- No ray along a vector is longer than another. -/
theorem length_le (ray : ExactRay size occupied o d squares)
    (other : ExactRay size occupied o d others) : others.length ≤ squares.length := by
  by_contra longer
  have longer : squares.length < others.length := Nat.lt_of_not_le longer
  rcases ray.ends with ⟨q, last, blocked⟩ | edge
  · -- the shorter ray stops at a square that the longer one passes
    obtain ⟨front, rfl⟩ := List.getLast?_eq_some_iff.1 last
    rw [List.length_append, List.length_singleton] at longer
    have here := (ray.steps front.length (by simp)).2
    have there := (other.steps front.length (by omega)).2
    rw [List.getElem_concat_length rfl] at here
    have same : q = others[front.length] := Square.coords_injective (here.trans there.symm)
    have passed : others[front.length] ∈ others.dropLast := by
      have before : front.length < others.dropLast.length := by
        rw [List.length_dropLast]
        omega
      have member := List.getElem_mem before
      rwa [List.getElem_dropLast] at member
    have free := other.free _ passed
    rw [← same, blocked] at free
    exact nomatch free
  · have beyond := other.steps squares.length longer
    exact edge _ beyond.1 beyond.2

/-- There is only one ray along a vector. -/
theorem unique (ray : ExactRay size occupied o d squares)
    (other : ExactRay size occupied o d others) : squares = others := by
  refine List.ext_getElem (le_antisymm (other.length_le ray) (ray.length_le other)) ?_
  intro k here there
  exact Square.coords_injective ((ray.steps k here).2.trans (other.steps k there).2.symm)

/-- One more step at the beginning of a ray. -/
theorem cons {q : Square} (rest : ExactRay size occupied q.coords d squares)
    (inside : size.contains q = true) (leads : q.coords = o + d) (free : occupied q = false) :
    ExactRay size occupied o d (q :: squares) := by
  have shift (n : ℕ) : o + (n + 1) • d = q.coords + n • d := by
    rw [leads, succ_nsmul']
    abel
  constructor
  case steps =>
    rintro (_ | k) h
    · exact ⟨inside, by rw [zero_add, one_nsmul]; exact leads⟩
    · have next := rest.steps k (Nat.lt_of_succ_lt_succ h)
      rw [← shift (k + 1)] at next
      exact next
  case free =>
    intro r passed
    cases squares with
    | nil => exact absurd passed List.not_mem_nil
    | cons s squares =>
      rcases List.mem_cons.1 passed with rfl | later
      · exact free
      · exact rest.free r later
  case ends =>
    rcases rest.ends with ⟨r, last, blocked⟩ | edge
    · exact .inl ⟨r, by rw [List.getLast?_cons, last]; rfl, blocked⟩
    · refine .inr fun r there => ?_
      rw [List.length_cons, shift]
      exact edge r there

end ExactRay

/-- If the steps from the squares of the board are exact, then a slide that comes to its end is the
ray of exact arithmetic. -/
theorem Slides.exactRay {size : Extent} {occupied : Square → Bool} {w p : Square} {d : ℤ × ℤ}
    {squares : List Square}
    (exact : ∀ p, size.contains p = true → ∀ q, Square.step? size w p = some q ↔
      size.contains q = true ∧ q.coords = p.coords + d)
    (slides : Slides size occupied w p squares) (inside : size.contains p = true) :
    ExactRay size occupied p.coords d squares := by
  induction slides with
  | @edge p stops =>
    refine ⟨fun k h => absurd h (Nat.not_lt_zero k), fun q h => absurd h List.not_mem_nil, .inr ?_⟩
    intro q there leads
    rw [List.length_nil, zero_add, one_nsmul] at leads
    have goes := (exact p inside q).2 ⟨there, leads⟩
    rw [stops] at goes
    exact nomatch goes
  | @meet p q goes blocked =>
    obtain ⟨there, leads⟩ := (exact p inside q).1 goes
    refine ⟨?_, fun r h => absurd h List.not_mem_nil, .inl ⟨q, rfl, blocked⟩⟩
    intro k h
    obtain rfl : k = 0 := Nat.lt_one_iff.1 h
    exact ⟨there, by rw [zero_add, one_nsmul]; exact leads⟩
  | @onward p q rest goes free _ ih =>
    obtain ⟨there, leads⟩ := (exact p inside q).1 goes
    exact (ih there).cons there leads free

/-! ## Moves -/

namespace Move

variable {m : Move} {b : Board} {seat : Seat} {origin v : Square} {squares : List Square}

/-- The squares that a move aims at from a square along a vector of a seat, in exact arithmetic. -/
structure Aims (m : Move) (b : Board) (seat : Seat) (origin v : Square)
    (squares : List Square) : Prop where
  /-- Without sliding it is the square that the vector leads to, if the board has such a square. -/
  single : m.sliding = false →
    (∃ q, squares = [q] ∧ b.onBoard q = true ∧
      q.coords = origin.coords + seat.turn.rotate v.coords) ∨
    squares = [] ∧ ∀ q, b.onBoard q = true →
      q.coords ≠ origin.coords + seat.turn.rotate v.coords
  /-- Sliding along the zero vector leads nowhere. -/
  still : m.sliding = true → v = .zero → squares = []
  /-- Sliding along another vector follows the ray up to the first piece or the edge. -/
  slide : m.sliding = true → v ≠ .zero →
    ExactRay b.size (fun q => (b.occupant? q).isSome) origin.coords (seat.turn.rotate v.coords)
      squares

namespace Aims

/-- A move aims at one row of squares. -/
theorem unique {others : List Square} (aims : m.Aims b seat origin v squares)
    (other : m.Aims b seat origin v others) : squares = others := by
  cases slides : m.sliding with
  | false =>
    rcases aims.single slides, other.single slides with
      ⟨⟨q, rfl, here, leads⟩ | ⟨rfl, edge⟩, ⟨r, rfl, there, leads'⟩ | ⟨rfl, edge'⟩⟩
    · rw [Square.coords_injective (leads.trans leads'.symm)]
    · exact absurd leads (edge' q here)
    · exact absurd leads' (edge r there)
    · rfl
  | true =>
    by_cases zero : v = .zero
    · rw [aims.still slides zero, other.still slides zero]
    · exact (aims.slide slides zero).unique (other.slide slides zero)

/-- The squares that a move aims at are on the board, one vector after the other. -/
theorem steps (aims : m.Aims b seat origin v squares) (k : ℕ) (h : k < squares.length) :
    b.onBoard squares[k] = true ∧
      squares[k].coords = origin.coords + (k + 1) • seat.turn.rotate v.coords := by
  cases slides : m.sliding with
  | false =>
    rcases aims.single slides with ⟨q, rfl, here, leads⟩ | ⟨rfl, _⟩
    · obtain rfl : k = 0 := Nat.lt_one_iff.1 h
      exact ⟨here, by rw [zero_add, one_nsmul]; exact leads⟩
    · exact absurd h (Nat.not_lt_zero k)
  | true =>
    by_cases zero : v = .zero
    · obtain rfl := aims.still slides zero
      exact absurd h (Nat.not_lt_zero k)
    · exact (aims.slide slides zero).steps k h

/-- In the frame of the owner, each square is one vector further than the one before. -/
theorem coords_localSquare (aims : m.Aims b seat origin v squares)
    (inside : b.onBoard origin = true) (k : ℕ) (h : k < squares.length) :
    (seat.localSquare b.size squares[k]).coords =
      (seat.localSquare b.size origin).coords + (k + 1) • v.coords := by
  obtain ⟨there, leads⟩ := aims.steps k h
  rw [← Turn.rotate_nsmul] at leads
  exact seat.coords_localSquare_eq_add inside there leads

end Aims

/-- From a square of the board, the computed squares are those of exact arithmetic. -/
theorem aims_targets (m : Move) {b : Board} (seat : Seat) {origin : Square}
    (inside : b.onBoard origin = true) (v : Square) :
    m.Aims b seat origin v (m.targets b origin (seat.globalVector v)) := by
  have exact (p : Square) (here : b.size.contains p = true) (q : Square) :
      Square.step? b.size (seat.globalVector v) p = some q ↔
        b.size.contains q = true ∧ q.coords = p.coords + seat.turn.rotate v.coords :=
    seat.step?_globalVector_eq_some_iff here
  constructor
  case single =>
    intro once
    rw [targets_of_not_sliding once]
    cases goes : Square.step? b.size (seat.globalVector v) origin with
    | some q => exact .inl ⟨q, rfl, (exact origin inside q).1 goes⟩
    | none =>
      refine .inr ⟨rfl, fun q there leads => ?_⟩
      have step := (exact origin inside q).2 ⟨there, leads⟩
      rw [goes] at step
      exact nomatch step
  case still =>
    intro slides zero
    rw [targets, if_pos slides, ray, dif_pos (seat.globalVector_eq_zero_iff.2 zero)]
  case slide =>
    intro slides nonzero
    have moves : seat.globalVector v ≠ .zero := mt seat.globalVector_eq_zero_iff.1 nonzero
    rw [targets, if_pos slides]
    exact (slides_ray b.size _ moves origin).exactRay exact inside

/-- What the table of outcomes lists for a square, as whole branches: the deltas that are given,
merged with what the piece does there. -/
structure Tabled (m : Move) (b : Board) (deltas : DeltaSet) (mover : PlayerId) (aim : Square)
    (branches : List Branch) : Prop where
  /-- To an empty square the piece goes if it may move, or may take by going there. -/
  empty : b.occupant? aim = none →
    branches =
      if m.modes.meets .move = true ∨ m.modes.meets .moveAttack = true then
        [⟨deltas.mergeAll [.cell aim, .position aim], [⟨.move, aim⟩]⟩]
      else []
  /-- It does nothing to a piece of the same owner. -/
  friendly : ∀ target, b.occupant? aim = some target → b.owns mover target = true →
    branches = []
  /-- A piece of another owner, or of none, it takes by going there and from where it stands, as it
  may. -/
  hostile : ∀ target, b.occupant? aim = some target → b.owns mover target = false →
    branches =
      (if m.modes.meets .moveAttack = true then
        [⟨deltas.mergeAll [.cell aim, .position aim, .attack [target]], [⟨.moveAttack, aim⟩]⟩]
      else []) ++
      if m.modes.meets .attack = true then
        [⟨deltas.mergeAll [.cell aim, .attack [target]], [⟨.attack, aim⟩]⟩]
      else []

end Move

/-- Modes meet either of two if they meet one of them. -/
theorem MoveModes.meets_or (m n k : MoveModes) : m.meets (n.or k) = true ↔
    m.meets n = true ∨ m.meets k = true := by
  have distribute : m.bits &&& (n.bits ||| k.bits) = m.bits &&& n.bits ||| m.bits &&& k.bits := by
    rw [← UInt32.toNat_inj]
    simp only [UInt32.toNat_and, UInt32.toNat_or, Nat.and_or_distrib_left]
  simp only [meets, MoveModes.or, distribute, decide_eq_true_eq, ne_eq, UInt32.or_eq_zero_iff,
    not_and_or]

namespace Move

/-- What a move does on a square is what its table lists. -/
theorem tabled_outcomes (m : Move) {b : Board} (deltas : DeltaSet) {piece : PieceId}
    {owner : Player} (owned : b.owner? piece = some owner) (aim : Square) :
    m.Tabled b deltas owner.id aim (m.outcomes b deltas piece aim) := by
  have same (target : PieceId) : (b.owner? piece).map (·.id) = (b.owner? target).map (·.id) ↔
      b.owns owner.id target = true := by
    rw [owned, Board.owns, Option.any_eq_true]
    cases b.owner? target <;> simp [eq_comm]
  constructor
  case empty =>
    intro free
    rw [outcomes, free]
    simp only [MoveModes.meets_or]
  case friendly =>
    intro target stands friend
    rw [outcomes, stands]
    exact if_pos ((same target).2 friend)
  case hostile =>
    intro target stands foe
    rw [outcomes, stands]
    exact if_neg (mt (same target).1 (Bool.eq_false_iff.1 foe))

/-- A move of an owned piece that stands on the board has the branches of exact arithmetic: for each
vector in order, the squares that it aims at, and for each of these what the table lists.  The owner
sees every square as many vectors away as steps were made; and slides come to an end wherever they
start, after no more squares than the longer side of the board has. -/
theorem branches_eq_exact (m : Move) {b : Board} {deltas : DeltaSet} {piece : PieceId}
    {owner : Player} {origin : Square} (owned : b.owner? piece = some owner)
    (stands : deltas.destination? = some origin) (inside : b.onBoard origin = true) :
    (∃ (aims : Square → List Square) (table : Square → List Branch),
      (∀ v squares, m.Aims b owner.seat origin v squares ↔ squares = aims v) ∧
      (∀ aim, m.Tabled b deltas owner.id aim (table aim)) ∧
      m.branches b deltas piece = m.vectors.flatMap fun v => (aims v).flatMap table) ∧
    (∀ v squares, m.Aims b owner.seat origin v squares → ∀ k, (h : k < squares.length) →
      (owner.seat.localSquare b.size squares[k]).coords =
        (owner.seat.localSquare b.size origin).coords + (k + 1) • v.coords) ∧
    ∀ (size : Extent) (occupied : Square → Bool) (v p : Square), v ≠ .zero →
      Slides size occupied v p (ray size occupied v p) ∧
        (ray size occupied v p).length ≤ max size.width.toInt.toNat size.height.toInt.toNat := by
  refine ⟨⟨fun v => m.targets b origin (owner.seat.globalVector v), m.outcomes b deltas piece,
    ?_, m.tabled_outcomes deltas owned, ?_⟩, ?_, ?_⟩
  · intro v squares
    constructor
    · exact fun aims => aims.unique (m.aims_targets owner.seat inside v)
    · rintro rfl
      exact m.aims_targets owner.seat inside v
  · rw [branches, owned, stands]
  · exact fun v squares aims => aims.coords_localSquare inside
  · exact fun size occupied v p moves =>
      ⟨slides_ray size occupied moves p, length_ray_le size occupied v p⟩

end Move

/-- The guard, the raider below it and the king to its left on a large board. -/
def wideBoard : Board :=
  { raidBoard with
    size := .standard
    placements := [(⟨"guard"⟩, ⟨3, 3⟩), (⟨"raider"⟩, ⟨3, 1⟩), (⟨"king"⟩, ⟨1, 3⟩)] }

/-- Slides along vectors past the range of coordinates, ahead, to the right, and nowhere. -/
def wideSlide : Move where
  modes := MoveModes.moveAttack.or .attack
  sliding := true
  vectors := [⟨2147483647, 0⟩, ⟨-2147483648, -2147483648⟩, ⟨0, 1⟩, ⟨1, 0⟩, ⟨0, 0⟩]

/-- Seen from the third seat the raider is ahead and the king, who is of the same owner, to the
right; the vectors that are too long lead off the board. -/
theorem wideSlide_branches :
    ∃ (aims : Square → List Square) (table : Square → List Branch),
      (∀ v squares, wideSlide.Aims wideBoard ⟨3⟩ ⟨3, 3⟩ v squares ↔ squares = aims v) ∧
      (∀ aim, wideSlide.Tabled wideBoard (.ofList [.position ⟨3, 3⟩]) ⟨"black"⟩ aim (table aim)) ∧
      (wideSlide.vectors.flatMap fun v => (aims v).flatMap table).map (·.tags) =
        [[⟨.move, ⟨3, 2⟩⟩], [⟨.moveAttack, ⟨3, 1⟩⟩], [⟨.attack, ⟨3, 1⟩⟩], [⟨.move, ⟨2, 3⟩⟩]] := by
  have owned : wideBoard.owner? ⟨"guard"⟩ = some { id := ⟨"black"⟩, seat := ⟨3⟩ } := by cbv
  have stands : (DeltaSet.ofList [.position ⟨3, 3⟩]).destination? = some ⟨3, 3⟩ := by cbv
  have inside : wideBoard.onBoard ⟨3, 3⟩ = true := by decide
  obtain ⟨⟨aims, table, exact, tabled, branches⟩, -, -⟩ :=
    wideSlide.branches_eq_exact owned stands inside
  refine ⟨aims, table, exact, tabled, ?_⟩
  rw [← branches]
  cbv

end BoardRules
