import Mathlib
import BoardRules.Proofs.Geometry.Step
import BoardRules.Search.Branch

/-!
# Rays step by step

A slide is a loop of single steps (`ray_eq`).  It comes to its end along every vector that leads
anywhere, from every square and on boards of every size (`slides_ray`), in one way only
(`Slides.eq_ray`), and it meets no more squares than the longer side of the board has
(`length_ray_le`), even if it starts off the board.
-/

namespace BoardRules

/-- A ray goes on step by step, up to the first square that is occupied. -/
theorem ray_eq (size : Extent) (occupied : Square → Bool) {v : Square} (moves : v ≠ .zero)
    (p : Square) :
    ray size occupied v p =
      match Square.step? size v p with
      | none => []
      | some q => if occupied q then [q] else q :: ray size occupied v q := by
  unfold Square.step?
  fun_cases ray size occupied v p with
  | case1 zero => exact absurd zero moves
  | case2 _ next => rw [next, Option.filter_none]
  | case3 _ q next inside _ blocked =>
    rw [next, Option.filter_some, if_pos inside]
    exact (if_pos blocked).symm
  | case4 _ q next inside _ free =>
    rw [next, Option.filter_some, if_pos inside]
    exact (if_neg free).symm
  | case5 _ q next outside => rw [next, Option.filter_some, if_neg outside]

/-- A move that does not slide makes one step. -/
theorem Move.targets_of_not_sliding {m : Move} (single : m.sliding = false) (b : Board)
    (origin v : Square) : m.targets b origin v = (Square.step? b.size v origin).toList := by
  unfold targets Square.step?
  rw [single]
  cases origin.offset? v with
  | none => rfl
  | some q =>
    unfold Board.onBoard
    rw [Option.filter_some]
    by_cases inside : b.size.contains q = true <;> simp [inside]

/-! ## The end of a slide -/

/-- A slide that comes to its end, with the squares that it meets: step after step, until a step
leads off the board or to a square that is occupied. -/
inductive Slides (size : Extent) (occupied : Square → Bool) (v : Square) :
    Square → List Square → Prop
  /-- The next step leads off the board. -/
  | edge {p : Square} : Square.step? size v p = none → Slides size occupied v p []
  /-- The next step meets a square that is occupied. -/
  | meet {p q : Square} : Square.step? size v p = some q → occupied q = true →
      Slides size occupied v p [q]
  /-- The next step leads on. -/
  | onward {p q : Square} {rest : List Square} : Square.step? size v p = some q →
      occupied q = false → Slides size occupied v q rest → Slides size occupied v p (q :: rest)

variable (size : Extent) (occupied : Square → Bool)

/-- The squares along a ray are those of a slide that comes to its end. -/
theorem slides_ray {v : Square} (moves : v ≠ .zero) (p : Square) :
    Slides size occupied v p (ray size occupied v p) := by
  fun_induction ray size occupied v p with
  | case1 p still => exact absurd still moves
  | case2 p _ next =>
    refine .edge ?_
    rw [Square.step?, next, Option.filter_none]
  | case3 p _ q next inside _ blocked =>
    refine .meet ?_ blocked
    rw [Square.step?, next, Option.filter_some, if_pos inside]
  | case4 p _ q next inside _ free ih =>
    refine .onward ?_ (Bool.eq_false_iff.2 free) ih
    rw [Square.step?, next, Option.filter_some, if_pos inside]
  | case5 p _ q next outside =>
    refine .edge ?_
    rw [Square.step?, next, Option.filter_some, if_neg outside]

/-- There is only one slide, the ray. -/
theorem Slides.eq_ray {size : Extent} {occupied : Square → Bool} {v p : Square}
    {squares : List Square} (slides : Slides size occupied v p squares) (moves : v ≠ .zero) :
    squares = ray size occupied v p := by
  induction slides with
  | edge stops => rw [ray_eq _ _ moves, stops]
  | meet goes blocked =>
    rw [ray_eq _ _ moves, goes]
    exact (if_pos blocked).symm
  | onward goes free _ ih =>
    rw [ray_eq _ _ moves, goes, ih]
    exact (if_neg (Bool.eq_false_iff.1 free)).symm

namespace Square

variable {size : Extent} {p : Square}

/-- On the board there is some room, and no more than the longer side. -/
theorem room_bounds (inside : size.contains p = true) (v : Square) :
    0 < room size v p ∧ room size v p ≤ max size.width.toInt.toNat size.height.toInt.toNat := by
  have here := Extent.contains_iff.1 inside
  unfold room
  split
  · omega
  · split
    · omega
    · split <;> omega

end Square

/-- A slide from a square of the board meets fewer squares than there is room. -/
theorem length_ray_lt_room (v : Square) {p : Square} (inside : size.contains p = true) :
    (ray size occupied v p).length < Square.room size v p := by
  have enters := (Square.room_bounds inside v).1
  fun_induction ray size occupied v p with
  | case1 => exact enters
  | case2 => exact enters
  | case3 p moves q next there _ _ =>
    have nearer := Square.room_lt moves next there
    have rest := (Square.room_bounds there v).1
    rw [List.length_singleton]
    omega
  | case4 p moves q next there _ _ ih =>
    have nearer := Square.room_lt moves next there
    have rest := ih there (Square.room_bounds there v).1
    rw [List.length_cons]
    omega
  | case5 => exact enters

/-- A slide meets no more squares than the longer side of the board has. -/
theorem length_ray_le (v p : Square) :
    (ray size occupied v p).length ≤ max size.width.toInt.toNat size.height.toInt.toNat := by
  fun_cases ray size occupied v p with
  | case1 => exact Nat.zero_le _
  | case2 => exact Nat.zero_le _
  | case3 _ q _ there =>
    have room := Square.room_bounds there v
    exact room.1.trans_le room.2
  | case4 _ q _ there =>
    exact (length_ray_lt_room size occupied v there).trans_le (Square.room_bounds there v).2
  | case5 => exact Nat.zero_le _

end BoardRules
