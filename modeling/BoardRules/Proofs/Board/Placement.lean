import Mathlib
import BoardRules.Board.Basic

/-!
# Where pieces stand

On a board that places no piece twice (`PlacedOnce`), the placements are a finite map: looking a
piece up is finding its entry (`squareOf?_eq_some_iff`), lifting a piece drops its one entry
(`placements_lift`), and placing a piece that already stands somewhere changes its one entry
(`placements_place`).  Both are cases of `rearrange`: some victims lose their entries, and one piece
goes to a square.  Rearranging twice for one piece is rearranging once (`rearrange_rearrange`).
-/

namespace BoardRules

/-- In a list without second entries for a key, the entry that is found is the only one. -/
theorem lookup_eq_some_iff_mem {α β : Type} [DecidableEq α] {entries : List (α × β)} {key : α}
    {value : β} (once : (entries.map Prod.fst).Nodup) :
    entries.lookup key = some value ↔ (key, value) ∈ entries := by
  induction entries with
  | nil => simp
  | cons entry rest ih =>
    obtain ⟨id, old⟩ := entry
    rw [List.map_cons, List.nodup_cons] at once
    rw [List.lookup_cons, List.mem_cons, Prod.mk.injEq]
    by_cases same : key = id
    · subst same
      have absent : (key, value) ∉ rest := fun found =>
        once.1 (List.mem_map.2 ⟨(key, value), found, rfl⟩)
      simp [absent, eq_comm]
    · simp [same, beq_eq_false_iff_ne.2 same, ih once.2]

namespace Board

/-- No piece is placed twice. -/
def PlacedOnce (b : Board) : Prop := (b.placements.map Prod.fst).Nodup

/-- A placement after the piece went to a square, if it did. -/
def relocate (piece : PieceId) (target : Option Square) (placed : PieceId × Square) :
    PieceId × Square :=
  if placed.1 = piece then (piece, target.getD placed.2) else placed

@[simp] theorem relocate_fst (piece : PieceId) (target : Option Square)
    (placed : PieceId × Square) : (relocate piece target placed).1 = placed.1 := by
  unfold relocate
  split
  · rename_i same
    exact same.symm
  · rfl

/-- The entries of other pieces stay where they are. -/
theorem relocate_of_ne {piece : PieceId} {placed : PieceId × Square} (h : placed.1 ≠ piece)
    (target : Option Square) : relocate piece target placed = placed := if_neg h

@[simp] theorem relocate_none (piece : PieceId) (placed : PieceId × Square) :
    relocate piece none placed = placed := by
  unfold relocate
  split
  · rename_i same
    exact Prod.ext same.symm rfl
  · rfl

/-- The later square counts. -/
theorem relocate_relocate (piece : PieceId) (old new : Option Square)
    (placed : PieceId × Square) :
    relocate piece new (relocate piece old placed) = relocate piece (new.or old) placed := by
  by_cases same : placed.1 = piece
  · cases new <;> simp [relocate, same]
  · rw [relocate_of_ne same, relocate_of_ne same, relocate_of_ne same]

/-- The placements after victims were taken from the board and a piece went to a square, if it
did. -/
def rearrange (piece : PieceId) (target : Option Square) (victims : List PieceId)
    (placements : List (PieceId × Square)) : List (PieceId × Square) :=
  (placements.filter (·.1 ∉ victims)).map (relocate piece target)

/-! ## Entries of one piece -/

section Entries

variable {placements : List (PieceId × Square)} {piece : PieceId} {square : Square}

/-- A piece is found exactly if it has an entry. -/
theorem isSome_lookup_iff :
    (placements.lookup piece).isSome = true ↔ piece ∈ placements.map Prod.fst := by
  rw [List.lookup_isSome_iff, List.mem_map]
  refine exists_congr fun placed => and_congr_right fun _ => ?_
  rw [beq_iff_eq, eq_comm]

/-- Erasing the first entry of a piece that has no second one drops all its entries. -/
theorem eraseP_eq_filter (once : (placements.map Prod.fst).Nodup) (piece : PieceId) :
    placements.eraseP (·.1 = piece) = placements.filter (·.1 ≠ piece) := by
  induction placements with
  | nil => rfl
  | cons placed rest ih =>
    rw [List.map_cons, List.nodup_cons] at once
    by_cases same : placed.1 = piece
    · rw [List.eraseP_cons_of_pos (by simpa using same),
        List.filter_cons_of_neg (by simpa using same)]
      have others : ∀ other ∈ rest, other.1 ≠ piece := fun other hother h =>
        once.1 (List.mem_map.2 ⟨other, hother, h.trans same.symm⟩)
      exact (List.filter_eq_self.2 fun other hother => decide_eq_true (others other hother)).symm
    · rw [List.eraseP_cons_of_neg (by simpa using same),
        List.filter_cons_of_pos (by simpa using same), ih once.2]

/-- Moving the first entry of a piece to where it is changes nothing. -/
theorem placeIn_eq_self (h : placements.lookup piece = some square) :
    placeIn piece square placements = placements := by
  induction placements with
  | nil => exact nomatch h
  | cons placed rest ih =>
    obtain ⟨id, old⟩ := placed
    rw [List.lookup_cons] at h
    unfold placeIn
    by_cases same : id = piece
    · subst same
      rw [beq_self_eq_true] at h
      rw [if_pos rfl, ← Option.some.inj h]
    · rw [beq_eq_false_iff_ne.2 (Ne.symm same)] at h
      rw [if_neg same, ih h]

/-- Relocating a piece that has no entry changes nothing. -/
theorem map_relocate_of_not_mem (h : piece ∉ placements.map Prod.fst) (target : Option Square) :
    placements.map (relocate piece target) = placements := by
  refine (List.map_congr_left fun placed hplaced => ?_).trans (List.map_id placements)
  exact relocate_of_ne (fun same => h (List.mem_map.2 ⟨placed, hplaced, same⟩)) target

/-- Moving the first entry of a piece that has no second one relocates the piece. -/
theorem placeIn_eq_map_relocate (once : (placements.map Prod.fst).Nodup)
    (placed : piece ∈ placements.map Prod.fst) (square : Square) :
    placeIn piece square placements = placements.map (relocate piece (some square)) := by
  induction placements with
  | nil => exact absurd placed List.not_mem_nil
  | cons first rest ih =>
    rw [List.map_cons, List.nodup_cons] at once
    rw [List.map_cons, List.mem_cons] at placed
    unfold placeIn
    by_cases same : first.1 = piece
    · rw [if_pos same, List.map_cons, map_relocate_of_not_mem (same ▸ once.1), relocate,
        if_pos same]
      rfl
    · rw [if_neg same, List.map_cons, relocate_of_ne same,
        ih once.2 (placed.resolve_left (Ne.symm same))]

/-! ### Rearranging -/

variable {target : Option Square} {victims : List PieceId}

/-- Rearranging drops the victims and keeps the order of the others. -/
@[simp] theorem map_fst_rearrange (piece : PieceId) (target : Option Square)
    (victims : List PieceId) (placements : List (PieceId × Square)) :
    (rearrange piece target victims placements).map Prod.fst =
      (placements.map Prod.fst).filter (· ∉ victims) := by
  unfold rearrange
  rw [List.map_map, List.filter_map]
  exact List.map_congr_left fun placed _ => relocate_fst piece target placed

/-- Rearranging the placements does not give a piece a second entry. -/
theorem nodup_rearrange (once : (placements.map Prod.fst).Nodup) (piece : PieceId)
    (target : Option Square) (victims : List PieceId) :
    ((rearrange piece target victims placements).map Prod.fst).Nodup := by
  rw [map_fst_rearrange]
  exact once.filter _

/-- Without a destination the entries of the victims go and that is all. -/
theorem rearrange_none (piece : PieceId) (victims : List PieceId)
    (placements : List (PieceId × Square)) :
    rearrange piece none victims placements = placements.filter (·.1 ∉ victims) :=
  (List.map_congr_left fun placed _ => relocate_none piece placed).trans (List.map_id _)

@[simp] theorem rearrange_none_nil (piece : PieceId) (placements : List (PieceId × Square)) :
    rearrange piece none [] placements = placements := by
  simp [rearrange_none]

/-- Rearranging twice for one piece is rearranging once, with the later square and all victims. -/
theorem rearrange_rearrange (piece : PieceId) (old new : Option Square)
    (older newer : List PieceId) (placements : List (PieceId × Square)) :
    rearrange piece new newer (rearrange piece old older placements) =
      rearrange piece (new.or old) (older ++ newer) placements := by
  unfold rearrange
  rw [List.filter_map, List.map_map, List.filter_filter]
  have moves : relocate piece new ∘ relocate piece old = relocate piece (new.or old) :=
    funext fun placed => relocate_relocate piece old new placed
  rw [moves]
  refine congrArg _ (List.filter_congr fun placed _ => ?_)
  simp [Bool.and_comm]

/-- A piece that does not move keeps its entry, unless it is a victim. -/
theorem mem_rearrange_of_ne (placed : PieceId × Square) (h : placed.1 ≠ piece) :
    placed ∈ rearrange piece target victims placements ↔
      placed ∈ placements ∧ placed.1 ∉ victims := by
  unfold rearrange
  simp only [List.mem_map, List.mem_filter, decide_eq_true_eq]
  constructor
  · rintro ⟨old, ⟨hold, free⟩, rfl⟩
    rw [relocate_fst] at h
    rw [relocate_of_ne h]
    exact ⟨hold, free⟩
  · rintro ⟨hplaced, free⟩
    exact ⟨placed, ⟨hplaced, free⟩, relocate_of_ne h target⟩

/-- The piece that moves has its entry at the target. -/
theorem mem_rearrange_self_iff (free : piece ∉ victims) :
    (piece, square) ∈ rearrange piece target victims placements ↔
      ∃ old, (piece, old) ∈ placements ∧ target.getD old = square := by
  unfold rearrange
  simp only [List.mem_map, List.mem_filter, decide_eq_true_eq]
  constructor
  · rintro ⟨placed, ⟨hplaced, -⟩, heq⟩
    have same : placed.1 = piece := by rw [← relocate_fst piece target placed, heq]
    rw [relocate, if_pos same] at heq
    exact ⟨placed.2, same ▸ hplaced, (Prod.mk.inj heq).2⟩
  · rintro ⟨old, hold, rfl⟩
    exact ⟨(piece, old), ⟨hold, free⟩, if_pos rfl⟩

end Entries

/-! ## Boards -/

variable {b : Board} {piece : PieceId} {square : Square}

/-- A piece stands somewhere exactly if it has an entry. -/
theorem isSome_squareOf?_iff :
    (b.squareOf? piece).isSome = true ↔ piece ∈ b.placements.map Prod.fst := isSome_lookup_iff

/-- A piece stands nowhere exactly if it has no entry. -/
theorem squareOf?_eq_none_iff :
    b.squareOf? piece = none ↔ piece ∉ b.placements.map Prod.fst := by
  rw [← isSome_squareOf?_iff, Option.not_isSome_iff_eq_none]

/-- A piece that is placed once stands where its entry says. -/
theorem squareOf?_eq_some_iff (once : b.PlacedOnce) :
    b.squareOf? piece = some square ↔ (piece, square) ∈ b.placements :=
  lookup_eq_some_iff_mem once

/-- The occupant of a square is placed there. -/
theorem mem_placements_of_occupant? (h : b.occupant? square = some piece) :
    (piece, square) ∈ b.placements := by
  obtain ⟨placed, found, rfl⟩ := Option.map_eq_some_iff.1 h
  have here : placed.2 = square := by simpa using List.find?_some found
  exact here ▸ List.mem_of_find?_eq_some found

/-- Nobody is placed on an empty square. -/
theorem ne_of_occupant?_eq_none (h : b.occupant? square = none) {placed : PieceId × Square}
    (hplaced : placed ∈ b.placements) : placed.2 ≠ square := by
  intro here
  have empty := List.find?_eq_none.1 (Option.map_eq_none_iff.1 h) placed hplaced
  exact empty (decide_eq_true here)

/-- On a board without shared squares the occupant of a square is the piece that is placed there. -/
theorem occupant?_eq_some_iff (apart : (b.placements.map Prod.snd).Nodup) :
    b.occupant? square = some piece ↔ (piece, square) ∈ b.placements := by
  refine ⟨mem_placements_of_occupant?, fun placed => ?_⟩
  cases occupied : b.occupant? square with
  | none => exact absurd rfl (ne_of_occupant?_eq_none occupied placed)
  | some other =>
    have there := mem_placements_of_occupant? occupied
    have same := List.inj_on_of_nodup_map apart there placed rfl
    exact congrArg some (congrArg Prod.fst same)

/-- Lifting a piece that stands nowhere changes nothing. -/
theorem lift_eq_self (h : b.squareOf? piece = none) : b.lift piece = b := by
  have absent : piece ∉ b.placements.map Prod.fst := squareOf?_eq_none_iff.1 h
  unfold lift
  rw [List.eraseP_of_forall_not]
  intro placed hplaced same
  exact absent (List.mem_map.2 ⟨placed, hplaced, of_decide_eq_true same⟩)

/-- Placing a piece where it stands changes nothing. -/
theorem place_eq_self (h : b.squareOf? piece = some square) : b.place piece square = b := by
  unfold place
  rw [placeIn_eq_self h]

/-- Lifting a piece drops its entry. -/
theorem placements_lift (once : b.PlacedOnce) (piece : PieceId) :
    (b.lift piece).placements = b.placements.filter (·.1 ≠ piece) := eraseP_eq_filter once piece

/-- Placing a piece that stands somewhere relocates it. -/
theorem placements_place (once : b.PlacedOnce) (placed : piece ∈ b.placements.map Prod.fst)
    (square : Square) :
    (b.place piece square).placements = rearrange piece (some square) [] b.placements := by
  refine (placeIn_eq_map_relocate once placed square).trans ?_
  simp [rearrange]

end Board

end BoardRules
