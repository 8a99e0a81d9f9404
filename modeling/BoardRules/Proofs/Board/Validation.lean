import Mathlib
import BoardRules.Board.Storage
import BoardRules.Proofs.Nation.Ownership

/-!
# What validation reports

The rules for a board can be read off its snapshot: the kind is registered, whatever is placed is
registered and stands inside on a square of its own, and nations refer to registered pieces, to each
of them once.  `Snapshot.Board.faults` counts how often each of these rules is broken.  Validation
looks at the board that is built: it goes over the placements with those before them in reverse
order (`Board.count_sharedSquare`), over the pieces that the walks below the roots meet, with all
that were met before (`Forest.count_repeated_ofSnapshot`), and over the nations in their row, where
they no longer stand in the order in which the snapshot refers to pieces
(`Forest.perm_memberships_ofSnapshot`).  It reports every fault, each as often as it occurs, and
nothing else (`Board.issues_of_load`).
-/

namespace BoardRules

/-! ## The rules -/

namespace Snapshot

namespace NationMember

mutual

/-- The pieces that a member of a nation refers to, each with the nation that it is a direct member
of. -/
def memberships (owner : NationId) : NationMember → List (NationId × PieceId)
  | .piece id => [(owner, id)]
  | .group head members => membershipsAll head.id members

/-- The pieces that members of a nation refer to, each with the nation that it is a direct member
of. -/
def membershipsAll (owner : NationId) : List NationMember → List (NationId × PieceId)
  | [] => []
  | m :: rest => m.memberships owner ++ membershipsAll owner rest

end

end NationMember

/-- The pieces that a nation and the nations below it refer to, each with the nation that it is a
direct member of. -/
def Nation.memberships (n : Nation) : List (NationId × PieceId) :=
  NationMember.membershipsAll n.head.id n.members

namespace Board

/-- Whether the snapshot has a piece with an identity. -/
def registers (data : Board) (piece : PieceId) : Bool := data.pieces.any (·.id = piece)

/-- The piece of the latest placement on a square. -/
def latestOn? (placements : List (PieceId × Square)) (square : Square) : Option PieceId :=
  (placements.filter (·.2 = square)).getLast?.map Prod.fst

/-- How often a snapshot breaks the rule that an issue is about: the kind is registered; pieces that
are placed are registered and inside the board; no square is taken twice; no piece belongs to
nations twice; and members of nations are registered. -/
def faults (data : Board) (kinds : BoardKinds) : Issue → ℕ
  | .unknownBoardKind kind => if kind = data.kind ∧ kind ∉ kinds.names then 1 else 0
  | .strayPlacement piece =>
    if data.registers piece then 0 else (data.state.map Prod.fst).count piece
  | .offBoard piece square =>
    if data.size.contains square then 0 else data.state.count (piece, square)
  | .sharedSquare first second square =>
    (List.range data.state.length).countP fun n =>
      data.state[n]? = some (second, square) ∧ latestOn? (data.state.take n) square = some first
  | .multipleNations piece =>
    if 2 ≤ (data.nations.flatMap (·.leaves)).count piece then 1 else 0
  | .strayMember nation piece =>
    if data.registers piece then 0 else (data.nations.flatMap (·.memberships)).count (nation, piece)
  | .unknownStepType .. | .unbuiltStep .. | .uncompiledCondition .. => 0

end Board

end Snapshot

/-! ## Nations -/

open Snapshot (NationHead NationMember)

/-- The direct members of a nation that are pieces, each with the nation. -/
def Nation.memberships (n : Nation) : List (NationId × PieceId) := n.pieces.map fun id => (n.id, id)

/-- A nation has one membership for each piece among its children, under its own id. -/
theorem Nation.memberships_ofHead (head : NationHead) (children : List Child) :
    (Nation.ofHead head children).memberships =
      (children.filterMap Child.piece?).map fun id => (head.id, id) := by
  have pieces : (Nation.ofHead head children).pieces = children.filterMap Child.piece? :=
    List.filterMap_congr fun c _ => by cases c <;> rfl
  rw [memberships, pieces]
  rfl

namespace Forest

mutual

/-- The nations that a member brings have the memberships that are nested in it; if it is a piece,
the nation that it is a member of has one. -/
theorem perm_memberships_layOut (owner : NationId) (next : ℕ) (m : NationMember) :
    (((layOut next m).1.piece?.toList.map fun id => (owner, id)) ++
      (layOut next m).2.flatMap (·.memberships)).Perm (m.memberships owner) := by
  match m with
  | .piece id => exact List.Perm.refl _
  | .group head members =>
    have inner := perm_memberships_layOutAll head.id (next + 1) members
    rw [layOut, NationMember.memberships, List.flatMap_cons, Nation.memberships_ofHead]
    exact inner

/-- Laying members out keeps the memberships: those of the pieces named here, for the owner, and
those of the nations that are laid out below.  Only their order changes, since nations stand behind
the members that list them. -/
theorem perm_memberships_layOutAll (owner : NationId) (next : ℕ) (ms : List NationMember) :
    (((layOutAll next ms).1.filterMap Child.piece?).map (fun id => (owner, id)) ++
      (layOutAll next ms).2.flatMap (·.memberships)).Perm
        (NationMember.membershipsAll owner ms) := by
  match ms with
  | [] => exact List.Perm.refl _
  | m :: rest =>
    have first := perm_memberships_layOut owner next m
    have later := perm_memberships_layOutAll owner (next + (layOut next m).2.length) rest
    rw [layOutAll, NationMember.membershipsAll]
    refine List.Perm.trans ?_ (first.append later)
    -- in the row the pieces of the parent stand before the nations that its members bring
    have own (c : Child) (cs : List Child) :
        (c :: cs).filterMap Child.piece? = c.piece?.toList ++ cs.filterMap Child.piece? := by
      cases c <;> rfl
    dsimp only
    rw [own, List.flatMap_append, List.map_append, List.append_assoc, List.append_assoc]
    refine List.Perm.append_left _ ?_
    rw [← List.append_assoc, ← List.append_assoc]
    exact List.perm_append_comm.append_right _

end

/-- The nations in the row have the memberships of the snapshot. -/
theorem perm_memberships_ofSnapshot (data : List Snapshot.Nation) :
    ((ofSnapshot data).nodes.flatMap (·.memberships)).Perm (data.flatMap (·.memberships)) := by
  have rows (next : ℕ) : ((layOutRoots next data).2.flatMap (·.memberships)).Perm
      (data.flatMap (·.memberships)) := by
    induction data generalizing next with
    | nil => exact List.Perm.refl _
    | cons n rest ih =>
      have members := perm_memberships_layOutAll n.head.id (next + 1) n.members
      rw [layOutRoots]
      dsimp only
      rw [List.cons_append, List.flatMap_cons, List.flatMap_append, Nation.memberships_ofHead,
        ← List.append_assoc, List.flatMap_cons]
      exact members.append (ih _)
  exact rows 0

/-- The walks below the roots of a forest meet what the nested nations refer to. -/
theorem perm_flatMap_piecesBelow (f : Forest) :
    (f.roots.flatMap f.piecesBelow).Perm (f.toSnapshot.flatMap (·.leaves)) := by
  unfold toSnapshot
  induction f.roots with
  | nil => exact List.Perm.refl _
  | cons root rest ih =>
    rw [List.flatMap_cons]
    cases written : f.nationData? root with
    | none =>
      have missing : f.get? root = none := Option.map_eq_none_iff.1 written
      rw [piecesBelow_of_length_le (List.getElem?_eq_none_iff.1 missing),
        List.filterMap_cons_none written]
      exact ih
    | some n =>
      rw [List.filterMap_cons_some written, List.flatMap_cons]
      exact (leaves_nationData? written).symm.append ih

/-- A piece is repeated once if it is met again: among those that were met before it occurs at most
once, and at least twice in all. -/
theorem count_repeats (seen met : List PieceId) (piece : PieceId) :
    (repeats seen met).count piece =
      if seen.count piece ≤ 1 ∧ 2 ≤ seen.count piece + met.count piece then 1 else 0 := by
  induction met generalizing seen with
  | nil =>
    rw [repeats, List.count_nil]
    split <;> omega
  | cons first rest ih =>
    rw [repeats]
    by_cases same : first = piece
    · subst same
      by_cases once : seen.count first = 1
      · rw [if_pos once, List.count_cons_self, ih, List.count_cons_self, List.count_cons_self]
        rw [if_neg (by omega), if_pos (by omega)]
      · rw [if_neg once, ih, List.count_cons_self, List.count_cons_self]
        split <;> split <;> omega
    · have others : (repeats (first :: seen) rest).count piece =
          if seen.count piece ≤ 1 ∧ 2 ≤ seen.count piece + (first :: rest).count piece
            then 1 else 0 := by
        rw [ih, List.count_cons_of_ne same, List.count_cons_of_ne same]
      split
      · rw [List.count_cons_of_ne same, others]
      · exact others

/-- In a forest of nested nations a piece is repeated once if they refer to it more than once. -/
theorem count_repeated_ofSnapshot (data : List Snapshot.Nation) (piece : PieceId) :
    (ofSnapshot data).repeated.count piece =
      if 2 ≤ (data.flatMap (·.leaves)).count piece then 1 else 0 := by
  have met := (ofSnapshot data).perm_flatMap_piecesBelow
  rw [toSnapshot_ofSnapshot] at met
  rw [repeated, count_repeats, met.count_eq]
  simp

end Forest

/-! ## Placements -/

/-- The issue is about a placement. -/
def Issue.ofPlacement : Issue → Bool
  | .strayPlacement _ | .offBoard .. | .sharedSquare .. => true
  | _ => false

/-- The issue is about a nation. -/
def Issue.ofNation : Issue → Bool
  | .multipleNations _ | .strayMember .. => true
  | _ => false

namespace Board

open Snapshot.Board (latestOn?)

variable {b : Board} {earlier placements : List (PieceId × Square)}

/-- The issues of a placement, one by one. -/
theorem count_placementIssues (issue : Issue) (piece : PieceId) (square : Square) :
    (b.placementIssues earlier piece square).count issue =
      (if (b.piece? piece).isNone ∧ .strayPlacement piece = issue then 1 else 0) +
        (if ¬ b.onBoard square ∧ .offBoard piece square = issue then 1 else 0) +
        if (earlier.find? (·.2 = square)).any (.sharedSquare ·.1 piece square = issue) then 1
          else 0 := by
  unfold placementIssues
  rw [List.count_append, List.count_append]
  congr 1
  · congr 1
    · cases b.piece? piece <;> simp [List.count_singleton]
    · cases b.onBoard square <;> simp [List.count_singleton]
  · cases earlier.find? (·.2 = square) <;> simp [List.count_singleton]

/-- Placements raise issues about placements only. -/
theorem count_placementsIssues_of_other {issue : Issue} (other : issue.ofPlacement = false) :
    (b.placementsIssues earlier placements).count issue = 0 := by
  induction placements generalizing earlier with
  | nil => rfl
  | cons placed rest ih =>
    rw [placementsIssues, List.count_append, count_placementIssues, ih]
    cases issue <;> simp_all [Issue.ofPlacement]

/-- Every placement of a piece that is not registered is reported. -/
theorem count_strayPlacement (piece : PieceId) :
    (b.placementsIssues earlier placements).count (.strayPlacement piece) =
      if (b.piece? piece).isSome then 0 else (placements.map Prod.fst).count piece := by
  induction placements generalizing earlier with
  | nil => simp [placementsIssues]
  | cons placed rest ih =>
    rw [placementsIssues, List.count_append, count_placementIssues, ih, List.map_cons,
      List.count_cons]
    by_cases same : placed.1 = piece
    · rw [same]
      cases b.piece? piece <;> simp [Nat.add_comm]
    · simp [same]

/-- Every placement outside the board is reported. -/
theorem count_offBoard (piece : PieceId) (square : Square) :
    (b.placementsIssues earlier placements).count (.offBoard piece square) =
      if b.onBoard square then 0 else placements.count (piece, square) := by
  induction placements generalizing earlier with
  | nil => simp [placementsIssues]
  | cons placed rest ih =>
    obtain ⟨other, aim⟩ := placed
    rw [placementsIssues, List.count_append, count_placementIssues, ih, List.count_cons]
    by_cases same : (other, aim) = (piece, square)
    · cases same
      cases b.onBoard square <;> simp [Nat.add_comm]
    · have apart : ¬ (other = piece ∧ aim = square) := by simpa using same
      simp [apart]

/-- Every placement on a square that is taken is reported with the latest earlier one on the square;
the placements before `placements` are in reverse order in `earlier`. -/
theorem count_sharedSquare (first second : PieceId) (square : Square) :
    (b.placementsIssues earlier placements).count (.sharedSquare first second square) =
      (List.range placements.length).countP fun n =>
        placements[n]? = some (second, square) ∧
          latestOn? (earlier.reverse ++ placements.take n) square = some first := by
  induction placements generalizing earlier with
  | nil => rfl
  | cons placed rest ih =>
    obtain ⟨other, aim⟩ := placed
    have before (n : ℕ) : ((other, aim) :: earlier).reverse ++ rest.take n =
        earlier.reverse ++ ((other, aim) :: rest).take (n + 1) := by
      simp
    rw [placementsIssues, List.count_append, count_placementIssues, ih, List.length_cons,
      List.range_succ_eq_map, List.countP_cons, List.countP_map, Nat.add_comm]
    simp only [before]
    congr 1
    by_cases same : (other, aim) = (second, square)
    · cases same
      cases found : earlier.find? (·.2 = square) <;> simp [latestOn?, found]
    · have apart : ¬ (other = second ∧ aim = square) := by simpa using same
      simp [apart]

/-! ## Boards -/

/-- Nations raise issues about nations only. -/
theorem count_nationIssues_of_other (b : Board) {issue : Issue} (other : issue.ofNation = false) :
    b.nationIssues.count issue = 0 := by
  refine List.count_eq_zero.2 fun raised => ?_
  rcases List.mem_append.1 raised with again | stray
  · obtain ⟨piece, -, rfl⟩ := List.mem_map.1 again
    exact nomatch other
  · obtain ⟨⟨nation, piece⟩, -, found⟩ := List.mem_filterMap.1 stray
    obtain ⟨-, rfl⟩ : _ ∧ Issue.strayMember nation.id piece = issue := by simpa using found
    exact nomatch other

/-- Every piece that is repeated is reported. -/
theorem count_multipleNations (b : Board) (piece : PieceId) :
    b.nationIssues.count (.multipleNations piece) = b.nations.repeated.count piece := by
  have repeated : (b.nations.repeated.map Issue.multipleNations).count (.multipleNations piece) =
      b.nations.repeated.count piece :=
    List.count_map_of_injective _ _ (fun _ _ => Issue.multipleNations.inj) _
  rw [nationIssues, List.count_append, repeated, Nat.add_eq_left, List.count_eq_zero]
  intro stray
  obtain ⟨membership, -, found⟩ := List.mem_filterMap.1 stray
  simp at found

/-- Every membership of a piece that is not registered is reported. -/
theorem count_strayMember (b : Board) (nation : NationId) (piece : PieceId) :
    b.nationIssues.count (.strayMember nation piece) =
      if (b.piece? piece).isSome then 0
      else (b.nations.nodes.flatMap (·.memberships)).count (nation, piece) := by
  have rows : b.nations.nodes.flatMap (·.memberships) =
      b.nations.memberships.map fun m => (m.1.id, m.2) := by
    rw [Forest.memberships, List.map_flatMap]
    refine List.flatMap_congr fun n _ => ?_
    rw [List.map_map]
    rfl
  have repeated : (b.nations.repeated.map Issue.multipleNations).count
      (.strayMember nation piece) = 0 := by
    refine List.count_eq_zero.2 fun again => ?_
    obtain ⟨other, -, raised⟩ := List.mem_map.1 again
    cases raised
  rw [nationIssues, List.count_append, repeated, Nat.zero_add, rows]
  induction b.nations.memberships with
  | nil => simp
  | cons membership rest ih =>
    obtain ⟨owner, other⟩ := membership
    simp only [List.map_cons, List.count_cons, List.filterMap_cons]
    by_cases same : (owner.id, other) = (nation, piece)
    · cases same
      cases known : b.piece? piece <;> simp_all
    · have apart : ¬ (owner.id = nation ∧ other = piece) := by simpa using same
      rw [beq_eq_false_iff_ne.2 same, if_neg Bool.false_ne_true, Nat.add_zero]
      cases known : b.piece? other <;> simp_all

variable {registries : Registries} {data : Snapshot.Board}

/-- The pieces of the board that is built are those of the snapshot. -/
theorem isSome_piece?_build (piece : PieceId) :
    ((build registries data).1.piece? piece).isSome = data.registers piece := by
  unfold piece? Snapshot.Board.registers
  rw [List.isSome_find?]
  change ((data.pieces.map _).map Prod.fst).any _ = _
  rw [List.any_map, List.any_map]
  rfl

/-- The board that is built raises an issue for every fault of the snapshot, and no other. -/
theorem count_issues_build (issue : Issue) :
    ((build registries data).1.issues registries.kinds).count issue =
      data.faults registries.kinds issue := by
  have placed : (build registries data).1.placements = data.state := rfl
  have nations : (build registries data).1.nations = .ofSnapshot data.nations := rfl
  have unregistered : (if registries.kinds.contains data.kind then []
      else [Issue.unknownBoardKind data.kind]).count issue =
        if .unknownBoardKind data.kind = issue ∧ data.kind ∉ registries.kinds.names then 1
          else 0 := by
    simp only [← Catalogue.contains_iff]
    cases registries.kinds.contains data.kind <;> simp [List.count_singleton]
  rw [issues, List.count_append, List.count_append, placed]
  refine (congrArg (· + _ + _) unregistered).trans ?_
  cases issue with
  | unknownBoardKind kind =>
    rw [count_placementsIssues_of_other rfl, count_nationIssues_of_other _ rfl]
    by_cases same : data.kind = kind
    · simp [Snapshot.Board.faults, same]
    · simp [Snapshot.Board.faults, same, Ne.symm same]
  | strayPlacement piece =>
    rw [count_strayPlacement, count_nationIssues_of_other _ rfl, isSome_piece?_build]
    simp [Snapshot.Board.faults]
  | offBoard piece square =>
    rw [count_offBoard, count_nationIssues_of_other _ rfl]
    simp [Snapshot.Board.faults, onBoard, build]
  | sharedSquare first second square =>
    rw [count_sharedSquare, count_nationIssues_of_other _ rfl, if_neg (by simp), Nat.zero_add]
    rfl
  | multipleNations piece =>
    rw [count_placementsIssues_of_other rfl, count_multipleNations, nations,
      Forest.count_repeated_ofSnapshot]
    simp [Snapshot.Board.faults]
  | strayMember nation piece =>
    rw [count_placementsIssues_of_other rfl, count_strayMember, isSome_piece?_build, nations,
      (Forest.perm_memberships_ofSnapshot data.nations).count_eq]
    simp [Snapshot.Board.faults]
  | _ =>
    rw [count_placementsIssues_of_other rfl, count_nationIssues_of_other _ rfl]
    simp [Snapshot.Board.faults]

/-- Validation reports exactly the rules that a snapshot breaks.  Whatever the registries, loading
it without being strict gives a board, which raises the issue of each rule as often as the snapshot
breaks the rule; with the issues of the steps of its pieces they are what loading reports.  A strict
load gives the same board if nothing is reported, and otherwise fails with the same list. -/
theorem issues_of_load (registries : Registries) (settings : Settings) (data : Snapshot.Board) :
    ∃ b issues, load registries { settings with strict := false } data = .ok (b, issues) ∧
      (∀ issue, (b.issues registries.kinds).count issue = data.faults registries.kinds issue) ∧
      issues = (build registries data).2 ++ b.issues registries.kinds ∧
      load registries { settings with strict := true } data =
        if issues = [] then .ok (b, []) else .error (.integrity issues) := by
  refine ⟨(build registries data).1,
    (build registries data).2 ++ (build registries data).1.issues registries.kinds, rfl,
    count_issues_build, rfl, ?_⟩
  unfold load
  dsimp only
  cases (build registries data).2 ++ (build registries data).1.issues registries.kinds <;> rfl

end Board

end BoardRules
