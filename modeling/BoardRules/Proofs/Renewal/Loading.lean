import Mathlib
import BoardRules.Board.Storage
import BoardRules.Proofs.Renewal.Relabelling

/-!
# Loading a snapshot with other labels

Loading tells pieces apart by their labels and does nothing else with any label.  So if different
pieces keep different labels, the board that is loaded is the same one (`Board.relabelled_build`):
its pieces stand on the same squares, have the same owners and have moved as often, and it raises
the same issues, which are found by looking pieces up.  The issues of records do not even depend on
that, since a record is built from its fields (`Behaviour.loadStep_relabel`).  Hence the snapshot
loads, or is refused, as it was (`Board.load_relabel`).
-/

namespace BoardRules

/-- An issue under other labels. -/
def Issue.relabel (l : Relabelling) : Issue → Issue
  | .unknownStepType behaviour action kind =>
    .unknownStepType (behaviour.mapText l.text) (action.mapText l.text) kind
  | .unbuiltStep behaviour action fault =>
    .unbuiltStep (behaviour.mapText l.text) (action.mapText l.text) fault
  | .uncompiledCondition behaviour action fault =>
    .uncompiledCondition (behaviour.mapText l.text) (action.mapText l.text) fault
  | .strayPlacement piece => .strayPlacement (l.piece piece)
  | .offBoard piece square => .offBoard (l.piece piece) square
  | .sharedSquare first second square => .sharedSquare (l.piece first) (l.piece second) square
  | .multipleNations piece => .multipleNations (l.piece piece)
  | .strayMember nation piece => .strayMember (nation.mapText l.text) (l.piece piece)
  | .unknownBoardKind kind => .unknownBoardKind kind

variable (l : Relabelling)

/-! ## Records -/

section Records

variable (types : StepTypes) (vocabulary : Vocabulary)

/-- A move that is read differs in its header only. -/
theorem Move.ofRecord_relabel (r : StepRecord) :
    Move.ofRecord (Snapshot.relabelRecord r l) =
      (Move.ofRecord r).map fun m => { m with header := (Snapshot.relabelRecord r l).header } := by
  unfold Move.ofRecord
  have same {α : Type} [Wire α] (name : String) (fallback : α) :
      (Snapshot.relabelRecord r l).readOr name fallback = r.readOr name fallback := rfl
  simp only [same]
  cases r.readOr "moveType" MoveModes.standard with
  | error fault => rfl
  | ok modes =>
    cases r.readOr "loop" false with
    | error fault => rfl
    | ok sliding =>
      cases r.readOr "loopLimit" (1 : UInt32) with
      | error fault => rfl
      | ok limit => cases r.readOr "stepPosition" ([] : List Square) <;> rfl

/-- A record under another label raises the same issue. -/
theorem Behaviour.loadStep_relabel (behaviour : BehaviourId) (r : StepRecord) :
    (loadStep types vocabulary (behaviour.mapText l.text) (Snapshot.relabelRecord r l)).2 =
      (loadStep types vocabulary behaviour r).2.map (Issue.relabel l) := by
  have kind : (Snapshot.relabelRecord r l).kind = r.kind := rfl
  unfold loadStep Step.ofRecord
  rw [kind]
  cases types.get? r.kind with
  | none => rfl
  | some type =>
    obtain ⟨maker, form⟩ := type
    cases maker with
    | condition =>
      have read : (Snapshot.relabelRecord r l).readOr "code" "" = r.readOr "code" "" := rfl
      dsimp only
      unfold Condition.ofRecord
      rw [read]
      cases r.readOr "code" "" with
      | error fault => rfl
      | ok code =>
        dsimp only [Except.map, Except.mapError, Condition.ofCode, Condition.fault?]
        cases Guard.compile vocabulary code <;> rfl
    | move =>
      dsimp only
      rw [Move.ofRecord_relabel]
      cases Move.ofRecord r <;> rfl
    | lose => rfl

/-- The records of a behaviour raise the same issues, under the new labels. -/
theorem Behaviour.load_relabel (data : Snapshot.Behaviour) :
    (load types vocabulary (data.relabel l)).2 =
      (load types vocabulary data).2.map (Issue.relabel l) := by
  unfold load Snapshot.Behaviour.relabel
  dsimp only
  rw [List.map_map, List.filterMap_map, List.filterMap_map, List.map_filterMap]
  exact List.filterMap_congr fun r _ => loadStep_relabel l types vocabulary data.id r

/-- The records of a piece raise the same issues, under the new labels. -/
theorem Piece.load_relabel (data : Snapshot.Piece) :
    (load types vocabulary (data.relabel l)).2 =
      (load types vocabulary data).2.map (Issue.relabel l) := by
  unfold load Snapshot.Piece.relabel
  dsimp only
  rw [List.map_map, List.flatMap_map, List.flatMap_map, List.map_flatMap]
  exact List.flatMap_congr fun b _ => Behaviour.load_relabel l types vocabulary b

/-- The records of a board raise the same issues. -/
theorem Board.build_relabel (registries : Registries) (data : Snapshot.Board) :
    (build registries (data.relabel l)).2 = (build registries data).2.map (Issue.relabel l) := by
  unfold build Snapshot.Board.relabel
  dsimp only
  rw [List.map_map, List.flatMap_map, List.flatMap_map, List.map_flatMap]
  exact List.flatMap_congr fun p _ =>
    Piece.load_relabel l registries.types registries.vocabulary p

end Records

/-! ## Nations -/

namespace Forest

/-- The pieces that occur again are the same under other names. -/
theorem repeats_map {names : PieceId → PieceId} (injective : Function.Injective names)
    (seen met : List PieceId) :
    repeats (seen.map names) (met.map names) = (repeats seen met).map names := by
  induction met generalizing seen with
  | nil => rfl
  | cons p rest ih =>
    rw [List.map_cons, repeats, repeats, List.count_map_of_injective seen names injective,
      ← List.map_cons, ih]
    split <;> rfl

/-- The pieces that are listed repeatedly are the same under their new names. -/
theorem Retold.repeated {names : PieceId → PieceId} {f g : Forest} (retold : Retold names f g)
    (injective : Function.Injective names) : g.repeated = f.repeated.map names := by
  unfold Forest.repeated
  rw [retold.roots, ← repeats_map injective, List.map_nil, List.map_flatMap]
  exact congrArg (repeats []) (List.flatMap_congr fun root _ => retold.piecesBelow root)

/-- The members of nations under other labels. -/
theorem memberships_relabel (f : Forest) :
    (f.relabel l).memberships = f.memberships.map (Prod.map (Nation.relabel · l) l.piece) := by
  have pieces (n : Nation) : (n.relabel l).pieces = n.pieces.map l.piece := by
    have members : (n.relabel l).children = n.children.map (Child.renamed l.piece) :=
      n.children_rename l.piece
    unfold Nation.pieces
    rw [members, List.filterMap_map, List.map_filterMap]
    exact List.filterMap_congr fun c _ => by cases c <;> rfl
  unfold memberships relabel
  rw [List.flatMap_map, List.map_flatMap]
  refine List.flatMap_congr fun n _ => ?_
  rw [pieces, List.map_map, List.map_map]
  rfl

end Forest

/-! ## Boards -/

/-- A board on which the pieces have other labels. -/
structure Board.Relabelled (b c : Board) : Prop where
  kind : c.kind = b.kind
  size : c.size = b.size
  players : c.players = b.players
  /-- The pieces of the board have the other labels. -/
  pieces : c.pieces.map (·.id) = (b.pieces.map (·.id)).map l.piece
  /-- So have the members of nations. -/
  nations : c.nations = b.nations.relabel l
  /-- So have the pieces that are counted. -/
  monitors : c.monitors = b.monitors.map (·.rename fun id => some (l.piece id))
  /-- So have the pieces that are placed. -/
  placements : c.placements = b.placements.map (Prod.map l.piece fun square => square)

namespace Board

/-- The board of a snapshot with other labels has the other labels. -/
theorem relabelled_build (registries : Registries) (data : Snapshot.Board) :
    Relabelled l (build registries data).1 (build registries (data.relabel l)).1 where
  kind := rfl
  size := rfl
  players := rfl
  pieces := by
    unfold build Snapshot.Board.relabel
    dsimp only
    rw [List.map_map, List.map_map, List.map_map, List.map_map, List.map_map, List.map_map]
    rfl
  nations := Forest.ofSnapshot_relabel l data.nations
  monitors := by
    unfold build Snapshot.Board.relabel
    dsimp only
    rw [List.isEmpty_map]
    split <;> rfl
  placements := rfl

namespace Relabelled

variable {l} {b c : Board} (relabelled : Relabelled l b c)
  (injective : Function.Injective l.piece)

include relabelled injective

/-- A piece stands where it stood. -/
theorem squareOf?_eq (piece : PieceId) : c.squareOf? (l.piece piece) = b.squareOf? piece := by
  have found := lookup_map_prodMap injective (fun square => square) b.placements piece
  unfold squareOf?
  rw [relabelled.placements, found, Option.map_id']

/-- A piece has its owner. -/
theorem owner?_eq (piece : PieceId) : c.owner? (l.piece piece) = b.owner? piece := by
  have claimed := (b.nations.retold_relabel l).claimant? injective piece
  unfold owner? player?
  rw [relabelled.nations, relabelled.players, claimed]

/-- A piece has moved as often. -/
theorem moveCount_eq (piece : PieceId) : c.moveCount (l.piece piece) = b.moveCount piece := by
  have found : c.monitor? Monitor.stepKind =
      (b.monitor? Monitor.stepKind).map (·.rename fun id => some (l.piece id)) := by
    unfold monitor?
    rw [relabelled.monitors]
    exact List.find?_map
  unfold moveCount
  rw [found]
  cases b.monitor? Monitor.stepKind with
  | none => rfl
  | some m =>
    have counted := m.count_under { piece := l.piece, piece_injective := injective } piece
    exact congrArg (fun n => (some n).getD 0) counted

/-- A piece is missing if it was missing. -/
theorem isNone_piece?_eq (piece : PieceId) :
    (c.piece? (l.piece piece)).isNone = (b.piece? piece).isNone := by
  have missing (d : Board) (id : PieceId) :
      (d.piece? id).isNone = true ↔ id ∉ d.pieces.map (·.id) := by
    simp [piece?]
  rw [Bool.eq_iff_iff, missing, missing, relabelled.pieces, List.mem_map_of_injective injective]

/-- The placements raise the same issues. -/
theorem placementsIssues_eq (earlier placements : List (PieceId × Square)) :
    c.placementsIssues (earlier.map (Prod.map l.piece fun square => square))
        (placements.map (Prod.map l.piece fun square => square)) =
      (b.placementsIssues earlier placements).map (Issue.relabel l) := by
  induction placements generalizing earlier with
  | nil => rfl
  | cons placed rest ih =>
    obtain ⟨piece, square⟩ := placed
    have one : c.placementIssues (earlier.map (Prod.map l.piece fun square => square))
        (l.piece piece) square =
          (b.placementIssues earlier piece square).map (Issue.relabel l) := by
      have inside : c.onBoard square = b.onBoard square := by
        unfold onBoard
        rw [relabelled.size]
      have found : (earlier.map (Prod.map l.piece fun square => square)).find? (·.2 = square) =
          (earlier.find? (·.2 = square)).map (Prod.map l.piece fun square => square) :=
        List.find?_map
      unfold placementIssues
      rw [relabelled.isNone_piece?_eq injective, inside, found, List.map_append, List.map_append]
      congr 1
      · congr 1 <;> split <;> rfl
      · cases earlier.find? (·.2 = square) <;> rfl
    rw [List.map_cons, Prod.map_apply, placementsIssues, placementsIssues, List.map_append, one,
      ← ih ((piece, square) :: earlier)]
    rfl

/-- The nations raise the same issues. -/
theorem nationIssues_eq : c.nationIssues = b.nationIssues.map (Issue.relabel l) := by
  have repeated : c.nations.repeated = b.nations.repeated.map l.piece := by
    rw [relabelled.nations]
    exact (b.nations.retold_relabel l).repeated injective
  have members : c.nations.memberships =
      b.nations.memberships.map (Prod.map (Nation.relabel · l) l.piece) := by
    rw [relabelled.nations]
    exact b.nations.memberships_relabel l
  unfold nationIssues
  rw [repeated, members, List.map_append, List.map_map, List.map_map, List.filterMap_map,
    List.map_filterMap]
  congr 1
  refine List.filterMap_congr fun (nation, piece) _ => ?_
  have missing := relabelled.isNone_piece?_eq injective piece
  rw [apply_ite (Option.map (Issue.relabel l))]
  exact if_congr (congrArg (· = true) missing).to_iff rfl rfl

/-- The board raises the same issues. -/
theorem issues_eq (kinds : BoardKinds) :
    c.issues kinds = (b.issues kinds).map (Issue.relabel l) := by
  unfold issues
  rw [relabelled.kind, relabelled.placements, relabelled.nationIssues_eq injective,
    List.map_append, List.map_append, ← relabelled.placementsIssues_eq injective [] b.placements]
  congr 2
  split <;> rfl

end Relabelled

/-! ## Loading -/

/-- Two attempts to load that come to the same under other labels: both are refused for the same
issues, or both give boards, with the same issues, on which each piece stands where it stood, has
its owner and has moved as often. -/
inductive LoadsAlike (l : Relabelling) :
    Except LoadFault (Board × List Issue) → Except LoadFault (Board × List Issue) → Prop
  | refused {issues : List Issue} :
      LoadsAlike l (.error (.integrity issues)) (.error (.integrity (issues.map (Issue.relabel l))))
  | loaded {b c : Board} {issues : List Issue}
      (same : ∀ piece, c.squareOf? (l.piece piece) = b.squareOf? piece ∧
        c.owner? (l.piece piece) = b.owner? piece ∧
        c.moveCount (l.piece piece) = b.moveCount piece) :
      LoadsAlike l (.ok (b, issues)) (.ok (c, issues.map (Issue.relabel l)))

/-- If different pieces keep different labels, then a snapshot with other labels loads as it did. -/
theorem load_relabel (injective : Function.Injective l.piece) (registries : Registries)
    (settings : Settings) (data : Snapshot.Board) :
    LoadsAlike l (load registries settings data) (load registries settings (data.relabel l)) := by
  have relabelled := relabelled_build l registries data
  have issues : (build registries (data.relabel l)).2 ++
      (build registries (data.relabel l)).1.issues registries.kinds =
        ((build registries data).2 ++ (build registries data).1.issues registries.kinds).map
          (Issue.relabel l) := by
    rw [build_relabel, relabelled.issues_eq injective, List.map_append]
  unfold load
  dsimp only
  rw [issues, List.isEmpty_map]
  split
  · exact .refused
  · exact .loaded fun piece => ⟨relabelled.squareOf?_eq injective piece,
      relabelled.owner?_eq injective piece, relabelled.moveCount_eq injective piece⟩

end Board

end BoardRules
