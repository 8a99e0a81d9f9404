import Mathlib
import BoardRules.Proofs.Guise.Lookup
import BoardRules.Proofs.Nation.Nesting
import BoardRules.Renewal

/-!
# Snapshots with other labels

Everything in a snapshot has an identity of its own: the board, its pieces with their behaviours and
records, and its nations.  Pieces are also referred to, by placements, counters and nations.  A
`Relabelling` exchanges the identities and the references and nothing else.  Laying nested nations
out in a row commutes with it (`Forest.ofSnapshot_relabel`).  In the row the nations have their
identities in the order in which the snapshot writes them (`Forest.map_id_nodes_ofSnapshot`), and
nations with other identities are laid out from some snapshot too
(`Forest.exists_ofSnapshot_of_sameButIds`): the shape of a forest does not depend on identities.
-/

namespace BoardRules

/-- An identity with another text. -/
def Id.mapText {kind : IdKind} (f : String → String) (id : Id kind) : Id kind := ⟨f id.text⟩

/-- Other labels for pieces, and other texts for whatever else has an identity. -/
structure Relabelling where
  piece : PieceId → PieceId
  text : String → String

/-! ## Labels in snapshots -/

namespace Snapshot

/-- A record under another label. -/
def relabelRecord (r : StepRecord) (l : Relabelling) : StepRecord :=
  { r with header := { r.header with id := r.header.id.mapText l.text } }

namespace Behaviour

/-- A behaviour under other labels. -/
def relabel (b : Behaviour) (l : Relabelling) : Behaviour :=
  { b with id := b.id.mapText l.text, actions := b.actions.map (relabelRecord · l) }

/-- The texts of its own identities: its own one, then those of its records. -/
def ownTexts (b : Behaviour) : List String := b.id.text :: b.actions.map (·.header.id.text)

end Behaviour

namespace Piece

/-- A piece under other labels. -/
def relabel (p : Piece) (l : Relabelling) : Piece :=
  { p with id := l.piece p.id, behaviours := p.behaviours.map (·.relabel l) }

/-- The texts of its own identities: its own one, then those of its behaviours. -/
def ownTexts (p : Piece) : List String := p.id.text :: p.behaviours.flatMap (·.ownTexts)

end Piece

/-- The head of a nation under another label. -/
def NationHead.relabel (head : NationHead) (l : Relabelling) : NationHead :=
  { head with id := head.id.mapText l.text }

namespace NationMember

mutual

/-- A member of a nation under other labels. -/
def relabel (l : Relabelling) : NationMember → NationMember
  | .piece id => .piece (l.piece id)
  | .group head members => .group (head.relabel l) (relabelAll l members)

/-- Members of a nation under other labels. -/
def relabelAll (l : Relabelling) : List NationMember → List NationMember
  | [] => []
  | m :: rest => m.relabel l :: relabelAll l rest

end

mutual

/-- The texts of the identities of the nations that a member brings; a piece is a reference. -/
def ownTexts : NationMember → List String
  | .piece _ => []
  | .group head members => head.id.text :: ownTextsAll members

/-- The texts of the identities of the nations that members bring. -/
def ownTextsAll : List NationMember → List String
  | [] => []
  | m :: rest => m.ownTexts ++ ownTextsAll rest

end

mutual

/-- The pieces that a member refers to. -/
def leaves : NationMember → List PieceId
  | .piece id => [id]
  | .group _ members => leavesAll members

/-- The pieces that members refer to. -/
def leavesAll : List NationMember → List PieceId
  | [] => []
  | m :: rest => m.leaves ++ leavesAll rest

end

end NationMember

namespace Nation

/-- A nation under other labels. -/
def relabel (n : Nation) (l : Relabelling) : Nation :=
  ⟨n.head.relabel l, NationMember.relabelAll l n.members⟩

/-- The texts of the identities of a nation and of the nations below it. -/
def ownTexts (n : Nation) : List String := n.head.id.text :: NationMember.ownTextsAll n.members

/-- The pieces that a nation and the nations below it refer to. -/
def leaves (n : Nation) : List PieceId := NationMember.leavesAll n.members

end Nation

namespace Board

/-- A board under other labels: its identity, its pieces and nations, and the references of its
nations, counters and placements. -/
def relabel (d : Board) (l : Relabelling) : Board :=
  { d with
    id := d.id.mapText l.text
    pieces := d.pieces.map (·.relabel l)
    nations := d.nations.map (·.relabel l)
    monitors := d.monitors.map (·.rename fun id => some (l.piece id))
    state := d.state.map fun placed => (l.piece placed.1, placed.2) }

/-- The texts of its own identities: its own one, then those of its pieces and of its nations. -/
def ownTexts (d : Board) : List String :=
  d.id.text :: (d.pieces.flatMap (·.ownTexts) ++ d.nations.flatMap (·.ownTexts))

/-- The pieces that a board has or refers to. -/
def pieceNames (d : Board) : List PieceId :=
  d.pieces.map (·.id) ++ d.state.map Prod.fst ++
    d.monitors.flatMap (·.counters.map Prod.fst) ++ d.nations.flatMap (·.leaves)

/-- The names of pieces that occur in the data of a board: in the register, the placements, the
counters and the nations. -/
theorem mem_pieceNames {d : Board} {id : PieceId} :
    id ∈ d.pieceNames ↔ id ∈ d.pieces.map (·.id) ∨ id ∈ d.state.map Prod.fst ∨
      id ∈ d.monitors.flatMap (·.counters.map Prod.fst) ∨ id ∈ d.nations.flatMap (·.leaves) := by
  rw [pieceNames, List.mem_append, List.mem_append, List.mem_append, or_assoc, or_assoc]

end Board

end Snapshot

/-! ## Layouts -/

open Snapshot (NationHead NationMember)

/-- A nation in the row under other labels. -/
def Nation.relabel (n : Nation) (l : Relabelling) : Nation :=
  { n.rename (fun id => some (l.piece id)) with id := n.id.mapText l.text }

/-- A forest under other labels. -/
def Forest.relabel (f : Forest) (l : Relabelling) : Forest :=
  { f with nodes := f.nodes.map (·.relabel l) }

/-- A forest under other labels is the same forest with other names for its pieces. -/
theorem Forest.retold_relabel (f : Forest) (l : Relabelling) :
    Retold l.piece f (f.relabel l) :=
  f.retold_of_map (fun n => n.children_rename l.piece) fun _ => rfl

/-- Relabelling a nation is relabelling its head and renaming its members. -/
theorem Nation.ofHead_relabel (head : NationHead) (children : List Child) (l : Relabelling) :
    (Nation.ofHead head children).relabel l =
      .ofHead (head.relabel l) (children.map (Child.renamed l.piece)) :=
  congrArg (Nation.ofHead (head.relabel l))
    ((Nation.ofHead head children).children_rename l.piece)

namespace Forest

mutual

/-- A member under other labels is laid out as the member is. -/
theorem layOut_relabel (l : Relabelling) (next : ℕ) (m : NationMember) :
    layOut next (m.relabel l) =
      ((layOut next m).1.renamed l.piece, (layOut next m).2.map (·.relabel l)) := by
  match m with
  | .piece id => rfl
  | .group head members =>
    rw [NationMember.relabel, layOut, layOut, layOutAll_relabel l (next + 1) members]
    dsimp only
    rw [List.map_cons, Nation.ofHead_relabel]
    rfl

/-- Relabelled members are laid out at the same places, the members renamed and the nations
relabelled. -/
theorem layOutAll_relabel (l : Relabelling) (next : ℕ) (ms : List NationMember) :
    layOutAll next (NationMember.relabelAll l ms) =
      ((layOutAll next ms).1.map (Child.renamed l.piece),
        (layOutAll next ms).2.map (·.relabel l)) := by
  match ms with
  | [] => rfl
  | m :: rest =>
    rw [NationMember.relabelAll, layOutAll, layOutAll, layOut_relabel l next m]
    dsimp only
    rw [List.length_map, layOutAll_relabel l _ rest, List.map_cons, List.map_append]

end

/-- Relabelled roots are laid out at the same places, each nation relabelled. -/
theorem layOutRoots_relabel (l : Relabelling) (next : ℕ) (data : List Snapshot.Nation) :
    layOutRoots next (data.map (·.relabel l)) =
      ((layOutRoots next data).1, (layOutRoots next data).2.map (·.relabel l)) := by
  induction data generalizing next with
  | nil => rfl
  | cons n rest ih =>
    rw [List.map_cons, layOutRoots, layOutRoots, Snapshot.Nation.relabel]
    dsimp only
    rw [layOutAll_relabel l (next + 1) n.members]
    dsimp only
    rw [List.length_map, ih, List.cons_append, List.cons_append, List.map_cons, List.map_append,
      Nation.ofHead_relabel]

/-- The forest of nations under other labels. -/
theorem ofSnapshot_relabel (l : Relabelling) (data : List Snapshot.Nation) :
    ofSnapshot (data.map (·.relabel l)) = (ofSnapshot data).relabel l := by
  unfold ofSnapshot relabel
  rw [layOutRoots_relabel]

mutual

/-- The nations that a member brings are laid out in the order of their identities. -/
theorem map_id_layOut (next : ℕ) (m : NationMember) :
    (layOut next m).2.map (·.id.text) = m.ownTexts := by
  match m with
  | .piece id => rfl
  | .group head members =>
    rw [layOut, NationMember.ownTexts, ← map_id_layOutAll (next + 1) members]
    rfl

/-- Nations are laid out in the order in which their own texts are listed. -/
theorem map_id_layOutAll (next : ℕ) (ms : List NationMember) :
    (layOutAll next ms).2.map (·.id.text) = NationMember.ownTextsAll ms := by
  match ms with
  | [] => rfl
  | m :: rest =>
    rw [layOutAll, NationMember.ownTextsAll, ← map_id_layOut next m,
      ← map_id_layOutAll (next + (layOut next m).2.length) rest, ← List.map_append]

end

/-- The nations of a forest stand in the order in which the snapshot writes them. -/
theorem map_id_nodes_ofSnapshot (data : List Snapshot.Nation) :
    (ofSnapshot data).nodes.map (·.id.text) = data.flatMap (·.ownTexts) := by
  have rows (next : ℕ) : (layOutRoots next data).2.map (·.id.text) =
      data.flatMap (·.ownTexts) := by
    induction data generalizing next with
    | nil => rfl
    | cons n rest ih =>
      rw [layOutRoots]
      dsimp only
      rw [List.cons_append, List.map_cons, List.map_append, map_id_layOutAll, ih]
      rfl
  exact rows 0

/-! ## Other identities -/

end Forest

/-- A nation that differs from another one in its identity at most. -/
def Nation.SameButId (n n' : Nation) : Prop := n = { n' with id := n.id }

namespace Forest

mutual

/-- Nations with other identities than those of a layout are the layout of some member. -/
theorem exists_layOut (next : ℕ) (m : NationMember) (nodes : List Nation)
    (same : List.Forall₂ Nation.SameButId nodes (layOut next m).2) :
    ∃ m', layOut next m' = ((layOut next m).1, nodes) := by
  match m with
  | .piece id =>
    obtain rfl := List.forall₂_nil_right_iff.1 same
    exact ⟨.piece id, rfl⟩
  | .group head members =>
    rw [layOut] at same ⊢
    dsimp only at same ⊢
    obtain ⟨n, rest, first, later, rfl⟩ := List.forall₂_cons_right_iff.1 same
    obtain ⟨members', laid⟩ := exists_layOutAll (next + 1) members rest later
    refine ⟨.group { head with id := n.id } members', ?_⟩
    rw [layOut, laid, first]
    rfl

/-- Nations that differ from those laid out in their ids alone are themselves laid out, from other
members and with the same children. -/
theorem exists_layOutAll (next : ℕ) (ms : List NationMember) (nodes : List Nation)
    (same : List.Forall₂ Nation.SameButId nodes (layOutAll next ms).2) :
    ∃ ms', layOutAll next ms' = ((layOutAll next ms).1, nodes) := by
  match ms with
  | [] =>
    obtain rfl := List.forall₂_nil_right_iff.1 same
    exact ⟨[], rfl⟩
  | m :: rest =>
    rw [layOutAll] at same ⊢
    dsimp only at same ⊢
    have front := List.forall₂_take_append _ _ _ same
    have back := List.forall₂_drop_append _ _ _ same
    obtain ⟨m', first⟩ := exists_layOut next m _ front
    obtain ⟨rest', later⟩ := exists_layOutAll (next + (layOut next m).2.length) rest _ back
    refine ⟨m' :: rest', ?_⟩
    rw [layOutAll, first]
    dsimp only
    rw [front.length_eq, later]
    dsimp only
    rw [List.take_append_drop]

end

/-- The nations of a forest may be given other ids by giving them to the data. -/
theorem exists_layOutRoots (next : ℕ) (data : List Snapshot.Nation) (nodes : List Nation)
    (same : List.Forall₂ Nation.SameButId nodes (layOutRoots next data).2) :
    ∃ data', layOutRoots next data' = ((layOutRoots next data).1, nodes) := by
  induction data generalizing next nodes with
  | nil =>
    obtain rfl := List.forall₂_nil_right_iff.1 same
    exact ⟨[], rfl⟩
  | cons n rest ih =>
    rw [layOutRoots] at same ⊢
    dsimp only at same ⊢
    rw [List.cons_append] at same
    obtain ⟨node, tail, first, later, rfl⟩ := List.forall₂_cons_right_iff.1 same
    have front := List.forall₂_take_append _ _ _ later
    have back := List.forall₂_drop_append _ _ _ later
    obtain ⟨members, inner⟩ := exists_layOutAll (next + 1) n.members _ front
    obtain ⟨rest', outer⟩ := ih (next + 1 + (layOutAll (next + 1) n.members).2.length) _ back
    refine ⟨⟨{ n.head with id := node.id }, members⟩ :: rest', ?_⟩
    rw [layOutRoots]
    dsimp only
    rw [inner]
    dsimp only
    rw [front.length_eq, outer]
    dsimp only
    rw [List.cons_append, List.take_append_drop, first]
    rfl

/-- A forest of nations with other identities is the forest of some nations too. -/
theorem exists_ofSnapshot_of_sameButIds (data : List Snapshot.Nation) {nodes : List Nation}
    (same : List.Forall₂ Nation.SameButId nodes (ofSnapshot data).nodes) :
    ∃ data', ofSnapshot data' = { ofSnapshot data with nodes } := by
  obtain ⟨data', laid⟩ := exists_layOutRoots 0 data nodes same
  exact ⟨data', by unfold ofSnapshot; rw [laid]⟩

end Forest

/-! ## Equal labels -/

namespace Snapshot.NationMember

variable {l l' : Relabelling}

mutual

/-- Only the labels of the pieces that a member refers to matter. -/
theorem relabel_congr (texts : l.text = l'.text) (m : NationMember)
    (same : ∀ id ∈ m.leaves, l.piece id = l'.piece id) : m.relabel l = m.relabel l' := by
  match m with
  | .piece id => exact congrArg NationMember.piece (same id List.mem_cons_self)
  | .group head members =>
    have inner := relabelAll_congr texts members same
    rw [relabel, relabel, inner, NationHead.relabel, NationHead.relabel, texts]

/-- Relabelling members depends only on the texts and on the names of the leaves. -/
theorem relabelAll_congr (texts : l.text = l'.text) (ms : List NationMember)
    (same : ∀ id ∈ leavesAll ms, l.piece id = l'.piece id) :
    relabelAll l ms = relabelAll l' ms := by
  match ms with
  | [] => rfl
  | m :: rest =>
    have first := relabel_congr texts m fun id h => same id (List.mem_append_left _ h)
    have later := relabelAll_congr texts rest fun id h => same id (List.mem_append_right _ h)
    rw [relabelAll, relabelAll, first, later]

end

mutual

/-- The pieces that a member refers to have the other labels. -/
theorem leaves_relabel (l : Relabelling) (m : NationMember) :
    (m.relabel l).leaves = m.leaves.map l.piece := by
  match m with
  | .piece id => rfl
  | .group head members => exact leavesAll_relabelAll l members

/-- The leaves of relabelled members are the renamed leaves, in the same order. -/
theorem leavesAll_relabelAll (l : Relabelling) (ms : List NationMember) :
    leavesAll (relabelAll l ms) = (leavesAll ms).map l.piece := by
  match ms with
  | [] => rfl
  | m :: rest =>
    rw [relabelAll, leavesAll, leavesAll, leaves_relabel l m, leavesAll_relabelAll l rest,
      List.map_append]

end

end Snapshot.NationMember

/-- Only the new names of the pieces that nations refer to matter for their forest. -/
theorem Forest.rename_ofSnapshot_congr {data : List Snapshot.Nation}
    {new? other? : PieceId → Option PieceId}
    (same : ∀ id ∈ data.flatMap (·.leaves), (new? id).getD id = (other? id).getD id) :
    (ofSnapshot data).rename new? = (ofSnapshot data).rename other? := by
  -- a piece without a new name keeps its own, so that both renamings are relabellings
  have relabels (new? : PieceId → Option PieceId) : (ofSnapshot data).rename new? =
      ofSnapshot (data.map (·.relabel ⟨fun id => (new? id).getD id, id⟩)) :=
    (ofSnapshot_relabel ⟨fun id => (new? id).getD id, id⟩ data).symm
  rw [relabels, relabels]
  refine congrArg ofSnapshot (List.map_congr_left fun n listed => ?_)
  have members : NationMember.relabelAll ⟨fun id => (new? id).getD id, id⟩ n.members =
      NationMember.relabelAll ⟨fun id => (other? id).getD id, id⟩ n.members := by
    refine NationMember.relabelAll_congr ?_ n.members fun id below => ?_
    · rfl
    · exact same id (List.mem_flatMap_of_mem listed below)
  exact congrArg (Snapshot.Nation.mk n.head) members

section Back

variable {l back : Relabelling} (pieces : ∀ id, back.piece (l.piece id) = id)
  (texts : ∀ text, back.text (l.text text) = text)

include pieces texts

/-- With its old labels a nation in the row is the old one. -/
theorem Nation.relabel_relabel (n : Nation) : (n.relabel l).relabel back = n := by
  have children : ((n.relabel l).relabel back).children = n.children := by
    have once : (n.relabel l).children = n.children.map (Child.renamed l.piece) :=
      n.children_rename l.piece
    refine ((n.relabel l).children_rename back.piece).trans ?_
    rw [once, List.map_map]
    refine List.map_id'' (fun c => ?_) n.children
    cases c with
    | group key => rfl
    | piece id => exact congrArg Child.piece (pieces id)
  have named : ((n.relabel l).relabel back).id = n.id := congrArg Id.mk (texts n.id.text)
  exact congrArg₂ (fun id children => { n with id, children }) named children

/-- With its old labels a forest is the old one. -/
theorem Forest.relabel_relabel (f : Forest) : (f.relabel l).relabel back = f := by
  have nodes : ((f.relabel l).relabel back).nodes = f.nodes := by
    refine List.map_map.trans (List.map_id'' (fun n => ?_) f.nodes)
    exact n.relabel_relabel pieces texts
  exact congrArg (fun nodes => { f with nodes }) nodes

end Back

end BoardRules
