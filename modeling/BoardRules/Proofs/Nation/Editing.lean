import Mathlib
import BoardRules.Proofs.Nation.Planting
import BoardRules.Proofs.Nation.Tidy
import BoardRules.Proofs.Renewal.Draws

/-!
# Editing forests

A forest is made by putting nations at the end of its row and entering pieces, and changed by
dropping, moving and renaming pieces and by giving nations new identities (`Forest.Edit`).  All but
the first of these leave the references between nations alone (`Forest.SameGroups`), and a nation
that is put at the end comes behind the one place that refers to it.  So whatever is made from the
empty forest is tidy (`Forest.tidy_of_edits`), as long as the nations that are added list no nations
themselves (`Nation.Groupless`).  One that does brings references of its own, to places that are
taken or not there yet, and two of them can refer to each other (`Forest.knot_not_tidy`).

Moving a piece drops it everywhere and then enters it once, in every forest.  So afterwards it is
below the nations that reach its new place, whereas the other pieces are where they were
(`Forest.hasBelow_transfer_self`, `Forest.hasBelow_transfer_of_ne`).
-/

namespace BoardRules

/-- What is the same of every item before and after a change in a row is the same along the row. -/
theorem map_modify_of_eq {α β : Type} {h : α → β} {change : α → α} (same : ∀ a, h (change a) = h a)
    (row : List α) (i : ℕ) : (row.modify i change).map h = row.map h := by
  refine List.ext_getElem? fun j => ?_
  rw [List.getElem?_map, List.getElem?_map, List.getElem?_modify]
  cases row[j]? with
  | none => rfl
  | some a =>
    by_cases here : i = j
    · simp [here, same]
    · simp [here]

namespace Nation

/-! ## The groups of a nation -/

@[simp] theorem groups_addChild_piece (n : Nation) (piece : PieceId) :
    (n.addChild (.piece piece)).groups = n.groups := by
  simp [groups, addChild, Child.group?]

/-- A child that is a nation comes behind the groups that are listed already. -/
@[simp] theorem groups_addChild_group (n : Nation) (key : ℕ) :
    (n.addChild (.group key)).groups = n.groups ++ [key] := by
  simp [groups, addChild, Child.group?]

@[simp] theorem groups_drop (n : Nation) (piece : PieceId) :
    (n.drop piece).groups = n.groups := by
  unfold groups drop
  rw [List.filterMap_filter]
  refine List.filterMap_congr fun c _ => ?_
  cases c with
  | group key => simp
  | piece id => simp [Child.group?]

@[simp] theorem groups_rename (n : Nation) (new? : PieceId → Option PieceId) :
    (n.rename new?).groups = n.groups := by
  unfold groups rename
  rw [List.filterMap_map]
  refine List.filterMap_congr fun c _ => ?_
  cases c <;> rfl

/-- A nation that lists no nations, as one that stands alone does. -/
def Groupless (n : Nation) : Prop := n.groups = []

end Nation

namespace Forest

variable {f g h : Forest} {key parent root : ℕ}

/-! ## The same groups -/

/-- Two forests whose nations refer to the same places. -/
structure SameGroups (f g : Forest) : Prop where
  roots : g.roots = f.roots
  groups : g.nodes.map Nation.groups = f.nodes.map Nation.groups

namespace SameGroups

theorem trans (first : f.SameGroups g) (second : g.SameGroups h) : f.SameGroups h :=
  ⟨second.roots.trans first.roots, second.groups.trans first.groups⟩

theorem length (same : f.SameGroups g) : g.nodes.length = f.nodes.length := by
  rw [← List.length_map (f := Nation.groups), same.groups, List.length_map]

/-- With the same groups the same nations list each other. -/
theorem hasGroup_eq (same : f.SameGroups g) : g.HasGroup = f.HasGroup := by
  have look (f : Forest) (parent key : ℕ) : f.HasGroup parent key ↔
      ∃ keys, (f.nodes.map Nation.groups)[parent]? = some keys ∧ key ∈ keys := by
    simp [hasGroup_iff, List.getElem?_map, Option.map_eq_some_iff]
  funext parent key
  rw [eq_iff_iff, look, look, same.groups]

/-- With the same groups the same nations lie below each other. -/
theorem reaches_eq (same : f.SameGroups g) : g.Reaches = f.Reaches :=
  congrArg Relation.ReflTransGen same.hasGroup_eq

/-- Being tidy is a matter of the groups alone. -/
theorem tidy (same : f.SameGroups g) (tidy : f.Tidy) : g.Tidy where
  once := by
    have groups : g.groups = f.groups := by
      rw [Forest.groups, List.flatMap_def, same.groups, ← List.flatMap_def, Forest.groups]
    rw [same.roots, groups, same.length]
    exact tidy.once
  later parent key below := by
    rw [same.hasGroup_eq] at below
    exact tidy.later parent key below

end SameGroups

theorem sameGroups_enlist (f : Forest) (parent : ℕ) (piece : PieceId) :
    f.SameGroups (f.enlist parent piece) where
  roots := rfl
  groups := map_modify_of_eq (fun n => n.groups_addChild_piece piece) f.nodes parent

theorem sameGroups_dismiss (f : Forest) (piece : PieceId) : f.SameGroups (f.dismiss piece) where
  roots := rfl
  groups := by simp [dismiss, Function.comp_def]

/-- Transferring a piece keeps the groups, being a dismissal and an enlistment. -/
theorem sameGroups_transfer (f : Forest) (piece : PieceId) (parent : ℕ) :
    f.SameGroups (f.transfer piece parent) :=
  (f.sameGroups_dismiss piece).trans (sameGroups_enlist _ parent piece)

/-- Renaming or forgetting pieces keeps the groups. -/
theorem sameGroups_rename (f : Forest) (new? : PieceId → Option PieceId) :
    f.SameGroups (f.rename new?) where
  roots := rfl
  groups := by simp [rename, Function.comp_def]

/-- Renewing the ids of the nations keeps the groups. -/
theorem sameGroups_renew {σ : Type} (supply : Supply σ) (f : Forest) (s : σ) :
    f.SameGroups (f.renew supply s).1 where
  roots := rfl
  groups := by
    have kept (n n' : Nation) (h : n.SameButId n') : n.groups = n'.groups := by
      rw [h]
      rfl
    have same : List.Forall₂ Eq ((f.renew supply s).1.nodes.map Nation.groups)
        (f.nodes.map Nation.groups) :=
      List.forall₂_map_left_iff.2
        (List.forall₂_map_right_iff.2 ((sameButIds_renew supply f s).imp kept))
    rwa [List.forall₂_eq_eq_eq] at same

/-! ## New nations -/

/-- A nation at the end of the row that refers to no other adds no reference. -/
theorem hasGroup_of_append {n : Nation} (single : n.groups = [])
    (below : (f.append n).1.HasGroup parent key) : f.HasGroup parent key := by
  obtain ⟨m, found, listed⟩ := hasGroup_iff.1 below
  have row : (f.append n).1.nodes = f.nodes ++ [n] := rfl
  rw [row] at found
  by_cases present : parent < f.nodes.length
  · rw [List.getElem?_append_left present] at found
    exact hasGroup_iff.2 ⟨m, found, listed⟩
  · rw [List.getElem?_append_right (Nat.le_of_not_lt present)] at found
    rw [List.mem_singleton.1 (List.mem_of_getElem? found), single] at listed
    exact absurd listed List.not_mem_nil

/-- A nation that is added below another one adds the reference to itself. -/
theorem hasGroup_of_newGroup {n : Nation} (single : n.groups = []) {other : ℕ}
    (below : (f.newGroup parent n).1.HasGroup other key) :
    f.HasGroup other key ∨ other = parent ∧ key = f.nodes.length := by
  obtain ⟨m, found, listed⟩ := hasGroup_iff.1 below
  have row : (f.newGroup parent n).1.nodes =
      (f.append n).1.nodes.modify parent (·.addChild (.group f.nodes.length)) := rfl
  rw [row, List.getElem?_modify] at found
  obtain ⟨old, here, rfl⟩ := Option.map_eq_some_iff.1 found
  have known : key ∈ old.groups → f.HasGroup other key := fun listed =>
    hasGroup_of_append single (hasGroup_iff.2 ⟨old, here, listed⟩)
  split at listed
  · rename_i same
    rw [Nation.groups_addChild_group, List.mem_append, List.mem_singleton] at listed
    exact listed.imp known fun new => ⟨same.symm, new⟩
  · exact .inl (known listed)

/-- A new group that lists no nations adds one place to those that are listed, its own. -/
theorem groups_newGroup {n : Nation} (single : n.groups = []) (present : parent < f.nodes.length) :
    (f.newGroup parent n).1.groups.Perm (f.groups ++ [f.nodes.length]) := by
  obtain ⟨front, a, back, row, length⟩ : ∃ front a back,
      f.nodes = front ++ a :: back ∧ front.length = parent :=
    ⟨f.nodes.take parent, f.nodes[parent], f.nodes.drop (parent + 1), by simp,
      List.length_take_of_le present.le⟩
  have nodes : (f.newGroup parent n).1.nodes =
      front ++ a.addChild (.group f.nodes.length) :: back ++ [n] := by
    have own : (f.newGroup parent n).1.nodes =
        f.nodes.modify parent (·.addChild (.group f.nodes.length)) ++ [n] :=
      modify_append_of_lt _ present [n]
    rw [own]
    congr 1
    generalize f.nodes.length = key
    rw [row, ← length]
    exact modify_append_cons _ front a back
  have before : f.groups = front.flatMap Nation.groups ++
      (a.groups ++ back.flatMap Nation.groups) := by
    rw [groups, row, List.flatMap_append, List.flatMap_cons]
  have after : (f.newGroup parent n).1.groups = front.flatMap Nation.groups ++
      (a.groups ++ ([f.nodes.length] ++ back.flatMap Nation.groups)) := by
    rw [groups, nodes, List.flatMap_append, List.flatMap_append, List.flatMap_cons,
      List.flatMap_singleton, single, Nation.groups_addChild_group]
    simp only [List.append_assoc, List.append_nil]
  rw [before, after, List.append_assoc, List.append_assoc]
  exact (List.perm_append_comm.append_left _).append_left _

/-- One more place that is referred to, at the end of the row. -/
theorem perm_range_succ {places more : List ℕ} {n : ℕ} (perm : places.Perm (List.range n))
    (new : more.Perm (places ++ [n])) : more.Perm (List.range (n + 1)) := by
  rw [List.range_succ]
  exact new.trans (perm.append_right [n])

/-- A new root is one more place, and the roots refer to it. -/
theorem Tidy.newRoot (tidy : f.Tidy) {n : Nation} (single : n.groups = []) :
    (f.newRoot n).1.Tidy where
  once := by
    have length : (f.newRoot n).1.nodes.length = f.nodes.length + 1 := by
      simp [Forest.newRoot, append]
    have groups : (f.newRoot n).1.groups = f.groups := by
      simp [Forest.newRoot, append, Forest.groups, single]
    have roots : (f.newRoot n).1.roots = f.roots ++ [f.nodes.length] := rfl
    rw [length, groups, roots, List.append_assoc]
    refine perm_range_succ tidy.once ?_
    rw [List.append_assoc]
    exact List.perm_append_comm.append_left f.roots
  later parent key below := tidy.later parent key (hasGroup_of_append single below)

/-- A new group is one more place, and its parent, which is there already, refers to it. -/
theorem Tidy.newGroup (tidy : f.Tidy) (present : parent < f.nodes.length) {n : Nation}
    (single : n.groups = []) : (f.newGroup parent n).1.Tidy where
  once := by
    have length : (f.newGroup parent n).1.nodes.length = f.nodes.length + 1 := by
      simp [Forest.newGroup, append, modify]
    rw [length]
    refine perm_range_succ tidy.once ?_
    rw [List.append_assoc]
    exact (groups_newGroup single present).append_left f.roots
  later other key below := by
    rcases hasGroup_of_newGroup single below with old | ⟨rfl, rfl⟩
    · exact tidy.later other key old
    · exact present

/-! ## Edits -/

/-- The ways in which a forest is made and changed, where the nations that may be added are those
that fit.  Whatever is entered goes below a nation that is there. -/
inductive Edit (fits : Nation → Prop) (f : Forest) : Forest → Prop where
  | newRoot (n : Nation) (fit : fits n) : Edit fits f (f.newRoot n).1
  | newGroup (parent : ℕ) (present : parent < f.nodes.length) (n : Nation) (fit : fits n) :
      Edit fits f (f.newGroup parent n).1
  | enlist (parent : ℕ) (present : parent < f.nodes.length) (piece : PieceId) :
      Edit fits f (f.enlist parent piece)
  | dismiss (piece : PieceId) : Edit fits f (f.dismiss piece)
  | transfer (piece : PieceId) (parent : ℕ) (present : parent < f.nodes.length) :
      Edit fits f (f.transfer piece parent)
  | rename (new? : PieceId → Option PieceId) : Edit fits f (f.rename new?)
  | renew {σ : Type} (supply : Supply σ) (s : σ) : Edit fits f (f.renew supply s).1

/-- One forest is made from another by any number of edits. -/
def Edits (fits : Nation → Prop) : Forest → Forest → Prop := Relation.ReflTransGen (Edit fits)

variable {fits : Nation → Prop}

/-- Every edit of a tidy forest leaves it tidy, if only groupless nations are added. -/
theorem tidy_of_edit (plain : ∀ n, fits n → n.Groupless) (edit : Edit fits f g) (tidy : f.Tidy) :
    g.Tidy := by
  cases edit with
  | newRoot n fit => exact tidy.newRoot (plain n fit)
  | newGroup parent present n fit => exact tidy.newGroup present (plain n fit)
  | enlist parent _ piece => exact (f.sameGroups_enlist parent piece).tidy tidy
  | dismiss piece => exact (f.sameGroups_dismiss piece).tidy tidy
  | transfer piece parent _ => exact (f.sameGroups_transfer piece parent).tidy tidy
  | rename new? => exact (f.sameGroups_rename new?).tidy tidy
  | renew supply s => exact (sameGroups_renew supply f s).tidy tidy

theorem tidy_empty : ({} : Forest).Tidy where
  once := .refl []
  later _ _ below := absurd below List.not_mem_nil

/-- Whatever is made of groupless nations from the empty forest is tidy. -/
theorem tidy_of_edits (plain : ∀ n, fits n → n.Groupless) (edits : Edits fits {} f) : f.Tidy := by
  induction edits with
  | refl => exact tidy_empty
  | tail _ edit ih => exact tidy_of_edit plain edit ih

/-! ## Moving a piece -/

variable {piece other : PieceId}

/-- Dismissing a piece takes it out of every nation. -/
theorem childrenOf_dismiss (f : Forest) (piece : PieceId) (key : ℕ) :
    (f.dismiss piece).childrenOf key = (f.childrenOf key).filter (· ≠ .piece piece) := by
  unfold childrenOf get? dismiss
  rw [List.getElem?_map]
  cases f.nodes[key]? <;> rfl

/-- An enlisted piece comes last in its nation. -/
theorem childrenOf_enlist_self (present : key < f.nodes.length) (piece : PieceId) :
    (f.enlist key piece).childrenOf key = f.childrenOf key ++ [.piece piece] := by
  unfold childrenOf get? enlist modify
  rw [List.getElem?_modify_eq, List.getElem?_eq_getElem present]
  rfl

/-- Enlisting a piece leaves the other nations alone. -/
theorem childrenOf_enlist_of_ne (differ : key ≠ parent) (piece : PieceId) :
    (f.enlist parent piece).childrenOf key = f.childrenOf key := by
  unfold childrenOf get? enlist modify
  dsimp only
  rw [List.getElem?_modify_ne _ _ differ.symm]

/-- After a dismissal a nation has its other pieces. -/
theorem piecesIn_dismiss (f : Forest) (piece : PieceId) (key : ℕ) :
    (f.dismiss piece).piecesIn key = (f.piecesIn key).filter (· ≠ piece) := by
  unfold piecesIn
  rw [childrenOf_dismiss, List.filter_filterMap, List.filterMap_filter]
  refine List.filterMap_congr fun c _ => ?_
  cases c with
  | group key => rfl
  | piece id => by_cases same : id = piece <;> simp [Child.piece?, Option.filter_some, same]

/-- Where a piece is moved to, it is the last one afterwards. -/
theorem piecesIn_transfer_self (present : key < f.nodes.length) (piece : PieceId) :
    (f.transfer piece key).piecesIn key = (f.piecesIn key).filter (· ≠ piece) ++ [piece] := by
  have still : key < (f.dismiss piece).nodes.length := by
    rwa [(f.sameGroups_dismiss piece).length]
  rw [← piecesIn_dismiss]
  unfold transfer piecesIn
  rw [childrenOf_enlist_self still, List.filterMap_append]
  rfl

/-- A piece that is transferred leaves all other nations. -/
theorem piecesIn_transfer_of_ne (differ : key ≠ parent) (piece : PieceId) :
    (f.transfer piece parent).piecesIn key = (f.piecesIn key).filter (· ≠ piece) := by
  rw [← piecesIn_dismiss]
  unfold transfer piecesIn
  rw [childrenOf_enlist_of_ne differ]

/-- A piece that is moved is afterwards where it was moved to, once, and nowhere else. -/
theorem count_piecesIn_transfer (present : parent < f.nodes.length) (piece : PieceId) (key : ℕ) :
    ((f.transfer piece parent).piecesIn key).count piece = if key = parent then 1 else 0 := by
  have dropped : ((f.piecesIn key).filter (· ≠ piece)).count piece = 0 :=
    List.count_eq_zero.2 fun kept => of_decide_eq_true (List.mem_filter.1 kept).2 rfl
  split
  · rename_i here
    subst here
    rw [piecesIn_transfer_self present, List.count_append, dropped, List.count_singleton_self]
  · rename_i differ
    rw [piecesIn_transfer_of_ne differ, dropped]

/-- The other pieces are direct members of the same nations after a piece was moved. -/
theorem mem_piecesIn_transfer_of_ne (present : parent < f.nodes.length) (differ : other ≠ piece) :
    other ∈ (f.transfer piece parent).piecesIn key ↔ other ∈ f.piecesIn key := by
  have kept : other ∈ (f.piecesIn key).filter (· ≠ piece) ↔ other ∈ f.piecesIn key := by
    simp [differ]
  by_cases here : key = parent
  · subst here
    rw [piecesIn_transfer_self present, List.mem_append, List.mem_singleton, or_iff_left differ,
      kept]
  · rw [piecesIn_transfer_of_ne here, kept]

/-- A piece that was moved is below the nations that reach the place to which it was moved. -/
theorem hasBelow_transfer_self (present : parent < f.nodes.length) :
    (f.transfer piece parent).HasBelow root piece ↔
      (f.transfer piece parent).Reaches root parent := by
  have lists (key : ℕ) : piece ∈ (f.transfer piece parent).piecesIn key ↔ key = parent := by
    rw [← List.count_pos_iff, count_piecesIn_transfer present]
    split <;> simp [*]
  simp only [HasBelow, lists, exists_eq_right]

/-- Moving a piece leaves the other pieces below the same nations. -/
theorem hasBelow_transfer_of_ne (present : parent < f.nodes.length) (differ : other ≠ piece) :
    (f.transfer piece parent).HasBelow root other ↔ f.HasBelow root other := by
  simp only [HasBelow, (f.sameGroups_transfer piece parent).reaches_eq,
    mem_piecesIn_transfer_of_ne present differ]

/-- The root above a piece depends on the roots and on what they have below them. -/
theorem rootAbove?_congr (roots : g.roots = f.roots)
    (same : ∀ root, g.HasBelow root piece ↔ f.HasBelow root piece) :
    g.rootAbove? piece = f.rootAbove? piece := by
  unfold rootAbove?
  rw [roots]
  congr 1
  funext root
  rw [Bool.eq_iff_iff, List.contains_iff_mem, List.contains_iff_mem, mem_piecesBelow_iff,
    mem_piecesBelow_iff, same root]

/-- In a tidy forest, a piece that is below one root belongs to it. -/
theorem Tidy.rootAbove?_eq_some (tidy : f.Tidy) (hroot : root ∈ f.roots)
    (only : ∀ key, f.HasBelow key piece ↔ f.Reaches key parent) (reaches : f.Reaches root parent) :
    f.rootAbove? piece = some root := by
  obtain ⟨before, behind, roots⟩ := List.append_of_mem hroot
  refine rootAbove?_eq_some_iff.2 ⟨before, behind, roots, (only root).2 reaches, ?_⟩
  intro other earlier has
  have hother : other ∈ f.roots := roots ▸ List.mem_append_left _ earlier
  obtain rfl := tidy.root_unique hother hroot ((only other).1 has) reaches
  have once := tidy.nodup.of_append_left
  rw [roots] at once
  exact List.disjoint_of_nodup_append once earlier List.mem_cons_self

/-- In every forest, a piece that was moved belongs to the first root that reaches its new place. -/
theorem rootAbove?_transfer_eq_some_iff (present : parent < f.nodes.length) :
    (f.transfer piece parent).rootAbove? piece = some root ↔
      ∃ before behind, f.roots = before ++ root :: behind ∧
        (f.transfer piece parent).Reaches root parent ∧
        ∀ other ∈ before, ¬ (f.transfer piece parent).Reaches other parent := by
  simp only [rootAbove?_eq_some_iff, hasBelow_transfer_self present]
  rfl

/-- However a forest is made by edits, a piece that is moved to one of its nations is then listed
there once and nowhere else, wherever it was before.  It belongs to the first root that reaches this
nation, and the other pieces belong to the roots to which they belonged.

If moreover only groupless nations were added to the empty forest, the result is a forest: its
places are referred to once, by the roots or by a nation that stands before, its snapshot has every
nation once, and the root to which the piece belongs is the only one that reaches its nation. -/
theorem editing_spec (edits : Edits fits {} f) :
    (∀ piece key, key < f.nodes.length →
      (∀ place, ((f.transfer piece key).piecesIn place).count piece =
        if place = key then 1 else 0) ∧
      (∀ root, (f.transfer piece key).rootAbove? piece = some root ↔
        ∃ before behind, f.roots = before ++ root :: behind ∧
          (f.transfer piece key).Reaches root key ∧
          ∀ other ∈ before, ¬ (f.transfer piece key).Reaches other key) ∧
      ∀ other, other ≠ piece → (f.transfer piece key).rootAbove? other = f.rootAbove? other) ∧
    ((∀ n, fits n → n.Groupless) →
      (f.roots ++ f.groups).Perm (List.range f.nodes.length) ∧
      (∀ parent key, f.HasGroup parent key → parent < key) ∧
      (f.toSnapshot.flatMap (·.heads)).Perm (f.nodes.map (·.head)) ∧
      ∀ piece key, key < f.nodes.length →
        ∃ root, (∀ other, other ∈ (f.transfer piece key).roots ∧
            (f.transfer piece key).Reaches other key ↔ other = root) ∧
          (f.transfer piece key).rootAbove? piece = some root) := by
  refine ⟨fun piece key present => ⟨?_, ?_, ?_⟩, fun plain => ?_⟩
  · exact count_piecesIn_transfer present piece
  · exact fun root => rootAbove?_transfer_eq_some_iff present
  · exact fun other differ =>
      rootAbove?_congr rfl fun _ => hasBelow_transfer_of_ne present differ
  · have tidy := tidy_of_edits plain edits
    refine ⟨tidy.once, tidy.later, tidy.heads_toSnapshot, fun piece key present => ?_⟩
    have same := f.sameGroups_transfer piece key
    have moved := same.tidy tidy
    obtain ⟨root, hroot, reaches⟩ := moved.exists_root (same.length ▸ present)
    refine ⟨root, fun other => ⟨fun ⟨hother, also⟩ => ?_, ?_⟩, ?_⟩
    · exact moved.root_unique hother hroot also reaches
    · rintro rfl
      exact ⟨hroot, reaches⟩
    · exact moved.rootAbove?_eq_some hroot (fun _ => hasBelow_transfer_self present) reaches

/-- Two roots, and a watch in a camp below the second one.  The scout was entered three times. -/
def garrison : Forest where
  nodes :=
    [{ id := ⟨"south"⟩, children := [.piece ⟨"scout"⟩, .piece ⟨"envoy"⟩] },
     { id := ⟨"north"⟩, monarch := some ⟨"white"⟩, children := [.group 2] },
     { id := ⟨"camp"⟩, children := [.piece ⟨"scout"⟩, .group 3, .piece ⟨"scout"⟩] },
     { id := ⟨"watch"⟩ }]
  roots := [0, 1]

/-- The garrison is made of groupless nations. -/
theorem edits_garrison : Edits Nation.Groupless {} garrison :=
  .tail (.tail (.tail (.tail (.tail (.tail (.tail (.tail .refl
    (.newRoot { id := ⟨"south"⟩ } rfl))
    (.newRoot { id := ⟨"north"⟩, monarch := some ⟨"white"⟩ } rfl))
    (.newGroup 1 (by decide) { id := ⟨"camp"⟩ } rfl))
    (.enlist 0 (by decide) ⟨"scout"⟩))
    (.enlist 2 (by decide) ⟨"scout"⟩))
    (.newGroup 2 (by decide) { id := ⟨"watch"⟩ } rfl))
    (.enlist 2 (by decide) ⟨"scout"⟩))
    (.enlist 0 (by decide) ⟨"envoy"⟩)

/-- The scout, who belonged to the first root, is moved to the watch. -/
theorem editing_of_garrison :
    Edits Nation.Groupless {} garrison ∧
      (garrison.toSnapshot.flatMap (·.heads)).Perm (garrison.nodes.map (·.head)) ∧
      (∀ place, ((garrison.transfer ⟨"scout"⟩ 3).piecesIn place).count ⟨"scout"⟩ =
        if place = 3 then 1 else 0) ∧
      garrison.rootAbove? ⟨"scout"⟩ = some 0 ∧
      (garrison.transfer ⟨"scout"⟩ 3).rootAbove? ⟨"scout"⟩ = some 1 ∧
      (garrison.transfer ⟨"scout"⟩ 3).rootAbove? ⟨"envoy"⟩ = some 0 := by
  obtain ⟨moves, whole⟩ := editing_spec edits_garrison
  obtain ⟨-, -, written, -⟩ := whole fun _ fit => fit
  obtain ⟨once, -, others⟩ := moves ⟨"scout"⟩ 3 (by decide)
  refine ⟨edits_garrison, written, once, ?_, ?_, ?_⟩
  · cbv
  · cbv
  · rw [others ⟨"envoy"⟩ (by decide)]
    cbv

/-- Two roots that list each other. -/
def knot : Forest where
  nodes := [{ id := ⟨"east"⟩, children := [.group 1] }, { id := ⟨"west"⟩, children := [.group 0] }]
  roots := [0, 1]

/-- Where nations may be added that list nations already, the result need not be a forest.  The
first of these two roots refers to the place of the second one before it is there.  Both places are
then referred to twice, the second nation refers to one that stands before it, and the snapshot has
each nation twice. -/
theorem knot_not_tidy :
    Edits (fun _ => True) {} knot ∧
      ¬ (knot.roots ++ knot.groups).Perm (List.range knot.nodes.length) ∧
      (knot.HasGroup 1 0 ∧ ¬ 1 < 0) ∧
      ¬ (knot.toSnapshot.flatMap (·.heads)).Perm (knot.nodes.map (·.head)) := by
  refine ⟨.tail (.tail .refl (.newRoot _ trivial)) (.newRoot _ trivial), fun perm => ?_,
    ⟨hasGroup_iff.2 ⟨_, rfl, by decide⟩, by decide⟩, fun perm => ?_⟩
  · exact absurd perm.length_eq (by decide)
  · exact absurd perm.length_eq (by cbv)

end Forest

end BoardRules
