import Mathlib
import BoardRules.Proofs.Nation.Nesting
import BoardRules.Proofs.Nation.Reach
import BoardRules.Proofs.Renewal.Relabelling

/-!
# Who claims a piece

A piece belongs to whoever claims the first root that has it below itself
(`Forest.rootAbove?_eq_some_iff`).  Nesting a forest for a snapshot goes down each group before it
goes on, where the walk that looks for pieces goes level by level; so the two enter shared groups at
different places.  But nesting is a traversal as well (`Forest.exists_nested`), and therefore a
nation is written with the nations that the walk enters below it (`Forest.heads_nationData?`) and
the pieces that the walk meets, each as often (`Forest.leaves_nationData?`).  A snapshot cannot tell
a nation that nobody claims from one that the player without a name claims; where there is none of
the latter, the claimant of a piece can be read off the snapshot (`Forest.claimant?_eq`), and so
saving a forest and loading it again keeps all claims (`Forest.ownership_spec`).
-/

namespace BoardRules

open Snapshot (NationHead NationMember)

mutual

/-- The heads in a member, a nation's own one before those of what is nested in it. -/
def Snapshot.NationMember.heads : NationMember → List NationHead
  | .piece _ => []
  | .group head members => head :: Snapshot.NationMember.headsAll members

/-- The heads in members, one member after the other. -/
def Snapshot.NationMember.headsAll : List NationMember → List NationHead
  | [] => []
  | m :: rest => m.heads ++ Snapshot.NationMember.headsAll rest

end

/-- The heads of a nation and of the nations nested in it. -/
def Snapshot.Nation.heads (n : Snapshot.Nation) : List NationHead :=
  n.head :: NationMember.headsAll n.members

/-- The player that the head of a nation names. -/
def Snapshot.NationHead.claimant? (head : NationHead) : Option PlayerId :=
  if head.monarch = "" then none else some ⟨head.monarch⟩

/-- The nation is not claimed by the player without a name. -/
def Nation.NamesMonarch (n : Nation) : Prop := n.monarch ≠ some ⟨""⟩

/-- A nation made from a head is not claimed by the player without a name: an empty name is read as
no monarch. -/
theorem Nation.namesMonarch_ofHead (head : NationHead) (children : List Child) :
    (Nation.ofHead head children).NamesMonarch := by
  unfold NamesMonarch ofHead
  split
  · exact fun none => nomatch none
  · rename_i named
    exact fun same => named (congrArg Id.text (Option.some.inj same))

/-- The head of a nation names the monarch, unless the monarch has no name. -/
theorem Nation.claimant?_head {n : Nation} (named : n.NamesMonarch) :
    n.head.claimant? = n.monarch := by
  unfold NationHead.claimant? head
  cases claimed : n.monarch with
  | none => rfl
  | some monarch =>
    have text : monarch.text ≠ "" := fun empty => named (by rw [claimed, ← empty])
    exact if_neg text

namespace Forest

variable {f : Forest} {fresh : List ℕ} {key root : ℕ}

/-! ## Roots -/

/-- The root above a piece is the first one that has the piece below itself. -/
theorem rootAbove?_eq_some_iff {piece : PieceId} :
    f.rootAbove? piece = some root ↔
      ∃ before behind, f.roots = before ++ root :: behind ∧ f.HasBelow root piece ∧
        ∀ other ∈ before, ¬ f.HasBelow other piece := by
  have meets (key : ℕ) : (f.piecesBelow key).contains piece = true ↔ f.HasBelow key piece :=
    List.contains_iff_mem.trans mem_piecesBelow_iff
  have misses (key : ℕ) : (!(f.piecesBelow key).contains piece) = true ↔
      ¬ f.HasBelow key piece := by
    rw [Bool.not_eq_true', ← Bool.not_eq_true, meets]
  unfold rootAbove?
  rw [List.find?_eq_some_iff_append, meets]
  simp only [misses]
  constructor
  · rintro ⟨has, before, behind, roots, none⟩
    exact ⟨before, behind, roots, has, none⟩
  · rintro ⟨before, behind, roots, has, none⟩
    exact ⟨has, before, behind, roots, none⟩

/-! ## Nesting -/

/-- The head of the nation at a place. -/
def head? (f : Forest) (key : ℕ) : Option NationHead := (f.get? key).map (·.head)

/-- The nations that the walk from a place enters, the one it starts from first. -/
def reached (f : Forest) (root : ℕ) : List ℕ :=
  root :: f.entered (f.below root) (f.childrenOf root)

/-- A group that is not fresh is left out. -/
theorem nest_stale (stale : key ∉ fresh) (rest : List Child) :
    f.nest fresh (.group key :: rest) = f.nest fresh rest := by
  rw [nest, gather, dif_neg stale]
  rfl

/-- What nesting members comes to that enters some groups. -/
structure Nested (f : Forest) (fresh : List ℕ) (members : List Child) (groups : List ℕ) :
    Prop where
  /-- Nesting is a traversal. -/
  entered : f.Entered fresh members groups
  /-- The groups that stay fresh keep their order. -/
  sublist : (f.nest fresh members).2.Sublist fresh
  /-- The groups that are not entered stay fresh. -/
  remain : ∀ key, key ∈ (f.nest fresh members).2 ↔ key ∈ fresh ∧ key ∉ groups
  /-- The pieces among the members are written, and those of the groups that are entered. -/
  leaves : (NationMember.leavesAll (f.nest fresh members).1).Perm
    (members.filterMap Child.piece? ++ groups.flatMap f.piecesIn)
  /-- The groups that are entered are written, in this order. -/
  heads : NationMember.headsAll (f.nest fresh members).1 = groups.filterMap f.head?

namespace Nested

variable {members rest : List Child} {groups more : List ℕ}

theorem nil (f : Forest) (fresh : List ℕ) : f.Nested fresh [] [] where
  entered := .nil f fresh
  sublist := by rw [nest_nil]
  remain key := by simp [nest_nil]
  leaves := by rw [nest_nil]; exact List.Perm.refl []
  heads := by rw [nest_nil]; rfl

/-- A piece before the other members is nested as a leaf, and no group is entered for it. -/
theorem piece (h : f.Nested fresh rest groups) (id : PieceId) :
    f.Nested fresh (.piece id :: rest) groups where
  entered := h.entered.skip fun _ _ => Child.noConfusion
  sublist := by rw [nest_piece]; exact h.sublist
  remain key := by rw [nest_piece]; exact h.remain key
  leaves := by rw [nest_piece]; exact h.leaves.cons id
  heads := by rw [nest_piece]; exact h.heads

/-- A group that has been entered before is passed over. -/
theorem stale (h : f.Nested fresh rest groups) (stale : key ∉ fresh) :
    f.Nested fresh (.group key :: rest) groups where
  entered := h.entered.skip fun other hother same => stale (Child.group.inj same ▸ hother)
  sublist := by rw [nest_stale stale]; exact h.sublist
  remain other := by rw [nest_stale stale]; exact h.remain other
  leaves := by rw [nest_stale stale]; exact h.leaves
  heads := by rw [nest_stale stale]; exact h.heads

/-- A fresh group is entered before the members behind it. -/
theorem enter (nodup : fresh.Nodup) (enters : key ∈ fresh) {node : Nation}
    (found : f.get? key = some node) (inner : f.Nested (fresh.erase key) node.children groups)
    (later : f.Nested (f.nest (fresh.erase key) node.children).2 rest more) :
    f.Nested fresh (.group key :: rest) (key :: (groups ++ more)) := by
  have children := childrenOf_of_get? found
  constructor
  case entered =>
    have both := inner.entered.append inner.remain later.entered
    rw [← children] at both
    exact .enter nodup enters both
  case sublist =>
    rw [nest_group enters found]
    exact (later.sublist.trans inner.sublist).trans List.erase_sublist
  case remain =>
    intro other
    rw [nest_group enters found]
    dsimp only
    rw [later.remain, inner.remain, nodup.mem_erase_iff, List.mem_cons, List.mem_append]
    tauto
  case leaves =>
    have own : f.piecesIn key = node.children.filterMap Child.piece? := by
      unfold piecesIn
      rw [children]
    have first : Child.piece? (.group key) = none := rfl
    rw [nest_group enters found, List.filterMap_cons_none first, List.flatMap_cons,
      List.flatMap_append, own]
    dsimp only [NationMember.leavesAll, NationMember.leaves]
    refine (inner.leaves.append later.leaves).trans ?_
    have exchanged : ((node.children.filterMap Child.piece? ++ groups.flatMap f.piecesIn) ++
        rest.filterMap Child.piece?).Perm (rest.filterMap Child.piece? ++
          (node.children.filterMap Child.piece? ++ groups.flatMap f.piecesIn)) :=
      List.perm_append_comm
    simpa only [List.append_assoc] using exchanged.append_right (more.flatMap f.piecesIn)
  case heads =>
    have own : f.head? key = some node.head := by rw [head?, found, Option.map_some]
    rw [nest_group enters found, List.filterMap_cons_some own, List.filterMap_append,
      ← inner.heads, ← later.heads]
    rfl

end Nested

/-- Nesting members enters some groups. -/
theorem exists_nested (fresh : List ℕ) (members : List Child) (nodup : fresh.Nodup)
    (present : ∀ key ∈ fresh, key < f.nodes.length) : ∃ groups, f.Nested fresh members groups := by
  match members with
  | [] => exact ⟨[], .nil f fresh⟩
  | .piece id :: rest =>
    obtain ⟨groups, nested⟩ := exists_nested fresh rest nodup present
    exact ⟨groups, nested.piece id⟩
  | .group key :: rest =>
    by_cases enters : key ∈ fresh
    · obtain ⟨node, found⟩ : ∃ node, f.get? key = some node :=
        ⟨_, List.getElem?_eq_getElem (present key enters)⟩
      have fewer := length_erase_lt enters
      have known : ∀ other ∈ fresh.erase key, other < f.nodes.length :=
        fun other hother => present other (List.mem_of_mem_erase hother)
      obtain ⟨groups, inner⟩ :=
        exists_nested (fresh.erase key) node.children (nodup.erase key) known
      have still := inner.sublist.length_le
      obtain ⟨more, later⟩ := exists_nested (f.nest (fresh.erase key) node.children).2 rest
        ((nodup.erase key).sublist inner.sublist)
        fun other hother => known other (inner.sublist.subset hother)
      exact ⟨key :: (groups ++ more), .enter nodup enters found inner later⟩
    · obtain ⟨groups, nested⟩ := exists_nested fresh rest nodup present
      exact ⟨groups, nested.stale enters⟩
termination_by (fresh.length, members.length)
decreasing_by
  · exact Prod.Lex.right _ (Nat.lt_succ_self _)
  · exact Prod.Lex.left _ _ fewer
  · exact Prod.Lex.left _ _ (Nat.lt_of_le_of_lt still fewer)
  · exact Prod.Lex.right _ (Nat.lt_succ_self _)

/-- Nesting a nation enters the same nations as the walk from it, though in another order. -/
theorem exists_nested_perm {node : Nation} (found : f.get? root = some node) :
    ∃ groups, f.Nested (f.below root) node.children groups ∧
      (root :: groups).Perm (f.reached root) := by
  have known : root < f.nodes.length := (List.getElem?_eq_some_iff.1 found).1
  have children := childrenOf_of_get? found
  obtain ⟨groups, nested⟩ := exists_nested (f.below root) node.children (f.nodup_below root)
    fun key hkey => (mem_below_iff.1 hkey).2
  have nests := nested.entered
  rw [← children] at nests
  have walks := f.entered_spec (f.nodup_below root) (f.childrenOf root)
  -- both traversals enter what the root reaches, each place once
  exact ⟨groups, nested, (List.perm_ext_iff_of_nodup nests.once_cons walks.once_cons).2 fun key =>
    (nests.mem_cons_iff known).trans (walks.mem_cons_iff known).symm⟩

/-- A nation is written with the pieces below it, each as often as the walk meets it. -/
theorem leaves_nationData? {n : Snapshot.Nation} (written : f.nationData? root = some n) :
    n.leaves.Perm (f.piecesBelow root) := by
  obtain ⟨node, found, rfl⟩ := Option.map_eq_some_iff.1 written
  obtain ⟨groups, nested, same⟩ := exists_nested_perm found
  have own : f.piecesIn root = node.children.filterMap Child.piece? := by
    rw [piecesIn, childrenOf_of_get? found]
  rw [piecesBelow_eq, List.flatMap_cons, own]
  exact nested.leaves.trans ((same.cons_inv.flatMap_right f.piecesIn).append_left _)

/-- A nation is written with the nations that the walk enters from it. -/
theorem heads_nationData? {n : Snapshot.Nation} (written : f.nationData? root = some n) :
    n.heads.Perm ((f.reached root).filterMap f.head?) := by
  obtain ⟨node, found, rfl⟩ := Option.map_eq_some_iff.1 written
  obtain ⟨groups, nested, same⟩ := exists_nested_perm found
  have own : f.head? root = some node.head := by rw [head?, found, Option.map_some]
  have heads : (⟨node.head, (f.nest (f.below root) node.children).1⟩ : Snapshot.Nation).heads =
      (root :: groups).filterMap f.head? := by
    rw [List.filterMap_cons_some own, ← nested.heads]
    rfl
  exact (List.Perm.of_eq heads).trans (same.filterMap f.head?)

/-! ## Saved claims -/

mutual

/-- Nations that are laid out have named monarchs. -/
theorem namesMonarch_layOut (next : ℕ) (m : NationMember) :
    ∀ n ∈ (layOut next m).2, n.NamesMonarch := by
  match m with
  | .piece id => exact fun n hn => absurd hn List.not_mem_nil
  | .group head members =>
    intro n hn
    rcases List.mem_cons.1 hn with rfl | later
    · exact Nation.namesMonarch_ofHead head _
    · exact namesMonarch_layOutAll (next + 1) members n later

/-- No nation that is laid out below others is claimed by the player without a name. -/
theorem namesMonarch_layOutAll (next : ℕ) (ms : List NationMember) :
    ∀ n ∈ (layOutAll next ms).2, n.NamesMonarch := by
  match ms with
  | [] => exact fun n hn => absurd hn List.not_mem_nil
  | m :: rest =>
    intro n hn
    rcases List.mem_append.1 hn with first | later
    · exact namesMonarch_layOut next m n first
    · exact namesMonarch_layOutAll (next + (layOut next m).2.length) rest n later

end

/-- No nation laid out from the data of a board is claimed by the player without a name. -/
theorem namesMonarch_layOutRoots (next : ℕ) (data : List Snapshot.Nation) :
    ∀ n ∈ (layOutRoots next data).2, n.NamesMonarch := by
  induction data generalizing next with
  | nil => exact fun n hn => absurd hn List.not_mem_nil
  | cons root rest ih =>
    intro n hn
    rcases List.mem_append.1 hn with first | later
    · rcases List.mem_cons.1 first with rfl | below
      · exact Nation.namesMonarch_ofHead root.head _
      · exact namesMonarch_layOutAll (next + 1) root.members n below
    · exact ih _ n later

/-- Every nation of a loaded forest has a named monarch or none. -/
theorem namesMonarch_ofSnapshot (data : List Snapshot.Nation) :
    ∀ n ∈ (ofSnapshot data).nodes, n.NamesMonarch := namesMonarch_layOutRoots 0 data

/-- Where all monarchs have names, the claimant of a piece is the one whom the first written root
with the piece names. -/
theorem claimant?_eq (named : ∀ n ∈ f.nodes, n.NamesMonarch) (piece : PieceId) :
    f.claimant? piece =
      (f.toSnapshot.find? (·.leaves.contains piece)).bind (·.head.claimant?) := by
  unfold claimant? rootAbove? toSnapshot
  induction f.roots with
  | nil => rfl
  | cons root rest ih =>
    cases written : f.nationData? root with
    | none =>
      have missing : f.get? root = none := Option.map_eq_none_iff.1 written
      have bare := piecesBelow_of_length_le (List.getElem?_eq_none_iff.1 missing)
      rw [List.filterMap_cons_none written, List.find?_cons_of_neg (by simp [bare])]
      exact ih
    | some n =>
      have same : n.leaves.contains piece = (f.piecesBelow root).contains piece := by
        rw [Bool.eq_iff_iff, List.contains_iff_mem, List.contains_iff_mem]
        exact (leaves_nationData? written).mem_iff
      obtain ⟨node, found, rfl⟩ := Option.map_eq_some_iff.1 written
      have claims := Nation.claimant?_head (named node (List.mem_of_getElem? found))
      rw [List.filterMap_cons_some written, List.find?_cons, List.find?_cons, same]
      cases (f.piecesBelow root).contains piece with
      | false => exact ih
      | true =>
        refine Eq.trans ?_ claims.symm
        change (f.get? root).bind (·.monarch) = node.monarch
        rw [found]
        rfl

/-- Whatever the references between its nations, a forest resolves ownership by what its roots
reach: the walk below a nation ends and meets the pieces of each nation that is reached, each
membership once, and the root above a piece is the first one that reaches it.  If all monarchs have
names, saving the forest and loading it again keeps the claimant of every piece. -/
theorem ownership_spec (f : Forest) :
    (∀ root, ∃ groups : List ℕ, groups.Nodup ∧
        (∀ key, key ∈ groups ↔ f.Reaches root key ∧ key < f.nodes.length) ∧
        f.piecesBelow root = groups.flatMap f.piecesIn ∧
        ∃ visited, (Walk.step f)^[(groups.map fun key => (f.childrenOf key).length).sum]
          (.start f root) = ⟨visited, [], f.piecesBelow root⟩) ∧
      (∀ piece root, f.rootAbove? piece = some root ↔
        ∃ before behind, f.roots = before ++ root :: behind ∧ f.HasBelow root piece ∧
          ∀ other ∈ before, ¬ f.HasBelow other piece) ∧
      ((∀ n ∈ f.nodes, n.monarch ≠ some ⟨""⟩) →
        ∀ piece, (ofSnapshot f.toSnapshot).claimant? piece = f.claimant? piece) := by
  refine ⟨fun root => ?_, fun piece root => rootAbove?_eq_some_iff, fun named piece => ?_⟩
  · have walks := f.entered_spec (f.nodup_below root) (f.childrenOf root)
    by_cases known : root < f.nodes.length
    · exact ⟨root :: f.entered (f.below root) (f.childrenOf root), walks.once_cons,
        fun key => walks.mem_cons_iff known, f.piecesBelow_eq root, Walk.iterate_start f root⟩
    · have missing := Nat.le_of_not_lt known
      have bare := piecesBelow_of_length_le missing
      refine ⟨[], List.nodup_nil, fun key => ?_, bare, [root], ?_⟩
      · refine ⟨fun h => absurd h List.not_mem_nil, fun ⟨reaches, present⟩ => ?_⟩
        exact absurd (reaches.lt_length present) known
      · rw [bare]
        unfold Walk.start
        rw [childrenOf_of_length_le missing]
        rfl
  · rw [claimant?_eq (namesMonarch_ofSnapshot f.toSnapshot), toSnapshot_ofSnapshot,
      claimant?_eq named]

/-- Two camps share their watch, which lists its own camp and one of its pieces twice; one root and
one group lead nowhere. -/
def borderland : Forest where
  nodes :=
    [{ id := ⟨"north"⟩, monarch := some ⟨"white"⟩,
       children := [.piece ⟨"scout"⟩, .group 1, .group 7] },
     { id := ⟨"camp"⟩, monarch := some ⟨"nobody"⟩, children := [.piece ⟨"cook"⟩, .group 2] },
     { id := ⟨"watch"⟩, children := [.piece ⟨"guard"⟩, .group 1, .piece ⟨"guard"⟩] },
     { id := ⟨"south"⟩, monarch := some ⟨"black"⟩, children := [.group 2, .piece ⟨"envoy"⟩] }]
  roots := [9, 3, 0]

/-- The guard belongs to black, whose root comes first, also when the watch has been written below
each root. -/
theorem ownership_of_borderland :
    (∀ n ∈ borderland.nodes, n.monarch ≠ some ⟨""⟩) ∧
      (ofSnapshot borderland.toSnapshot).claimant? ⟨"guard"⟩ = borderland.claimant? ⟨"guard"⟩ ∧
      borderland.claimant? ⟨"guard"⟩ = some ⟨"black"⟩ ∧
      borderland.piecesBelow 3 = [⟨"envoy"⟩, ⟨"guard"⟩, ⟨"guard"⟩, ⟨"cook"⟩] ∧
      (∃ before behind, borderland.roots = before ++ 0 :: behind ∧
        borderland.HasBelow 0 ⟨"scout"⟩ ∧
          ∀ other ∈ before, ¬ borderland.HasBelow other ⟨"scout"⟩) ∧
      (ofSnapshot borderland.toSnapshot).nodes.length = 6 := by
  have named : ∀ n ∈ borderland.nodes, n.monarch ≠ some ⟨""⟩ := by decide
  obtain ⟨-, above, saved⟩ := borderland.ownership_spec
  refine ⟨named, saved named ⟨"guard"⟩, ?_, ?_, (above ⟨"scout"⟩ 0).1 ?_, ?_⟩
  · cbv
  · cbv
  · cbv
  · cbv

end Forest

end BoardRules
