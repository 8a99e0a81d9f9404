import Mathlib
import BoardRules.Proofs.Nation.Ownership

/-!
# Tidy forests

Nothing in a row of nations keeps the references between them from sharing a nation or from running
in a circle.  A forest is tidy (`Forest.Tidy`) if every place is referred to once, by a root or by
one nation that stands before it.  Then the references do form a forest: each place is below exactly
one root (`Forest.Tidy.exists_root`, `Forest.Tidy.root_unique`).  Nesting a tidy forest for a
snapshot writes every nation once (`Forest.Tidy.heads_toSnapshot`).
-/

namespace BoardRules

/-- Looking up every place of a row gives the row. -/
theorem filterMap_range_getElem? {α : Type} (row : List α) :
    (List.range row.length).filterMap (fun i => row[i]?) = row := by
  induction row using List.reverseRecOn with
  | nil => rfl
  | append_singleton row a ih =>
    have front : (List.range row.length).filterMap (fun i => (row ++ [a])[i]?) = row := by
      refine (List.filterMap_congr fun i hi => ?_).trans ih
      exact List.getElem?_append_left (List.mem_range.1 hi)
    rw [List.length_append, List.length_singleton, List.range_succ, List.filterMap_append, front]
    simp

/-- The place of the nation that a member is, if it is one. -/
def Child.group? : Child → Option ℕ
  | .group key => some key
  | .piece _ => none

theorem Child.group?_eq_some_iff {c : Child} {key : ℕ} : c.group? = some key ↔ c = .group key := by
  cases c <;> simp [group?]

/-- The places of the nations directly below a nation. -/
def Nation.groups (n : Nation) : List ℕ := n.children.filterMap Child.group?

namespace Forest

variable {f g : Forest} {key parent root : ℕ}

/-- The places that nations refer to, nation by nation. -/
def groups (f : Forest) : List ℕ := f.nodes.flatMap Nation.groups

/-- A nation has another as a direct member if it is there and refers to it. -/
theorem hasGroup_iff :
    f.HasGroup parent key ↔ ∃ n, f.nodes[parent]? = some n ∧ key ∈ n.groups := by
  unfold HasGroup childrenOf get? Nation.groups
  simp only [List.mem_filterMap, Child.group?_eq_some_iff, exists_eq_right]
  cases f.nodes[parent]? <;> simp

/-- The places that nations refer to are those of the direct members. -/
theorem mem_groups_iff : key ∈ f.groups ↔ ∃ parent, f.HasGroup parent key := by
  rw [groups, List.mem_flatMap]
  constructor
  · rintro ⟨n, hn, listed⟩
    obtain ⟨parent, found⟩ := List.mem_iff_getElem?.1 hn
    exact ⟨parent, hasGroup_iff.2 ⟨n, found, listed⟩⟩
  · rintro ⟨parent, below⟩
    obtain ⟨n, found, listed⟩ := hasGroup_iff.1 below
    exact ⟨n, List.mem_of_getElem? found, listed⟩

/-- Nations that are there are written with those that the walks from them enter. -/
theorem perm_heads_nationData? {roots : List ℕ} (present : ∀ root ∈ roots, root < f.nodes.length) :
    ((roots.filterMap f.nationData?).flatMap (·.heads)).Perm
      ((roots.flatMap f.reached).filterMap f.head?) := by
  induction roots with
  | nil => exact .refl []
  | cons root rest ih =>
    obtain ⟨here, later⟩ := List.forall_mem_cons.1 present
    obtain ⟨n, found⟩ : ∃ n, f.nationData? root = some n :=
      ⟨_, congrArg (Option.map _) (List.getElem?_eq_getElem here)⟩
    rw [List.filterMap_cons_some found, List.flatMap_cons, List.flatMap_cons, List.filterMap_append]
    exact (heads_nationData? found).append (ih later)

/-- Every place of the row is referred to once, by the roots or by one nation that stands before
it. -/
structure Tidy (f : Forest) : Prop where
  /-- The roots and the places that nations refer to are the places of the row, each once. -/
  once : (f.roots ++ f.groups).Perm (List.range f.nodes.length)
  /-- A nation stands behind the one that it is a member of. -/
  later : ∀ parent key, f.HasGroup parent key → parent < key

namespace Tidy

variable (tidy : f.Tidy)

include tidy

/-- In a tidy forest the nations are the roots and those that another nation lists. -/
theorem mem_range_iff : key < f.nodes.length ↔ key ∈ f.roots ∨ ∃ parent, f.HasGroup parent key := by
  rw [← mem_groups_iff, ← List.mem_append, tidy.once.mem_iff, List.mem_range]

/-- The roots of a tidy forest are nations of it. -/
theorem lt_length_of_mem_roots (hroot : root ∈ f.roots) : root < f.nodes.length :=
  tidy.mem_range_iff.2 (.inl hroot)

/-- In a tidy forest nothing is listed twice, as a root or as a group. -/
theorem nodup : (f.roots ++ f.groups).Nodup := tidy.once.nodup_iff.2 List.nodup_range

/-- A root is no member of another nation. -/
theorem not_hasGroup_of_mem_roots (hroot : root ∈ f.roots) : ¬ f.HasGroup parent root :=
  fun below => List.disjoint_of_nodup_append tidy.nodup hroot (mem_groups_iff.2 ⟨parent, below⟩)

/-- A nation is a member of one other nation at most. -/
theorem parent_unique {other : ℕ} (here : f.HasGroup parent key) (there : f.HasGroup other key) :
    parent = other := by
  have apart := (List.nodup_flatMap.1 tidy.nodup.of_append_right).2
  obtain ⟨n, foundN, listedN⟩ := hasGroup_iff.1 here
  obtain ⟨m, foundM, listedM⟩ := hasGroup_iff.1 there
  obtain ⟨hn, rfl⟩ := List.getElem?_eq_some_iff.1 foundN
  obtain ⟨hm, rfl⟩ := List.getElem?_eq_some_iff.1 foundM
  rw [List.pairwise_iff_getElem] at apart
  rcases lt_trichotomy parent other with first | same | second
  · exact (apart parent other hn hm first listedN listedM).elim
  · exact same
  · exact (apart other parent hm hn second listedM listedN).elim

/-- Every nation lies below a root. -/
theorem exists_root (present : key < f.nodes.length) : ∃ root ∈ f.roots, f.Reaches root key := by
  -- up from member to parent, whose place is smaller
  induction key using Nat.strong_induction_on with
  | _ key ih =>
    rcases tidy.mem_range_iff.1 present with hroot | ⟨parent, below⟩
    · exact ⟨key, hroot, .refl⟩
    · have before := tidy.later parent key below
      obtain ⟨root, hroot, reaches⟩ := ih parent before (before.trans present)
      exact ⟨root, hroot, reaches.tail below⟩

/-- No nation lies below two roots. -/
theorem root_unique {other : ℕ} (hroot : root ∈ f.roots) (hother : other ∈ f.roots)
    (here : f.Reaches root key) (there : f.Reaches other key) : root = other := by
  induction here with
  | refl =>
    rcases there.cases_tail with same | ⟨parent, -, below⟩
    · exact same
    · exact absurd below (tidy.not_hasGroup_of_mem_roots hroot)
  | @tail parent key _ below ih =>
    rcases there.cases_tail with rfl | ⟨second, reaches, beside⟩
    · exact absurd below (tidy.not_hasGroup_of_mem_roots hother)
    · exact ih (tidy.parent_unique below beside ▸ reaches)

/-! ## Nesting -/

/-- The walk from a root enters the nations that the root reaches. -/
theorem mem_reached_iff (hroot : root ∈ f.roots) :
    key ∈ f.reached root ↔ f.Reaches root key ∧ key < f.nodes.length :=
  (f.entered_spec (f.nodup_below root) (f.childrenOf root)).mem_cons_iff
    (tidy.lt_length_of_mem_roots hroot)

/-- The walks from the roots enter every nation once. -/
theorem perm_flatMap_reached :
    (f.roots.flatMap f.reached).Perm (List.range f.nodes.length) := by
  have once : (f.roots.flatMap f.reached).Nodup := by
    refine List.nodup_flatMap.2 ⟨fun root _ => ?_, ?_⟩
    · exact (f.entered_spec (f.nodup_below root) (f.childrenOf root)).once_cons
    · refine tidy.nodup.of_append_left.imp_of_mem fun hroot hother differ key here there => ?_
      have reached := (tidy.mem_reached_iff hroot).1 here
      have again := (tidy.mem_reached_iff hother).1 there
      exact differ (tidy.root_unique hroot hother reached.1 again.1)
  refine (List.perm_ext_iff_of_nodup once List.nodup_range).2 fun key => ?_
  rw [List.mem_flatMap, List.mem_range]
  constructor
  · rintro ⟨root, hroot, reached⟩
    exact ((tidy.mem_reached_iff hroot).1 reached).2
  · intro present
    obtain ⟨root, hroot, reaches⟩ := tidy.exists_root present
    exact ⟨root, hroot, (tidy.mem_reached_iff hroot).2 ⟨reaches, present⟩⟩

/-- The snapshot of a tidy forest has every nation once. -/
theorem heads_toSnapshot :
    (f.toSnapshot.flatMap (·.heads)).Perm (f.nodes.map (·.head)) := by
  have written := perm_heads_nationData? fun _ hroot => tidy.lt_length_of_mem_roots hroot
  have all : (List.range f.nodes.length).filterMap f.head? = f.nodes.map (·.head) := by
    rw [← filterMap_range_getElem? f.nodes, List.map_filterMap, filterMap_range_getElem?]
    rfl
  exact (written.trans (tidy.perm_flatMap_reached.filterMap f.head?)).trans (.of_eq all)

end Tidy

end Forest

end BoardRules
