import Mathlib
import BoardRules.Nation.Storage

/-!
# Nesting what was laid out

A snapshot nests nations, and a forest keeps them in a row.  Laid out, a member takes up the places
from some place on, its own nation first and then what lies below it (`Forest.layOut`).  Nesting
enters a group if its place is still fresh.  So while the members of a layout are nested, the fresh
places are those before the layout, those that it takes up from the current member on, and those
behind it; and nesting a member uses up exactly the places that the member takes up
(`Forest.nest_layOut`, `Forest.nest_layOutAll`).  Hence a forest that is made from nested nations
nests again into the same ones (`Forest.toSnapshot_ofSnapshot`).
-/

namespace BoardRules

open Snapshot (NationHead NationMember)

/-- A nation made from a head has this head. -/
@[simp] theorem Nation.head_ofHead (head : NationHead) (children : List Child) :
    (Nation.ofHead head children).head = head := by
  obtain ⟨name, id, color, monarch⟩ := head
  unfold Nation.head Nation.ofHead
  by_cases unclaimed : monarch = ""
  · simp [unclaimed]
  · simp [unclaimed]

namespace Forest

variable {f : Forest} {fresh : List ℕ} {next : ℕ}

/-! ## One member -/

/-- The nested members and the groups that are still fresh, without the bound that makes nesting
end. -/
def nest (f : Forest) (fresh : List ℕ) (children : List Child) : List NationMember × List ℕ :=
  (f.gather fresh children).1

theorem nest_nil (f : Forest) (fresh : List ℕ) : f.nest fresh [] = ([], fresh) := by
  rw [nest, gather]

/-- A piece is nested as it is. -/
theorem nest_piece (f : Forest) (fresh : List ℕ) (id : PieceId) (rest : List Child) :
    f.nest fresh (.piece id :: rest) =
      (.piece id :: (f.nest fresh rest).1, (f.nest fresh rest).2) := by
  rw [nest, gather]
  rfl

/-- A fresh group is entered, and the others are nested with the groups that are still fresh. -/
theorem nest_group {key : ℕ} (enters : key ∈ fresh) {node : Nation}
    (found : f.get? key = some node) (rest : List Child) :
    f.nest fresh (.group key :: rest) =
      let inner := f.nest (fresh.erase key) node.children
      (.group node.head inner.1 :: (f.nest inner.2 rest).1, (f.nest inner.2 rest).2) := by
  rw [nest, gather, dif_pos enters]
  split
  · rename_i missing
    cases found.symm.trans missing
  · rename_i other same
    obtain rfl : node = other := Option.some.inj (found.symm.trans same)
    rfl

/-! ## Places in the row -/

/-- From a place on the row of a forest holds some nations. -/
def HoldsAt (f : Forest) (next : ℕ) (nodes : List Nation) : Prop :=
  ∃ before behind, f.nodes = before ++ nodes ++ behind ∧ before.length = next

/-- A forest that holds a row of nations holds its front. -/
theorem HoldsAt.left {nodes more : List Nation} (h : f.HoldsAt next (nodes ++ more)) :
    f.HoldsAt next nodes := by
  obtain ⟨before, behind, row, length⟩ := h
  exact ⟨before, more ++ behind, by rw [row]; simp only [List.append_assoc], length⟩

/-- A forest that holds a row of nations holds its back, further on. -/
theorem HoldsAt.right {nodes more : List Nation} (h : f.HoldsAt next (nodes ++ more)) :
    f.HoldsAt (next + nodes.length) more := by
  obtain ⟨before, behind, row, rfl⟩ := h
  exact ⟨before ++ nodes, behind, by rw [row]; simp only [List.append_assoc], List.length_append⟩

/-- Behind the first of its nations the row goes on at the next place. -/
theorem HoldsAt.tail {node : Nation} {nodes : List Nation} (h : f.HoldsAt next (node :: nodes)) :
    f.HoldsAt (next + 1) nodes := by
  have split : f.HoldsAt next ([node] ++ nodes) := h
  exact split.right

/-- The nation at the place is the first one of those it holds. -/
theorem HoldsAt.get? {node : Nation} {nodes : List Nation} (h : f.HoldsAt next (node :: nodes)) :
    f.get? next = some node := by
  obtain ⟨before, behind, row, rfl⟩ := h
  rw [Forest.get?, row, List.append_assoc, List.getElem?_append_right (Nat.le_refl _),
    Nat.sub_self]
  rfl

/-- Entering the first of some places behind a front uses this place up. -/
theorem erase_front {front back : List ℕ} (old : ∀ key ∈ front, key < next) (n : ℕ) :
    (front ++ (List.range' next (n + 1) ++ back)).erase next =
      front ++ (List.range' (next + 1) n ++ back) := by
  have new : next ∉ front := fun h => Nat.lt_irrefl next (old next h)
  rw [List.erase_append_right _ new, List.range'_succ, List.cons_append, List.erase_cons_head]

/-! ## Layouts -/

mutual

/-- Nesting a member that is laid out gives the member, and uses up the places that it takes up. -/
theorem nest_layOut (m : NationMember) (next : ℕ) (front back : List ℕ) (rest : List Child)
    (old : ∀ key ∈ front, key < next) (holds : f.HoldsAt next (layOut next m).2) :
    f.nest (front ++ (List.range' next (layOut next m).2.length ++ back))
        ((layOut next m).1 :: rest) =
      (m :: (f.nest (front ++ back) rest).1, (f.nest (front ++ back) rest).2) := by
  match m with
  | .piece id => exact f.nest_piece (front ++ back) id rest
  | .group head members =>
    rw [layOut] at holds ⊢
    dsimp only at holds ⊢
    have enters : next ∈ front ++
        (List.range' next ((layOutAll (next + 1) members).2.length + 1) ++ back) := by
      refine List.mem_append_right front (List.mem_append_left back ?_)
      rw [List.range'_succ]
      exact List.mem_cons_self
    have below : ∀ key ∈ front, key < next + 1 := fun key hkey => Nat.lt_succ_of_lt (old key hkey)
    have inner := nest_layOutAll members (next + 1) front back below holds.tail
    rw [List.length_cons, nest_group enters holds.get?, erase_front old, Nation.head_ofHead]
    dsimp only [Nation.ofHead]
    rw [inner]

/-- Nesting members that are laid out gives the members, and uses up the places that they take
up. -/
theorem nest_layOutAll (ms : List NationMember) (next : ℕ) (front back : List ℕ)
    (old : ∀ key ∈ front, key < next) (holds : f.HoldsAt next (layOutAll next ms).2) :
    f.nest (front ++ (List.range' next (layOutAll next ms).2.length ++ back))
        (layOutAll next ms).1 = (ms, front ++ back) := by
  match ms with
  | [] => exact f.nest_nil (front ++ back)
  | m :: rest =>
    rw [layOutAll] at holds ⊢
    dsimp only at holds ⊢
    have behind : ∀ key ∈ front, key < next + (layOut next m).2.length :=
      fun key hkey => Nat.lt_add_right _ (old key hkey)
    have later := nest_layOutAll rest (next + (layOut next m).2.length) front back behind
      holds.right
    rw [List.length_append, ← List.range'_append_1, List.append_assoc,
      nest_layOut m next front _ _ old holds.left, later]

end

/-! ## Forests -/

/-- The places below the nation at a place are those before it and those behind it. -/
theorem below_eq {node : Nation} {nodes : List Nation} (h : f.HoldsAt next (node :: nodes)) :
    ∃ back, f.below next = List.range next ++ (List.range' (next + 1) nodes.length ++ back) := by
  obtain ⟨before, behind, row, rfl⟩ := h
  have length : f.nodes.length = before.length + (nodes.length + 1 + behind.length) := by
    rw [row, List.length_append, List.length_append, List.length_cons]
    omega
  have places : List.range f.nodes.length =
      List.range before.length ++ (List.range' before.length (nodes.length + 1) ++
        List.range' (before.length + (nodes.length + 1)) behind.length) := by
    rw [length, List.range_eq_range', List.range_eq_range', ← List.range'_append_1,
      ← List.range'_append_1, Nat.zero_add]
  have old : ∀ key ∈ List.range before.length, key < before.length :=
    fun key hkey => List.mem_range.1 hkey
  exact ⟨_, by rw [below, places, erase_front old]⟩

/-- The nested form of a nation that is laid out is this nation. -/
theorem nationData?_layOut {n : Snapshot.Nation}
    (holds : f.HoldsAt next
      (.ofHead n.head (layOutAll (next + 1) n.members).1 :: (layOutAll (next + 1) n.members).2)) :
    f.nationData? next = some n := by
  obtain ⟨back, below⟩ := below_eq holds
  have old : ∀ key ∈ List.range next, key < next + 1 :=
    fun key hkey => Nat.lt_succ_of_lt (List.mem_range.1 hkey)
  have inner := nest_layOutAll n.members (next + 1) (List.range next) back old holds.tail
  have nested : f.nationData? next = (f.get? next).map fun node =>
      ⟨node.head, (f.nest (f.below next) node.children).1⟩ := rfl
  rw [nested, holds.get?, Option.map_some, below, Nation.head_ofHead]
  dsimp only [Nation.ofHead]
  rw [inner]

/-- Nesting the roots that are laid out gives the nations. -/
theorem filterMap_layOutRoots (data : List Snapshot.Nation)
    (holds : f.HoldsAt next (layOutRoots next data).2) :
    (layOutRoots next data).1.filterMap f.nationData? = data := by
  induction data generalizing next with
  | nil => rfl
  | cons n rest ih =>
    rw [layOutRoots] at holds ⊢
    dsimp only at holds ⊢
    have first := nationData?_layOut holds.left
    have later := holds.right
    rw [List.length_cons, Nat.add_comm _ 1, ← Nat.add_assoc] at later
    rw [List.filterMap_cons_some first, ih later]

/-- A forest made from nested nations nests again into the same nations. -/
theorem toSnapshot_ofSnapshot (data : List Snapshot.Nation) : (ofSnapshot data).toSnapshot = data :=
  filterMap_layOutRoots data ⟨[], [], (List.append_nil _).symm, rfl⟩

end Forest

end BoardRules
