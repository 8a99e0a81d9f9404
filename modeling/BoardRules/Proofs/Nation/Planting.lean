import Mathlib
import BoardRules.Proofs.Nation.Ownership

/-!
# Planting nations one by one

`Forest.ofSnapshot` lays nested nations out in one go.  A forest also grows piece by piece: each
nation is put at the end of the row and then entered as a member of its parent, which already stands
somewhere in the middle of the row, and what is nested in it follows before the next member of the
parent.  Growing keeps a simple account (`Forest.Grown`): apart from the parent, which gets new
members at the end of its list, the row stays as it is, and the nations that are added take up the
places behind it.  This is what laying out gives (`grown_graftAll`), so planting the nations one
after the other builds the same forest (`ofSnapshot_eq_planted`).  It is a faithful image of the
nations: it nests into them again, and a piece is claimed by whoever claims the first of them that
has it (`ofSnapshot_faithful`).
-/

namespace BoardRules

open Snapshot (NationHead NationMember)

/-! ## Rows -/

section Rows

variable {α : Type} (change : α → α)

/-- A change in front leaves the back alone. -/
theorem modify_append_of_lt {front : List α} {i : ℕ} (inside : i < front.length)
    (back : List α) : (front ++ back).modify i change = front.modify i change ++ back := by
  rw [List.modify_eq_take_drop, List.modify_eq_take_drop, List.take_append_of_le_length inside.le,
    List.drop_append_of_le_length inside.le, List.append_assoc,
    List.drop_eq_getElem_cons inside, List.cons_append, List.modifyHead_cons,
    List.modifyHead_cons, List.cons_append]

/-- A change at the place behind the front is one of the element that stands there. -/
theorem modify_append_cons (front : List α) (a : α) (back : List α) :
    (front ++ a :: back).modify front.length change = front ++ change a :: back := by
  rw [List.modify_eq_take_drop, List.take_left, List.drop_left, List.modifyHead_cons]

end Rows

/-- Add members at the end. -/
def Nation.addChildren (n : Nation) (cs : List Child) : Nation :=
  { n with children := n.children ++ cs }

@[simp] theorem Nation.addChildren_nil (n : Nation) : n.addChildren [] = n := by
  simp [addChildren]

/-- Members added in two goes are the same as all of them added at once. -/
@[simp] theorem Nation.addChildren_addChildren (n : Nation) (cs ds : List Child) :
    (n.addChildren cs).addChildren ds = n.addChildren (cs ++ ds) := by
  simp [addChildren]

namespace Forest

/-! ## Growing -/

mutual

/-- Add a member below the nation at a place, and below it what is nested in it. -/
def graft (f : Forest) (parent : ℕ) : NationMember → Forest
  | .piece id => f.enlist parent id
  | .group head members =>
    let (f, key) := f.newGroup parent (.ofHead head [])
    graftAll f key members

/-- Add members below the nation at a place, one after the other. -/
def graftAll (f : Forest) (parent : ℕ) : List NationMember → Forest
  | [] => f
  | m :: rest => graftAll (graft f parent m) parent rest

end

/-- Add a root, and below it what is nested in it. -/
def plant (f : Forest) (n : Snapshot.Nation) : Forest :=
  let (f, key) := f.newRoot (.ofHead n.head [])
  f.graftAll key n.members

/-- The forest in which nations are planted one after the other. -/
def planted (data : List Snapshot.Nation) : Forest := data.foldl plant {}

variable {f g h : Forest} {parent : ℕ}

/-- A forest after a nation in it got members, and some nations were put at the end of the row. -/
structure Grown (f : Forest) (parent : ℕ) (members : List Child) (nodes : List Nation)
    (g : Forest) : Prop where
  /-- The nation has the members behind its earlier ones; the other nations are as they were, and
  the new ones follow. -/
  nodes : g.nodes = f.nodes.modify parent (·.addChildren members) ++ nodes
  /-- The roots are as they were. -/
  roots : g.roots = f.roots

namespace Grown

variable {cs ds : List Child} {ms ns : List Nation}

theorem refl (f : Forest) (parent : ℕ) : Grown f parent [] [] f where
  nodes := by
    have same : (fun n : Nation => n.addChildren []) = id := funext fun n => n.addChildren_nil
    rw [same, List.modify_id, List.append_nil]
  roots := rfl

/-- A forest has grown by as many nations as were planted. -/
theorem length (grown : Grown f parent cs ms g) : g.nodes.length = f.nodes.length + ms.length := by
  rw [grown.nodes, List.length_append, List.length_modify]

/-- Members and nations that are added later stand behind the earlier ones. -/
theorem trans (inside : parent < f.nodes.length) (first : Grown f parent cs ms g)
    (second : Grown g parent ds ns h) : Grown f parent (cs ++ ds) (ms ++ ns) h where
  nodes := by
    have still : parent < (f.nodes.modify parent (·.addChildren cs)).length := by
      rwa [List.length_modify]
    rw [second.nodes, first.nodes, modify_append_of_lt _ still, List.modify_modify_eq,
      List.append_assoc]
    congr 2
    exact funext fun n => n.addChildren_addChildren cs ds
  roots := second.roots.trans first.roots

/-- Enlisting a piece adds it to its nation and plants nothing. -/
theorem enlist (f : Forest) (parent : ℕ) (piece : PieceId) :
    Grown f parent [.piece piece] [] (f.enlist parent piece) where
  nodes := (List.append_nil _).symm
  roots := rfl

/-- A nation that is new at the end of the row, with what is added below it. -/
theorem newGroup (inside : parent < f.nodes.length) (n : Nation)
    (grown : Grown (f.newGroup parent n).1 (f.newGroup parent n).2 cs ms g) :
    Grown f parent [.group f.nodes.length] (n.addChildren cs :: ms) g where
  nodes := by
    have own : (f.newGroup parent n).1.nodes =
        f.nodes.modify parent (·.addChild (.group f.nodes.length)) ++ [n] :=
      modify_append_of_lt _ inside [n]
    have place : (f.newGroup parent n).2 =
        (f.nodes.modify parent (·.addChild (.group f.nodes.length))).length :=
      (List.length_modify ..).symm
    rw [grown.nodes, own, place, modify_append_cons, List.append_assoc]
    rfl
  roots := grown.roots

end Grown

mutual

/-- Growing by a member adds what its layout behind the row consists of. -/
theorem grown_graft (m : NationMember) (f : Forest) {parent : ℕ}
    (inside : parent < f.nodes.length) :
    Grown f parent [(layOut f.nodes.length m).1] (layOut f.nodes.length m).2
      (f.graft parent m) := by
  match m with
  | .piece id => exact .enlist f parent id
  | .group head members =>
    have length : (f.newGroup parent (.ofHead head [])).1.nodes.length = f.nodes.length + 1 := by
      simp [newGroup, append, modify]
    have below : (f.newGroup parent (.ofHead head [])).2 <
        (f.newGroup parent (.ofHead head [])).1.nodes.length := by
      rw [length]
      exact Nat.lt_succ_self _
    have inner := grown_graftAll members (f.newGroup parent (.ofHead head [])).1 below
    rw [length] at inner
    exact .newGroup inside (.ofHead head []) inner

/-- Growing by members adds what their layout behind the row consists of. -/
theorem grown_graftAll (ms : List NationMember) (f : Forest) {parent : ℕ}
    (inside : parent < f.nodes.length) :
    Grown f parent (layOutAll f.nodes.length ms).1 (layOutAll f.nodes.length ms).2
      (f.graftAll parent ms) := by
  match ms with
  | [] => exact .refl f parent
  | m :: rest =>
    have first := grown_graft m f inside
    have still : parent < (f.graft parent m).nodes.length := by
      rw [first.length]
      exact Nat.lt_add_right _ inside
    have later := grown_graftAll rest (f.graft parent m) still
    rw [first.length] at later
    exact first.trans inside later

end

/-- Planting nations adds their layout behind the row. -/
theorem foldl_plant (data : List Snapshot.Nation) (f : Forest) :
    data.foldl plant f =
      { nodes := f.nodes ++ (layOutRoots f.nodes.length data).2
        roots := f.roots ++ (layOutRoots f.nodes.length data).1 } := by
  induction data generalizing f with
  | nil => simp [layOutRoots]
  | cons n rest ih =>
    have length : (f.newRoot (.ofHead n.head [])).1.nodes.length = f.nodes.length + 1 := by
      simp [newRoot, append]
    have below : (f.newRoot (.ofHead n.head [])).2 <
        (f.newRoot (.ofHead n.head [])).1.nodes.length := by
      rw [length]
      exact Nat.lt_succ_self _
    have grown := grown_graftAll n.members (f.newRoot (.ofHead n.head [])).1 below
    rw [length] at grown
    have nodes : (f.plant n).nodes = f.nodes ++
        .ofHead n.head (layOutAll (f.nodes.length + 1) n.members).1 ::
          (layOutAll (f.nodes.length + 1) n.members).2 := by
      refine grown.nodes.trans ?_
      have own := modify_append_cons
        (·.addChildren (layOutAll (f.nodes.length + 1) n.members).1) f.nodes (.ofHead n.head []) []
      refine (congrArg (· ++ _) own).trans ?_
      rw [List.append_assoc]
      rfl
    have roots : (f.plant n).roots = f.roots ++ [f.nodes.length] := grown.roots
    rw [List.foldl_cons, ih, nodes, roots, layOutRoots]
    simp [Nat.add_assoc, Nat.add_comm 1]

/-- Laying nations out gives the forest in which they are planted. -/
theorem ofSnapshot_eq_planted (data : List Snapshot.Nation) : ofSnapshot data = planted data := by
  rw [planted, foldl_plant]
  simp [ofSnapshot]

/-! ## The image of nations -/

/-- The forest of nested nations is a faithful image of them.  It is the forest in which the nations
are planted one after the other, each before what is nested in it; it nests into the same nations
again, with their members in the same order; and a piece is claimed by whoever claims the first of
the nations that has the piece at any depth, and by nobody if that one is unclaimed or if none has
it. -/
theorem ofSnapshot_faithful (data : List Snapshot.Nation) :
    ofSnapshot data = planted data ∧ (planted data).toSnapshot = data ∧
      ∀ piece player, (planted data).claimant? piece = some player ↔
        ∃ before n behind, data = before ++ n :: behind ∧ piece ∈ n.leaves ∧
          (∀ other ∈ before, piece ∉ other.leaves) ∧
          n.head.monarch ≠ "" ∧ player = ⟨n.head.monarch⟩ := by
  rw [← ofSnapshot_eq_planted]
  refine ⟨rfl, toSnapshot_ofSnapshot data, fun piece player => ?_⟩
  have claim (n : Snapshot.Nation) : n.head.claimant? = some player ↔
      n.head.monarch ≠ "" ∧ player = ⟨n.head.monarch⟩ := by
    unfold NationHead.claimant?
    rw [eq_comm (a := player)]
    split <;> simp [*]
  rw [claimant?_eq (namesMonarch_ofSnapshot data), toSnapshot_ofSnapshot, Option.bind_eq_some_iff]
  simp only [List.find?_eq_some_iff_append, claim]
  constructor
  · rintro ⟨n, ⟨has, before, behind, split, none⟩, claimed⟩
    refine ⟨before, n, behind, split, by simpa using has, fun other hother => ?_, claimed⟩
    simpa using none other hother
  · rintro ⟨before, n, behind, split, has, none, claimed⟩
    refine ⟨n, ⟨by simpa using has, before, behind, split, fun other hother => ?_⟩, claimed⟩
    simpa using none other hother

end Forest

end BoardRules
