import BoardRules.Nation.Data
import BoardRules.Nation.Forest

/-!
# Forests and snapshots

`Forest.ofSnapshot` lays the nested nations of a snapshot out in a row, every nation before the
nations below it. `Forest.toSnapshot` nests them again; where a nation is reached twice below one
root, only the first reach is written.
-/

namespace BoardRules

open Snapshot (NationHead NationMember)

namespace Nation

/-- The nation of a head, with members. -/
def ofHead (head : NationHead) (children : List Child) : Nation :=
  { id := head.id, name := head.name, color := head.color,
    monarch := if head.monarch = "" then none else some ⟨head.monarch⟩, children }

/-- The head of a nation. -/
def head (n : Nation) : NationHead :=
  { name := n.name, id := n.id, color := n.color,
    monarch := (n.monarch.map (·.text)).getD "" }

end Nation

namespace Forest

mutual

/-- Lay a member out from place `next` on: how its nation refers to it, and the nations it
brings. -/
def layOut (next : Nat) : NationMember → Child × List Nation
  | .piece id => (.piece id, [])
  | .group head members =>
    let (children, nodes) := layOutAll (next + 1) members
    (.group next, .ofHead head children :: nodes)

/-- Lay members out one after the other. -/
def layOutAll (next : Nat) : List NationMember → List Child × List Nation
  | [] => ([], [])
  | m :: rest =>
    let (child, nodes) := layOut next m
    let (children, more) := layOutAll (next + nodes.length) rest
    (child :: children, nodes ++ more)

end

/-- Lay root nations out one after the other: their places, and all nations. -/
def layOutRoots (next : Nat) : List Snapshot.Nation → List Nat × List Nation
  | [] => ([], [])
  | n :: rest =>
    let (children, nodes) := layOutAll (next + 1) n.members
    let (roots, more) := layOutRoots (next + 1 + nodes.length) rest
    (next :: roots, .ofHead n.head children :: nodes ++ more)

/-- The forest of nested nations. -/
def ofSnapshot (data : List Snapshot.Nation) : Forest :=
  let (roots, nodes) := layOutRoots 0 data
  { nodes, roots }

/-- Nest members, entering only the groups in `fresh`. Gives the members and the groups that have
still not been entered. -/
def gather (f : Forest) (fresh : List Nat) (children : List Child) :
    { r : List NationMember × List Nat // r.2.length ≤ fresh.length } :=
  match children with
  | [] => ⟨([], fresh), Nat.le_refl _⟩
  | .piece id :: rest =>
    let r := f.gather fresh rest
    ⟨(.piece id :: r.1.1, r.1.2), r.2⟩
  | .group key :: rest =>
    if h : key ∈ fresh then
      match f.get? key with
      | none =>
        let r := f.gather fresh rest
        ⟨r.1, r.2⟩
      | some node =>
        have erased := length_erase_lt h
        match f.gather (fresh.erase key) node.children with
        | ⟨(members, left), entered⟩ =>
          have fewer : left.length < fresh.length := Nat.lt_of_le_of_lt entered erased
          let r := f.gather left rest
          ⟨(.group node.head members :: r.1.1, r.1.2), Nat.le_trans r.2 (Nat.le_of_lt fewer)⟩
    else
      let r := f.gather fresh rest
      ⟨r.1, r.2⟩
termination_by (fresh.length, children.length)
decreasing_by
  · exact Prod.Lex.right _ (Nat.lt_succ_self _)
  · exact Prod.Lex.right _ (Nat.lt_succ_self _)
  · exact Prod.Lex.left _ _ erased
  · exact Prod.Lex.left _ _ fewer
  · exact Prod.Lex.right _ (Nat.lt_succ_self _)

/-- The nested form of the nation at a place. -/
def nationData? (f : Forest) (key : Nat) : Option Snapshot.Nation :=
  (f.get? key).map fun node => ⟨node.head, (f.gather (f.below key) node.children).1.1⟩

/-- The nested nations of a forest. -/
def toSnapshot (f : Forest) : List Snapshot.Nation := f.roots.filterMap f.nationData?

end Forest

end BoardRules
