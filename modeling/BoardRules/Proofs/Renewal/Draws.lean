import Mathlib
import BoardRules.Proofs.Renewal.Relabelling

/-!
# What renewal draws

Renewing a thing draws one text for each of its own identities, in their order, and changes nothing
else: if the old texts are put back, then the thing is back (`Renews`).  This holds for things with
one identity of their own (`Renews.ofLabel`), for lists of renewed things (`Renews.mapM`) and for
things that contain such lists (`Renews.ofParts`), and so for records, behaviours and pieces
(`Snapshot.Piece.renews`), and for the nations of a forest, which stay where they are
(`Forest.exists_ofSnapshot_renew`).
-/

namespace BoardRules

variable {σ : Type}

/-! ## Draws -/

/-- The texts of so many draws, one after the other, and the state that they leave. -/
def Supply.drawn (supply : Supply σ) : ℕ → σ → List String × σ
  | 0, s => ([], s)
  | n + 1, s =>
    let later := Supply.drawn supply n (supply s).2
    ((supply s).1 :: later.1, later.2)

namespace Supply

variable (supply : Supply σ)

theorem length_drawn (n : ℕ) (s : σ) : (supply.drawn n s).1.length = n := by
  induction n generalizing s with
  | zero => rfl
  | succ n ih => exact congrArg (· + 1) (ih (supply s).2)

/-- Draws after draws. -/
theorem drawn_add (m n : ℕ) (s : σ) :
    supply.drawn (m + n) s =
      let first := supply.drawn m s
      let later := supply.drawn n first.2
      (first.1 ++ later.1, later.2) := by
  induction m generalizing s with
  | zero => rw [Nat.zero_add]; rfl
  | succ m ih =>
    rw [Nat.succ_add, drawn, drawn]
    dsimp only
    rw [ih]
    rfl

end Supply

/-! ## Renewal -/

/-- A renewal of things with own identities draws a text for each identity in their order, and
does nothing else: putting the old texts back gives the thing back. -/
structure Renews {α : Type} (own : α → List String) (relabel : (String → String) → α → α)
    (supply : Supply σ) (renew : α → StateM σ α) : Prop where
  /-- The new texts are the next ones of the supply. -/
  drawn : ∀ x s, supply.drawn (own x).length s = (own (renew x s).1, (renew x s).2)
  /-- With the old texts the thing is the old one. -/
  restored : ∀ x s old, (own (renew x s).1).map old = own x → relabel old (renew x s).1 = x

namespace Renews

variable {α β : Type} {own : α → List String} {relabel : (String → String) → α → α}
  {supply : Supply σ} {renew : α → StateM σ α}

/-- There are as many new texts as old ones. -/
theorem length_own (renews : Renews own relabel supply renew) (x : α) (s : σ) :
    (own (renew x s).1).length = (own x).length := by
  have length := supply.length_drawn (own x).length s
  rw [renews.drawn x s] at length
  exact length

/-- Renewing a thing that has only one identity. -/
theorem ofLabel (label : α → String) (set : α → String → α)
    (value : ∀ x s, renew x s = (set x (supply s).1, (supply s).2))
    (label_set : ∀ x text, label (set x text) = text)
    (set_set : ∀ x text text', set (set x text) text' = set x text')
    (set_self : ∀ x, set x (label x) = x) :
    Renews (fun x => [label x]) (fun old x => set x (old (label x))) supply renew where
  drawn x s := by
    rw [value, label_set]
    rfl
  restored x s old back := by
    rw [value, label_set] at back ⊢
    have text : old (supply s).1 = label x := List.head_eq_of_cons_eq back
    rw [text, set_set, set_self]

/-- Renewing the first of several things, then the others. -/
theorem mapM_cons (renew : α → StateM σ α) (x : α) (xs : List α) (s : σ) :
    (x :: xs).mapM renew s =
      let first := renew x s
      let later := xs.mapM renew first.2
      (first.1 :: later.1, later.2) := by
  rw [List.mapM_cons]
  rfl

/-- Renewing several things one after the other. -/
theorem mapM (renews : Renews own relabel supply renew) :
    Renews (fun xs : List α => xs.flatMap own) (fun old xs => xs.map (relabel old)) supply
      (fun xs => xs.mapM renew) where
  drawn xs s := by
    induction xs generalizing s with
    | nil => rfl
    | cons x xs ih =>
      rw [List.flatMap_cons, List.length_append, supply.drawn_add, renews.drawn x s, mapM_cons]
      dsimp only
      rw [ih]
      rfl
  restored xs s old back := by
    induction xs generalizing s with
    | nil => rfl
    | cons x xs ih =>
      rw [mapM_cons] at back ⊢
      dsimp only at back ⊢
      rw [List.flatMap_cons, List.flatMap_cons, List.map_append] at back
      have length : ((own (renew x s).1).map old).length = (own x).length := by
        rw [List.length_map, renews.length_own]
      obtain ⟨first, later⟩ := List.append_inj back length
      rw [List.map_cons, renews.restored x s old first, ih (renew x s).2 later]

/-- Renewing a thing that has an identity and contains other things. -/
theorem ofParts (renews : Renews own relabel supply renew) (label : β → String)
    (parts : β → List α) (set : β → String → List α → β) {renewAll : β → StateM σ β}
    (value : ∀ x s, renewAll x s =
      let new := (parts x).mapM renew (supply s).2
      (set x (supply s).1 new.1, new.2))
    (label_set : ∀ x text new, label (set x text new) = text)
    (parts_set : ∀ x text new, parts (set x text new) = new)
    (set_set : ∀ x text new text' new', set (set x text new) text' new' = set x text' new')
    (set_self : ∀ x, set x (label x) (parts x) = x) :
    Renews (fun x => label x :: (parts x).flatMap own)
      (fun old x => set x (old (label x)) ((parts x).map (relabel old))) supply renewAll where
  drawn x s := by
    have later := renews.mapM.drawn (parts x) (supply s).2
    rw [value, List.length_cons, Supply.drawn]
    dsimp only at later ⊢
    rw [later, label_set, parts_set]
  restored x s old back := by
    rw [value] at back ⊢
    dsimp only at back ⊢
    rw [label_set, parts_set] at back ⊢
    obtain ⟨first, later⟩ := List.cons.inj back
    have same := renews.mapM.restored (parts x) (supply s).2 old later
    rw [same, first, set_set, set_self]

end Renews

/-- The labels under which some texts are put back. -/
def Relabelling.ofTexts (old : String → String) : Relabelling := ⟨Id.mapText old, old⟩

namespace Snapshot

variable (supply : Supply σ)

/-- Renewing a record draws one text, for its header. -/
theorem renews_record :
    Renews (fun r => [r.header.id.text]) (fun old r => relabelRecord r (.ofTexts old)) supply
      (renewRecord supply) :=
  .ofLabel (fun r : StepRecord => r.header.id.text)
    (fun r text => { r with header := { r.header with id := ⟨text⟩ } })
    (fun _ _ => rfl) (fun _ _ => rfl) (fun _ _ _ => rfl) fun _ => rfl

/-- Renewing a behaviour draws a text for itself, then one for each of its records. -/
theorem Behaviour.renews :
    Renews ownTexts (fun old b => b.relabel (.ofTexts old)) supply (renew supply) := by
  have own : ownTexts = fun b => b.id.text :: b.actions.flatMap fun r => [r.header.id.text] :=
    funext fun b => congrArg (b.id.text :: ·) List.map_eq_flatMap
  rw [own]
  exact (renews_record supply).ofParts (fun b : Behaviour => b.id.text) (·.actions)
    (fun b text actions => { b with id := ⟨text⟩, actions }) (fun _ _ => rfl) (fun _ _ _ => rfl)
    (fun _ _ _ => rfl) (fun _ _ _ _ _ => rfl) fun _ => rfl

/-- Renewing a piece draws a text for itself, then those of its behaviours. -/
theorem Piece.renews :
    Renews ownTexts (fun old p => p.relabel (.ofTexts old)) supply (renew supply) :=
  (Behaviour.renews supply).ofParts (fun p : Piece => p.id.text) (·.behaviours)
    (fun p text behaviours => { p with id := ⟨text⟩, behaviours }) (fun _ _ => rfl)
    (fun _ _ _ => rfl) (fun _ _ _ => rfl) (fun _ _ _ _ _ => rfl) fun _ => rfl

end Snapshot

/-! ## Nations -/

/-- What renewing one thing keeps, renewing several keeps for each of them. -/
theorem forall₂_mapM {α : Type} {keeps : α → α → Prop} {renew : α → StateM σ α}
    (kept : ∀ x s, keeps (renew x s).1 x) (xs : List α) (s : σ) :
    List.Forall₂ keeps (xs.mapM renew s).1 xs := by
  induction xs generalizing s with
  | nil => exact .nil
  | cons x xs ih =>
    rw [Renews.mapM_cons]
    exact .cons (kept x s) (ih (renew x s).2)

namespace Forest

/-- A forest whose nations have identities with other texts. -/
def withTexts (f : Forest) (old : String → String) : Forest :=
  { f with nodes := f.nodes.map fun n => { n with id := n.id.mapText old } }

/-- The identity of a nation is the only one of its own. -/
theorem renews_node (supply : Supply σ) :
    Renews (fun n : Nation => [n.id.text]) (fun old n => { n with id := n.id.mapText old }) supply
      (fun n => do
        let id ← Id.draw supply
        return { n with id }) :=
  .ofLabel (fun n : Nation => n.id.text) (fun n text => { n with id := ⟨text⟩ })
    (fun _ _ => rfl) (fun _ _ => rfl) (fun _ _ _ => rfl) fun _ => rfl

/-- Renewing a forest changes nothing of a nation but its identity. -/
theorem sameButIds_renew (supply : Supply σ) (f : Forest) (s : σ) :
    List.Forall₂ Nation.SameButId (f.renew supply s).1.nodes f.nodes :=
  forall₂_mapM (fun _ _ => rfl) f.nodes s

/-- Renewing the forest of some nations gives the forest of some nations, whose identities are the
next texts of the supply; with the old texts, they make up the old forest. -/
theorem exists_ofSnapshot_renew (supply : Supply σ) (data : List Snapshot.Nation) (s : σ) :
    ∃ data' : List Snapshot.Nation,
      ((ofSnapshot data).renew supply s).1 = ofSnapshot data' ∧
      supply.drawn (data.flatMap (·.ownTexts)).length s =
        (data'.flatMap (·.ownTexts), ((ofSnapshot data).renew supply s).2) ∧
      ∀ old, (data'.flatMap (·.ownTexts)).map old = data.flatMap (·.ownTexts) →
        (ofSnapshot data').withTexts old = ofSnapshot data := by
  have renews := (renews_node supply).mapM
  obtain ⟨data', laid⟩ :=
    exists_ofSnapshot_of_sameButIds data (sameButIds_renew supply (ofSnapshot data) s)
  have renewed : ((ofSnapshot data).renew supply s).1 = ofSnapshot data' := laid.symm
  have ids (data : List Snapshot.Nation) :
      (ofSnapshot data).nodes.flatMap (fun n => [n.id.text]) = data.flatMap (·.ownTexts) := by
    rw [← map_id_nodes_ofSnapshot, List.map_eq_flatMap]
  refine ⟨data', renewed, ?_, fun old back => ?_⟩
  · have drawn := renews.drawn (ofSnapshot data).nodes s
    rw [ids] at drawn
    rw [drawn, ← ids data', ← renewed]
    rfl
  · rw [← ids, ← ids data, ← renewed] at back
    have restored := renews.restored (ofSnapshot data).nodes s old back
    rw [← renewed]
    exact congrArg₂ Forest.mk restored rfl

/-- Renewing the forest of some nations under other names for its pieces gives the forest of some
nations, whose identities are the next texts of the supply.  With the old texts and names, they are
the nations. -/
theorem exists_ofSnapshot_rename_renew (supply : Supply σ) (names : Equiv.Perm PieceId)
    (data : List Snapshot.Nation) (s : σ) :
    ∃ data' : List Snapshot.Nation,
      (((ofSnapshot data).rename fun id => some (names id)).renew supply s).1 = ofSnapshot data' ∧
      supply.drawn (data.flatMap (·.ownTexts)).length s =
        (data'.flatMap (·.ownTexts),
          (((ofSnapshot data).rename fun id => some (names id)).renew supply s).2) ∧
      ∀ old, (data'.flatMap (·.ownTexts)).map old = data.flatMap (·.ownTexts) →
        data'.map (·.relabel ⟨names.symm, old⟩) = data := by
  have named : ((ofSnapshot data).rename fun id => some (names id)) =
      ofSnapshot (data.map (·.relabel ⟨names, id⟩)) := (ofSnapshot_relabel ⟨names, id⟩ data).symm
  have ids : (data.map (·.relabel ⟨names, id⟩)).flatMap (·.ownTexts) =
      data.flatMap (·.ownTexts) := by
    rw [← map_id_nodes_ofSnapshot, ofSnapshot_relabel, ← map_id_nodes_ofSnapshot]
    exact List.map_map
  obtain ⟨data', renewed, drawn, restored⟩ :=
    exists_ofSnapshot_renew supply (data.map (·.relabel ⟨names, id⟩)) s
  rw [ids] at drawn restored
  rw [named]
  refine ⟨data', renewed, drawn, fun old back => ?_⟩
  -- first the texts are put back, then the names
  have forests : ofSnapshot (data'.map (·.relabel ⟨names.symm, old⟩)) = ofSnapshot data := by
    calc ofSnapshot (data'.map (·.relabel ⟨names.symm, old⟩))
        = ((ofSnapshot data').withTexts old).relabel ⟨names.symm, id⟩ := by
          rw [ofSnapshot_relabel, relabel, relabel, withTexts, List.map_map]
          rfl
      _ = ((ofSnapshot data).relabel ⟨names, id⟩).relabel ⟨names.symm, id⟩ := by
          rw [restored old back, ofSnapshot_relabel]
      _ = ofSnapshot data :=
          relabel_relabel names.symm_apply_apply (fun _ => rfl) (ofSnapshot data)
  have nested := congrArg toSnapshot forests
  rw [toSnapshot_ofSnapshot, toSnapshot_ofSnapshot] at nested
  exact nested

end Forest

end BoardRules
