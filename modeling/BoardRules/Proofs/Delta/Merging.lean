import Mathlib
import BoardRules.Proofs.Delta.Slots

/-!
# Merging as a fold

A list of deltas becomes a set by merging them one after the other.  The set says what the list
comes to, kind by kind: the kinds stand in the order in which they first occur
(`DeltaSet.map_kind_ofList`), all attacked pieces are kept (`DeltaSet.get?_attack_ofList`), and of
every other kind the last delta counts (`DeltaSet.get?_ofList`).

Nothing is lost by making a set of newer deltas before they are merged into an older one
(`DeltaSet.mergeAll_deltas_ofList`), although a set has its deltas in another order than the list.
Two deltas of one kind may be merged into one beforehand (`DeltaSet.merge_merge`).  Two deltas of
different kinds may not change places, since each may be the first of its kind; they may if one of
them has its slot already (`DeltaSet.merge_comm`), and this is the case where a set keeps its
order.
-/

namespace BoardRules

/-- An item at the end is kept if it has not occurred before. -/
theorem eraseDups_concat {α : Type} [BEq α] [LawfulBEq α] (as : List α) (a : α) :
    (as ++ [a]).eraseDups = as.eraseDups ++ if a ∈ as then [] else [a] := by
  rw [List.eraseDups_append]
  by_cases known : a ∈ as <;> simp [List.removeAll, List.eraseDups_cons, known]

/-- Deltas of one kind may be absorbed from either end. -/
theorem Delta.absorb_absorb (c : Delta) {d e : Delta} (same : e.kind = d.kind) :
    (c.absorb e).absorb d = c.absorb (e.absorb d) := by
  cases d with
  | attack pieces =>
    cases e with
    | attack others =>
      cases c with
      | attack taken => simp only [absorb, List.append_assoc]
      | _ => rfl
    | _ => exact nomatch same
  | _ => simp [absorb]

namespace DeltaSet

variable {d e : Delta}

/-! ## What a list comes to -/

/-- The last delta of a list is merged last. -/
theorem ofList_concat (ds : List Delta) (d : Delta) :
    ofList (ds ++ [d]) = (ofList ds).merge d := List.foldl_concat ..

/-- A set has the kinds of its list in the order of their first occurrences. -/
theorem map_kind_ofList (ds : List Delta) :
    (ofList ds).deltas.map Delta.kind = (ds.map Delta.kind).eraseDups := by
  induction ds using List.reverseRecOn with
  | nil => rfl
  | append_singleton ds d ih =>
    have known : d.kind ∈ (ds.map Delta.kind).eraseDups ↔ d.kind ∈ ds.map Delta.kind :=
      List.mem_eraseDups
    rw [ofList_concat, merge, map_kind_mergeInto, ih, List.map_append, List.map_singleton,
      eraseDups_concat]
    simp only [known]
    split
    · rw [List.append_nil]
    · rfl

/-- Of a kind other than attacks, the last delta counts. -/
theorem get?_ofList {kind : DeltaKind} (other : kind ≠ .attack) (ds : List Delta) :
    (ofList ds).get? kind = (ds.filter (·.kind = kind)).getLast? := by
  induction ds using List.reverseRecOn with
  | nil => rfl
  | append_singleton ds d ih =>
    rw [ofList_concat, List.filter_append]
    by_cases own : kind = d.kind
    · subst own
      have replaced (e : Delta) : e.absorb d = d := by
        cases d with
        | attack pieces => exact absurd rfl other
        | _ => cases e <;> rfl
      have newest : ((ofList ds).get? d.kind).map (·.absorb d) =
          ((ofList ds).get? d.kind).map fun _ => d := by simp only [replaced]
      rw [get?_merge_self, newest]
      cases (ofList ds).get? d.kind <;> simp
    · rw [get?_merge_of_ne _ own, ih]
      simp [Ne.symm own]

/-- All attacked pieces are kept, in the order in which they are attacked. -/
theorem get?_attack_ofList (ds : List Delta) :
    (ofList ds).get? .attack =
      if .attack ∈ ds.map Delta.kind then some (.attack (ds.flatMap Delta.victims)) else none := by
  induction ds using List.reverseRecOn with
  | nil => rfl
  | append_singleton ds d ih =>
    rw [ofList_concat, List.map_append, List.flatMap_append]
    cases d with
    | attack pieces =>
      have slot := (ofList ds).get?_merge_self (.attack pieces)
      rw [Delta.kind] at slot
      rw [slot, ih]
      by_cases before : .attack ∈ ds.map Delta.kind
      · simp [before, Delta.absorb, Delta.kind, Delta.victims]
      · have none : ds.flatMap Delta.victims = [] := by
          refine List.flatMap_eq_nil_iff.2 fun e he => ?_
          cases e with
          | attack others => exact absurd (List.mem_map_of_mem he) before
          | _ => rfl
        simp [before, none, Delta.kind, Delta.victims]
    | _ =>
      rw [get?_merge_of_ne _ (by simp [Delta.kind]), ih]
      simp [Delta.kind, Delta.victims]

/-! ## Merging in another order -/

/-- Merging a delta and then a newer one of its kind merges both at once. -/
theorem mergeInto_mergeInto (same : e.kind = d.kind) (ds : List Delta) :
    mergeInto d (mergeInto e ds) = mergeInto (e.absorb d) ds := by
  induction ds with
  | nil => simp [mergeInto, same]
  | cons c rest ih =>
    by_cases own : c.kind = d.kind
    · simp [mergeInto, own, same, Delta.absorb_absorb c same]
    · simp [mergeInto, own, same, ih]

/-- Deltas of different kinds may be merged in either order once one of the kinds has its slot. -/
theorem mergeInto_comm (differ : d.kind ≠ e.kind) {ds : List Delta}
    (known : d.kind ∈ ds.map Delta.kind) :
    mergeInto e (mergeInto d ds) = mergeInto d (mergeInto e ds) := by
  induction ds with
  | nil => exact absurd known List.not_mem_nil
  | cons c rest ih =>
    by_cases first : c.kind = d.kind
    · simp [mergeInto, first, differ]
    · by_cases second : c.kind = e.kind
      · simp [mergeInto, second, Ne.symm differ]
      · have later : d.kind ∈ rest.map Delta.kind :=
          (List.mem_cons.1 known).resolve_left (Ne.symm first)
        simp [mergeInto, first, second, ih later]

/-- Two deltas of one kind merge like the one that they make together. -/
theorem merge_merge (s : DeltaSet) (same : e.kind = d.kind) :
    (s.merge e).merge d = s.merge (e.absorb d) :=
  congrArg DeltaSet.mk (mergeInto_mergeInto same s.deltas)

/-- Deltas of two kinds may be merged in either order once the first kind has its slot. -/
theorem merge_comm {s : DeltaSet} (differ : d.kind ≠ e.kind)
    (known : d.kind ∈ s.deltas.map Delta.kind) : (s.merge d).merge e = (s.merge e).merge d :=
  congrArg DeltaSet.mk (mergeInto_comm differ known)

/-- A kind that has a slot keeps it, and the merged kind has one. -/
theorem mem_map_kind_merge {s : DeltaSet} {kind : DeltaKind} :
    kind ∈ (s.merge d).deltas.map Delta.kind ↔
      kind ∈ s.deltas.map Delta.kind ∨ kind = d.kind := by
  rw [merge, map_kind_mergeInto]
  split
  · rename_i known
    exact ⟨.inl, fun h => h.elim id fun same => same ▸ known⟩
  · rw [List.mem_append, List.mem_singleton]

/-- A delta whose kind has its slot may be merged before others of other kinds. -/
theorem mergeAll_merge {s : DeltaSet} (known : d.kind ∈ s.deltas.map Delta.kind) {ds : List Delta}
    (others : d.kind ∉ ds.map Delta.kind) : (s.merge d).mergeAll ds = (s.mergeAll ds).merge d := by
  induction ds generalizing s with
  | nil => rfl
  | cons e rest ih =>
    have differ : d.kind ≠ e.kind := fun h => others (h ▸ List.mem_cons_self)
    have later : d.kind ∉ rest.map Delta.kind := fun h => others (List.mem_cons_of_mem _ h)
    calc (s.merge d).mergeAll (e :: rest)
        = ((s.merge e).merge d).mergeAll rest :=
          congrArg (mergeAll · rest) (merge_comm differ known)
      _ = ((s.merge e).mergeAll rest).merge d := ih (mem_map_kind_merge.2 (.inl known)) later

/-- Merging the deltas of a set that was merged with a newer delta merges this one last. -/
theorem mergeAll_mergeInto (s : DeltaSet) {ds : List Delta} (slotted : Slotted ⟨ds⟩) (d : Delta) :
    s.mergeAll (mergeInto d ds) = (s.mergeAll ds).merge d := by
  induction ds generalizing s with
  | nil => rfl
  | cons e rest ih =>
    unfold mergeInto
    split
    · rename_i same
      have others : d.kind ∉ rest.map Delta.kind := same ▸ (List.nodup_cons.1 slotted).1
      have known : d.kind ∈ (s.merge e).deltas.map Delta.kind :=
        mem_map_kind_merge.2 (.inr same.symm)
      calc s.mergeAll (e.absorb d :: rest)
          = ((s.merge e).merge d).mergeAll rest :=
            congrArg (mergeAll · rest) (s.merge_merge same).symm
        _ = ((s.merge e).mergeAll rest).merge d := mergeAll_merge known others
    · exact ih (s.merge e) slotted.tail

/-- Merging the set of some deltas is merging the deltas. -/
theorem mergeAll_deltas_ofList (s : DeltaSet) (ds : List Delta) :
    s.mergeAll (ofList ds).deltas = s.mergeAll ds := by
  induction ds using List.reverseRecOn with
  | nil => rfl
  | append_singleton ds d ih =>
    have later : s.mergeAll (ds ++ [d]) = (s.mergeAll ds).merge d := List.foldl_concat ..
    rw [ofList_concat, later, ← ih]
    exact s.mergeAll_mergeInto (slotted_ofList ds) d

/-- Merging more deltas into those of a list is merging the longer list. -/
theorem mergeAll_ofList (ds es : List Delta) : (ofList ds).mergeAll es = ofList (ds ++ es) :=
  (List.foldl_append ..).symm

/-- Merging is a fold over what a list comes to.  The set of a list has one delta of each kind that
occurs in it, in the order of first occurrence; attacked pieces are all kept, in order, and of
every other kind the last delta counts.  Merging newer deltas into a set gives the set of all
deltas, whether the newer ones are merged as they are or made into a set before; so merging sets
is associative. -/
theorem merging_spec :
    (∀ ds, (ofList ds).Slotted ∧
        (ofList ds).deltas.map Delta.kind = (ds.map Delta.kind).eraseDups ∧
        ∀ kind, (ofList ds).get? kind =
          if kind = .attack then
            if .attack ∈ ds.map Delta.kind then some (.attack (ds.flatMap Delta.victims)) else none
          else (ds.filter (·.kind = kind)).getLast?) ∧
      (∀ ds es, (ofList ds).mergeAll es = ofList (ds ++ es)) ∧
      (∀ (s : DeltaSet) (es : List Delta), s.mergeAll es = s.mergeAll (ofList es).deltas) ∧
      ∀ ds es fs, ((ofList ds).mergeAll (ofList es).deltas).mergeAll (ofList fs).deltas =
        (ofList ds).mergeAll ((ofList es).mergeAll (ofList fs).deltas).deltas := by
  refine ⟨fun ds => ⟨slotted_ofList ds, map_kind_ofList ds, fun kind => ?_⟩, mergeAll_ofList,
    fun s es => (s.mergeAll_deltas_ofList es).symm, fun ds es fs => ?_⟩
  · split
    · rename_i attack
      rw [attack, get?_attack_ofList]
    · rename_i other
      exact get?_ofList other ds
  · simp only [mergeAll_deltas_ofList, mergeAll_ofList, List.append_assoc]

end DeltaSet

end BoardRules
