/-!
# Catalogues

Things registered under names, in the order of registration. A name is registered once: adding it
again is refused.
-/

namespace BoardRules

/-- Named entries in order of registration; no name occurs twice. -/
structure Catalogue (α : Type) where
  entries : List (String × α)
  nodup : (entries.map Prod.fst).Nodup

namespace Catalogue

variable {α : Type}

/-- The catalogue with nothing in it. -/
def empty : Catalogue α := ⟨[], List.nodup_nil⟩

/-- The registered names, in order. -/
def names (c : Catalogue α) : List String := c.entries.map Prod.fst

/-- The entry of a name. -/
def get? (c : Catalogue α) (name : String) : Option α := c.entries.lookup name

/-- Whether a name is registered. -/
def contains (c : Catalogue α) (name : String) : Bool := c.names.contains name

/-- The number of entries. -/
def size (c : Catalogue α) : Nat := c.entries.length

/-- Register an entry at the end; none if the name is taken. -/
def add? (c : Catalogue α) (name : String) (entry : α) : Option (Catalogue α) :=
  if h : name ∈ c.entries.map Prod.fst then none
  else some ⟨c.entries ++ [(name, entry)], by
    rw [List.map_append, List.nodup_append]
    refine ⟨c.nodup, by simp, ?_⟩
    intro a ha b hb hab
    simp only [List.map_cons, List.map_nil, List.mem_singleton] at hb
    exact h (hb ▸ hab ▸ ha)⟩

theorem contains_iff (c : Catalogue α) (name : String) :
    c.contains name = true ↔ name ∈ c.names :=
  List.contains_iff_mem

/-- The wording of a refused registration, for a thing called `what`. -/
def takenMessage (what name : String) : String := what ++ " `" ++ name ++ "` already registered"

end Catalogue

end BoardRules
