import Mathlib
import BoardRules.Random.Generator

/-!
# What generators draw

A number drawn below a bound has its value in the high half of a product, which lies below the bound
whatever the stream holds (`Generator.drawBelow_lt`).  So something is chosen from every list that
has an item (`Generator.exists_choose_eq_some`), and it is an item of the list.
-/

namespace BoardRules

namespace Generator

/-- A number drawn below a positive bound lies below it, however often it is drawn again. -/
theorem drawBelow_lt {bits : ℕ} {draw : Generator → ℕ × Generator}
    (bounded : ∀ g, (draw g).1 < Nat.pow 2 bits) {n : ℕ} (positive : 0 < n) (tries : ℕ)
    (g : Generator) : (drawBelow bits draw n tries g).1 < n := by
  induction tries generalizing g with
  | zero => exact positive
  | succ tries ih =>
    have product : (draw g).1 * n < Nat.pow 2 bits * n :=
      Nat.mul_lt_mul_of_pos_right (bounded g) positive
    have high : (draw g).1 * n / Nat.pow 2 bits < n := Nat.div_lt_of_lt_mul product
    unfold drawBelow
    dsimp only
    split
    · exact high
    · exact ih _

/-- From a list with an item some item is chosen. -/
theorem exists_choose_eq_some {α : Type} (g : Generator) {items : List α}
    (nonempty : items ≠ []) :
    ∃ item ∈ items, ∃ rest, g.choose items = (some item, rest) := by
  have below : ∀ h, (drawBelow 32 (fun g => (g.next32.1.toNat, g.next32.2)) items.length
      maxTries h).1 < items.length :=
    drawBelow_lt (fun h => h.next32.1.toNat_lt) (List.length_pos_iff.2 nonempty) maxTries
  unfold choose
  rw [if_neg (by rwa [List.isEmpty_iff])]
  dsimp only
  rw [List.getElem?_eq_getElem (below g)]
  exact ⟨_, List.getElem_mem (below g), _, rfl⟩

end Generator

end BoardRules
