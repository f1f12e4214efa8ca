import Mathlib.Algebra.GroupWithZero.Nat
import Mathlib.Algebra.Order.BigOperators.Group.List
import Mathlib.Algebra.Order.Group.Nat

/-!
Contract: what items count for in all, when one of them changes.

Owns: the exchange rule for the sum over a list without repetition.

Does not own: what the items stand for.
-/

set_option autoImplicit false

namespace SimpleDfs.Library

universe u

variable {Item : Type u} {items : List Item} {item : Item} {before later : Item → Nat}

/-- The sum changes as its one summand does. -/
theorem sum_map_exchange (distinct : items.Nodup) (member : item ∈ items) {less more : Nat}
    (changed : later item + less = before item + more)
    (others : ∀ other ∈ items, other ≠ item → later other = before other) :
    (items.map later).sum + less = (items.map before).sum + more := by
  induction items with
  | nil => exact absurd member List.not_mem_nil
  | cons head rest inductionHypothesis =>
      obtain ⟨notInRest, distinctRest⟩ := List.nodup_cons.mp distinct
      rw [List.map_cons, List.map_cons, List.sum_cons, List.sum_cons]
      rcases List.mem_cons.mp member with rfl | inRest
      · have same : rest.map later = rest.map before := by
          apply List.map_congr_left
          intro other listed
          apply others other (List.mem_cons_of_mem _ listed)
          rintro rfl
          exact notInRest listed
        rw [same]
        omega
      · have apart : head ≠ item := by
          rintro rfl
          exact notInRest inRest
        have onRest := inductionHypothesis distinctRest inRest fun other listed =>
          others other (List.mem_cons_of_mem _ listed)
        rw [others head List.mem_cons_self apart]
        omega

/-- No item counts for more than the bound. -/
theorem sum_map_le {bound : Nat} (small : ∀ item ∈ items, before item ≤ bound) :
    (items.map before).sum ≤ items.length * bound := by
  have most := List.sum_le_card_nsmul (items.map before) bound (by
    intro count listed
    obtain ⟨item, member, rfl⟩ := List.mem_map.mp listed
    exact small item member)
  rw [List.length_map] at most
  exact most

end SimpleDfs.Library
