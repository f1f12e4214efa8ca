import Mathlib.Order.Defs.LinearOrder
import Mathlib.Data.Prod.Lex
import Mathlib.Tactic.Common

/-!
Contract: `struct s_id` and the order `s_id_gt` (`include/s_common.h`).

Owns: `SId`, `sIdGt` and the linear order it decides.

The two components are counters and server ids, never negative, so they are
natural numbers here.
-/

set_option autoImplicit false

namespace SimpleDfs.Common

/-- `struct s_id`. -/
structure SId where
  x : Nat
  y : Nat
  deriving DecidableEq, Repr

/-- `s_id_gt(a, b)`: the second component decides first. -/
def sIdGt (a b : SId) : Bool :=
  decide (a.y > b.y) || (a.y == b.y && decide (a.x > b.x))

namespace SId

/-- The pair that orders identifiers lexicographically. -/
def key (id : SId) : Nat ×ₗ Nat := toLex (id.y, id.x)

theorem key_injective : Function.Injective key := by
  intro left right equal
  have pairs : (left.y, left.x) = (right.y, right.x) := toLex.injective equal
  cases left
  cases right
  simp_all

instance : LinearOrder SId := LinearOrder.lift' key key_injective

theorem lt_iff (left right : SId) :
    left < right ↔ left.y < right.y ∨ left.y = right.y ∧ left.x < right.x :=
  Prod.Lex.lt_iff (x := toLex (left.y, left.x)) (y := toLex (right.y, right.x))

instance : WellFoundedLT SId :=
  ⟨InvImage.wf key wellFounded_lt⟩

end SId

theorem sIdGt_iff (a b : SId) : sIdGt a b = true ↔ b < a := by
  rw [SId.lt_iff, sIdGt]
  simp only [Bool.or_eq_true, Bool.and_eq_true, decide_eq_true_eq, beq_iff_eq]
  constructor
  · rintro (above | ⟨equal, above⟩)
    · exact Or.inl above
    · exact Or.inr ⟨equal.symm, above⟩
  · rintro (below | ⟨equal, below⟩)
    · exact Or.inl below
    · exact Or.inr ⟨equal.symm, below⟩

theorem sIdGt_eq_false (a b : SId) : sIdGt a b = false ↔ a ≤ b := by
  rw [← not_lt, ← sIdGt_iff, Bool.not_eq_true]

end SimpleDfs.Common
