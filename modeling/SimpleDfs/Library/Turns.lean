import Mathlib.Logic.Function.Iterate
import Mathlib.Tactic.Common

/-!
Contract: machines that take one turn after another.

Owns: the states a machine leads to, that it has one end at most, and that it
ends where a measure falls with every turn.

Does not own: any program.

A machine has ended in a state that its turn leaves as it is.
-/

set_option autoImplicit false

namespace SimpleDfs.Library

universe u

variable {State : Type u} {turn : State → State}

/-- Some turns lead from one state to the other. -/
def Leads (turn : State → State) (before after : State) : Prop :=
  ∃ count, turn^[count] before = after

theorem Leads.refl (state : State) : Leads turn state state :=
  ⟨0, rfl⟩

theorem Leads.trans {before between after : State} (first : Leads turn before between)
    (second : Leads turn between after) : Leads turn before after := by
  obtain ⟨count, rfl⟩ := first
  obtain ⟨more, rfl⟩ := second
  exact ⟨more + count, Function.iterate_add_apply turn more count before⟩

/-- One turn, and then some. -/
theorem Leads.head {before between after : State} (first : turn before = between)
    (rest : Leads turn between after) : Leads turn before after :=
  Leads.trans ⟨1, first⟩ rest

/-- A machine has one end at most. -/
theorem Leads.end_unique {start left right : State} (toLeft : Leads turn start left)
    (toRight : Leads turn start right) (leftEnds : turn left = left)
    (rightEnds : turn right = right) : left = right := by
  obtain ⟨count, rfl⟩ := toLeft
  obtain ⟨other, rfl⟩ := toRight
  calc turn^[count] start
      = turn^[other] (turn^[count] start) := (Function.iterate_fixed leftEnds other).symm
    _ = turn^[count] (turn^[other] start) := Function.Commute.iterate_iterate_self turn other count start
    _ = turn^[other] start := Function.iterate_fixed rightEnds count

/-- A measure that falls with every turn bounds the turns to the end. -/
theorem ends_of_measure (measure : State → Nat)
    (falls : ∀ state, turn state ≠ state → measure (turn state) < measure state) :
    ∀ (count : Nat) (state : State), measure state ≤ count →
      turn (turn^[count] state) = turn^[count] state := by
  intro count
  induction count with
  | zero =>
      intro state small
      by_contra moves
      have less := falls state moves
      omega
  | succ count inductionHypothesis =>
      intro state small
      rw [Function.iterate_succ_apply]
      by_cases ended : turn state = state
      · rw [ended, Function.iterate_fixed ended, ended]
      · exact inductionHypothesis (turn state) (by
          have less := falls state ended
          omega)

end SimpleDfs.Library
