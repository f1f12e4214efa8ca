import Mathlib.Data.Finset.Card
import Mathlib.Order.WellFounded
import Mathlib.Tactic.Common

/-!
Contract: one decision taken by votes under numbered ballots.

Owns: `Poll`, the law that a ballot repeats the highest vote it can have heard
of, and the agreement of the values chosen; majorities of a finite group.

Does not own: how a ballot comes to know of the votes below it.
-/

set_option autoImplicit false

namespace SimpleDfs.Library

universe u v w

/-- The votes cast, the values proposed under each ballot, and which voters
are enough. -/
structure Poll (Voter : Type u) (Ballot : Type v) (Value : Type w) where
  votes : Voter → Ballot → Value → Prop
  proposed : Ballot → Value → Prop
  quorum : Finset Voter → Prop

namespace Poll

variable {Voter : Type u} {Ballot : Type v} {Value : Type w} {poll : Poll Voter Ballot Value}

/-- A quorum has voted for the value under one ballot. -/
def Chosen (poll : Poll Voter Ballot Value) (ballot : Ballot) (value : Value) : Prop :=
  ∃ voters, poll.quorum voters ∧ ∀ voter ∈ voters, poll.votes voter ballot value

/-- A vote under a lower ballot is followed by one for the value, still under a
lower ballot. -/
def Led [LinearOrder Ballot] (poll : Poll Voter Ballot Value) (ballot : Ballot) (value : Value)
    (voter : Voter) : Prop :=
  ∀ lower other, poll.votes voter lower other → lower < ballot →
    ∃ leader highest, lower ≤ highest ∧ highest < ballot ∧ poll.votes leader highest value

/-- Quorums meet, votes are for the one value of their ballot, and that value
is led by the votes of a quorum. -/
structure Law [LinearOrder Ballot] (poll : Poll Voter Ballot Value) : Prop where
  meet : ∀ first second, poll.quorum first → poll.quorum second → ∃ voter ∈ first, voter ∈ second
  cast : ∀ voter ballot value, poll.votes voter ballot value → poll.proposed ballot value
  single : ∀ ballot first second, poll.proposed ballot first → poll.proposed ballot second →
    first = second
  led : ∀ ballot value, poll.proposed ballot value →
    ∃ voters, poll.quorum voters ∧ ∀ voter ∈ voters, poll.Led ballot value voter

variable [LinearOrder Ballot]

theorem Law.proposed_of_chosen (law : poll.Law) {ballot : Ballot} {value : Value}
    (chosen : poll.Chosen ballot value) : poll.proposed ballot value := by
  obtain ⟨voters, enough, voted⟩ := chosen
  obtain ⟨voter, member, _⟩ := law.meet voters voters enough enough
  exact law.cast voter ballot value (voted voter member)

/-- **From a chosen value on, no other value is proposed.** -/
theorem Law.proposed_eq [WellFoundedLT Ballot] (law : poll.Law) {ballot : Ballot} {value : Value}
    (chosen : poll.Chosen ballot value) :
    ∀ later other, ballot ≤ later → poll.proposed later other → other = value := by
  intro later
  induction later using WellFoundedLT.induction with
  | ind later inductionHypothesis =>
      intro other above proposed
      rcases above.eq_or_lt with same | below
      · rw [← same] at proposed
        exact law.single ballot other value proposed (law.proposed_of_chosen chosen)
      · obtain ⟨voters, enough, led⟩ := law.led later other proposed
        obtain ⟨choosers, enoughChosen, voted⟩ := chosen
        obtain ⟨voter, chooser, asked⟩ := law.meet choosers voters enoughChosen enough
        obtain ⟨leader, highest, notLower, lower, vote⟩ :=
          led voter asked ballot value (voted voter chooser) below
        exact inductionHypothesis highest lower other notLower
          (law.cast leader highest other vote)

/-- **Agreement.**  All values chosen are one value. -/
theorem Law.chosen_eq [WellFoundedLT Ballot] (law : poll.Law) {first second : Ballot}
    {one other : Value} (chosenFirst : poll.Chosen first one)
    (chosenSecond : poll.Chosen second other) : one = other := by
  rcases le_total first second with below | above
  · have same := law.proposed_eq chosenFirst second other below
      (law.proposed_of_chosen chosenSecond)
    exact same.symm
  · exact law.proposed_eq chosenSecond first one above (law.proposed_of_chosen chosenFirst)

end Poll

/-! ## Majorities -/

variable {Voter : Type u} [DecidableEq Voter]

/-- More than half of a group. -/
def Majority (group voters : Finset Voter) : Prop :=
  voters ⊆ group ∧ group.card < 2 * voters.card

/-- Two majorities of one group have a member in common. -/
theorem Majority.meet {group first second : Finset Voter} (most : Majority group first)
    (mostToo : Majority group second) : ∃ voter ∈ first, voter ∈ second := by
  have overlap := Finset.inter_nonempty_of_card_lt_card_add_card most.1 mostToo.1
    (by have := most.2; have := mostToo.2; omega)
  obtain ⟨voter, both⟩ := overlap
  obtain ⟨inFirst, inSecond⟩ := Finset.mem_inter.mp both
  exact ⟨voter, inFirst, inSecond⟩

/-- A list of different members is a majority if it is long enough. -/
theorem majority_of_list {group voters : List Voter} (distinct : voters.Nodup)
    (members : voters ⊆ group) (most : group.length < 2 * voters.length) :
    Majority group.toFinset voters.toFinset := by
  constructor
  · intro voter member
    exact List.mem_toFinset.mpr (members (List.mem_toFinset.mp member))
  · rw [List.toFinset_card_of_nodup distinct]
    exact lt_of_le_of_lt (List.toFinset_card_le group) most

end SimpleDfs.Library
