import SimpleDfs.Dserv.Ordering

/-!
Contract: the order of operations over all data servers.

Owns: the law of two operations, the absence of cycles among operations that
name one common server, and a run in which three operations that meet pairwise
on different servers are taken in a cycle.

A data server compares a lock with those it passed on and holds nothing back on
servers already visited, so only operations that meet are put in order.

Does not own: the invariants behind these laws.
-/

set_option autoImplicit false

namespace SimpleDfs.Dserv

open SimpleDfs.Common
open SimpleDfs.Library

/-- **Two chained locks.**  Of two operations taken at a server the first has
already been taken at their next common server, and wherever both are taken
they are taken in the same order. -/
theorem two_chained_locks {world : LockWorld} (reached : lockSystem.Reachable world) :
    (∀ servId, ∀ opA ∈ world.submitted, ∀ opB ∈ world.submitted,
      TakenBefore world servId opA.id opB.id →
      ∀ common, NextCommon opA opB servId common → opA.id ∈ (world.dservs common).taken) ∧
    ∀ servId other, ∀ opA ∈ world.submitted, ∀ opB ∈ world.submitted,
      TakenBefore world servId opA.id opB.id → opA.id ∈ (world.dservs other).taken →
      opB.id ∈ (world.dservs other).taken → TakenBefore world other opA.id opB.id := by
  obtain ⟨invariant, keeps⟩ := keepsOrder_reachable reached
  constructor
  · intro servId opA memberA opB memberB earlier common next
    exact (keeps servId opA memberA opB memberB earlier common next).1
  · intro servId other opA memberA opB memberB earlier takenA takenB
    exact same_order invariant keeps memberA memberB earlier takenA takenB

theorem raceWorld_order : TakenBefore raceWorld 1 opFirst.id opSecond.id := by
  show [_, _].Sublist _
  decide

theorem two_chained_locks_race :
    TakenBefore raceWorld 2 opFirst.id opSecond.id ∧
      opFirst.id ∈ (raceWorld.dservs 2).taken := by
  have first : opFirst ∈ raceWorld.submitted := by simp [raceWorld_submitted]
  have second : opSecond ∈ raceWorld.submitted := by simp [raceWorld_submitted]
  have next : NextCommon opFirst opSecond 1 2 :=
    ⟨⟨by decide, by decide, by decide⟩, fun later facts => facts.2.2⟩
  obtain ⟨passed, ordered⟩ := two_chained_locks raceWorld_reached
  exact ⟨ordered 1 2 opFirst first opSecond second raceWorld_order (by decide) (by decide),
    passed 1 opFirst first opSecond second raceWorld_order 2 next⟩

/-! ## Many operations -/

/-- Two operations, one of which some server both name took before the other. -/
def Precedes (world : LockWorld) (opA opB : Operation) : Prop :=
  opA ∈ world.submitted ∧ opB ∈ world.submitted ∧
    ∃ servId, servId ∈ opA.servIds ∧ servId ∈ opB.servIds ∧
      TakenBefore world servId opA.id opB.id

/-- The same among operations that name `hub`. -/
def PrecedesVia (world : LockWorld) (hub : Int) (opA opB : Operation) : Prop :=
  Precedes world opA opB ∧ hub ∈ opA.servIds ∧ hub ∈ opB.servIds

/-- The first server up to `hub` that has not taken the operation, one past
`hub` if they all have. -/
def frontier (world : LockWorld) (hub : Int) (op : Operation) : Int :=
  min ((op.servIds.find? fun servId =>
    decide (op.id ∉ (world.dservs servId).taken)).getD (hub + 1)) (hub + 1)

theorem frontier_le {world : LockWorld} {hub servId : Int} {op : Operation}
    (named : servId ∈ op.servIds) (missing : op.id ∉ (world.dservs servId).taken) :
    frontier world hub op ≤ servId := by
  unfold frontier
  cases found : op.servIds.find? fun servId =>
      decide (op.id ∉ (world.dservs servId).taken) with
  | none =>
      have all := List.find?_eq_none.mp found servId named
      simp only [decide_eq_true_eq, not_not] at all
      exact absurd all missing
  | some first =>
      obtain ⟨_, front, back, split, passed⟩ := List.find?_eq_some_iff_append.mp found
      have sorted : op.servIds.Pairwise (· < ·) := op.increasing
      rw [split, List.pairwise_append] at sorted
      rw [split] at named
      have below : first ≤ servId := by
        rcases List.mem_append.mp named with before | behind
        · have taken := passed servId before
          simp only [Bool.not_eq_true', decide_eq_false_iff_not, not_not] at taken
          exact absurd taken missing
        · rcases List.mem_cons.mp behind with same | after
          · exact le_of_eq same.symm
          · exact le_of_lt ((List.pairwise_cons.mp sorted.2.1).1 servId after)
      rw [Option.getD_some]
      exact le_trans (min_le_left _ _) below

theorem lt_frontier {world : LockWorld} (invariant : LockInvariant world) {hub servId : Int}
    {op : Operation} (submitted : op ∈ world.submitted) (within : servId ≤ hub)
    (taken : op.id ∈ (world.dservs servId).taken) : servId < frontier world hub op := by
  unfold frontier
  cases found : op.servIds.find? fun servId =>
      decide (op.id ∉ (world.dservs servId).taken) with
  | none =>
      rw [Option.getD_none, min_self]
      omega
  | some first =>
      have missing := List.find?_some found
      simp only [decide_eq_true_eq] at missing
      have named := List.mem_of_find?_eq_some found
      have ahead : servId < first := by
        by_contra notAhead
        exact missing (invariant.taken_below submitted taken named (by omega))
      rw [Option.getD_some, lt_min_iff]
      omega

/-- How late an operation stands at `hub`: those still on their way by how
little of it is behind them, those taken there by their place in the log. -/
def lateness (world : LockWorld) (hub : Int) (op : Operation) : Int ×ₗ Nat :=
  toLex (-frontier world hub op, (world.dservs hub).taken.idxOf op.id)

theorem lateness_lt {world : LockWorld} (invariant : LockInvariant world)
    (keeps : KeepsOrder world) {hub : Int} {opA opB : Operation}
    (precedes : PrecedesVia world hub opA opB) :
    lateness world hub opA < lateness world hub opB := by
  obtain ⟨⟨memberA, memberB, servId, _, _, earlier⟩, hubA, hubB⟩ := precedes
  have once := (invariant.dservs hub).takenOnce
  rw [lateness, lateness, Prod.Lex.toLex_lt_toLex]
  by_cases takenB : opB.id ∈ (world.dservs hub).taken
  · -- both have been taken at the hub, in this order
    have ordered : TakenBefore world hub opA.id opB.id := by
      rcases le_total servId hub with below | above
      · rcases order_ahead keeps memberA memberB hubA hubB _ le_rfl below earlier with
          ordered | ⟨between, within, _, named, _, missing⟩
        · exact ordered
        · exact absurd (invariant.taken_below memberB takenB named within) missing
      · have takenA := invariant.taken_below memberA earlier.mem_first hubA above
        exact same_order invariant keeps memberA memberB earlier takenA takenB
    have atHub : ∀ op ∈ world.submitted, op.id ∈ (world.dservs hub).taken →
        frontier world hub op = hub + 1 := by
      intro op member taken
      have past := lt_frontier invariant member le_rfl taken
      have bound : frontier world hub op ≤ hub + 1 := min_le_right _ _
      omega
    right
    refine ⟨?_, ordered.idxOf_lt once⟩
    show -frontier world hub opA = -frontier world hub opB
    rw [atHub opA memberA ordered.mem_first, atHub opB memberB takenB]
  · -- the second is still on its way, and the first is ahead of it
    have below : servId ≤ hub := by
      by_contra above
      exact takenB (invariant.taken_below memberB earlier.mem_second hubB (by omega))
    left
    show -frontier world hub opA < -frontier world hub opB
    rcases order_ahead keeps memberA memberB hubA hubB _ le_rfl below earlier with
      ordered | ⟨between, within, namedA, namedB, passed, missing⟩
    · exact absurd ordered.mem_second takenB
    · have ahead := lt_frontier invariant memberA within passed
      have behind : frontier world hub opB ≤ between := frontier_le namedB missing
      omega

/-- **Order through a common server.**  Operations that all name one server are
taken in an order without cycles, at whatever servers they meet. -/
theorem no_cycle_through_hub {world : LockWorld} (reached : lockSystem.Reachable world)
    (hub : Int) (op : Operation) : ¬ Relation.TransGen (PrecedesVia world hub) op op := by
  obtain ⟨invariant, keeps⟩ := keepsOrder_reachable reached
  have later : ∀ {first last : Operation}, Relation.TransGen (PrecedesVia world hub) first last →
      lateness world hub first < lateness world hub last := by
    intro first last path
    induction path with
    | single precedes => exact lateness_lt invariant keeps precedes
    | tail _ precedes inductionHypothesis =>
        exact lt_trans inductionHypothesis (lateness_lt invariant keeps precedes)
  exact fun cycle => lt_irrefl _ (later cycle)

theorem no_cycle_through_hub_race :
    ¬ Relation.TransGen (PrecedesVia raceWorld 2) opFirst opFirst :=
  no_cycle_through_hub raceWorld_reached 2 opFirst

/-! ## Three operations in a cycle -/

def opOneThree : Operation := pairOperation 1 1 3 (by decide)
def opOneTwo : Operation := opSecond
def opTwoThree : Operation := pairOperation 3 2 3 (by decide)

/-- The LOCK_NEXT of the first operation to server 3 is slow: server 1 takes the
first before the second, server 2 the second before the third, server 3 the
third before the first. -/
def ringWorld : LockWorld :=
  lockSystem.outcome emptyLockWorld
    [.submit opOneThree, .deliver 0 0, .submit opOneTwo, .deliver 1 0, .deliver 1 0,
      .submit opTwoThree, .deliver 3 0, .deliver 3 0, .deliver 0 0]

theorem ringWorld_reached : lockSystem.Reachable ringWorld :=
  System.reachable_outcome rfl _

theorem ringWorld_submitted : ringWorld.submitted = [opTwoThree, opOneTwo, opOneThree] := rfl

/-- The order of all operations can have a cycle. -/
theorem cycle_of_three :
    ¬ ∀ world, lockSystem.Reachable world →
      ∀ op, ¬ Relation.TransGen (Precedes world) op op := by
  intro acyclic
  have firstSecond : Precedes ringWorld opOneThree opOneTwo := by
    refine ⟨by simp [ringWorld_submitted], by simp [ringWorld_submitted], 1, by decide, by decide, ?_⟩
    show [_, _].Sublist _
    decide
  have secondThird : Precedes ringWorld opOneTwo opTwoThree := by
    refine ⟨by simp [ringWorld_submitted], by simp [ringWorld_submitted], 2, by decide, by decide, ?_⟩
    show [_, _].Sublist _
    decide
  have thirdFirst : Precedes ringWorld opTwoThree opOneThree := by
    refine ⟨by simp [ringWorld_submitted], by simp [ringWorld_submitted], 3, by decide, by decide, ?_⟩
    show [_, _].Sublist _
    decide
  exact acyclic ringWorld ringWorld_reached opOneThree
    (((Relation.TransGen.single firstSecond).tail secondThird).tail thirdFirst)

end SimpleDfs.Dserv
