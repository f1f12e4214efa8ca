import SimpleDfs.Paxos.ProposalShares

/-!
Contract: the references to the proposals of a process in any run.

Owns: what an event leaves behind; that references match pending calls just as
long as no event leaves one behind; and that no drop ever fails.

Does not own: what the handlers do to the references.
-/

set_option autoImplicit false

namespace SimpleDfs.Paxos

open SimpleDfs.Common
open SimpleDfs.Library

/-! ## Events -/

/-- The proposal whose reference the event leaves behind, if there is one. -/
def Core.leftBehind (core : Core) : ProposerEvent → Option Nat
  | .start _ _ type theServ => if startKeeps core type theServ then some core.paxos.id else none
  | .receive _ src .addMe => if startKeeps core .add src then some core.paxos.id else none
  | .finish _ peer req read =>
      (core.pendingCall peer req).bind fun call =>
        if callKeeps core call read then call.callback.proposal else none
  | _ => none

section Events

variable {spare : Nat → Nat} {core next : Core}

theorem accounted_receive (layout : Layout) (law : Accounted spare core) (src : Nat)
    (body : PaxosBody) (stepped : core.step (.receive layout src body) = some next) :
    Accounted (spare + share (core.leftBehind (.receive layout src body))) next := by
  cases body with
  | request req request =>
      cases stepped
      have numbers : core.paxos.id ≤ (ireceiveRequest layout core.paxos request).1.id := by
        unfold ireceiveRequest
        dsimp only
        split <;> exact Nat.le_succ _
      exact law.quiet numbers rfl rfl rfl rfl
  | accept topic id value version =>
      cases stepped
      exact law.paxos (grows_iaccept core.paxos topic id value version).numbers
  | learnRequest req version =>
      cases stepped
      exact law.quiet le_rfl rfl rfl rfl rfl
  | addMe =>
      cases stepped
      exact accounted_sPaxosStart law _ _ _ src
  | addAccept req dump =>
      cases stepped
      have numbers : core.paxos.id ≤ (ireceiveAddAccept core.paxos dump).id := by
        obtain ⟨accept, same⟩ := acceptLoop_eq dump.entries
          { core.paxos with version := dump.version }
        unfold ireceiveAddAccept
        rw [same]
      exact law.quiet numbers rfl rfl rfl rfl
  | refreshAccept req dump =>
      cases stepped
      have numbers : core.paxos.id ≤ (ireceiveRefreshAccept layout core.paxos dump).1.id := by
        unfold ireceiveRefreshAccept
        split
        · exact le_rfl
        · obtain ⟨accept, backup, same⟩ := refreshLoop_eq layout dump.entries 0 core.paxos
          rw [same]
      show Accounted spare (dispatch layout core src (.refreshAccept req dump))
      unfold dispatch
      dsimp only
      split
      · exact law
      next paxos answered =>
        rw [answered] at numbers
        exact law.quiet numbers rfl rfl rfl rfl
  | rpcBack req reply => cases stepped

theorem mem_of_pendingCall {peer req : Nat} {call : RpcCall}
    (pending : core.pendingCall peer req = some call) : call ∈ core.calls :=
  List.mem_of_find?_eq_some pending

/-- An event leaves the references that it found to spare, and one more where it
leaves one behind. -/
theorem accounted_step (law : Accounted spare core) (event : ProposerEvent)
    (stepped : core.step event = some next) :
    Accounted (spare + share (core.leftBehind event)) next := by
  cases event with
  | start topic value type theServ =>
      cases stepped
      exact accounted_sPaxosStart law topic value type theServ
  | checkLeave =>
      cases stepped
      exact accounted_sPaxosCheckLeave law
  | learnAll =>
      cases stepped
      exact accounted_sPaxosLearnAll law
  | receive layout src body => exact accounted_receive layout law src body stepped
  | partly paxos =>
      rw [Core.step] at stepped
      split at stepped
      next numbers =>
        cases stepped
        exact law.paxos numbers
      next => cases stepped
  | finish layout peer req read =>
      rw [Core.step] at stepped
      rw [Core.leftBehind]
      cases pending : core.pendingCall peer req with
      | none =>
          rw [pending] at stepped
          cases stepped
          exact law
      | some call =>
          rw [pending] at stepped
          have ended := accounted_runRead layout (law.finish (mem_of_pendingCall pending)) stepped
          exact ended
  | connection peer established =>
      cases stepped
      exact law.quiet le_rfl rfl rfl rfl rfl

/-- An event that leaves a reference behind can happen. -/
theorem enabled_of_leftBehind {event : ProposerEvent} {key : Nat}
    (leaves : core.leftBehind event = some key) : ∃ after, core.step event = some after := by
  cases event with
  | start topic value type theServ => exact ⟨_, rfl⟩
  | checkLeave => cases leaves
  | learnAll => cases leaves
  | receive layout src body =>
      cases body with
      | addMe => exact ⟨_, rfl⟩
      | _ => cases leaves
  | partly paxos => cases leaves
  | finish layout peer req read =>
      rw [Core.leftBehind] at leaves
      obtain ⟨call, pending, holds⟩ := Option.bind_eq_some_iff.mp leaves
      rw [Core.step, pending]
      dsimp only
      unfold runRead
      cases read with
      | none => exact ⟨_, rfl⟩
      | some read =>
          obtain ⟨req, peer, callback⟩ := call
          cases callback with
          | addNewServOk own => exact ⟨_, rfl⟩
          | refreshAcceptBack own => exact ⟨_, rfl⟩
          | receiveLearn => cases holds
          | receiveResponse own =>
              cases read with
              | prepare reply => exact ⟨_, rfl⟩
              | prepareFailed report backup accepts => exact ⟨_, rfl⟩
              | _ =>
                  -- nothing is counted
                  unfold callKeeps at holds
                  cases found : core.proposals.lookup own <;> simp [found, countedBy] at holds
  | connection peer established => cases leaves

end Events

/-! ## Any run -/

section Runs

theorem accounted_createCore (id : Nat) (active : Nat → Bool) :
    Accounted 0 (createCore id active) where
  numbered := fun _ _ => rfl
  callsOnce := List.nodup_nil
  callsBelow := fun _ member => absurd member List.not_mem_nil
  shares := fun _ => rfl
  sound := rfl

/-- In every run there are as many references as calls, or more; so no drop
fails. -/
theorem accounted_reachable {core : Core} (reached : proposerSystem.Reachable core) :
    ∃ spare, Accounted spare core := by
  apply reached.invariant fun core => ∃ spare, Accounted spare core
  · rintro start ⟨id, active, rfl⟩
    exact ⟨0, accounted_createCore id active⟩
  · rintro before event after _ ⟨spare, law⟩ _ stepped
    exact ⟨_, accounted_step law event stepped⟩

theorem drops_never_fail {core : Core} (reached : proposerSystem.Reachable core) :
    core.aborted = false ∧ ∀ key, core.holders key ≤ core.refs key := by
  obtain ⟨spare, law⟩ := accounted_reachable reached
  refine ⟨law.sound, fun key => ?_⟩
  have shares := law.shares key
  omega

/-- Every proposal has as many references as pending calls hold it, so it is freed
when there is none; and no drop has failed. -/
structure RefsAreCalls (core : Core) : Prop where
  counted : ∀ key p, core.proposals.lookup key = some p → p.refCount = core.holders key
  sound : core.aborted = false

/-- References are calls if there is none to spare. -/
theorem refsAreCalls_iff_spare {spare : Nat → Nat} {core : Core} (law : Accounted spare core) :
    RefsAreCalls core ↔ ∀ key, spare key = 0 := by
  constructor
  · intro refsAreCalls key
    have shares := law.shares key
    cases found : core.proposals.lookup key with
    | none =>
        rw [refs_absent found] at shares
        omega
    | some p =>
        rw [refs_found found, refsAreCalls.counted key p found] at shares
        omega
  · intro nothing
    refine ⟨fun key p found => ?_, law.sound⟩
    have shares := law.shares key
    rwa [refs_found found, nothing key] at shares

/-- After every event of the run references are calls. -/
def RefsAreCallsAlong (start : Core) (events : List ProposerEvent) : Prop :=
  ∀ front core, front <+: events → proposerSystem.run start front = some core → RefsAreCalls core

/-- No event of the run leaves a reference behind. -/
def NothingLeftBehind (start : Core) (events : List ProposerEvent) : Prop :=
  ∀ front event core, front ++ [event] <+: events → proposerSystem.run start front = some core →
    core.leftBehind event = none

theorem accounted_run (id : Nat) (active : Nat → Bool) (events : List ProposerEvent) :
    ∀ core, proposerSystem.run (createCore id active) events = some core →
      NothingLeftBehind (createCore id active) events → Accounted 0 core := by
  induction events using List.reverseRecOn with
  | nil =>
      intro core run _
      cases run
      exact accounted_createCore id active
  | append_singleton front event inductionHypothesis =>
      intro core run nothing
      rw [System.run_concat] at run
      obtain ⟨middle, before, stepped⟩ := Option.bind_eq_some_iff.mp run
      have law := inductionHypothesis middle before fun earlier first state part =>
        nothing earlier first state (part.trans (List.prefix_append front [event]))
      have after := accounted_step law event stepped
      rw [nothing front event middle (List.prefix_refl _) before, share_none, add_zero] at after
      exact after

/-- In every run, references match pending calls after every event just as long as
no event takes an exit that leaves a reference behind. -/
theorem refsAreCallsAlong_iff (id : Nat) (active : Nat → Bool) (events : List ProposerEvent) :
    RefsAreCallsAlong (createCore id active) events ↔
      NothingLeftBehind (createCore id active) events := by
  constructor
  · intro refsAreCalls front event core part run
    cases leaves : core.leftBehind event with
    | none => rfl
    | some key =>
        obtain ⟨spare, law⟩ := accounted_reachable
          (System.reachable_of_run ⟨id, active, rfl⟩ run)
        obtain ⟨next, stepped⟩ := enabled_of_leftBehind leaves
        have after := accounted_step law event stepped
        have onward : proposerSystem.run (createCore id active) (front ++ [event]) =
            some next := by
          rw [System.run_concat, run]
          exact stepped
        have nothing := (refsAreCalls_iff_spare after).mp (refsAreCalls _ next part onward) key
        rw [leaves, Pi.add_apply, share_self] at nothing
        cases nothing
  · intro nothing front core part run
    have law := accounted_run id active front core run fun earlier event state begins =>
      nothing earlier event state (begins.trans part)
    exact (refsAreCalls_iff_spare law).mpr fun _ => rfl

/-- Server 2 joins server 1, which never drops the proposal when the ADD_ACCEPT
call has come back. -/
theorem not_always_refsAreCalls :
    ¬RefsAreCallsAlong (createCore 1 fun _ => true)
      [.receive Layout.natural 2 .addMe,
        .finish Layout.natural 1 1 (some (.prepare (.promise none [] []))),
        .finish Layout.natural 2 2 none] := by
  intro refsAreCalls
  have counts : (proposerSystem.run (createCore 1 fun _ => true)
      [.receive Layout.natural 2 .addMe,
        .finish Layout.natural 1 1 (some (.prepare (.promise none [] []))),
        .finish Layout.natural 2 2 none]).map
      (fun core => (core.refs 1, core.holders 1)) = some (1, 0) := by
    decide +kernel
  obtain ⟨core, run, isCount⟩ := Option.map_eq_some_iff.mp counts
  have matches_ := (refsAreCalls _ core (List.prefix_refl _) run).counted 1
  obtain ⟨one, none⟩ := Prod.mk.inj isCount
  cases found : core.proposals.lookup 1 with
  | none =>
      rw [refs_absent found] at one
      cases one
  | some p =>
      rw [refs_found found, matches_ p found, none] at one
      cases one

end Runs

end SimpleDfs.Paxos
