import SimpleDfs.Dserv.Waiting
import SimpleDfs.Library.Tally

/-!
Contract: chained locks run to their end (`core/s_core_dserv.c`).

Owns: how many packets a run has delivered when operations have come so far, a
bound on every run from it, and what holds at the end of a run.

An operation taken at `stage` servers has had one packet from its client, and from
each server one for every server before it and one to go on.

Does not own: peers that are not connected.
-/

set_option autoImplicit false

namespace SimpleDfs.Dserv

open SimpleDfs.Common
open SimpleDfs.Library

/-- The packets sent for an operation by the time it is taken at `stage` servers. -/
def messages : Nat → Nat
  | 0 => 1
  | stage + 1 => messages stage + (stage + 1)

theorem messages_eq (stage : Nat) : messages stage = stage * (stage + 1) / 2 + 1 := by
  induction stage with
  | zero => rfl
  | succ stage inductionHypothesis =>
      have double : (stage + 1) * (stage + 1 + 1) = stage * (stage + 1) + 2 * (stage + 1) := by
        rw [Nat.mul_comm]
        exact Nat.add_mul stage 2 (stage + 1)
      rw [messages, inductionHypothesis, double, Nat.add_mul_div_left _ _ (by decide)]
      omega

theorem messages_mono {less more : Nat} (le : less ≤ more) : messages less ≤ messages more := by
  induction le with
  | refl => exact Nat.le_refl _
  | step _ inductionHypothesis => exact inductionHypothesis.trans (Nat.le_add_right _ _)

/-- The servers that have taken the operation. -/
def Operation.reached (op : Operation) (world : LockWorld) : Nat :=
  op.servIds.countP fun servId => decide (op.id ∈ (world.dservs servId).taken)

/-- The packets sent in all. -/
def LockWorld.messagesSent (world : LockWorld) : Nat :=
  (world.submitted.map fun op => messages (op.reached world)).sum

/-- Every packet sent is delivered or in flight. -/
def Balanced (delivered : Nat) (world : LockWorld) : Prop :=
  delivered + world.net.length = world.messagesSent

def LockEvent.delivers : LockEvent → Bool
  | .submit _ => false
  | .deliver _ _ => true

/-! ## Operations -/

section

variable {world after : LockWorld} {op : Operation} {stage : Nat}

theorem Operation.reached_congr
    (same : ∀ servId, op.id ∈ (after.dservs servId).taken ↔ op.id ∈ (world.dservs servId).taken) :
    op.reached after = op.reached world := by
  apply List.countP_congr
  intro servId _
  rw [decide_eq_true_eq, decide_eq_true_eq]
  exact same servId

/-- An operation is taken at as many servers as its progress says. -/
theorem Operation.reached_eq
    (taken : ∀ servId, op.id ∈ (world.dservs servId).taken ↔ servId ∈ op.servIds.take stage) :
    op.reached world = (op.servIds.take stage).length := by
  have distinct : (op.servIds.take stage ++ op.servIds.drop stage).Nodup := by
    rw [List.take_append_drop]
    exact op.increasing.nodup
  have front : (op.servIds.take stage).countP
      (fun servId => decide (op.id ∈ (world.dservs servId).taken)) =
        (op.servIds.take stage).length := by
    rw [List.countP_eq_length]
    intro servId member
    exact decide_eq_true ((taken servId).mpr member)
  have back : (op.servIds.drop stage).countP
      (fun servId => decide (op.id ∈ (world.dservs servId).taken)) = 0 := by
    rw [List.countP_eq_zero]
    intro servId member isTaken
    have early := (taken servId).mp (of_decide_eq_true isTaken)
    exact (List.nodup_append.mp distinct).2.2 servId early servId member rfl
  unfold Operation.reached
  conv_lhs => rw [← List.take_append_drop stage op.servIds]
  rw [List.countP_append, front, back]
  rfl

theorem Operation.reached_le (op : Operation) (world : LockWorld) :
    op.reached world ≤ op.servs.length := by
  have atMost := List.countP_le_length (p := fun servId =>
    decide (op.id ∈ (world.dservs servId).taken)) (l := op.servIds)
  rw [Operation.servIds, List.length_map] at atMost
  exact atMost

end

/-! ## Moves -/

section

variable {world : LockWorld} {delivered : Nat} {packet : Packet Peer LockBody} {rest : Sends}
variable {servId junk : Int}

/-- A packet is delivered and nobody takes an operation. -/
theorem Balanced.receive (balanced : Balanced delivered world)
    (inFlight : world.net.Perm (packet :: rest)) {dserv : Dserver}
    (taken : dserv.taken = (world.dservs servId).taken) :
    Balanced (delivered + 1) ({ world with net := rest }.update servId dserv []) := by
  have same : (({ world with net := rest } : LockWorld).update servId dserv []).messagesSent =
      world.messagesSent := by
    apply congrArg List.sum
    apply List.map_congr_left
    intro op _
    apply congrArg messages
    apply Operation.reached_congr
    intro other
    by_cases isHere : other = servId
    · rw [isHere, LockWorld.update_dservs_same, taken]
    · rw [LockWorld.update_dservs_ne _ isHere]
  have length := inFlight.length_eq
  rw [List.length_cons] at length
  unfold Balanced at balanced ⊢
  rw [same, LockWorld.update_net, List.append_nil]
  dsimp only
  omega

/-- A server takes an operation, and tells the others. -/
theorem Balanced.take (balanced : Balanced delivered world) (invariant : LockInvariant world)
    {lock : CoreLock} {front back : List CoreLock}
    (queued : (world.dservs servId).lockWaiting = front ++ lock :: back) :
    Balanced delivered
      (world.update servId
        (ilockTakeDone (connectedCore servId junk)
          { world.dservs servId with lockWaiting := front ++ back } lock).1
        (ilockTakeDone (connectedCore servId junk)
          { world.dservs servId with lockWaiting := front ++ back } lock).2) := by
  have inWaiting : lock ∈ (world.dservs servId).lockWaiting := by
    rw [queued]
    exact List.mem_append_right _ List.mem_cons_self
  obtain ⟨op, submitted, stage, ref, here, rfl, progress⟩ := invariant.waiting_stage inWaiting
  generalize isAfter : world.update servId
    (ilockTakeDone (connectedCore servId junk)
      { world.dservs servId with lockWaiting := front ++ back } (createLock ref (op.packet stage))).1
    (ilockTakeDone (connectedCore servId junk)
      { world.dservs servId with lockWaiting := front ++ back }
      (createLock ref (op.packet stage))).2 = after
  have below : stage < op.servIds.length := (List.getElem?_eq_some_iff.mp here).1
  have takenAt : ∀ other id, id ∈ (after.dservs other).taken ↔
      id ∈ (world.dservs other).taken ∨ other = servId ∧ id = op.id := by
    intro other id
    rw [← isAfter]
    by_cases isHere : other = servId
    · rw [isHere, LockWorld.update_dservs_same, ilockTakeDone_taken, createLock_id,
        List.mem_append, List.mem_singleton]
      exact ⟨fun cases => cases.imp_right fun same => ⟨rfl, same⟩,
        fun cases => cases.imp_right And.right⟩
    · rw [LockWorld.update_dservs_ne _ isHere]
      exact ⟨Or.inl, fun cases => cases.resolve_right fun both => isHere both.1⟩
  have before : op.reached world = stage := by
    rw [Operation.reached_eq progress.taken, List.length_take]
    omega
  have now : op.reached after = stage + 1 := by
    have taken : ∀ other, op.id ∈ (after.dservs other).taken ↔
        other ∈ op.servIds.take (stage + 1) := by
      intro other
      have split : op.servIds.take (stage + 1) = op.servIds.take stage ++ [servId] := by
        rw [List.take_add_one, here, Option.toList_some]
      rw [takenAt, progress.taken, split, List.mem_append, List.mem_singleton]
      exact ⟨fun cases => cases.imp_right And.left, fun cases => cases.imp_right fun same =>
        ⟨same, rfl⟩⟩
    rw [Operation.reached_eq taken, List.length_take]
    omega
  have more : after.messagesSent = world.messagesSent + (stage + 1) := by
    have sameOps : after.submitted = world.submitted := by
      rw [← isAfter]
      rfl
    unfold LockWorld.messagesSent
    rw [sameOps]
    apply @sum_map_exchange _ _ op _ _ invariant.distinct.of_map submitted 0
    · rw [now, before]
      rfl
    · intro other otherSubmitted apart
      apply congrArg messages
      apply Operation.reached_congr
      intro server
      rw [takenAt]
      exact ⟨fun cases => cases.resolve_right fun both =>
        apart (invariant.op_unique otherSubmitted submitted both.2), Or.inl⟩
  have sends : after.net.length = world.net.length + (stage + 1) := by
    rw [← isAfter, LockWorld.update_net, ilockTakeDone_sends, ilockNext_createLock,
      ilockUnlock_createLock, unlockPackets, List.length_append, List.length_append,
      List.length_map, List.length_take, List.length_singleton]
    omega
  unfold Balanced at balanced ⊢
  omega

/-- The rescan takes one operation after the other. -/
theorem Balanced.rescan (fuel : Nat) :
    ∀ world : LockWorld, LockInvariant world → Balanced delivered world →
      Balanced delivered
        (world.update servId (rescan (connectedCore servId junk) fuel (world.dservs servId)).1
          (rescan (connectedCore servId junk) fuel (world.dservs servId)).2) := by
  induction fuel with
  | zero =>
      intro world _ balanced
      rw [Dserv.rescan, LockWorld.update_same]
      exact balanced
  | succ fuel inductionHypothesis =>
      intro world invariant balanced
      rw [Dserv.rescan]
      split
      next =>
        rw [LockWorld.update_same]
        exact balanced
      next lock found =>
        obtain ⟨free, front, back, queued, blocked⟩ := List.find?_eq_some_iff_append.mp found
        have remaining : (world.dservs servId).lockWaiting.eraseP
            (fun lock => !ilockConflictAll (connectedCore servId junk) (world.dservs servId) lock) =
            front ++ back := by
          rw [queued, List.eraseP_append_right _ (by simpa using blocked)]
          exact congrArg (front ++ ·) (List.eraseP_cons_of_pos free)
        rw [remaining]
        have later := inductionHypothesis _
          (@lockInvariant_take world invariant servId junk lock front back queued)
          (@Balanced.take world delivered servId junk balanced invariant lock front back queued)
        rw [LockWorld.update_dservs_same, LockWorld.update_update] at later
        exact later

/-- A client submits an operation. -/
theorem Balanced.submit (balanced : Balanced delivered world) (invariant : LockInvariant world)
    {op : Operation} (fresh : op.id ∉ world.submitted.map Operation.id) {start : Sends}
    (one : start.length = 1) :
    Balanced delivered
      { world with submitted := op :: world.submitted, net := world.net ++ start } := by
  have untaken : op.reached world = 0 := by
    rw [Operation.reached, List.countP_eq_zero]
    exact fun servId _ isTaken => (invariant.unused fresh servId).1 (of_decide_eq_true isTaken)
  have sent : (LockWorld.mk world.dservs (world.net ++ start)
      (op :: world.submitted)).messagesSent = world.messagesSent + 1 := by
    have more : (LockWorld.mk world.dservs (world.net ++ start)
        (op :: world.submitted)).messagesSent = messages (op.reached world) + world.messagesSent :=
      rfl
    rw [more, untaken, Nat.add_comm]
    rfl
  unfold Balanced at balanced ⊢
  rw [sent]
  dsimp only
  rw [List.length_append, one]
  omega

/-- A request for a lock arrives. -/
theorem Balanced.lock (balanced : Balanced delivered world) (invariant : LockInvariant world)
    {pkt : LockPacket} {after : Dserver × Sends} (inFlight : world.net.Perm (packet :: rest))
    (dst : packet.dst = .dserv servId) (asks : Requests packet pkt)
    (handled : sCoreDservLock (connectedCore servId junk) (world.dservs servId) pkt =
      some after) :
    Balanced (delivered + 1) ({ world with net := rest }.update servId after.1 after.2) := by
  have parked := @Balanced.receive world delivered packet rest servId balanced inFlight
    ((world.dservs servId).park pkt) rfl
  unfold sCoreDservLock at handled
  split at handled
  next =>
    dsimp only at handled
    split at handled
    next =>
      cases handled
      exact parked
    next =>
      cases handled
      have queued : ((({ world with net := rest } : LockWorld).update servId
          ((world.dservs servId).park pkt) []).dservs servId).lockWaiting =
          (world.dservs servId).lockWaiting ++ createLock (world.dservs servId).created pkt :: [] :=
        by rw [LockWorld.update_dservs_same, Dserver.park]
      have taken := @Balanced.take _ (delivered + 1) servId junk parked
        (lockInvariant_receive invariant inFlight dst asks) _ _ _ queued
      rw [LockWorld.update_dservs_same, LockWorld.update_update] at taken
      simpa [Dserver.park] using taken
  next => cases handled

/-- A server hears that a later one took an operation. -/
theorem Balanced.unlock (balanced : Balanced delivered world) (invariant : LockInvariant world)
    {sender : Int} {id : SId} (inFlight : world.net.Perm (packet :: rest))
    (src : packet.src = .dserv sender) (dst : packet.dst = .dserv servId)
    (body : packet.body = .lockUnlock id) :
    Balanced (delivered + 1) ({ world with net := rest }.update servId
      (sCoreDservLockUnlock (connectedCore servId junk) (world.dservs servId) sender id).1
      (sCoreDservLockUnlock (connectedCore servId junk) (world.dservs servId) sender id).2) := by
  have marked := @Balanced.receive world delivered packet rest servId balanced inFlight
    ((world.dservs servId).mark sender id) (mark_taken _ sender id)
  have known := lockInvariant_unlock invariant inFlight src dst body
  unfold sCoreDservLockUnlock
  unfold Dserver.mark at marked known
  split
  next absent =>
    simp only [absent] at marked
    exact marked
  next ref found =>
    simp only [found] at marked known
    have scanned := @Balanced.rescan (delivered + 1) servId junk
      (unlockMark (world.dservs servId) sender id ref).lockWaiting.length _ known marked
    rw [LockWorld.update_dservs_same, LockWorld.update_update, List.nil_append] at scanned
    exact scanned

/-- Every step keeps the count. -/
theorem Balanced.step {event : LockEvent} {after : LockWorld} (balanced : Balanced delivered world)
    (invariant : LockInvariant world) (stepped : lockSystem.step world event = some after) :
    Balanced (delivered + if event.delivers then 1 else 0) after := by
  change world.step event = some after at stepped
  cases event with
  | submit op =>
      rw [LockWorld.step] at stepped
      split at stepped
      next => cases stepped
      next fresh =>
        cases stepped
        exact balanced.submit invariant fresh rfl
  | deliver index junk =>
      rw [LockWorld.step] at stepped
      split at stepped
      next => cases stepped
      next packet rest taken =>
        have inFlight := Packet.perm_of_takeAt taken
        have known := (invariant.packets packet (Packet.mem_of_takeAt taken)).wellAddressed
        unfold WellAddressed at known
        cases body : packet.body with
        | lockStart pkt =>
            simp only [body] at known
            obtain ⟨client, servId, src, dst⟩ := known
            simp only [dst, dispatch, src, body] at stepped
            split at stepped
            next => cases stepped
            next dserv sends handled =>
              cases stepped
              exact balanced.lock invariant inFlight dst (Or.inl ⟨client, src, body⟩) handled
        | lockNext pkt =>
            simp only [body] at known
            obtain ⟨sender, servId, src, dst⟩ := known
            simp only [dst, dispatch, src, body] at stepped
            split at stepped
            next => cases stepped
            next dserv sends handled =>
              cases stepped
              exact balanced.lock invariant inFlight dst (Or.inr ⟨sender, src, body⟩) handled
        | lockUnlock id =>
            simp only [body] at known
            obtain ⟨sender, servId, src, dst⟩ := known
            simp only [dst, dispatch, src, body] at stepped
            cases stepped
            exact balanced.unlock invariant inFlight src dst body
        | lockEnd id =>
            simp only [body] at known
            obtain ⟨client, dst⟩ := known
            simp only [dst] at stepped
            cases stepped
            have received := @Balanced.receive world delivered packet rest 0 balanced inFlight
              (world.dservs 0) rfl
            have same := LockWorld.update_same { world with net := rest } 0
            dsimp only at same
            rw [same] at received
            exact received

end

/-! ## Runs -/

theorem Balanced.run {after : LockWorld} :
    ∀ {events : List LockEvent} {world : LockWorld} {delivered : Nat},
      lockSystem.Reachable world → Balanced delivered world →
      lockSystem.run world events = some after →
        Balanced (delivered + events.countP LockEvent.delivers) after ∧
          lockSystem.Reachable after
  | [], _, _, reached, balanced, ran => by
      cases ran
      exact ⟨balanced, reached⟩
  | event :: events, world, delivered, reached, balanced, ran => by
      rw [System.run] at ran
      split at ran
      next => cases ran
      next next stepped =>
        have later := Balanced.run (reached.step event trivial stepped)
          (balanced.step (lockInvariant_reachable reached) stepped) ran
        rw [Nat.add_assoc, Nat.add_comm (if event.delivers then 1 else 0),
          ← List.countP_cons] at later
        exact later

/-- At the end nobody waits. -/
theorem nobody_waits {world : LockWorld} (reached : lockSystem.Reachable world)
    (quiet : Quiet world) (servId : Int) : (world.dservs servId).lockWaiting = [] := by
  obtain ⟨invariant, told⟩ := told_reachable reached
  by_contra waits
  obtain ⟨largest, waitsThere, greatest⟩ := Int.exists_greatest_of_bdd
    (P := fun servId => (world.dservs servId).lockWaiting ≠ [])
    (waiting_bounded invariant) ⟨servId, waits⟩
  obtain ⟨above, larger, waitsAbove⟩ :=
    waiting_above invariant told (blocked_reachable reached) quiet waitsThere
  exact absurd (greatest above waitsAbove) (not_le_of_gt larger)

/-- At the end every operation is taken at all its servers. -/
theorem all_taken {world : LockWorld} (reached : lockSystem.Reachable world)
    (quiet : Quiet world) {op : Operation} (submitted : op ∈ world.submitted) (servId : Int) :
    op.id ∈ (world.dservs servId).taken ↔ servId ∈ op.servIds := by
  obtain ⟨stage, progress⟩ := (lockInvariant_reachable reached).progress op submitted
  cases next : op.servIds[stage]? with
  | none => rw [progress.taken, List.take_of_length_le (List.getElem?_eq_none_iff.mp next)]
  | some target =>
      exact absurd (nobody_waits reached quiet target) (waiting_of_stage quiet progress next)

/-- **Completion**: a run delivers at most one packet and `n * (n + 1) / 2` more for
each operation over `n` servers, a packet in flight can always be delivered, and
once none is left so many were delivered, nobody waits, and every operation is
taken at all its servers. -/
theorem lock_runs_complete {events : List LockEvent} {world : LockWorld}
    (ran : lockSystem.run emptyLockWorld events = some world) :
    events.countP LockEvent.delivers ≤ (world.submitted.map fun op =>
        op.servs.length * (op.servs.length + 1) / 2 + 1).sum ∧
      (world.net ≠ [] → ∀ junk, (lockSystem.step world (.deliver 0 junk)).isSome = true) ∧
      (world.net = [] →
        events.countP LockEvent.delivers = (world.submitted.map fun op =>
          op.servs.length * (op.servs.length + 1) / 2 + 1).sum ∧
        (∀ servId, (world.dservs servId).lockWaiting = []) ∧
        ∀ op ∈ world.submitted, ∀ servId,
          op.id ∈ (world.dservs servId).taken ↔ servId ∈ op.servIds) := by
  obtain ⟨balanced, reached⟩ := Balanced.run (System.ReachableVia.start rfl)
    (show Balanced 0 emptyLockWorld from rfl) ran
  rw [Nat.zero_add] at balanced
  simp only [← messages_eq]
  refine ⟨?_, ?_, ?_⟩
  · have most : world.messagesSent ≤ (world.submitted.map fun op =>
        messages op.servs.length).sum :=
      List.sum_le_sum fun op _ => messages_mono (op.reached_le world)
    unfold Balanced at balanced
    omega
  · intro busy junk
    obtain ⟨packet, rest, isNet⟩ := List.exists_cons_of_ne_nil busy
    have taken : Packet.takeAt world.net 0 = some (packet, rest) := by
      rw [isNet]
      rfl
    exact deliver_handled reached junk taken
  · intro idle
    have quiet : Quiet world := by
      intro packet inNet
      rw [idle] at inNet
      exact absurd inNet List.not_mem_nil
    refine ⟨?_, nobody_waits reached quiet, fun op submitted => all_taken reached quiet submitted⟩
    have all : world.messagesSent = (world.submitted.map fun op =>
        messages op.servs.length).sum := by
      apply congrArg List.sum
      apply List.map_congr_left
      intro op submitted
      have everywhere : ∀ servId, op.id ∈ (world.dservs servId).taken ↔
          servId ∈ op.servIds.take op.servIds.length := by
        intro servId
        rw [List.take_length]
        exact all_taken reached quiet submitted servId
      have reachedAll := Operation.reached_eq everywhere
      rw [List.take_length, Operation.servIds, List.length_map] at reachedAll
      rw [reachedAll]
    unfold Balanced at balanced
    rw [idle, List.length_nil] at balanced
    omega

/-- Two operations over the same two servers. -/
def twoOperations : List LockEvent :=
  [.submit opFirst, .submit opSecond] ++ List.replicate 8 (.deliver 0 0)

theorem lock_runs_complete_twoOperations :
    twoOperations.countP LockEvent.delivers = 8 ∧
      ∀ servId, ((lockSystem.outcome emptyLockWorld twoOperations).dservs servId).lockWaiting =
        [] := by
  have ran : lockSystem.run emptyLockWorld twoOperations =
      some (lockSystem.outcome emptyLockWorld twoOperations) := rfl
  exact ⟨rfl, ((lock_runs_complete ran).2.2 rfl).2.1⟩

end SimpleDfs.Dserv
