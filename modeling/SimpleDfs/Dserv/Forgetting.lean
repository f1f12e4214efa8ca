import SimpleDfs.Dserv.Preservation

/-!
Contract: what data servers remember of a chained lock that has run its course.

Owns: `Finished`, `Forgotten`, the fact that a sent lock always has a server
ahead, the exact operations that are forgotten, and a run in which one is not.

A sent lock is forgotten once all its elements are marked.  Marks come from
LOCK_UNLOCK packets, and only later servers send them: the element of the
server itself and those before it stay unmarked, so a sent lock stays forever.
The last server of an operation never keeps the lock.

Does not own: the order in which operations are taken.
-/

set_option autoImplicit false

namespace SimpleDfs.Dserv

open SimpleDfs.Common
open SimpleDfs.Library

/-- The operation has been taken at its last server and no release of it is in
flight. -/
structure Finished (world : LockWorld) (op : Operation) : Prop where
  last : ∀ servId, op.servIds.getLast? = some servId → op.id ∈ (world.dservs servId).taken
  delivered : ∀ packet ∈ world.net, packet.body ≠ .lockUnlock op.id

/-- No data server has an entry for the operation. -/
def Forgotten (world : LockWorld) (op : Operation) : Prop :=
  ∀ servId, (world.dservs servId).locks.lookup op.id = none ∧
    (∀ lock ∈ (world.dservs servId).lockSent, lock.id ≠ op.id) ∧
    ∀ lock ∈ (world.dservs servId).lockWaiting, lock.id ≠ op.id

/-! ## Sent locks have a server ahead -/

/-- Every sent lock still has a server to visit. -/
def SentAhead (world : LockWorld) : Prop :=
  ∀ servId, ∀ lock ∈ (world.dservs servId).lockSent, lock.nextPos < lock.elems.length

theorem sentAhead_update {world : LockWorld} {net sends : Sends} {servId : Int} {dserv : Dserver}
    (ahead : SentAhead world) (changed : ∀ lock ∈ dserv.lockSent, lock.nextPos < lock.elems.length) :
    SentAhead ({ world with net := net }.update servId dserv sends) := by
  intro other lock member
  by_cases same : other = servId
  · rw [same, LockWorld.update_dservs_same] at member
    exact changed lock member
  · rw [LockWorld.update_dservs_ne _ same] at member
    exact ahead other lock member

theorem markFinish_length (servId : Int) (elems : List LockElem) :
    (markFinish servId true elems).1.length = elems.length := by
  have names := congrArg List.length (markFinish_names servId elems true)
  simpa using names

/-- Marking changes the flags of a lock and nothing else. -/
theorem sentAhead_mark (dserv : Dserver) (sender : Int) (id : SId)
    (ahead : ∀ lock ∈ dserv.lockSent, lock.nextPos < lock.elems.length) :
    ∀ lock ∈ (dserv.mark sender id).lockSent, lock.nextPos < lock.elems.length := by
  unfold Dserver.mark
  split
  next => exact ahead
  next ref found =>
    unfold unlockMark
    dsimp only
    split
    next =>
      intro lock member
      exact ahead lock (List.mem_of_mem_filter member)
    next =>
      intro lock member
      obtain ⟨old, inSent, rfl⟩ := List.mem_map.mp member
      split
      next =>
        rw [markFinish_length]
        exact ahead old inSent
      next => exact ahead old inSent

theorem sentAhead_move {before after : LockWorld} (ahead : SentAhead before)
    (move : LockMove before after) : SentAhead after := by
  cases move with
  | submit op fresh => exact ahead
  | receive packet rest pkt servId inFlight dst asks here =>
      exact sentAhead_update ahead (ahead servId)
  | take servId junk lock front back queued free =>
      apply @sentAhead_update before before.net _ servId _ ahead
      rw [ilockTakeDone_lockSent]
      split
      next forwarded =>
        intro kept member
        rcases List.mem_append.mp member with old | new
        · exact ahead servId kept old
        · rw [List.mem_singleton.mp new]
          show lock.nextPos < lock.elems.length
          unfold ilockNext at forwarded
          split at forwarded
          next => exact absurd forwarded Bool.false_ne_true
          next remaining => omega
      next => exact ahead servId
  | unlock packet rest sender servId id inFlight src dst body =>
      exact sentAhead_update ahead (sentAhead_mark _ sender id (ahead servId))
  | ended packet rest id inFlight body => exact ahead

theorem sentAhead_reachable {world : LockWorld} (reached : lockSystem.Reachable world) :
    LockInvariant world ∧ SentAhead world :=
  reachable_of_moves SentAhead (fun _ _ member => absurd member List.not_mem_nil)
    (fun _ _ _ ahead move => sentAhead_move ahead move) reached

/-! ## Who is forgotten -/

/-- An operation of several servers is remembered by its first one. -/
theorem remembered {world : LockWorld} (invariant : LockInvariant world) {op : Operation}
    (submitted : op ∈ world.submitted) (finished : Finished world op) {first second : Int}
    {rest : List Int} (servers : op.servIds = first :: second :: rest) :
    ∃ lock ∈ (world.dservs first).lockSent, lock.id = op.id := by
  have increasing := op.increasing
  rw [← Operation.servIds, servers] at increasing
  have below := (List.pairwise_cons.mp increasing).1
  have lastMember : (second :: rest).getLast (List.cons_ne_nil _ _) ∈ op.servIds := by
    rw [servers]
    exact List.mem_cons_of_mem _ (List.getLast_mem _)
  have atLast : op.servIds.getLast? = some ((second :: rest).getLast (List.cons_ne_nil _ _)) := by
    rw [servers, List.getLast?_cons_cons, List.getLast?_eq_some_getLast]
  have takenLast := finished.last _ atLast
  -- the operation was taken at the last server, hence before at the first
  obtain ⟨stage, progress⟩ := invariant.progress op submitted
  have reached := (progress.taken _).mp takenLast
  have positive : 0 < stage := by
    by_contra atStart
    have zero : stage = 0 := by omega
    rw [zero, List.take_zero] at reached
    exact List.not_mem_nil reached
  have takenFirst : op.id ∈ (world.dservs first).taken := by
    rw [progress.taken, servers]
    obtain ⟨previous, rfl⟩ := Nat.exists_eq_succ_of_ne_zero positive.ne'
    exact List.mem_cons_self
  obtain ⟨owner, ownerSubmitted, sameId, keeps⟩ :=
    (invariant.dservs first).taken op.id takenFirst
  obtain rfl := invariant.op_unique ownerSubmitted submitted sameId
  exact keeps _ lastMember (below _ (List.getLast_mem _))

/-- An operation of one server leaves nothing behind. -/
theorem forgotten_of_single {world : LockWorld} (invariant : LockInvariant world)
    (ahead : SentAhead world) {op : Operation} (submitted : op ∈ world.submitted)
    (finished : Finished world op) {only : Int} (servers : op.servIds = [only]) :
    Forgotten world op := by
  have takenOnly : op.id ∈ (world.dservs only).taken := by
    apply finished.last
    rw [servers]
    rfl
  obtain ⟨stage, progress⟩ := invariant.progress op submitted
  have passed : op.servIds[stage]? = none := by
    have reached := (progress.taken only).mp takenOnly
    rw [servers] at reached ⊢
    rw [List.getElem?_eq_none_iff]
    by_contra early
    have zero : stage = 0 := by
      rw [List.length_singleton] at early
      omega
    rw [zero, List.take_zero] at reached
    exact List.not_mem_nil reached
  have unsent : ∀ servId, ∀ lock ∈ (world.dservs servId).lockSent, lock.id ≠ op.id := by
    intro servId lock member same
    obtain ⟨owner, ownerSubmitted, position, here, ownerId, pos, names, _⟩ :=
      (invariant.dservs servId).sent lock member
    obtain rfl := invariant.op_unique ownerSubmitted submitted (ownerId.symm.trans same)
    have further := ahead servId lock member
    have length := congrArg List.length names
    rw [servers, List.length_map, List.length_singleton] at length
    omega
  intro servId
  have known := invariant.dservs servId
  refine ⟨?_, unsent servId, ?_⟩
  · cases found : (world.dservs servId).locks.lookup op.id with
    | none => rfl
    | some ref =>
        obtain ⟨lock, inSent, lockId, _⟩ := known.entries op.id ref found
        exact absurd lockId (unsent servId lock inSent)
  · intro lock member same
    have requests := progress.requests servId
    rw [passed, LockWorld.requestsAt, if_neg (by simp)] at requests
    have counted : 0 < (world.dservs servId).lockWaiting.countP
        (fun lock => decide (lock.id = op.id)) :=
      List.countP_pos_iff.mpr ⟨lock, member, by simpa using same⟩
    omega

/-- **When a finished chained lock is forgotten.**  Exactly the operations that
name a single data server are. -/
theorem forgotten_iff_single {world : LockWorld} (reached : lockSystem.Reachable world)
    {op : Operation} (submitted : op ∈ world.submitted) (finished : Finished world op) :
    Forgotten world op ↔ op.servs.length = 1 := by
  obtain ⟨invariant, ahead⟩ := sentAhead_reachable reached
  have sameLength : op.servIds.length = op.servs.length := List.length_map _
  rw [← sameLength]
  constructor
  · intro forgotten
    match servers : op.servIds with
    | [] =>
        have empty := List.map_eq_nil_iff.mp servers
        exact absurd empty op.nonempty
    | [_] => rfl
    | first :: second :: rest =>
        obtain ⟨lock, inSent, lockId⟩ := remembered invariant submitted finished servers
        exact absurd lockId ((forgotten first).2.1 lock inSent)
  · intro single
    obtain ⟨only, servers⟩ := List.length_eq_one_iff.mp single
    exact forgotten_of_single invariant ahead submitted finished servers

/-- Operation number 1 of client 3, at server 1 only. -/
def opSingle : Operation where
  id := ⟨3, 1⟩
  clientId := 3
  servs := [(1, ⟨3, 1⟩)]
  nonempty := by simp
  increasing := by simp

/-- One operation of a single server and one of two servers run to their ends. -/
def finishedWorld : LockWorld :=
  lockSystem.outcome emptyLockWorld
    [.submit opSingle, .submit opFirst, .deliver 0 0, .deliver 0 0, .deliver 1 0, .deliver 1 0]

theorem finishedWorld_reached : lockSystem.Reachable finishedWorld :=
  System.reachable_outcome rfl _

theorem finishedWorld_quiet : finishedWorld.net.map Packet.body =
    [.lockEnd opSingle.id, .lockEnd opFirst.id] := rfl

theorem finishedWorld_delivered (id : SId) :
    ∀ packet ∈ finishedWorld.net, packet.body ≠ .lockUnlock id := by
  intro packet member releases
  have listed := List.mem_map_of_mem (f := Packet.body) member
  rw [finishedWorld_quiet, releases] at listed
  simp at listed

theorem forgotten_iff_single_run :
    Forgotten finishedWorld opSingle ↔ opSingle.servs.length = 1 := by
  apply forgotten_iff_single finishedWorld_reached
  · exact List.mem_cons_of_mem _ List.mem_cons_self
  · refine ⟨?_, finishedWorld_delivered _⟩
    intro servId last
    cases last
    decide

/-- The operation over servers 1 and 2 has run to its end, and server 1 still
keeps its lock. -/
theorem not_always_forgotten :
    ¬ ∀ world, lockSystem.Reachable world → ∀ op ∈ world.submitted, Finished world op →
      Forgotten world op := by
  intro always
  have finished : Finished finishedWorld opFirst := by
    refine ⟨?_, finishedWorld_delivered _⟩
    intro servId last
    cases last
    decide
  have forgotten := always finishedWorld finishedWorld_reached opFirst List.mem_cons_self finished
  have empty := (forgotten 1).1
  revert empty
  decide

end SimpleDfs.Dserv
