import SimpleDfs.Dserv.Network

/-!
Contract: a run of the chained lock as a sequence of elementary moves.

Owns: `LockMove`, which takes a delivery apart into the receipt of a packet and
the single releases it causes; the theorem that every step is a sequence of
moves; and what the handlers leave in `lock_waiting`.

A lock that meets no conflict on arrival is treated as one that is queued and
released at once, which leaves the same state.

Does not own: any invariant of the moves.
-/

set_option autoImplicit false

namespace SimpleDfs.Dserv

open SimpleDfs.Common
open SimpleDfs.Library

/-! ## What `ilock_take_done` changes -/

section TakeDone

variable (core : Core) (dserv : Dserver) (lock : CoreLock)

@[simp] theorem ilockTakeDone_taken :
    (ilockTakeDone core dserv lock).1.taken = dserv.taken ++ [lock.id] := by
  unfold ilockTakeDone
  cases ret : (ilockNext core lock).2 <;> simp [ret]

@[simp] theorem ilockTakeDone_lockWaiting :
    (ilockTakeDone core dserv lock).1.lockWaiting = dserv.lockWaiting := by
  unfold ilockTakeDone
  cases ret : (ilockNext core lock).2 <;> simp [ret]

@[simp] theorem ilockTakeDone_created :
    (ilockTakeDone core dserv lock).1.created = dserv.created := by
  unfold ilockTakeDone
  cases ret : (ilockNext core lock).2 <;> simp [ret]

theorem ilockTakeDone_sends :
    (ilockTakeDone core dserv lock).2 = ilockUnlock core lock ++ (ilockNext core lock).1 := by
  unfold ilockTakeDone
  cases ret : (ilockNext core lock).2 <;> simp [ret]

theorem ilockTakeDone_lockSent :
    (ilockTakeDone core dserv lock).1.lockSent =
      if (ilockNext core lock).2 then
        dserv.lockSent ++ [{ lock with pkt := lock.nextPacket }]
      else dserv.lockSent := by
  unfold ilockTakeDone
  cases ret : (ilockNext core lock).2 <;> simp [ret]

theorem ilockTakeDone_locks :
    (ilockTakeDone core dserv lock).1.locks =
      if (ilockNext core lock).2 then dserv.locks.insert lock.id lock.ref
      else dserv.locks.erase lock.id := by
  unfold ilockTakeDone
  cases ret : (ilockNext core lock).2 <;> simp [ret]

end TakeDone

/-! ## Updates of the world -/

theorem LockWorld.update_same (world : LockWorld) (servId : Int) :
    world.update servId (world.dservs servId) [] = world := by
  simp [LockWorld.update]

theorem LockWorld.update_update (world : LockWorld) (servId : Int) (first second : Dserver)
    (sends more : Sends) :
    (world.update servId first sends).update servId second more =
      world.update servId second (sends ++ more) := by
  simp [LockWorld.update]

@[simp] theorem LockWorld.update_dservs_same (world : LockWorld) (servId : Int)
    (dserv : Dserver) (sends : Sends) :
    (world.update servId dserv sends).dservs servId = dserv := by
  simp [LockWorld.update]

theorem LockWorld.update_dservs_ne (world : LockWorld) {servId other : Int}
    (different : other ≠ servId) (dserv : Dserver) (sends : Sends) :
    (world.update servId dserv sends).dservs other = world.dservs other := by
  simp [LockWorld.update, different]

@[simp] theorem LockWorld.update_net (world : LockWorld) (servId : Int) (dserv : Dserver)
    (sends : Sends) : (world.update servId dserv sends).net = world.net ++ sends := rfl

@[simp] theorem LockWorld.update_submitted (world : LockWorld) (servId : Int)
    (dserv : Dserver) (sends : Sends) :
    (world.update servId dserv sends).submitted = world.submitted := rfl

/-! ## Moves -/

/-- The data server with a new lock at the end of `lock_waiting`. -/
def Dserver.park (dserv : Dserver) (pkt : LockPacket) : Dserver :=
  { dserv with
    created := dserv.created + 1
    lockWaiting := dserv.lockWaiting ++ [createLock dserv.created pkt] }

/-- The data server once LOCK_UNLOCK has marked its sender. -/
def Dserver.mark (dserv : Dserver) (servId : Int) (id : SId) : Dserver :=
  match dserv.locks.lookup id with
  | none => dserv
  | some ref => unlockMark dserv servId id ref

/-- The packet asks for a lock. -/
def Requests (packet : Packet Peer LockBody) (pkt : LockPacket) : Prop :=
  (∃ client, packet.src = .client client ∧ packet.body = .lockStart pkt) ∨
    ∃ servId, packet.src = .dserv servId ∧ packet.body = .lockNext pkt

inductive LockMove : LockWorld → LockWorld → Prop
  | submit (world : LockWorld) (op : Operation)
      (fresh : op.id ∉ world.submitted.map Operation.id) :
      LockMove world
        { world with
          submitted := op :: world.submitted
          net := world.net ++
            [{ src := .client op.clientId, dst := .dserv op.first
               body := .lockStart (op.packet 0) }] }
  | receive (world : LockWorld) (packet : Packet Peer LockBody) (rest : Sends)
      (pkt : LockPacket) (servId : Int) (inFlight : world.net.Perm (packet :: rest))
      (dst : packet.dst = .dserv servId) (asks : Requests packet pkt)
      (here : pkt.servs[pkt.curr]?.map Prod.fst = some servId) :
      LockMove world
        ({ world with net := rest }.update servId ((world.dservs servId).park pkt) [])
  | take (world : LockWorld) (servId junk : Int) (lock : CoreLock) (front back : List CoreLock)
      (queued : (world.dservs servId).lockWaiting = front ++ lock :: back)
      (free : ilockConflictAll (connectedCore servId junk) (world.dservs servId) lock = false) :
      LockMove world
        (world.update servId
          (ilockTakeDone (connectedCore servId junk)
            { world.dservs servId with lockWaiting := front ++ back } lock).1
          (ilockTakeDone (connectedCore servId junk)
            { world.dservs servId with lockWaiting := front ++ back } lock).2)
  | unlock (world : LockWorld) (packet : Packet Peer LockBody) (rest : Sends)
      (sender servId : Int) (id : SId) (inFlight : world.net.Perm (packet :: rest))
      (src : packet.src = .dserv sender) (dst : packet.dst = .dserv servId)
      (body : packet.body = .lockUnlock id) :
      LockMove world
        ({ world with net := rest }.update servId ((world.dservs servId).mark sender id) [])
  | ended (world : LockWorld) (packet : Packet Peer LockBody) (rest : Sends) (id : SId)
      (inFlight : world.net.Perm (packet :: rest)) (body : packet.body = .lockEnd id) :
      LockMove world { world with net := rest }

/-- Some moves in a row. -/
abbrev LockMoves : LockWorld → LockWorld → Prop :=
  Relation.ReflTransGen LockMove

/-! ## Every step is a sequence of moves -/

theorem ilockConflictAll_park (core : Core) (dserv : Dserver) (pkt : LockPacket)
    (lock : CoreLock) :
    ilockConflictAll core (dserv.park pkt) lock = ilockConflictAll core dserv lock := rfl

/-- The rescan releases one waiting lock after the other. -/
theorem moves_of_rescan (servId junk : Int) (fuel : Nat) :
    ∀ world : LockWorld,
      LockMoves world
        (world.update servId (rescan (connectedCore servId junk) fuel (world.dservs servId)).1
          (rescan (connectedCore servId junk) fuel (world.dservs servId)).2) := by
  induction fuel with
  | zero =>
      intro world
      rw [rescan, LockWorld.update_same]
  | succ fuel inductionHypothesis =>
      intro world
      rw [rescan]
      split
      next =>
        rw [LockWorld.update_same]
      next lock found =>
        obtain ⟨free, front, back, queued, blocked⟩ := List.find?_eq_some_iff_append.mp found
        have remaining : (world.dservs servId).lockWaiting.eraseP
            (fun lock => !ilockConflictAll (connectedCore servId junk) (world.dservs servId) lock) =
            front ++ back := by
          rw [queued, List.eraseP_append_right _ (by simpa using blocked)]
          exact congrArg (front ++ ·) (List.eraseP_cons_of_pos free)
        rw [remaining]
        have move := LockMove.take world servId junk lock front back queued (by simpa using free)
        have later := inductionHypothesis (world.update servId
          (ilockTakeDone (connectedCore servId junk)
            { world.dservs servId with lockWaiting := front ++ back } lock).1
          (ilockTakeDone (connectedCore servId junk)
            { world.dservs servId with lockWaiting := front ++ back } lock).2)
        rw [LockWorld.update_dservs_same, LockWorld.update_update] at later
        exact Relation.ReflTransGen.head move later

theorem moves_of_lock {world : LockWorld} {packet : Packet Peer LockBody} {rest : Sends}
    {pkt : LockPacket} {servId junk : Int} {after : Dserver × Sends}
    (inFlight : world.net.Perm (packet :: rest)) (dst : packet.dst = .dserv servId)
    (asks : Requests packet pkt)
    (handled : sCoreDservLock (connectedCore servId junk) (world.dservs servId) pkt =
      some after) :
    LockMoves world ({ world with net := rest }.update servId after.1 after.2) := by
  unfold sCoreDservLock at handled
  split at handled
  next here =>
    have received := LockMove.receive world packet rest pkt servId inFlight dst asks here
    dsimp only at handled
    split at handled
    next conflict =>
      cases handled
      exact Relation.ReflTransGen.single received
    next noConflict =>
      cases handled
      refine Relation.ReflTransGen.head received (Relation.ReflTransGen.single ?_)
      have queued : ((({ world with net := rest } : LockWorld).update servId
          ((world.dservs servId).park pkt) []).dservs servId).lockWaiting =
          (world.dservs servId).lockWaiting ++ createLock (world.dservs servId).created pkt :: [] :=
        by rw [LockWorld.update_dservs_same, Dserver.park]
      have move := LockMove.take _ servId junk _ _ _ queued (by
        rw [LockWorld.update_dservs_same, ilockConflictAll_park]
        exact Bool.eq_false_iff.mpr noConflict)
      rw [LockWorld.update_dservs_same, LockWorld.update_update] at move
      simpa [Dserver.park] using move
  next => cases handled

theorem moves_of_unlock {world : LockWorld} {packet : Packet Peer LockBody} {rest : Sends}
    {sender servId junk : Int} {id : SId} (inFlight : world.net.Perm (packet :: rest))
    (src : packet.src = .dserv sender) (dst : packet.dst = .dserv servId)
    (body : packet.body = .lockUnlock id) :
    LockMoves world ({ world with net := rest }.update servId
      (sCoreDservLockUnlock (connectedCore servId junk) (world.dservs servId) sender id).1
      (sCoreDservLockUnlock (connectedCore servId junk) (world.dservs servId) sender id).2) := by
  have marked := LockMove.unlock world packet rest sender servId id inFlight src dst body
  unfold sCoreDservLockUnlock
  unfold Dserver.mark at marked
  split
  next absent =>
    simp only [absent] at marked
    exact Relation.ReflTransGen.single marked
  next ref found =>
    simp only [found] at marked
    have scanned := moves_of_rescan servId junk
      (unlockMark (world.dservs servId) sender id ref).lockWaiting.length
      (({ world with net := rest } : LockWorld).update servId
        (unlockMark (world.dservs servId) sender id ref) [])
    rw [LockWorld.update_dservs_same, LockWorld.update_update, List.nil_append] at scanned
    exact Relation.ReflTransGen.head marked scanned

/-- A packet travels between the peers its type is meant for. -/
def WellAddressed (packet : Packet Peer LockBody) : Prop :=
  match packet.body with
  | .lockStart _ => ∃ client servId, packet.src = .client client ∧ packet.dst = .dserv servId
  | .lockNext _ => ∃ sender servId, packet.src = .dserv sender ∧ packet.dst = .dserv servId
  | .lockUnlock _ => ∃ sender servId, packet.src = .dserv sender ∧ packet.dst = .dserv servId
  | .lockEnd _ => ∃ client, packet.dst = .client client

/-- **Refinement.**  Every step of the network is a sequence of moves. -/
theorem moves_of_step {world after : LockWorld} {event : LockEvent}
    (addressed : ∀ packet ∈ world.net, WellAddressed packet)
    (stepped : lockSystem.step world event = some after) : LockMoves world after := by
  change world.step event = some after at stepped
  cases event with
  | submit op =>
      rw [LockWorld.step] at stepped
      split at stepped
      next => cases stepped
      next fresh =>
        cases stepped
        exact Relation.ReflTransGen.single (LockMove.submit world op fresh)
  | deliver index junk =>
      rw [LockWorld.step] at stepped
      split at stepped
      next => cases stepped
      next packet rest taken =>
        have inFlight := Packet.perm_of_takeAt taken
        have known := addressed packet (Packet.mem_of_takeAt taken)
        unfold WellAddressed at known
        cases body : packet.body with
        | lockStart pkt =>
            simp only [body] at known
            obtain ⟨client, servId, src, dst⟩ := known
            simp only [dst, dispatch, src, body] at stepped
            split at stepped
            next => cases stepped
            next dserv sends handled =>
              cases stepped
              exact moves_of_lock inFlight dst (Or.inl ⟨client, src, body⟩) handled
        | lockNext pkt =>
            simp only [body] at known
            obtain ⟨sender, servId, src, dst⟩ := known
            simp only [dst, dispatch, src, body] at stepped
            split at stepped
            next => cases stepped
            next dserv sends handled =>
              cases stepped
              exact moves_of_lock inFlight dst (Or.inr ⟨sender, src, body⟩) handled
        | lockUnlock id =>
            simp only [body] at known
            obtain ⟨sender, servId, src, dst⟩ := known
            simp only [dst, dispatch, src, body] at stepped
            cases stepped
            exact moves_of_unlock inFlight src dst body
        | lockEnd id =>
            simp only [body] at known
            obtain ⟨client, dst⟩ := known
            simp only [dst] at stepped
            cases stepped
            exact Relation.ReflTransGen.single (LockMove.ended world packet rest id inFlight body)

end SimpleDfs.Dserv
