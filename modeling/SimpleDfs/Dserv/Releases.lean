import SimpleDfs.Dserv.Preservation

/-!
Contract: one delivery to a data server as an arrival and some releases.

Owns: the ints of a lock request and its patching in place; `Releases`, what a
handler takes off `lock_waiting` and sends for it; and how many of the packets
sent concern one operation.

Nothing here is assumed of the requests: their lists may be unsorted, repeat a
server or name the wrong one.

Does not own: the runs in which packets are delivered.
-/

set_option autoImplicit false

namespace SimpleDfs.Dserv

open SimpleDfs.Common
open SimpleDfs.Library

/-! ## The ints of a request -/

/-- What a client writes into LOCK_START, int by int. -/
def LockPacket.ints (pkt : LockPacket) : List Int :=
  [(pkt.curr : Int), (pkt.servs.length : Int), pkt.clientId, (pkt.id.x : Int), (pkt.id.y : Int)] ++
    pkt.servs.flatMap fun serv => [serv.1, (serv.2.x : Int), (serv.2.y : Int)]

/-- The reads of the element loop of `s_core_dserv_lock`. -/
def readServs : Nat → List Int → Option (List (Int × SId))
  | 0, _ => some []
  | nserv + 1, servId :: x :: y :: rest =>
      (readServs nserv rest).map fun servs => (servId, ⟨x.toNat, y.toNat⟩) :: servs
  | _ + 1, _ => none

/-- The reads of `s_core_dserv_lock`; `none` is its error label. -/
def readLock : List Int → Option LockPacket
  | curr :: nserv :: clientId :: x :: y :: rest =>
      (readServs nserv.toNat rest).map fun servs =>
        { curr := curr.toNat, clientId := clientId, id := ⟨x.toNat, y.toNat⟩, servs := servs }
  | _ => none

/-- The write of `ilock_next` at the start of the packet it forwards. -/
def writeCurr (ints : List Int) (nextPos : Nat) : List Int :=
  ints.set 0 (nextPos : Int)

theorem readServs_flatMap (servs : List (Int × SId)) :
    readServs servs.length
      (servs.flatMap fun serv => [serv.1, (serv.2.x : Int), (serv.2.y : Int)]) = some servs := by
  induction servs with
  | nil => rfl
  | cons head tail inductionHypothesis =>
      rw [List.length_cons, List.flatMap_cons]
      simp only [List.cons_append, List.nil_append, readServs]
      rw [inductionHypothesis]
      simp

/-- A data server reads what the client wrote. -/
theorem readLock_ints (pkt : LockPacket) : readLock pkt.ints = some pkt := by
  simp only [LockPacket.ints, List.cons_append, List.nil_append, readLock, Int.toNat_natCast]
  rw [readServs_flatMap]
  rfl

/-- Patching the position in place is what forwarding does to the packet. -/
theorem writeCurr_nextPacket (lock : CoreLock) :
    writeCurr lock.pkt.ints lock.nextPos = lock.nextPacket.ints := rfl

/-! ## What a handler releases -/

/-- The packets of one `ilock_take_done`. -/
def takeSends (core : Core) (lock : CoreLock) : Sends :=
  ilockUnlock core lock ++ (ilockNext core lock).1

/-- The locks in `arrived` join the waiting ones, those in `released` are taken
in that order, and nothing else is sent. -/
structure Releases (core : Core) (before after : Dserver) (sends : Sends)
    (arrived released : List CoreLock) : Prop where
  waiting : (before.lockWaiting ++ arrived).Perm (released ++ after.lockWaiting)
  taken : after.taken = before.taken ++ released.map CoreLock.id
  sends : sends = released.flatMap (takeSends core)

theorem releases_none (core : Core) (dserv : Dserver) : Releases core dserv dserv [] [] [] where
  waiting := by simp
  taken := by simp
  sends := rfl

theorem releases_rescan (core : Core) (fuel : Nat) :
    ∀ dserv : Dserver, ∃ released,
      Releases core dserv (rescan core fuel dserv).1 (rescan core fuel dserv).2 [] released := by
  induction fuel with
  | zero => exact fun dserv => ⟨[], releases_none core dserv⟩
  | succ fuel inductionHypothesis =>
      intro dserv
      rw [rescan]
      split
      next => exact ⟨[], releases_none core dserv⟩
      next lock found =>
        have member := List.mem_of_find?_eq_some found
        have free := List.find?_some found
        -- the first free lock is taken, the rest is rescanned
        have first : dserv.lockWaiting.Perm
            (lock :: dserv.lockWaiting.eraseP
              fun lock => !ilockConflictAll core dserv lock) := by
          obtain ⟨_, front, back, queued, blocked⟩ := List.find?_eq_some_iff_append.mp found
          rw [queued, List.eraseP_append_right _ (by simpa using blocked)]
          have kept : (lock :: back).eraseP (fun lock => !ilockConflictAll core dserv lock) =
              back := List.eraseP_cons_of_pos free
          rw [kept]
          exact List.perm_middle
        obtain ⟨released, more⟩ := inductionHypothesis
          (ilockTakeDone core
            { dserv with
              lockWaiting := dserv.lockWaiting.eraseP
                fun lock => !ilockConflictAll core dserv lock } lock).1
        refine ⟨lock :: released, ?_, ?_, ?_⟩
        · have rest := more.waiting
          rw [ilockTakeDone_lockWaiting, List.append_nil] at rest
          rw [List.append_nil]
          exact first.trans (rest.cons lock)
        · rw [more.taken, ilockTakeDone_taken]
          simp
        · rw [List.flatMap_cons, ← more.sends, takeSends, ← ilockTakeDone_sends]

theorem releases_lock {core : Core} {dserv : Dserver} {pkt : LockPacket}
    {after : Dserver × Sends} (handled : sCoreDservLock core dserv pkt = some after) :
    ∃ released, Releases core dserv after.1 after.2 [createLock dserv.created pkt] released := by
  unfold sCoreDservLock at handled
  dsimp only at handled
  split at handled
  next =>
    split at handled
    next =>
      cases handled
      exact ⟨[], by simp, by simp, rfl⟩
    next =>
      cases handled
      refine ⟨[createLock dserv.created pkt], ?_, ?_, ?_⟩
      · rw [ilockTakeDone_lockWaiting]
        exact List.perm_append_comm
      · rw [ilockTakeDone_taken]
        rfl
      · rw [ilockTakeDone_sends]
        simp [takeSends]
  next => cases handled

theorem releases_unlock (core : Core) (dserv : Dserver) (servId : Int) (id : SId) :
    ∃ released, Releases core dserv (sCoreDservLockUnlock core dserv servId id).1
      (sCoreDservLockUnlock core dserv servId id).2 [] released := by
  cases found : dserv.locks.lookup id with
  | none =>
      simp only [sCoreDservLockUnlock, found]
      exact ⟨[], releases_none core dserv⟩
  | some ref =>
      simp only [sCoreDservLockUnlock, found]
      -- marking leaves `lock_waiting` and the taken operations alone
      have marked : unlockMark dserv servId id ref = dserv.mark servId id := by
        simp only [Dserver.mark, found]
      rw [marked]
      obtain ⟨released, scanned⟩ := releases_rescan core
        (dserv.mark servId id).lockWaiting.length (dserv.mark servId id)
      refine ⟨released, ?_, ?_, scanned.sends⟩
      · have waiting := scanned.waiting
        rw [mark_lockWaiting] at waiting ⊢
        exact waiting
      · have taken := scanned.taken
        rw [mark_taken] at taken
        exact taken

/-- The lock a packet brings to a data server. -/
def arrivals (dserv : Dserver) (packet : Packet Peer LockBody) : List CoreLock :=
  match packet.src, packet.body with
  | .client _, .lockStart pkt => [createLock dserv.created pkt]
  | .dserv _, .lockNext pkt => [createLock dserv.created pkt]
  | _, _ => []

/-- Every delivery is an arrival and some releases. -/
theorem releases_dispatch {core : Core} {dserv : Dserver} {packet : Packet Peer LockBody}
    {after : Dserver × Sends} (handled : dispatch core dserv packet = some after) :
    ∃ released, Releases core dserv after.1 after.2 (arrivals dserv packet) released := by
  unfold dispatch at handled
  split at handled
  next client pkt src body =>
    simp only [arrivals, src, body]
    exact releases_lock handled
  next sender pkt src body =>
    simp only [arrivals, src, body]
    exact releases_lock handled
  next sender id src body =>
    cases handled
    simp only [arrivals, src, body]
    exact releases_unlock core dserv sender id
  next notStart notNext _ =>
    cases handled
    refine ⟨[], ?_⟩
    unfold arrivals
    split
    next client pkt src body => exact (notStart client pkt src body).elim
    next sender pkt src body => exact (notNext sender pkt src body).elim
    next => exact releases_none core dserv

/-! ## What the releases send -/

/-- The packet tells a client that operation `id` has come to its end. -/
def endsOp (id : SId) (packet : Packet Peer LockBody) : Bool :=
  decide (packet.body = .lockEnd id)

/-- If each lock of operation `id` sends `share` packets that pass the test and
no other lock sends one, the locks together send `share` for each of the
operation. -/
theorem countP_flatMap_takeSends {core : Core} {locks : List CoreLock} {id : SId} {share : Nat}
    {test : Packet Peer LockBody → Bool}
    (each : ∀ lock ∈ locks, (takeSends core lock).countP test = if lock.id = id then share else 0) :
    (locks.flatMap (takeSends core)).countP test =
      locks.countP (fun lock => decide (lock.id = id)) * share := by
  induction locks with
  | nil => simp
  | cons head tail inductionHypothesis =>
      have first := each head List.mem_cons_self
      have others := inductionHypothesis fun lock member =>
        each lock (List.mem_cons_of_mem head member)
      rw [List.flatMap_cons, List.countP_append, first, others, List.countP_cons]
      by_cases same : head.id = id
      · simp [same, Nat.add_mul, Nat.add_comm]
      · simp [same]

/-- A packet of `ilock_take_done` names the id the lock was created with. -/
theorem mem_takeSends {core : Core} {pkt : LockPacket} {ref : Nat}
    {packet : Packet Peer LockBody}
    (member : packet ∈ takeSends core (createLock ref pkt)) :
    packet.body = .lockUnlock pkt.id ∨
      (packet.body = .lockEnd pkt.id ∧ packet.dst = .client pkt.clientId) ∨
      ∃ onward, packet.body = .lockNext onward ∧ onward.id = pkt.id ∧
        packet.src = .dserv core.id := by
  have sent : ∀ {dst : Peer} {body : LockBody}, packet ∈ core.send dst body →
      packet.src = .dserv core.id ∧ packet.dst = dst ∧ packet.body = body := by
    intro dst body inSend
    unfold Core.send at inSend
    split at inSend
    next =>
      rw [List.mem_singleton.mp inSend]
      exact ⟨rfl, rfl, rfl⟩
    next => exact absurd inSend List.not_mem_nil
  rcases List.mem_append.mp member with release | next
  · unfold ilockUnlock at release
    split at release
    next => exact absurd release List.not_mem_nil
    next =>
      obtain ⟨elem, _, inSend⟩ := List.mem_flatMap.mp release
      exact Or.inl (sent inSend).2.2
  · right
    unfold ilockNext at next
    split at next
    next => exact Or.inl ⟨(sent next).2.2, (sent next).2.1⟩
    next => exact Or.inr ⟨_, (sent next).2.2, rfl, (sent next).1⟩

/-- The lock of a stranger asks nobody for operation `id`, and ends nothing. -/
theorem countP_takeSends_stranger {core : Core} {pkt : LockPacket} {ref : Nat} {id : SId}
    (stranger : pkt.id ≠ id) (servId : Int) :
    (takeSends core (createLock ref pkt)).countP (carries id servId) = 0 ∧
      (takeSends core (createLock ref pkt)).countP (endsOp id) = 0 := by
  constructor
  · refine List.countP_eq_zero.mpr fun packet member => ?_
    rcases mem_takeSends member with body | ⟨body, _⟩ | ⟨onward, body, named, _⟩
    · simp [carries, body]
    · simp [carries, body]
    · simp [carries, body, named, stranger]
  · refine List.countP_eq_zero.mpr fun packet member => ?_
    rcases mem_takeSends member with body | ⟨body, _⟩ | ⟨onward, body, _⟩
    · simp [endsOp, body]
    · simp [endsOp, body, stranger]
    · simp [endsOp, body]

theorem takeSends_operation (op : Operation) (stage ref : Nat) (servId junk : Int) :
    takeSends (connectedCore servId junk) (createLock ref (op.packet stage)) =
      unlockPackets servId op.id (op.servIds.take stage) ++ [onward op stage servId] := by
  rw [takeSends, ilockUnlock_createLock, ilockNext_createLock]

/-- The lock of an operation asks its next server, or ends the operation if
there is none. -/
theorem countP_takeSends_operation (op : Operation) (stage ref : Nat) (servId junk other : Int) :
    (takeSends (connectedCore servId junk) (createLock ref (op.packet stage))).countP
        (carries op.id other) = (if op.servIds[stage + 1]? = some other then 1 else 0) ∧
      (takeSends (connectedCore servId junk) (createLock ref (op.packet stage))).countP
        (endsOp op.id) = if op.servIds.length ≤ stage + 1 then 1 else 0 := by
  rw [takeSends_operation, List.countP_append, List.countP_append, countP_unlockPackets,
    countP_onward]
  refine ⟨by simp, ?_⟩
  have releases : (unlockPackets servId op.id (op.servIds.take stage)).countP (endsOp op.id) = 0 := by
    rw [unlockPackets, List.countP_map]
    exact List.countP_eq_zero.mpr fun _ _ => by simp [endsOp]
  rw [releases, Nat.zero_add, onward]
  cases next : op.servIds[stage + 1]? with
  | none => simp [endsOp, List.getElem?_eq_none_iff.mp next]
  | some target =>
      obtain ⟨below, _⟩ := List.getElem?_eq_some_iff.mp next
      simp [endsOp, Nat.not_le.mpr below]

end SimpleDfs.Dserv
