import SimpleDfs.Dserv.Effects

/-!
Contract: every move keeps the invariant of the chained lock.

Owns: one preservation lemma for each move, the invariant of every reachable
state, and the fact that the assertion of `s_core_dserv_lock` never fails.

Does not own: the invariant's statement.
-/

set_option autoImplicit false

namespace SimpleDfs.Dserv

open SimpleDfs.Common
open SimpleDfs.Library

/-! ## Counting requests -/

theorem countP_of_perm {net rest : Sends} {packet : Packet Peer LockBody}
    (inFlight : net.Perm (packet :: rest)) (id : SId) (servId : Int) :
    net.countP (carries id servId) =
      rest.countP (carries id servId) + if carries id servId packet then 1 else 0 := by
  rw [inFlight.countP_eq, List.countP_cons]

theorem mem_of_inFlight {net rest : Sends} {packet other : Packet Peer LockBody}
    (inFlight : net.Perm (packet :: rest)) (member : other ∈ rest) : other ∈ net :=
  inFlight.mem_iff.mpr (List.mem_cons_of_mem packet member)

theorem countP_unlockPackets (servId other : Int) (id named : SId) (earlier : List Int) :
    (unlockPackets servId id earlier).countP (carries named other) = 0 := by
  rw [unlockPackets, List.countP_map]
  exact List.countP_eq_zero.mpr fun _ _ => by simp [carries]

/-! ## Submission -/

/-- An id that was never submitted occurs nowhere. -/
theorem LockInvariant.unused {world : LockWorld} (invariant : LockInvariant world) {id : SId}
    (fresh : id ∉ world.submitted.map Operation.id) (servId : Int) :
    id ∉ (world.dservs servId).taken ∧ world.requestsAt id servId = 0 := by
  have foreign : ∀ op ∈ world.submitted, op.id ≠ id := fun op member same =>
    fresh (List.mem_map.mpr ⟨op, member, same⟩)
  refine ⟨fun taken => ?_, ?_⟩
  · obtain ⟨op, member, same, _⟩ := (invariant.dservs servId).taken id taken
    exact foreign op member same
  · have inNet : world.net.countP (carries id servId) = 0 := by
      refine List.countP_eq_zero.mpr fun packet member => ?_
      have known := invariant.packets packet member
      unfold PacketKnown at known
      unfold carries
      cases body : packet.body with
      | lockStart pkt =>
          simp only [body] at known
          obtain ⟨op, submitted, _, rfl, _⟩ := known
          simp [Operation.packet, foreign op submitted]
      | lockNext pkt =>
          simp only [body] at known
          obtain ⟨op, submitted, _, _, _, rfl, _⟩ := known
          simp [Operation.packet, foreign op submitted]
      | lockUnlock id => simp
      | lockEnd id => simp
    have inWaiting : (world.dservs servId).lockWaiting.countP
        (fun lock => decide (lock.id = id)) = 0 := by
      refine List.countP_eq_zero.mpr fun lock member => ?_
      obtain ⟨op, submitted, stage, ref, _, rfl⟩ := (invariant.dservs servId).waiting lock member
      simp [foreign op submitted]
    rw [LockWorld.requestsAt, inNet, inWaiting]

theorem Operation.at_first (op : Operation) : op.At 0 op.first := by
  have head : op.servs[0]? = some (op.servs.head op.nonempty) := by
    rw [← List.head?_eq_getElem?, List.head?_eq_some_head]
  show (op.servs.map Prod.fst)[0]? = some (op.servs.head op.nonempty).1
  rw [List.getElem?_map, head, Option.map_some]

theorem lockInvariant_submit {world : LockWorld} (invariant : LockInvariant world)
    (op : Operation) (fresh : op.id ∉ world.submitted.map Operation.id) :
    LockInvariant { world with
      submitted := op :: world.submitted
      net := world.net ++
        [{ src := .client op.clientId, dst := .dserv op.first
           body := .lockStart (op.packet 0) }] } := by
  have grows : Grows world { world with
      submitted := op :: world.submitted
      net := world.net ++
        [{ src := .client op.clientId, dst := .dserv op.first
           body := .lockStart (op.packet 0) }] } :=
    ⟨List.subset_cons_self op world.submitted, fun _ => List.Subset.refl _⟩
  refine ⟨List.nodup_cons.mpr ⟨fresh, invariant.distinct⟩, ?_, ?_, ?_⟩
  · intro other member
    rcases List.mem_cons.mp member with rfl | old
    · refine ⟨0, ?_, ?_⟩
      · intro servId
        simpa using (invariant.unused fresh servId).1
      · intro servId
        have before := (invariant.unused fresh servId).2
        have first := other.at_first
        rw [Operation.At] at first
        rw [LockWorld.requestsAt] at before ⊢
        simp only [List.countP_append, List.countP_singleton, carries, Operation.packet,
          Peer.dserv.injEq, true_and, decide_eq_true_eq, first, Option.some.injEq]
        omega
    · obtain ⟨stage, progress⟩ := invariant.progress other old
      have different : op.id ≠ other.id := fun same =>
        fresh (List.mem_map.mpr ⟨other, old, same.symm⟩)
      refine ⟨stage, progress.congr (fun _ => Iff.rfl) fun servId => ?_⟩
      simp [LockWorld.requestsAt, carries, Operation.packet, different]
  · intro packet member
    rcases List.mem_append.mp member with old | new
    · exact (invariant.packets packet old).mono grows
    · rw [List.mem_singleton.mp new]
      exact ⟨op, List.mem_cons_self, op.first, rfl, op.at_first, rfl, rfl⟩
  · intro servId
    exact (invariant.dservs servId).mono grows

/-! ## Receipt of a request -/

theorem dservKnown_park {world : LockWorld} {servId : Int} {dserv : Dserver} {op : Operation}
    {stage : Nat} (known : DservKnown world servId dserv) (submitted : op ∈ world.submitted)
    (here : op.At stage servId) :
    DservKnown world servId (dserv.park (op.packet stage)) := by
  refine { known with waiting := ?_, addresses := ?_, allocated := ?_ }
  · intro lock member
    rcases List.mem_append.mp member with old | new
    · exact known.waiting lock old
    · exact ⟨op, submitted, stage, dserv.created, here, List.mem_singleton.mp new⟩
  · show ((dserv.lockSent ++ (dserv.lockWaiting ++ [_])).map CoreLock.ref).Nodup
    rw [← List.append_assoc, List.map_append, List.nodup_append]
    refine ⟨known.addresses, List.nodup_singleton _, ?_⟩
    intro ref old new member same
    obtain ⟨lock, inLists, rfl⟩ := List.mem_map.mp old
    have below := known.allocated lock inLists
    rw [List.mem_singleton.mp member] at same
    simp only [createLock_ref] at same
    omega
  · show ∀ lock ∈ dserv.lockSent ++ (dserv.lockWaiting ++ [_]), lock.ref < dserv.created + 1
    rw [← List.append_assoc]
    intro lock member
    rcases List.mem_append.mp member with old | new
    · exact Nat.lt_succ_of_lt (known.allocated lock old)
    · rw [List.mem_singleton.mp new]
      exact Nat.lt_succ_self _

theorem lockInvariant_receive {world : LockWorld} (invariant : LockInvariant world)
    {packet : Packet Peer LockBody} {rest : Sends} {pkt : LockPacket} {servId : Int}
    (inFlight : world.net.Perm (packet :: rest)) (dst : packet.dst = .dserv servId)
    (asks : Requests packet pkt) :
    LockInvariant
      ({ world with net := rest }.update servId ((world.dservs servId).park pkt) []) := by
  have member : packet ∈ world.net := inFlight.mem_iff.mpr List.mem_cons_self
  obtain ⟨op, submitted, stage, target, here, content, address, carried, _⟩ :=
    invariant.request_stage member asks
  obtain rfl : target = servId := by
    rw [address] at dst
    exact Peer.dserv.inj dst
  subst content
  have grows : Grows world
      ({ world with net := rest }.update target
        ((world.dservs target).park (op.packet stage)) []) :=
    grows_update (List.Subset.refl _)
  refine ⟨invariant.distinct, ?_, ?_, ?_⟩
  · intro other otherSubmitted
    obtain ⟨otherStage, progress⟩ := invariant.progress other otherSubmitted
    refine ⟨otherStage, progress.congr (fun s => ?_) (fun s => ?_)⟩
    · by_cases same : s = target
      · rw [same, LockWorld.update_dservs_same, Dserver.park]
      · rw [LockWorld.update_dservs_ne _ same]
    · -- the request leaves the network and joins the waiting locks of its server
      rw [LockWorld.requestsAt, LockWorld.requestsAt, LockWorld.update_net, List.append_nil,
        countP_of_perm inFlight]
      have carriedBy : carries other.id s packet = true ↔ op.id = other.id ∧ target = s := by
        rcases asks with ⟨_, _, body⟩ | ⟨_, _, body⟩ <;>
          simp [carries, body, address, Operation.packet]
      by_cases same : s = target
      · rw [same, LockWorld.update_dservs_same, Dserver.park, List.countP_append,
          List.countP_singleton]
        rw [same] at carriedBy
        by_cases sameOp : op.id = other.id
        · simp only [carriedBy, createLock_id, sameOp, decide_true, and_self, if_true]
          omega
        · simp only [carriedBy, createLock_id, sameOp, decide_false, false_and, if_false,
            Bool.false_eq_true]
          omega
      · rw [LockWorld.update_dservs_ne _ same]
        have absent : ¬ carries other.id s packet = true := fun yes =>
          same (carriedBy.mp yes).2.symm
        rw [if_neg absent]
        rfl
  · intro other inNet
    rw [LockWorld.update_net, List.append_nil] at inNet
    exact (invariant.packets other (mem_of_inFlight inFlight inNet)).mono grows
  · refine dservKnown_update invariant.dservs grows ?_
    exact dservKnown_park ((invariant.dservs target).mono grows) submitted here

/-! ## Release packets -/

/-- A lock as LOCK_UNLOCK from `sender` leaves it. -/
def CoreLock.marked (lock : CoreLock) (sender : Int) : CoreLock :=
  { lock with elems := (markFinish sender true lock.elems).1 }

/-- LOCK_UNLOCK marks one sent lock and removes none. -/
theorem mark_eq {world : LockWorld} {servId sender : Int} {dserv : Dserver} {id : SId} {ref : Nat}
    (known : DservKnown world servId dserv) (later : servId < sender)
    (found : dserv.locks.lookup id = some ref) :
    dserv.mark sender id =
      { dserv with
        lockSent := dserv.lockSent.map fun lock =>
          if lock.ref = ref then lock.marked sender else lock } := by
  have alive : (dserv.lockSent.any fun lock =>
      lock.ref == ref && (markFinish sender true lock.elems).2) = false := by
    rw [List.any_eq_false]
    intro lock member
    rw [(known.sent lock member).alive later, Bool.and_false]
    exact Bool.false_ne_true
  simp only [Dserver.mark, found, unlockMark, alive, Bool.false_eq_true, if_false]
  rfl

theorem DservKnown.ref_injective {world : LockWorld} {servId : Int} {dserv : Dserver}
    (known : DservKnown world servId dserv) {lock other : CoreLock}
    (member : lock ∈ dserv.lockSent) (otherMember : other ∈ dserv.lockSent)
    (same : lock.ref = other.ref) : lock = other := by
  have sentOnly : (dserv.lockSent.map CoreLock.ref).Nodup := by
    have both := known.addresses
    rw [List.map_append] at both
    exact both.of_append_left
  exact List.inj_on_of_nodup_map sentOnly member otherMember same

theorem dservKnown_mark {world : LockWorld} {servId sender : Int} {dserv : Dserver} {id : SId}
    (known : DservKnown world servId dserv) (later : servId < sender)
    (reached : id ∈ (world.dservs sender).taken) :
    DservKnown world servId (dserv.mark sender id) := by
  cases found : dserv.locks.lookup id with
  | none =>
      simp only [Dserver.mark, found]
      exact known
  | some ref =>
      rw [mark_eq known later found]
      have sameId : ∀ lock : CoreLock,
          (if lock.ref = ref then lock.marked sender else lock).id = lock.id := by
        intro lock
        split <;> rfl
      have sameRef : ∀ lock : CoreLock,
          (if lock.ref = ref then lock.marked sender else lock).ref = lock.ref := by
        intro lock
        split <;> rfl
      refine { known with
        sent := ?_, taken := ?_, sentOrder := ?_, located := ?_, entries := ?_, addresses := ?_,
        allocated := ?_ }
      · intro lock member
        obtain ⟨old, inSent, rfl⟩ := List.mem_map.mp member
        split
        next atRef =>
          obtain ⟨holder, inSent', named, located⟩ := known.entries id ref found
          obtain rfl := known.ref_injective inSent inSent' (atRef.trans located.symm)
          obtain ⟨op, submitted, stage, here, sameOp, pos, names, marked⟩ :=
            known.sent old inSent
          refine ⟨op, submitted, stage, here, sameOp, pos,
            (markFinish_names sender old.elems true).trans names, ?_⟩
          intro elem inLock finish
          rcases markFinish_origin sender old.elems true elem inLock finish with self | before
          · rw [self]
            exact ⟨later, by rw [← sameOp, named]; exact reached⟩
          · exact marked elem before finish
        next => exact known.sent old inSent
      · intro name member
        obtain ⟨op, submitted, same, keeps⟩ := known.taken name member
        refine ⟨op, submitted, same, fun other named behind => ?_⟩
        obtain ⟨lock, inSent, lockId⟩ := keeps other named behind
        exact ⟨_, List.mem_map_of_mem inSent, (sameId lock).trans lockId⟩
      · show ((dserv.lockSent.map _).map CoreLock.id).Sublist dserv.taken
        rw [List.map_map]
        exact (List.map_congr_left fun lock _ => sameId lock) ▸ known.sentOrder
      · intro lock member
        obtain ⟨old, inSent, rfl⟩ := List.mem_map.mp member
        rw [sameId, sameRef]
        exact known.located old inSent
      · intro name address lookup
        obtain ⟨lock, inSent, lockId, lockRef⟩ := known.entries name address lookup
        exact ⟨_, List.mem_map_of_mem inSent, (sameId lock).trans lockId,
          (sameRef lock).trans lockRef⟩
      · show (((dserv.lockSent.map _) ++ dserv.lockWaiting).map CoreLock.ref).Nodup
        have refs := known.addresses
        have unchanged : (dserv.lockSent.map fun lock =>
            if lock.ref = ref then lock.marked sender else lock).map CoreLock.ref =
            dserv.lockSent.map CoreLock.ref := by
          rw [List.map_map]
          exact List.map_congr_left fun lock _ => sameRef lock
        rw [List.map_append] at refs ⊢
        rw [unchanged]
        exact refs
      · intro lock member
        rcases List.mem_append.mp member with sent | waiting
        · obtain ⟨old, inSent, rfl⟩ := List.mem_map.mp sent
          rw [sameRef]
          exact known.allocated old (List.mem_append_left _ inSent)
        · exact known.allocated lock (List.mem_append_right _ waiting)

theorem mark_taken (dserv : Dserver) (sender : Int) (id : SId) :
    (dserv.mark sender id).taken = dserv.taken := by
  unfold Dserver.mark
  split
  · rfl
  · unfold unlockMark
    dsimp only
    split <;> rfl

theorem mark_lockWaiting (dserv : Dserver) (sender : Int) (id : SId) :
    (dserv.mark sender id).lockWaiting = dserv.lockWaiting := by
  unfold Dserver.mark
  split
  · rfl
  · unfold unlockMark
    dsimp only
    split <;> rfl

theorem lockInvariant_unlock {world : LockWorld} (invariant : LockInvariant world)
    {packet : Packet Peer LockBody} {rest : Sends} {sender servId : Int} {id : SId}
    (inFlight : world.net.Perm (packet :: rest)) (src : packet.src = .dserv sender)
    (dst : packet.dst = .dserv servId) (body : packet.body = .lockUnlock id) :
    LockInvariant
      ({ world with net := rest }.update servId ((world.dservs servId).mark sender id) []) := by
  have known := invariant.packets packet (inFlight.mem_iff.mpr List.mem_cons_self)
  unfold PacketKnown at known
  simp only [body] at known
  obtain ⟨op, submitted, source, target, rfl, from_, to_, _, _, later, reached⟩ := known
  obtain rfl : source = sender := Peer.dserv.inj (from_.symm.trans src)
  obtain rfl : target = servId := Peer.dserv.inj (to_.symm.trans dst)
  have grows : Grows world
      ({ world with net := rest }.update target
        ((world.dservs target).mark source op.id) []) :=
    grows_update (by rw [mark_taken]; exact List.Subset.refl _)
  refine ⟨invariant.distinct, ?_, ?_, ?_⟩
  · intro other otherSubmitted
    obtain ⟨stage, progress⟩ := invariant.progress other otherSubmitted
    refine ⟨stage, progress.congr (fun s => ?_) (fun s => ?_)⟩
    · by_cases same : s = target
      · rw [same, LockWorld.update_dservs_same, mark_taken]
      · rw [LockWorld.update_dservs_ne _ same]
    · have noRequest : ¬ carries other.id s packet = true := by simp [carries, body]
      rw [LockWorld.requestsAt, LockWorld.requestsAt, LockWorld.update_net, List.append_nil,
        countP_of_perm inFlight, if_neg noRequest]
      by_cases same : s = target
      · rw [same, LockWorld.update_dservs_same, mark_lockWaiting]
        rfl
      · rw [LockWorld.update_dservs_ne _ same]
        rfl
  · intro other inNet
    rw [LockWorld.update_net, List.append_nil] at inNet
    exact (invariant.packets other (mem_of_inFlight inFlight inNet)).mono grows
  · refine dservKnown_update invariant.dservs grows ?_
    exact (dservKnown_mark (invariant.dservs target) later reached).mono grows

theorem lockInvariant_ended {world : LockWorld} (invariant : LockInvariant world)
    {packet : Packet Peer LockBody} {rest : Sends} {id : SId}
    (inFlight : world.net.Perm (packet :: rest)) (body : packet.body = .lockEnd id) :
    LockInvariant { world with net := rest } := by
  have grows : Grows world { world with net := rest } :=
    ⟨List.Subset.refl _, fun _ => List.Subset.refl _⟩
  refine ⟨invariant.distinct, ?_, ?_, fun s => (invariant.dservs s).mono grows⟩
  · intro op submitted
    obtain ⟨stage, progress⟩ := invariant.progress op submitted
    refine ⟨stage, progress.congr (fun _ => Iff.rfl) (fun s => ?_)⟩
    have noRequest : ¬ carries op.id s packet = true := by simp [carries, body]
    rw [LockWorld.requestsAt, LockWorld.requestsAt, countP_of_perm inFlight, if_neg noRequest]
    rfl
  · intro other inNet
    exact (invariant.packets other (mem_of_inFlight inFlight inNet)).mono grows

/-! ## Taking a lock -/

/-- The request an operation sends on from server number `stage`. -/
def onward (op : Operation) (stage : Nat) (servId : Int) : Packet Peer LockBody :=
  match op.servIds[stage + 1]? with
  | none => { src := .dserv servId, dst := .client op.clientId, body := .lockEnd op.id }
  | some next =>
      { src := .dserv servId, dst := .dserv next, body := .lockNext (op.packet (stage + 1)) }

theorem ilockNext_createLock (op : Operation) (stage ref : Nat) (servId junk : Int) :
    ilockNext (connectedCore servId junk) (createLock ref (op.packet stage)) =
      ([onward op stage servId], (op.servIds[stage + 1]?).isSome) := by
  unfold onward
  cases next : op.servIds[stage + 1]? with
  | none => exact ilockNext_last op stage ref servId junk next
  | some target => exact ilockNext_forward op stage ref servId junk next

theorem packetKnown_onward {world : LockWorld} {op : Operation} (submitted : op ∈ world.submitted)
    (stage : Nat) (servId : Int) : PacketKnown world (onward op stage servId) := by
  unfold onward
  cases next : op.servIds[stage + 1]? with
  | none => exact ⟨op, submitted, rfl, rfl⟩
  | some target => exact ⟨op, submitted, stage + 1, target, servId, rfl, next, rfl, rfl⟩

theorem countP_onward (op : Operation) (stage : Nat) (servId other : Int) (id : SId) :
    [onward op stage servId].countP (carries id other) =
      if op.id = id ∧ op.servIds[stage + 1]? = some other then 1 else 0 := by
  unfold onward
  cases next : op.servIds[stage + 1]? with
  | none => simp [carries]
  | some target => simp [carries, Operation.packet]

theorem ref_nodup_move {sent front back : List CoreLock} {lock kept : CoreLock}
    (same : kept.ref = lock.ref)
    (distinct : ((sent ++ (front ++ lock :: back)).map CoreLock.ref).Nodup) :
    (((sent ++ [kept]) ++ (front ++ back)).map CoreLock.ref).Nodup := by
  have moved : (sent ++ (front ++ lock :: back)).Perm ((sent ++ [lock]) ++ (front ++ back)) := by
    rw [List.append_assoc]
    exact List.Perm.append_left sent List.perm_middle
  have distinctMoved := (moved.map CoreLock.ref).nodup_iff.mp distinct
  simpa [same] using distinctMoved

/-- `left` is the data server `dserv` with the lock of an operation taken from
between `front` and `back` of those that wait. -/
structure TakenFrom (dserv left : Dserver) (op : Operation) (stage ref : Nat)
    (front back : List CoreLock) : Prop where
  queued : dserv.lockWaiting = front ++ createLock ref (op.packet stage) :: back
  waiting : left.lockWaiting = front ++ back
  taken : left.taken = dserv.taken ++ [op.id]
  created : left.created = dserv.created

section

variable {world after : LockWorld} {servId : Int} {op : Operation} {stage ref : Nat}
  {front back : List CoreLock} {dserv left : Dserver}

theorem TakenFrom.stillWaiting (takes : TakenFrom dserv left op stage ref front back) :
    ∀ lock ∈ front ++ back, lock ∈ dserv.lockWaiting := by
  intro lock member
  rw [takes.queued]
  rcases List.mem_append.mp member with inFront | inBack
  · exact List.mem_append_left _ inFront
  · exact List.mem_append_right _ (List.mem_cons_of_mem _ inBack)

theorem TakenFrom.takenOnce (takes : TakenFrom dserv left op stage ref front back)
    (known : DservKnown world servId dserv) (fresh : op.id ∉ dserv.taken) : left.taken.Nodup := by
  rw [takes.taken]
  exact List.nodup_append.mpr ⟨known.takenOnce, List.nodup_singleton _, fun id old other new same =>
    fresh (by rw [← List.mem_singleton.mp new, ← same]; exact old)⟩

theorem DservKnown.unsent (known : DservKnown world servId dserv) (fresh : op.id ∉ dserv.taken) :
    ∀ lock ∈ dserv.lockSent, lock.id ≠ op.id := fun _ member same =>
  fresh (same ▸ known.sentOrder.subset (List.mem_map_of_mem member))

/-- The last server of an operation forgets its lock. -/
theorem TakenFrom.last (takes : TakenFrom dserv left op stage ref front back)
    (known : DservKnown world servId dserv) (grows : Grows world after)
    (submitted : op ∈ world.submitted) (here : op.At stage servId) (fresh : op.id ∉ dserv.taken)
    (last : op.servIds[stage + 1]? = none) (sentNow : left.lockSent = dserv.lockSent)
    (locksNow : left.locks = dserv.locks.erase op.id) : DservKnown after servId left := by
  have refs := known.addresses
  rw [takes.queued] at refs
  refine ⟨?_, ?_, ?_, takes.takenOnce known fresh, ?_, ?_, ?_, ?_, ?_⟩
  · rw [takes.waiting]
    exact fun lock member => (known.waiting lock (takes.stillWaiting lock member)).mono grows
  · rw [sentNow]
    exact fun lock member => (known.sent lock member).mono grows
  · rw [takes.taken]
    intro id member
    rcases List.mem_append.mp member with old | new
    · obtain ⟨other, known, same, keeps⟩ := known.taken id old
      exact ⟨other, grows.submitted known, same, fun later named behind => by
        rw [sentNow]
        exact keeps later named behind⟩
    · rw [List.mem_singleton.mp new]
      refine ⟨op, grows.submitted submitted, rfl, fun later named behind => ?_⟩
      -- the last server has no later one
      have member := (Operation.mem_after here later).mpr ⟨named, behind⟩
      rw [List.drop_eq_nil_of_le (List.getElem?_eq_none_iff.mp last)] at member
      exact absurd member List.not_mem_nil
  · rw [sentNow, takes.taken]
    exact known.sentOrder.trans (List.sublist_append_left _ _)
  · rw [sentNow, locksNow]
    intro lock member
    rw [AList.lookup_erase_ne (known.unsent fresh lock member)]
    exact known.located lock member
  · rw [sentNow, locksNow]
    intro id address found
    by_cases same : id = op.id
    · subst same
      simp at found
    · rw [AList.lookup_erase_ne same] at found
      exact known.entries id address found
  · rw [sentNow, takes.waiting]
    refine refs.sublist (List.Sublist.map _ (List.Sublist.append_left ?_ _))
    exact List.Sublist.append_left (List.sublist_cons_self _ _) _
  · rw [sentNow, takes.waiting, takes.created]
    intro lock member
    rcases List.mem_append.mp member with inSent | inWaiting
    · exact known.allocated lock (List.mem_append_left _ inSent)
    · exact known.allocated lock (List.mem_append_right _ (takes.stillWaiting lock inWaiting))

/-- Another server keeps it, with the packet it sends on. -/
theorem TakenFrom.next (takes : TakenFrom dserv left op stage ref front back)
    (known : DservKnown world servId dserv) (grows : Grows world after)
    (submitted : op ∈ world.submitted) (here : op.At stage servId) (fresh : op.id ∉ dserv.taken)
    (sentNow : left.lockSent = dserv.lockSent ++
      [{ createLock ref (op.packet stage) with
        pkt := (createLock ref (op.packet stage)).nextPacket }])
    (locksNow : left.locks = dserv.locks.insert op.id ref) : DservKnown after servId left := by
  have inserted : createLock ref (op.packet stage) ∈ dserv.lockWaiting := by
    rw [takes.queued]
    exact List.mem_append_right _ List.mem_cons_self
  have refs := known.addresses
  rw [takes.queued] at refs
  refine ⟨?_, ?_, ?_, takes.takenOnce known fresh, ?_, ?_, ?_, ?_, ?_⟩
  · rw [takes.waiting]
    exact fun lock member => (known.waiting lock (takes.stillWaiting lock member)).mono grows
  · rw [sentNow]
    intro lock member
    rcases List.mem_append.mp member with old | new
    · exact (known.sent lock old).mono grows
    · rw [List.mem_singleton.mp new]
      refine ⟨op, grows.submitted submitted, stage, here, rfl, rfl,
        createLock_names op stage ref, fun elem inLock finish => ?_⟩
      have unmarked := createLock_unmarked op stage ref elem inLock
      rw [unmarked] at finish
      exact absurd finish Bool.false_ne_true
  · rw [takes.taken]
    intro id member
    rcases List.mem_append.mp member with old | new
    · obtain ⟨other, known, same, keeps⟩ := known.taken id old
      refine ⟨other, grows.submitted known, same, fun later named behind => ?_⟩
      obtain ⟨lock, inSent, lockId⟩ := keeps later named behind
      rw [sentNow]
      exact ⟨lock, List.mem_append_left _ inSent, lockId⟩
    · rw [List.mem_singleton.mp new]
      refine ⟨op, grows.submitted submitted, rfl, fun later named behind => ?_⟩
      rw [sentNow]
      exact ⟨_, List.mem_append_right _ (List.mem_singleton.mpr rfl), rfl⟩
  · rw [sentNow, takes.taken, List.map_append]
    exact known.sentOrder.append (List.Sublist.refl _)
  · rw [sentNow, locksNow]
    intro lock member
    rcases List.mem_append.mp member with old | new
    · rw [AList.lookup_insert_ne (known.unsent fresh lock old)]
      exact known.located lock old
    · rw [List.mem_singleton.mp new]
      exact AList.lookup_insert _
  · rw [sentNow, locksNow]
    intro id address found
    by_cases same : id = op.id
    · subst same
      rw [AList.lookup_insert] at found
      exact ⟨_, List.mem_append_right _ (List.mem_singleton.mpr rfl), rfl, Option.some.inj found⟩
    · rw [AList.lookup_insert_ne same] at found
      obtain ⟨lock, inSent, facts⟩ := known.entries id address found
      exact ⟨lock, List.mem_append_left _ inSent, facts⟩
  · rw [sentNow, takes.waiting]
    exact @ref_nodup_move _ _ _ (createLock ref (op.packet stage)) _ rfl refs
  · rw [sentNow, takes.waiting, takes.created]
    intro lock member
    rcases List.mem_append.mp member with inSent | inWaiting
    · rcases List.mem_append.mp inSent with old | new
      · exact known.allocated lock (List.mem_append_left _ old)
      · rw [List.mem_singleton.mp new]
        exact known.allocated (createLock ref (op.packet stage))
          (List.mem_append_right _ inserted)
    · exact known.allocated lock (List.mem_append_right _ (takes.stillWaiting lock inWaiting))

end

/-- The data server of `lock` once `ilock_take_done` ran for it. -/
theorem dservKnown_take {world after : LockWorld} {servId junk : Int} {op : Operation}
    {stage ref : Nat} {front back : List CoreLock} {dserv : Dserver}
    (known : DservKnown world servId dserv) (grows : Grows world after)
    (submitted : op ∈ world.submitted) (here : op.At stage servId)
    (queued : dserv.lockWaiting = front ++ createLock ref (op.packet stage) :: back)
    (fresh : op.id ∉ dserv.taken) :
    DservKnown after servId
      (ilockTakeDone (connectedCore servId junk) { dserv with lockWaiting := front ++ back }
        (createLock ref (op.packet stage))).1 := by
  have takes : TakenFrom dserv
      (ilockTakeDone (connectedCore servId junk) { dserv with lockWaiting := front ++ back }
        (createLock ref (op.packet stage))).1 op stage ref front back :=
    ⟨queued, by simp, by simp, by simp⟩
  have sentNow := ilockTakeDone_lockSent (connectedCore servId junk)
    { dserv with lockWaiting := front ++ back } (createLock ref (op.packet stage))
  have locksNow := ilockTakeDone_locks (connectedCore servId junk)
    { dserv with lockWaiting := front ++ back } (createLock ref (op.packet stage))
  rw [ilockNext_createLock] at sentNow locksNow
  dsimp only at sentNow locksNow
  cases last : op.servIds[stage + 1]? with
  | none =>
      rw [last, Option.isSome_none, if_neg Bool.false_ne_true] at sentNow locksNow
      exact takes.last known grows submitted here fresh last sentNow locksNow
  | some next =>
      rw [last, Option.isSome_some, if_pos rfl] at sentNow locksNow
      exact takes.next known grows submitted here fresh sentNow locksNow

/-- The request of the taken operation moves one server on; no other request
moves. -/
theorem requestsAt_take {world : LockWorld} {servId : Int} (junk : Int) {op : Operation}
    {stage ref : Nat} {front back : List CoreLock}
    (queued : (world.dservs servId).lockWaiting =
      front ++ createLock ref (op.packet stage) :: back)
    (id : SId) (other : Int) :
    (world.update servId
        (ilockTakeDone (connectedCore servId junk)
          { world.dservs servId with lockWaiting := front ++ back }
          (createLock ref (op.packet stage))).1
        (ilockTakeDone (connectedCore servId junk)
          { world.dservs servId with lockWaiting := front ++ back }
          (createLock ref (op.packet stage))).2).requestsAt id other +
        (if op.id = id ∧ other = servId then 1 else 0) =
      world.requestsAt id other +
        (if op.id = id ∧ op.servIds[stage + 1]? = some other then 1 else 0) := by
  have netNow : (world.net ++ (ilockTakeDone (connectedCore servId junk)
      { world.dservs servId with lockWaiting := front ++ back }
      (createLock ref (op.packet stage))).2).countP (carries id other) =
      world.net.countP (carries id other) +
        (if op.id = id ∧ op.servIds[stage + 1]? = some other then 1 else 0) := by
    rw [ilockTakeDone_sends, ilockNext_createLock, ilockUnlock_createLock, List.countP_append,
      List.countP_append, countP_unlockPackets, countP_onward, Nat.zero_add]
  rw [LockWorld.requestsAt, LockWorld.requestsAt, LockWorld.update_net, netNow]
  by_cases same : other = servId
  · rw [same, LockWorld.update_dservs_same, ilockTakeDone_lockWaiting, queued]
    by_cases sameOp : op.id = id
    · simp only [List.countP_append, List.countP_cons, createLock_id, sameOp, decide_true, and_true,
        if_true]
      omega
    · simp only [List.countP_append, List.countP_cons, createLock_id, sameOp, decide_false,
        false_and, if_false, Bool.false_eq_true]
      omega
  · rw [LockWorld.update_dservs_ne _ same]
    simp only [same, and_false, if_false]
    omega

theorem lockInvariant_take {world : LockWorld} (invariant : LockInvariant world)
    {servId junk : Int} {lock : CoreLock} {front back : List CoreLock}
    (queued : (world.dservs servId).lockWaiting = front ++ lock :: back) :
    LockInvariant
      (world.update servId
        (ilockTakeDone (connectedCore servId junk)
          { world.dservs servId with lockWaiting := front ++ back } lock).1
        (ilockTakeDone (connectedCore servId junk)
          { world.dservs servId with lockWaiting := front ++ back } lock).2) := by
  have inWaiting : lock ∈ (world.dservs servId).lockWaiting := by
    rw [queued]
    exact List.mem_append_right _ List.mem_cons_self
  obtain ⟨op, submitted, stage, ref, here, rfl, progress⟩ := invariant.waiting_stage inWaiting
  have fresh := progress.not_taken here
  have grows : Grows world
      (world.update servId
        (ilockTakeDone (connectedCore servId junk)
          { world.dservs servId with lockWaiting := front ++ back }
          (createLock ref (op.packet stage))).1
        (ilockTakeDone (connectedCore servId junk)
          { world.dservs servId with lockWaiting := front ++ back }
          (createLock ref (op.packet stage))).2) :=
    grows_update (by
      rw [ilockTakeDone_taken]
      exact List.subset_append_left _ _)
  refine ⟨invariant.distinct, ?_, ?_, ?_⟩
  · intro other otherSubmitted
    have moved := requestsAt_take junk queued other.id
    by_cases same : op.id = other.id
    · obtain rfl := invariant.op_unique submitted otherSubmitted same
      refine ⟨stage + 1, ?_, ?_⟩
      · intro s
        have takenHere : op.servIds.take (stage + 1) = op.servIds.take stage ++ [servId] := by
          rw [List.take_add_one, here, Option.toList_some]
        rw [takenHere, List.mem_append, List.mem_singleton, ← progress.taken s]
        by_cases atServ : s = servId
        · rw [atServ, LockWorld.update_dservs_same, ilockTakeDone_taken, createLock_id]
          simp
        · rw [LockWorld.update_dservs_ne _ atServ]
          simp [atServ]
      · intro s
        have before := progress.requests s
        have now := moved s
        rw [Operation.At] at here
        simp only [true_and, here, Option.some.injEq] at before now
        by_cases atServ : s = servId
        · simp only [atServ, if_true] at before now ⊢
          omega
        · have other : ¬ servId = s := fun equal => atServ equal.symm
          simp only [atServ, other, if_false] at before now ⊢
          omega
    · obtain ⟨otherStage, otherProgress⟩ := invariant.progress other otherSubmitted
      refine ⟨otherStage, otherProgress.congr (fun s => ?_) (fun s => ?_)⟩
      · by_cases atServ : s = servId
        · rw [atServ, LockWorld.update_dservs_same, ilockTakeDone_taken, createLock_id]
          simp [Ne.symm same]
        · rw [LockWorld.update_dservs_ne _ atServ]
      · simpa [same] using moved s
  · intro packet member
    rw [LockWorld.update_net, ilockTakeDone_sends, ilockNext_createLock,
      ilockUnlock_createLock] at member
    rcases List.mem_append.mp member with old | new
    · exact (invariant.packets packet old).mono grows
    · rcases List.mem_append.mp new with release | next
      · obtain ⟨earlier, named, rfl⟩ := List.mem_map.mp release
        have before := (Operation.mem_before here earlier).mp named
        refine ⟨op, submitted, servId, earlier, rfl, rfl, rfl, before.1,
          Operation.mem_of_at here, before.2, ?_⟩
        rw [LockWorld.update_dservs_same, ilockTakeDone_taken, createLock_id]
        exact List.mem_append_right _ (List.mem_singleton.mpr rfl)
      · rw [List.mem_singleton.mp next]
        exact (packetKnown_onward submitted stage servId).mono grows
  · exact @dservKnown_update world servId _ world.net _ invariant.dservs grows
      (dservKnown_take (invariant.dservs servId) grows submitted here queued fresh)

/-! ## Runs -/

theorem lockInvariant_move {before after : LockWorld} (invariant : LockInvariant before)
    (move : LockMove before after) : LockInvariant after := by
  cases move with
  | submit op fresh => exact lockInvariant_submit invariant op fresh
  | receive packet rest pkt servId inFlight dst asks here =>
      exact lockInvariant_receive invariant inFlight dst asks
  | take servId junk lock front back queued free => exact lockInvariant_take invariant queued
  | unlock packet rest sender servId id inFlight src dst body =>
      exact lockInvariant_unlock invariant inFlight src dst body
  | ended packet rest id inFlight body => exact lockInvariant_ended invariant inFlight body

theorem lockInvariant_empty : LockInvariant emptyLockWorld where
  distinct := List.nodup_nil
  progress := fun _ member => absurd member List.not_mem_nil
  packets := fun _ member => absurd member List.not_mem_nil
  dservs := fun _ =>
    { waiting := fun _ member => absurd member List.not_mem_nil
      sent := fun _ member => absurd member List.not_mem_nil
      taken := fun _ member => absurd member List.not_mem_nil
      takenOnce := List.nodup_nil
      sentOrder := List.Sublist.refl _
      located := fun _ member => absurd member List.not_mem_nil
      entries := fun _ _ found => by cases found
      addresses := List.nodup_nil
      allocated := fun _ member => absurd member List.not_mem_nil }

theorem PacketKnown.wellAddressed {world : LockWorld} {packet : Packet Peer LockBody}
    (known : PacketKnown world packet) : WellAddressed packet := by
  unfold PacketKnown at known
  unfold WellAddressed
  cases body : packet.body with
  | lockStart pkt =>
      simp only [body] at known
      obtain ⟨op, _, servId, _, _, src, dst⟩ := known
      exact ⟨op.clientId, servId, src, dst⟩
  | lockNext pkt =>
      simp only [body] at known
      obtain ⟨_, _, _, servId, sender, _, _, src, dst⟩ := known
      exact ⟨sender, servId, src, dst⟩
  | lockUnlock id =>
      simp only [body] at known
      obtain ⟨_, _, sender, servId, _, src, dst, _⟩ := known
      exact ⟨sender, servId, src, dst⟩
  | lockEnd id =>
      simp only [body] at known
      obtain ⟨op, _, _, dst⟩ := known
      exact ⟨op.clientId, dst⟩

/-- The induction rule for runs: a property that every move keeps, given the
invariant, holds in every reachable state. -/
theorem reachable_of_moves (property : LockWorld → Prop) (initially : property emptyLockWorld)
    (preserved : ∀ before after, LockInvariant before → property before →
      LockMove before after → property after)
    {world : LockWorld} (reached : lockSystem.Reachable world) :
    LockInvariant world ∧ property world := by
  refine reached.invariant (fun world => LockInvariant world ∧ property world) ?_ ?_
  · intro start initial
    rw [initial]
    exact ⟨lockInvariant_empty, initially⟩
  · intro before event after _ holds _ stepped
    have moves := moves_of_step (fun packet member =>
      (holds.1.packets packet member).wellAddressed) stepped
    clear stepped
    induction moves with
    | refl => exact holds
    | tail _ move inductionHypothesis =>
        exact ⟨lockInvariant_move inductionHypothesis.1 move,
          preserved _ _ inductionHypothesis.1 inductionHypothesis.2 move⟩

theorem lockInvariant_reachable {world : LockWorld} (reached : lockSystem.Reachable world) :
    LockInvariant world :=
  (reachable_of_moves (fun _ => True) trivial (fun _ _ _ _ _ => trivial) reached).1

theorem sCoreDservLock_isSome {core : Core} (dserv : Dserver) (pkt : LockPacket)
    (here : pkt.servs[pkt.curr]?.map Prod.fst = some core.id) :
    (sCoreDservLock core dserv pkt).isSome = true := by
  unfold sCoreDservLock
  dsimp only
  rw [if_pos here]
  split <;> rfl

/-- The assertion of `s_core_dserv_lock` never fails: every packet that can be
delivered is handled. -/
theorem deliver_handled {world : LockWorld} (reached : lockSystem.Reachable world)
    {index : Nat} {packet : Packet Peer LockBody} {rest : Sends} (junk : Int)
    (taken : Packet.takeAt world.net index = some (packet, rest)) :
    (lockSystem.step world (.deliver index junk)).isSome = true := by
  have invariant := lockInvariant_reachable reached
  have member := Packet.mem_of_takeAt taken
  have accepted : ∀ pkt, Requests packet pkt → ∀ servId, packet.dst = .dserv servId →
      (sCoreDservLock (connectedCore servId junk) (world.dservs servId) pkt).isSome = true := by
    intro pkt asks servId dst
    obtain ⟨op, _, stage, target, here, rfl, address, _⟩ := invariant.request_stage member asks
    obtain rfl : target = servId := Peer.dserv.inj (address.symm.trans dst)
    have named : (op.servs[stage]?).map Prod.fst = some target := by
      rw [← List.getElem?_map]
      exact here
    exact sCoreDservLock_isSome _ _ named
  have known := (invariant.packets packet member).wellAddressed
  show (world.step (.deliver index junk)).isSome = true
  rw [LockWorld.step]
  simp only [taken]
  unfold WellAddressed at known
  cases body : packet.body with
  | lockStart pkt =>
      simp only [body] at known
      obtain ⟨client, servId, src, dst⟩ := known
      have handled := accepted pkt (Or.inl ⟨client, src, body⟩) servId dst
      simp only [dst, dispatch, src, body]
      obtain ⟨after, equal⟩ := Option.isSome_iff_exists.mp handled
      simp [equal]
  | lockNext pkt =>
      simp only [body] at known
      obtain ⟨sender, servId, src, dst⟩ := known
      have handled := accepted pkt (Or.inr ⟨sender, src, body⟩) servId dst
      simp only [dst, dispatch, src, body]
      obtain ⟨after, equal⟩ := Option.isSome_iff_exists.mp handled
      simp [equal]
  | lockUnlock id =>
      simp only [body] at known
      obtain ⟨sender, servId, src, dst⟩ := known
      simp [dst, dispatch, src, body]
  | lockEnd id =>
      simp only [body] at known
      obtain ⟨client, dst⟩ := known
      simp [dst]

end SimpleDfs.Dserv
