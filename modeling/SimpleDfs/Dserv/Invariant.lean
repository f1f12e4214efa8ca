import SimpleDfs.Dserv.Moves
import SimpleDfs.Library.Sequence

/-!
Contract: what holds of the chained lock in every reachable state.

Owns: how far an operation has come (`Progress`), what the lists of a data
server and the packets in flight say about submitted operations, the invariant
that joins them, its preservation by each move, and the fact that the
assertion of `s_core_dserv_lock` never fails.

Does not own: the order in which operations are taken; waiting.
-/

set_option autoImplicit false

namespace SimpleDfs.Dserv

open SimpleDfs.Common
open SimpleDfs.Library

/-! ## Statements -/

/-- Server number `stage` of the operation is `servId`. -/
def Operation.At (op : Operation) (stage : Nat) (servId : Int) : Prop :=
  op.servIds[stage]? = some servId

/-- The packet asks `servId` to lock operation `id`. -/
def carries (id : SId) (servId : Int) (packet : Packet Peer LockBody) : Bool :=
  match packet.body with
  | .lockStart pkt => decide (pkt.id = id ∧ packet.dst = .dserv servId)
  | .lockNext pkt => decide (pkt.id = id ∧ packet.dst = .dserv servId)
  | .lockUnlock _ => false
  | .lockEnd _ => false

/-- How many requests for operation `id` are on their way to `servId` or wait
there. -/
def LockWorld.requestsAt (world : LockWorld) (id : SId) (servId : Int) : Nat :=
  world.net.countP (carries id servId) +
    (world.dservs servId).lockWaiting.countP fun lock => decide (lock.id = id)

/-- The operation has been taken at its first `stage` servers, and its single
request is at server number `stage` if it has one. -/
structure Progress (world : LockWorld) (op : Operation) (stage : Nat) : Prop where
  taken : ∀ servId, op.id ∈ (world.dservs servId).taken ↔ servId ∈ op.servIds.take stage
  requests : ∀ servId, world.requestsAt op.id servId =
    if op.servIds[stage]? = some servId then 1 else 0

/-- The packet belongs to a submitted operation. -/
def PacketKnown (world : LockWorld) (packet : Packet Peer LockBody) : Prop :=
  match packet.body with
  | .lockStart pkt => ∃ op ∈ world.submitted, ∃ servId, pkt = op.packet 0 ∧
      op.At 0 servId ∧ packet.src = .client op.clientId ∧ packet.dst = .dserv servId
  | .lockNext pkt => ∃ op ∈ world.submitted, ∃ stage servId sender, pkt = op.packet stage ∧
      op.At stage servId ∧ packet.src = .dserv sender ∧ packet.dst = .dserv servId
  | .lockUnlock id => ∃ op ∈ world.submitted, ∃ sender servId, op.id = id ∧
      packet.src = .dserv sender ∧ packet.dst = .dserv servId ∧ servId ∈ op.servIds ∧
      sender ∈ op.servIds ∧ servId < sender ∧ id ∈ (world.dservs sender).taken
  | .lockEnd id => ∃ op ∈ world.submitted, op.id = id ∧ packet.dst = .client op.clientId

/-- A waiting lock is as `s_core_dserv_lock` created it. -/
def WaitingKnown (world : LockWorld) (servId : Int) (lock : CoreLock) : Prop :=
  ∃ op ∈ world.submitted, ∃ stage ref, op.At stage servId ∧
    lock = createLock ref (op.packet stage)

/-- A sent lock lists the servers of its operation; a marked one is a later
server that has taken the operation. -/
def SentKnown (world : LockWorld) (servId : Int) (lock : CoreLock) : Prop :=
  ∃ op ∈ world.submitted, ∃ stage, op.At stage servId ∧ lock.id = op.id ∧
    lock.nextPos = stage + 1 ∧ lock.elems.map LockElem.servId = op.servIds ∧
    ∀ elem ∈ lock.elems, elem.finish = true →
      servId < elem.servId ∧ op.id ∈ (world.dservs elem.servId).taken

/-- A taken operation with a later server keeps its lock. -/
def TakenKnown (world : LockWorld) (servId : Int) (dserv : Dserver) (id : SId) : Prop :=
  ∃ op ∈ world.submitted, op.id = id ∧
    ∀ later ∈ op.servIds, servId < later → ∃ lock ∈ dserv.lockSent, lock.id = id

/-- What the lists of one data server say. -/
structure DservKnown (world : LockWorld) (servId : Int) (dserv : Dserver) : Prop where
  waiting : ∀ lock ∈ dserv.lockWaiting, WaitingKnown world servId lock
  sent : ∀ lock ∈ dserv.lockSent, SentKnown world servId lock
  taken : ∀ id ∈ dserv.taken, TakenKnown world servId dserv id
  takenOnce : dserv.taken.Nodup
  sentOrder : (dserv.lockSent.map CoreLock.id).Sublist dserv.taken
  located : ∀ lock ∈ dserv.lockSent, dserv.locks.lookup lock.id = some lock.ref
  entries : ∀ id ref, dserv.locks.lookup id = some ref →
    ∃ lock ∈ dserv.lockSent, lock.id = id ∧ lock.ref = ref
  addresses : ((dserv.lockSent ++ dserv.lockWaiting).map CoreLock.ref).Nodup
  allocated : ∀ lock ∈ dserv.lockSent ++ dserv.lockWaiting, lock.ref < dserv.created

structure LockInvariant (world : LockWorld) : Prop where
  distinct : (world.submitted.map Operation.id).Nodup
  progress : ∀ op ∈ world.submitted, ∃ stage, Progress world op stage
  packets : ∀ packet ∈ world.net, PacketKnown world packet
  dservs : ∀ servId, DservKnown world servId (world.dservs servId)

/-! ## Growth -/

/-- Operations and taken entries are never forgotten. -/
structure Grows (before after : LockWorld) : Prop where
  submitted : before.submitted ⊆ after.submitted
  taken : ∀ servId, (before.dservs servId).taken ⊆ (after.dservs servId).taken

theorem PacketKnown.mono {before after : LockWorld} (grows : Grows before after)
    {packet : Packet Peer LockBody} (known : PacketKnown before packet) :
    PacketKnown after packet := by
  unfold PacketKnown at known ⊢
  cases body : packet.body with
  | lockStart pkt =>
      simp only [body] at known ⊢
      obtain ⟨op, member, rest⟩ := known
      exact ⟨op, grows.submitted member, rest⟩
  | lockNext pkt =>
      simp only [body] at known ⊢
      obtain ⟨op, member, rest⟩ := known
      exact ⟨op, grows.submitted member, rest⟩
  | lockUnlock id =>
      simp only [body] at known ⊢
      obtain ⟨op, member, sender, servId, same, src, dst, named, senderNamed, below, taken⟩ := known
      exact ⟨op, grows.submitted member, sender, servId, same, src, dst, named, senderNamed, below,
        grows.taken sender taken⟩
  | lockEnd id =>
      simp only [body] at known ⊢
      obtain ⟨op, member, rest⟩ := known
      exact ⟨op, grows.submitted member, rest⟩

theorem WaitingKnown.mono {before after : LockWorld} (grows : Grows before after) {servId : Int}
    {lock : CoreLock} (known : WaitingKnown before servId lock) :
    WaitingKnown after servId lock := by
  obtain ⟨op, member, rest⟩ := known
  exact ⟨op, grows.submitted member, rest⟩

theorem SentKnown.mono {before after : LockWorld} (grows : Grows before after) {servId : Int}
    {lock : CoreLock} (known : SentKnown before servId lock) : SentKnown after servId lock := by
  obtain ⟨op, member, stage, here, id, pos, names, marked⟩ := known
  refine ⟨op, grows.submitted member, stage, here, id, pos, names, ?_⟩
  intro elem inLock finish
  have reached := marked elem inLock finish
  exact ⟨reached.1, grows.taken _ reached.2⟩

theorem TakenKnown.mono {before after : LockWorld} (grows : Grows before after) {servId : Int}
    {dserv : Dserver} {id : SId} (known : TakenKnown before servId dserv id) :
    TakenKnown after servId dserv id := by
  obtain ⟨op, member, rest⟩ := known
  exact ⟨op, grows.submitted member, rest⟩

theorem DservKnown.mono {before after : LockWorld} (grows : Grows before after) {servId : Int}
    {dserv : Dserver} (known : DservKnown before servId dserv) :
    DservKnown after servId dserv :=
  { known with
    waiting := fun lock member => (known.waiting lock member).mono grows
    sent := fun lock member => (known.sent lock member).mono grows
    taken := fun id member => (known.taken id member).mono grows }

/-- Whoever changes one data server owes what its new lists say. -/
theorem dservKnown_update {before : LockWorld} {servId : Int} {dserv : Dserver} {net : Sends}
    {sends : Sends} (known : ∀ other, DservKnown before other (before.dservs other))
    (grows : Grows before ({ before with net := net }.update servId dserv sends))
    (changed : DservKnown ({ before with net := net }.update servId dserv sends) servId dserv) :
    ∀ other, DservKnown ({ before with net := net }.update servId dserv sends) other
      (({ before with net := net } : LockWorld).update servId dserv sends |>.dservs other) := by
  intro other
  by_cases same : other = servId
  · rw [same, LockWorld.update_dservs_same]
    exact changed
  · rw [LockWorld.update_dservs_ne _ same]
    exact (known other).mono grows

theorem grows_update {before : LockWorld} {servId : Int} {dserv : Dserver} {net sends : Sends}
    (taken : (before.dservs servId).taken ⊆ dserv.taken) :
    Grows before ({ before with net := net }.update servId dserv sends) := by
  refine ⟨List.Subset.refl _, fun other => ?_⟩
  by_cases same : other = servId
  · rw [same, LockWorld.update_dservs_same]
    exact taken
  · rw [LockWorld.update_dservs_ne _ same]
    exact List.Subset.refl _

/-! ## Progress of an operation -/

theorem Operation.at_unique {op : Operation} {stage other : Nat} {servId : Int}
    (here : op.At stage servId) (there : op.At other servId) : stage = other :=
  index_unique op.increasing here there

theorem Operation.mem_before {op : Operation} {stage : Nat} {servId : Int}
    (here : op.At stage servId) (other : Int) :
    other ∈ op.servIds.take stage ↔ other ∈ op.servIds ∧ other < servId :=
  mem_take_iff_lt op.increasing here other

theorem Operation.mem_after {op : Operation} {stage : Nat} {servId : Int}
    (here : op.At stage servId) (other : Int) :
    other ∈ op.servIds.drop (stage + 1) ↔ other ∈ op.servIds ∧ servId < other :=
  mem_drop_iff_lt op.increasing here other

theorem Operation.mem_of_at {op : Operation} {stage : Nat} {servId : Int}
    (here : op.At stage servId) : servId ∈ op.servIds :=
  List.mem_of_getElem? here

/-- Operations of one id are one operation. -/
theorem LockInvariant.op_unique {world : LockWorld} (invariant : LockInvariant world)
    {op other : Operation} (member : op ∈ world.submitted) (otherMember : other ∈ world.submitted)
    (same : op.id = other.id) : op = other :=
  List.inj_on_of_nodup_map invariant.distinct member otherMember same

theorem Progress.at_of_requests {world : LockWorld} {op : Operation} {stage : Nat} {servId : Int}
    (progress : Progress world op stage) (positive : 0 < world.requestsAt op.id servId) :
    op.At stage servId := by
  rw [progress.requests] at positive
  by_contra elsewhere
  rw [Operation.At] at elsewhere
  rw [if_neg elsewhere] at positive
  exact Nat.lt_irrefl 0 positive

/-- A waiting lock stands at the stage its operation has reached. -/
theorem LockInvariant.waiting_stage {world : LockWorld} (invariant : LockInvariant world)
    {servId : Int} {lock : CoreLock} (member : lock ∈ (world.dservs servId).lockWaiting) :
    ∃ op ∈ world.submitted, ∃ stage ref, op.At stage servId ∧
      lock = createLock ref (op.packet stage) ∧ Progress world op stage := by
  obtain ⟨op, submitted, stage, ref, here, created⟩ :=
    (invariant.dservs servId).waiting lock member
  obtain ⟨reached, progress⟩ := invariant.progress op submitted
  have sameId : lock.id = op.id := by rw [created, createLock, Operation.packet]
  have requested : 0 < world.requestsAt op.id servId := by
    have counted : 0 < (world.dservs servId).lockWaiting.countP
        (fun lock => decide (lock.id = op.id)) :=
      List.countP_pos_iff.mpr ⟨lock, member, by simpa using sameId⟩
    rw [LockWorld.requestsAt]
    omega
  have atReached := progress.at_of_requests requested
  have sameStage := Operation.at_unique atReached here
  exact ⟨op, submitted, stage, ref, here, created, sameStage ▸ progress⟩

/-- So does a request in flight. -/
theorem LockInvariant.request_stage {world : LockWorld} (invariant : LockInvariant world)
    {packet : Packet Peer LockBody} {pkt : LockPacket} (member : packet ∈ world.net)
    (asks : Requests packet pkt) :
    ∃ op ∈ world.submitted, ∃ stage servId, op.At stage servId ∧ pkt = op.packet stage ∧
      packet.dst = .dserv servId ∧ carries op.id servId packet = true ∧
      Progress world op stage := by
  have known := invariant.packets packet member
  have located : ∃ op ∈ world.submitted, ∃ stage servId, op.At stage servId ∧
      pkt = op.packet stage ∧ packet.dst = .dserv servId ∧
      carries op.id servId packet = true := by
    unfold PacketKnown at known
    rcases asks with ⟨client, _, body⟩ | ⟨sender, _, body⟩
    · simp only [body] at known
      obtain ⟨op, submitted, servId, content, here, _, dst⟩ := known
      exact ⟨op, submitted, 0, servId, here, content, dst, by
        simp [carries, body, content, dst, Operation.packet]⟩
    · simp only [body] at known
      obtain ⟨op, submitted, stage, servId, _, content, here, _, dst⟩ := known
      exact ⟨op, submitted, stage, servId, here, content, dst, by
        simp [carries, body, content, dst, Operation.packet]⟩
  obtain ⟨op, submitted, stage, servId, here, content, dst, carried⟩ := located
  obtain ⟨reached, progress⟩ := invariant.progress op submitted
  have requested : 0 < world.requestsAt op.id servId := by
    have counted : 0 < world.net.countP (carries op.id servId) :=
      List.countP_pos_iff.mpr ⟨packet, member, carried⟩
    rw [LockWorld.requestsAt]
    omega
  have sameStage := Operation.at_unique (progress.at_of_requests requested) here
  exact ⟨op, submitted, stage, servId, here, content, dst, carried, sameStage ▸ progress⟩

/-- An operation has not been taken where its request is. -/
theorem Progress.not_taken {world : LockWorld} {op : Operation} {stage : Nat} {servId : Int}
    (progress : Progress world op stage) (here : op.At stage servId) :
    op.id ∉ (world.dservs servId).taken := by
  rw [progress.taken, Operation.mem_before here]
  exact fun named => lt_irrefl servId named.2

/-- Nothing about an operation changes while its requests and the servers that
have taken it stay the same. -/
theorem Progress.congr {before after : LockWorld} {op : Operation} {stage : Nat}
    (progress : Progress before op stage)
    (taken : ∀ servId, op.id ∈ (after.dservs servId).taken ↔
      op.id ∈ (before.dservs servId).taken)
    (requests : ∀ servId, after.requestsAt op.id servId = before.requestsAt op.id servId) :
    Progress after op stage where
  taken := fun servId => (taken servId).trans (progress.taken servId)
  requests := fun servId => (requests servId).trans (progress.requests servId)

end SimpleDfs.Dserv
