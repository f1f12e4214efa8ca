import SimpleDfs.Dserv.Releases

/-!
Contract: a chained lock visits the servers of its list one after the other.

Owns: the runs in which submitted operations meet requests of any other shape,
the course of an operation, and its preservation by every step.

The requests of strangers are arbitrary.  Only their ids differ from those of
operations.

Does not own: the order of two operations; what is forgotten afterwards.
-/

set_option autoImplicit false

namespace SimpleDfs.Dserv

open SimpleDfs.Common
open SimpleDfs.Library

/-! ## Operations among strangers -/

/-- The network, every packet sent so far and the ids strangers have used. -/
structure ChainWorld where
  lock : LockWorld
  sent : Sends
  strangers : List SId

/-- What can happen: a client submits an operation, some client sends a request
of any shape to some data server, or a packet is delivered. -/
inductive ChainEvent where
  | submit (op : Operation)
  | stranger (client servId : Int) (pkt : LockPacket)
  | deliver (index : Nat) (junk : Int)

/-- The LOCK_START of an operation. -/
def Operation.start (op : Operation) : Packet Peer LockBody where
  src := .client op.clientId
  dst := .dserv op.first
  body := .lockStart (op.packet 0)

def ChainWorld.step (world : ChainWorld) : ChainEvent → Option ChainWorld
  | .submit op =>
      if op.id ∈ world.strangers then none
      else
        match world.lock.step (.submit op) with
        | none => none
        | some lock => some { world with lock := lock, sent := world.sent ++ [op.start] }
  | .stranger client servId pkt =>
      if pkt.id ∈ world.strangers ∨ pkt.id ∈ world.lock.submitted.map Operation.id then none
      else
        let packet : Packet Peer LockBody :=
          { src := .client client, dst := .dserv servId, body := .lockStart pkt }
        some
          { lock := { world.lock with net := world.lock.net ++ [packet] }
            sent := world.sent ++ [packet]
            strangers := pkt.id :: world.strangers }
  | .deliver index junk =>
      match Packet.takeAt world.lock.net index with
      | none => none
      | some (packet, rest) =>
          match packet.dst with
          | .client _ => some { world with lock := { world.lock with net := rest } }
          | .dserv servId =>
              match dispatch (connectedCore servId junk) (world.lock.dservs servId) packet with
              | none => none
              | some (dserv, sends) =>
                  some { world with
                    lock := { world.lock with net := rest }.update servId dserv sends
                    sent := world.sent ++ sends }

def chainSystem : System ChainWorld ChainEvent where
  init := fun world => world = { lock := emptyLockWorld, sent := [], strangers := [] }
  step := ChainWorld.step

/-- The id is in use. -/
def ChainWorld.Named (world : ChainWorld) (id : SId) : Prop :=
  id ∈ world.lock.submitted.map Operation.id ∨ id ∈ world.strangers

/-- A packet of the operation is one the operation's course explains. -/
def PacketOf (op : Operation) (packet : Packet Peer LockBody) : Prop :=
  match packet.body with
  | .lockStart pkt => pkt.id = op.id → ∃ servId, pkt = op.packet 0 ∧ op.At 0 servId ∧
      packet.src = .client op.clientId ∧ packet.dst = .dserv servId
  | .lockNext pkt => pkt.id = op.id → ∃ position servId sender, pkt = op.packet position ∧
      op.At position servId ∧ packet.src = .dserv sender ∧ packet.dst = .dserv servId
  | .lockUnlock _ => True
  | .lockEnd id => id = op.id → packet.dst = .client op.clientId

/-- The operation has been taken once at each of its first `stage` servers, its
single request is at server number `stage`, and its client has been told the
end if there is no such server. -/
structure OnCourse (world : ChainWorld) (op : Operation) (stage : Nat) : Prop where
  within : stage ≤ op.servIds.length
  taken : ∀ servId, (world.lock.dservs servId).taken.count op.id =
    if servId ∈ op.servIds.take stage then 1 else 0
  requests : ∀ servId, world.lock.requestsAt op.id servId =
    if op.servIds[stage]? = some servId then 1 else 0
  waiting : ∀ servId, ∀ lock ∈ (world.lock.dservs servId).lockWaiting, lock.id = op.id →
    ∃ position ref, op.At position servId ∧ lock = createLock ref (op.packet position)
  packets : ∀ packet ∈ world.sent, PacketOf op packet
  ends : world.sent.countP (endsOp op.id) = if op.servIds.length ≤ stage then 1 else 0

/-- The id a packet names. -/
def bodyId : LockBody → SId
  | .lockStart pkt => pkt.id
  | .lockNext pkt => pkt.id
  | .lockUnlock id => id
  | .lockEnd id => id

structure ChainInvariant (world : ChainWorld) : Prop where
  inFlight : world.lock.net ⊆ world.sent
  created : ∀ servId, ∀ lock ∈ (world.lock.dservs servId).lockWaiting,
    ∃ ref pkt, lock = createLock ref pkt
  sentNamed : ∀ packet ∈ world.sent, world.Named (bodyId packet.body)
  waitingNamed : ∀ servId, ∀ lock ∈ (world.lock.dservs servId).lockWaiting, world.Named lock.id
  takenNamed : ∀ servId, ∀ id ∈ (world.lock.dservs servId).taken, world.Named id
  courses : ∀ op ∈ world.lock.submitted, ∃ stage, OnCourse world op stage

/-! ## Packets that do not concern an operation -/

section Foreign

variable {op : Operation} {packet : Packet Peer LockBody}

theorem carries_foreign (foreign : bodyId packet.body ≠ op.id) (servId : Int) :
    carries op.id servId packet = false := by
  unfold carries
  cases body : packet.body <;> simp_all [bodyId]

theorem endsOp_foreign (foreign : bodyId packet.body ≠ op.id) : endsOp op.id packet = false := by
  unfold endsOp
  cases body : packet.body <;> simp_all [bodyId]

theorem packetOf_foreign (foreign : bodyId packet.body ≠ op.id) : PacketOf op packet := by
  unfold PacketOf
  cases body : packet.body <;> simp_all [bodyId]

/-- A foreign packet on its way changes nothing for the operation. -/
theorem OnCourse.foreign {world after : ChainWorld} {stage : Nat}
    (course : OnCourse world op stage) (foreign : bodyId packet.body ≠ op.id)
    (dservs : after.lock.dservs = world.lock.dservs)
    (net : after.lock.net = world.lock.net ++ [packet]) (sent : after.sent = world.sent ++ [packet]) :
    OnCourse after op stage where
  within := course.within
  taken := by
    rw [dservs]
    exact course.taken
  requests := by
    intro servId
    have before := course.requests servId
    rw [LockWorld.requestsAt] at before ⊢
    rw [dservs, net, List.countP_append, List.countP_singleton, carries_foreign foreign]
    exact before
  waiting := by
    rw [dservs]
    exact course.waiting
  packets := by
    intro other member
    rw [sent] at member
    rcases List.mem_append.mp member with old | new
    · exact course.packets other old
    · rw [List.mem_singleton.mp new]
      exact packetOf_foreign foreign
  ends := by
    rw [sent, List.countP_append, List.countP_singleton, endsOp_foreign foreign]
    exact course.ends

end Foreign

/-! ## Delivery to a data server -/

section Delivery

variable {world : ChainWorld} {op : Operation} {stage : Nat} {packet : Packet Peer LockBody}
  {rest : Sends} {servId junk : Int} {dserv : Dserver} {sends : Sends} {released : List CoreLock}

/-- The packet brings a lock of the operation exactly if it carries one. -/
theorem countP_arrivals (known : PacketOf op packet) (dst : packet.dst = .dserv servId)
    (before : Dserver) :
    (arrivals before packet).countP (fun lock => decide (lock.id = op.id)) =
      if carries op.id servId packet then 1 else 0 := by
  unfold PacketOf at known
  unfold arrivals carries
  cases body : packet.body with
  | lockStart pkt =>
      simp only [body] at known
      by_cases same : pkt.id = op.id
      · obtain ⟨target, _, _, src, _⟩ := known same
        simp [src, dst, same, createLock]
      · cases src : packet.src <;> simp [same, createLock]
  | lockNext pkt =>
      simp only [body] at known
      by_cases same : pkt.id = op.id
      · obtain ⟨_, target, sender, _, _, src, _⟩ := known same
        simp [src, dst, same, createLock]
      · cases src : packet.src <;> simp [same, createLock]
  | lockUnlock id => cases src : packet.src <;> simp
  | lockEnd id => cases src : packet.src <;> simp

/-- Whatever arrives was created for the packet. -/
theorem mem_arrivals {before : Dserver} {lock : CoreLock}
    (member : lock ∈ arrivals before packet) :
    ∃ pkt, (packet.body = .lockStart pkt ∨ packet.body = .lockNext pkt) ∧
      lock = createLock before.created pkt := by
  unfold arrivals at member
  split at member
  next client pkt src body => exact ⟨pkt, Or.inl body, List.mem_singleton.mp member⟩
  next sender pkt src body => exact ⟨pkt, Or.inr body, List.mem_singleton.mp member⟩
  next => exact absurd member List.not_mem_nil

/-- So was whatever is released. -/
theorem released_created (created : ∀ servId, ∀ lock ∈ (world.lock.dservs servId).lockWaiting,
      ∃ ref pkt, lock = createLock ref pkt)
    (releases : Releases (connectedCore servId junk) (world.lock.dservs servId) dserv sends
      (arrivals (world.lock.dservs servId) packet) released)
    {lock : CoreLock} (member : lock ∈ released) : ∃ ref pkt, lock = createLock ref pkt := by
  have source := releases.waiting.mem_iff.mpr (List.mem_append_left _ member)
  rcases List.mem_append.mp source with waited | arrived
  · exact created servId lock waited
  · obtain ⟨pkt, _, equal⟩ := mem_arrivals arrived
    exact ⟨_, pkt, equal⟩

/-- An arriving lock of the operation stands where the operation lists it. -/
theorem arrivals_operation (known : PacketOf op packet) (dst : packet.dst = .dserv servId)
    {before : Dserver} {lock : CoreLock} (member : lock ∈ arrivals before packet)
    (same : lock.id = op.id) :
    ∃ position ref, op.At position servId ∧ lock = createLock ref (op.packet position) := by
  obtain ⟨pkt, asks, rfl⟩ := mem_arrivals member
  have named : pkt.id = op.id := same
  unfold PacketOf at known
  rcases asks with body | body
  · simp only [body] at known
    obtain ⟨target, rfl, here, _, address⟩ := known named
    obtain rfl : target = servId := Peer.dserv.inj (address.symm.trans dst)
    exact ⟨0, _, here, rfl⟩
  · simp only [body] at known
    obtain ⟨position, target, _, rfl, here, _, address⟩ := known named
    obtain rfl : target = servId := Peer.dserv.inj (address.symm.trans dst)
    exact ⟨position, _, here, rfl⟩

/-- What a delivery leaves of the operation's requests at the server, together
with the releases, is what was there before. -/
theorem requests_balance (course : OnCourse world op stage) (known : PacketOf op packet)
    (inFlight : world.lock.net.Perm (packet :: rest)) (dst : packet.dst = .dserv servId)
    (releases : Releases (connectedCore servId junk) (world.lock.dservs servId) dserv sends
      (arrivals (world.lock.dservs servId) packet) released) :
    rest.countP (carries op.id servId) +
        dserv.lockWaiting.countP (fun lock => decide (lock.id = op.id)) +
        released.countP (fun lock => decide (lock.id = op.id)) =
      if op.servIds[stage]? = some servId then 1 else 0 := by
  have before := course.requests servId
  have moved := releases.waiting.countP_eq (fun lock => decide (lock.id = op.id))
  rw [LockWorld.requestsAt, countP_of_perm inFlight] at before
  rw [List.countP_append, List.countP_append, countP_arrivals known dst] at moved
  omega

/-- A released lock of the operation stands at the operation's stage. -/
theorem released_operation (course : OnCourse world op stage) (known : PacketOf op packet)
    (inFlight : world.lock.net.Perm (packet :: rest)) (dst : packet.dst = .dserv servId)
    (releases : Releases (connectedCore servId junk) (world.lock.dservs servId) dserv sends
      (arrivals (world.lock.dservs servId) packet) released)
    {lock : CoreLock} (member : lock ∈ released) (same : lock.id = op.id) :
    op.At stage servId ∧ ∃ ref, lock = createLock ref (op.packet stage) := by
  have counted : 0 < released.countP (fun lock => decide (lock.id = op.id)) :=
    List.countP_pos_iff.mpr ⟨lock, member, by simpa using same⟩
  have balance := requests_balance course known inFlight dst releases
  have here : op.At stage servId := by
    by_contra elsewhere
    rw [Operation.At] at elsewhere
    rw [if_neg elsewhere] at balance
    omega
  have source := releases.waiting.mem_iff.mpr (List.mem_append_left _ member)
  have located : ∃ position ref, op.At position servId ∧
      lock = createLock ref (op.packet position) := by
    rcases List.mem_append.mp source with waited | arrived
    · exact course.waiting servId lock waited same
    · exact arrivals_operation known dst arrived same
  obtain ⟨position, ref, there, created⟩ := located
  have sameStage := Operation.at_unique here there
  exact ⟨here, ref, sameStage ▸ created⟩

/-- The packets of the releases that concern the operation: one request to its
next server, or the end, if its lock was released. -/
theorem countP_sends (created : ∀ servId, ∀ lock ∈ (world.lock.dservs servId).lockWaiting,
      ∃ ref pkt, lock = createLock ref pkt)
    (course : OnCourse world op stage) (known : PacketOf op packet)
    (inFlight : world.lock.net.Perm (packet :: rest)) (dst : packet.dst = .dserv servId)
    (releases : Releases (connectedCore servId junk) (world.lock.dservs servId) dserv sends
      (arrivals (world.lock.dservs servId) packet) released) :
    (∀ other, sends.countP (carries op.id other) =
        released.countP (fun lock => decide (lock.id = op.id)) *
          if op.servIds[stage + 1]? = some other then 1 else 0) ∧
      sends.countP (endsOp op.id) =
        released.countP (fun lock => decide (lock.id = op.id)) *
          if op.servIds.length ≤ stage + 1 then 1 else 0 := by
  have each : ∀ lock ∈ released,
      (∀ other, (takeSends (connectedCore servId junk) lock).countP (carries op.id other) =
        if lock.id = op.id then if op.servIds[stage + 1]? = some other then 1 else 0 else 0) ∧
      (takeSends (connectedCore servId junk) lock).countP (endsOp op.id) =
        if lock.id = op.id then if op.servIds.length ≤ stage + 1 then 1 else 0 else 0 := by
    intro lock member
    by_cases same : lock.id = op.id
    · obtain ⟨_, ref, rfl⟩ := released_operation course known inFlight dst releases member same
      simp only [createLock_id, if_true]
      exact ⟨fun other => (countP_takeSends_operation op stage ref servId junk other).1,
        (countP_takeSends_operation op stage ref servId junk servId).2⟩
    · obtain ⟨ref, pkt, rfl⟩ := released_created created releases member
      simp only [same, if_false]
      exact ⟨fun other => (countP_takeSends_stranger same other).1,
        (countP_takeSends_stranger same servId).2⟩
  rw [releases.sends]
  exact ⟨fun other => countP_flatMap_takeSends fun lock member => (each lock member).1 other,
    countP_flatMap_takeSends fun lock member => (each lock member).2⟩

/-- What the releases send is explained by the operation's course. -/
theorem packetOf_sends (created : ∀ servId, ∀ lock ∈ (world.lock.dservs servId).lockWaiting,
      ∃ ref pkt, lock = createLock ref pkt)
    (course : OnCourse world op stage) (known : PacketOf op packet)
    (inFlight : world.lock.net.Perm (packet :: rest)) (dst : packet.dst = .dserv servId)
    (releases : Releases (connectedCore servId junk) (world.lock.dservs servId) dserv sends
      (arrivals (world.lock.dservs servId) packet) released) :
    ∀ other ∈ sends, PacketOf op other := by
  intro other member
  rw [releases.sends] at member
  obtain ⟨lock, inReleased, sent⟩ := List.mem_flatMap.mp member
  by_cases same : lock.id = op.id
  · obtain ⟨_, ref, rfl⟩ := released_operation course known inFlight dst releases inReleased same
    rw [takeSends_operation] at sent
    rcases List.mem_append.mp sent with release | next
    · obtain ⟨_, _, rfl⟩ := List.mem_map.mp release
      exact trivial
    · rw [List.mem_singleton.mp next, onward]
      cases ahead : op.servIds[stage + 1]? with
      | none => exact fun _ => rfl
      | some target => exact fun _ => ⟨stage + 1, target, servId, rfl, ahead, rfl, rfl⟩
  · obtain ⟨ref, pkt, rfl⟩ := released_created created releases inReleased
    have stranger : pkt.id ≠ op.id := same
    apply packetOf_foreign
    rcases mem_takeSends sent with body | ⟨body, _⟩ | ⟨onward, body, named, _⟩
    · rw [body]
      exact stranger
    · rw [body]
      exact stranger
    · rw [body]
      exact fun equal => stranger (named.symm.trans equal)

/-- A delivery moves the operation on by one server if it releases its lock
there, and leaves it where it is otherwise. -/
theorem onCourse_deliver (created : ∀ servId, ∀ lock ∈ (world.lock.dservs servId).lockWaiting,
      ∃ ref pkt, lock = createLock ref pkt)
    (course : OnCourse world op stage) (known : PacketOf op packet)
    (inFlight : world.lock.net.Perm (packet :: rest)) (dst : packet.dst = .dserv servId)
    (releases : Releases (connectedCore servId junk) (world.lock.dservs servId) dserv sends
      (arrivals (world.lock.dservs servId) packet) released) :
    OnCourse
      { world with
        lock := { world.lock with net := rest }.update servId dserv sends
        sent := world.sent ++ sends }
      op (stage + released.countP (fun lock => decide (lock.id = op.id))) := by
  have balance := requests_balance course known inFlight dst releases
  have shares := countP_sends created course known inFlight dst releases
  have takenCount : dserv.taken.count op.id = (world.lock.dservs servId).taken.count op.id +
      released.countP (fun lock => decide (lock.id = op.id)) := by
    rw [releases.taken, List.count_append, List.count, List.countP_map]
    rfl
  generalize share : released.countP (fun lock => decide (lock.id = op.id)) = taken at *
  have step : (taken = 0) ∨ (taken = 1 ∧ op.At stage servId) := by
    rw [Operation.At]
    by_cases here : op.servIds[stage]? = some servId
    · rw [if_pos here] at balance
      by_cases none : taken = 0
      · exact Or.inl none
      · exact Or.inr ⟨by omega, here⟩
    · rw [if_neg here] at balance
      left
      omega
  refine ⟨?_, ?_, ?_, ?_, ?_, ?_⟩
  · rcases step with none | ⟨one, here⟩
    · rw [none]
      exact course.within
    · obtain ⟨below, _⟩ := List.getElem?_eq_some_iff.mp here
      omega
  · intro other
    have before := course.taken other
    by_cases same : other = servId
    · subst same
      rw [LockWorld.update_dservs_same, takenCount, before]
      rcases step with none | ⟨one, here⟩
      · simp [none]
      · have fresh : other ∉ op.servIds.take stage := by
          rw [Operation.mem_before here]
          exact fun named => lt_irrefl other named.2
        have now : other ∈ op.servIds.take (stage + taken) := by
          rw [one, List.take_add_one, here]
          simp
        rw [if_neg fresh, if_pos now, one]
    · rw [LockWorld.update_dservs_ne _ same, before]
      rcases step with none | ⟨one, here⟩
      · rw [none]
        rfl
      · rw [one, List.take_add_one, here]
        simp [same]
  · intro other
    have before := course.requests other
    rw [LockWorld.requestsAt] at before ⊢
    rw [LockWorld.update_net, List.countP_append, shares.1 other]
    dsimp only
    by_cases same : other = servId
    · subst same
      rw [LockWorld.update_dservs_same]
      rcases step with none | ⟨one, here⟩
      · rw [none] at balance ⊢
        simpa using balance
      · rw [Operation.At] at here
        rw [one, if_pos here] at balance
        rw [one, Nat.one_mul]
        omega
    · have elsewhere : carries op.id other packet = false := by
        unfold carries
        cases body : packet.body <;> simp [dst, Ne.symm same]
      rw [countP_of_perm inFlight, elsewhere] at before
      rw [LockWorld.update_dservs_ne _ same]
      rcases step with none | ⟨one, here⟩
      · rw [none]
        simpa using before
      · have notHere : op.servIds[stage]? ≠ some other := by
          rw [here]
          exact fun equal => same (Option.some.inj equal).symm
        simp only [if_neg notHere, Bool.false_eq_true, if_false] at before
        rw [one, Nat.one_mul]
        dsimp only
        omega
  · intro other lock member same
    by_cases atServ : other = servId
    · subst atServ
      rw [LockWorld.update_dservs_same] at member
      have source := releases.waiting.mem_iff.mpr (List.mem_append_right _ member)
      rcases List.mem_append.mp source with waited | arrived
      · exact course.waiting other lock waited same
      · exact arrivals_operation known dst arrived same
    · rw [LockWorld.update_dservs_ne _ atServ] at member
      exact course.waiting other lock member same
  · intro other member
    rcases List.mem_append.mp member with old | new
    · exact course.packets other old
    · exact packetOf_sends created course known inFlight dst releases other new
  · show (world.sent ++ sends).countP (endsOp op.id) = _
    rw [List.countP_append, course.ends, shares.2]
    rcases step with none | ⟨one, here⟩
    · simp [none]
    · obtain ⟨below, _⟩ := List.getElem?_eq_some_iff.mp here
      rw [one, if_neg (by omega)]
      simp

end Delivery

/-! ## Every reachable state -/

/-- A packet to a client concerns no request. -/
theorem onCourse_toClient {world : ChainWorld} {op : Operation} {stage : Nat}
    {packet : Packet Peer LockBody} {rest : Sends} {client : Int}
    (course : OnCourse world op stage) (inFlight : world.lock.net.Perm (packet :: rest))
    (dst : packet.dst = .client client) :
    OnCourse { world with lock := { world.lock with net := rest } } op stage := by
  refine { course with requests := ?_ }
  intro servId
  have before := course.requests servId
  have elsewhere : carries op.id servId packet = false := by
    unfold carries
    cases body : packet.body <;> simp [dst]
  rw [LockWorld.requestsAt, countP_of_perm inFlight, elsewhere] at before
  exact before

/-- A submitted operation starts at its first server. -/
theorem onCourse_submit {world : ChainWorld} (invariant : ChainInvariant world) {op : Operation}
    (fresh : ¬ world.Named op.id) :
    OnCourse
      { world with
        lock := { world.lock with
          submitted := op :: world.lock.submitted
          net := world.lock.net ++ [op.start] }
        sent := world.sent ++ [op.start] }
      op 0 := by
  have unsent : ∀ packet ∈ world.sent, bodyId packet.body ≠ op.id := fun packet member same =>
    fresh (same ▸ invariant.sentNamed packet member)
  have unasked : ∀ servId, world.lock.net.countP (carries op.id servId) = 0 := fun servId =>
    List.countP_eq_zero.mpr fun packet member => by
      simp [carries_foreign (unsent packet (invariant.inFlight member))]
  have unwaited : ∀ servId, ∀ lock ∈ (world.lock.dservs servId).lockWaiting, lock.id ≠ op.id :=
    fun servId lock member same => fresh (same ▸ invariant.waitingNamed servId lock member)
  have positive : 0 < op.servIds.length :=
    List.length_pos_of_ne_nil fun empty => op.nonempty (List.map_eq_nil_iff.mp empty)
  refine ⟨Nat.zero_le _, ?_, ?_, ?_, ?_, ?_⟩
  · intro servId
    have untaken : op.id ∉ (world.lock.dservs servId).taken := fun member =>
      fresh (invariant.takenNamed servId op.id member)
    simp [List.count_eq_zero.mpr untaken]
  · intro servId
    have waiting : (world.lock.dservs servId).lockWaiting.countP
        (fun lock => decide (lock.id = op.id)) = 0 :=
      List.countP_eq_zero.mpr fun lock member => by simp [unwaited servId lock member]
    have first := op.at_first
    rw [Operation.At] at first
    rw [LockWorld.requestsAt]
    show (world.lock.net ++ [op.start]).countP _ + _ = _
    rw [List.countP_append, unasked servId, waiting, List.countP_singleton, first]
    simp [carries, Operation.start, Operation.packet]
  · intro servId lock member same
    exact absurd same (unwaited servId lock member)
  · intro packet member
    rcases List.mem_append.mp member with old | new
    · exact packetOf_foreign (unsent packet old)
    · rw [List.mem_singleton.mp new]
      exact fun _ => ⟨op.first, rfl, op.at_first, rfl, rfl⟩
  · show (world.sent ++ [op.start]).countP _ = _
    have unended : world.sent.countP (endsOp op.id) = 0 :=
      List.countP_eq_zero.mpr fun packet member => by simp [endsOp_foreign (unsent packet member)]
    rw [List.countP_append, unended, if_neg (by omega)]
    rfl

theorem chainInvariant_submit {world : ChainWorld} (invariant : ChainInvariant world)
    {op : Operation} (fresh : ¬ world.Named op.id) :
    ChainInvariant
      { world with
        lock := { world.lock with
          submitted := op :: world.lock.submitted
          net := world.lock.net ++ [op.start] }
        sent := world.sent ++ [op.start] } where
  inFlight := by
    intro packet member
    rcases List.mem_append.mp member with old | new
    · exact List.mem_append_left _ (invariant.inFlight old)
    · exact List.mem_append_right _ new
  created := invariant.created
  sentNamed := by
    intro packet member
    rcases List.mem_append.mp member with old | new
    · exact (invariant.sentNamed packet old).imp_left (List.mem_cons_of_mem _)
    · rw [List.mem_singleton.mp new]
      exact Or.inl List.mem_cons_self
  waitingNamed := fun servId lock member =>
    (invariant.waitingNamed servId lock member).imp_left (List.mem_cons_of_mem _)
  takenNamed := fun servId id member =>
    (invariant.takenNamed servId id member).imp_left (List.mem_cons_of_mem _)
  courses := by
    intro other member
    rcases List.mem_cons.mp member with rfl | old
    · exact ⟨0, onCourse_submit invariant fresh⟩
    · obtain ⟨stage, course⟩ := invariant.courses other old
      have different : op.id ≠ other.id := fun same =>
        fresh (Or.inl (List.mem_map.mpr ⟨other, old, same.symm⟩))
      exact ⟨stage, @OnCourse.foreign other op.start world _ stage course different rfl rfl rfl⟩

theorem chainInvariant_stranger {world : ChainWorld} (invariant : ChainInvariant world)
    {packet : Packet Peer LockBody} {pkt : LockPacket} (body : packet.body = .lockStart pkt)
    (fresh : ¬ world.Named pkt.id) :
    ChainInvariant
      { lock := { world.lock with net := world.lock.net ++ [packet] }
        sent := world.sent ++ [packet]
        strangers := pkt.id :: world.strangers } where
  inFlight := by
    intro other member
    rcases List.mem_append.mp member with old | new
    · exact List.mem_append_left _ (invariant.inFlight old)
    · exact List.mem_append_right _ new
  created := invariant.created
  sentNamed := by
    intro other member
    rcases List.mem_append.mp member with old | new
    · exact (invariant.sentNamed other old).imp_right (List.mem_cons_of_mem _)
    · rw [List.mem_singleton.mp new, body]
      exact Or.inr List.mem_cons_self
  waitingNamed := fun servId lock member =>
    (invariant.waitingNamed servId lock member).imp_right (List.mem_cons_of_mem _)
  takenNamed := fun servId id member =>
    (invariant.takenNamed servId id member).imp_right (List.mem_cons_of_mem _)
  courses := by
    intro op member
    obtain ⟨stage, course⟩ := invariant.courses op member
    have different : bodyId packet.body ≠ op.id := by
      rw [body]
      exact fun same => fresh (Or.inl (List.mem_map.mpr ⟨op, member, same.symm⟩))
    exact ⟨stage, course.foreign different rfl rfl rfl⟩

theorem chainInvariant_deliver {world : ChainWorld} (invariant : ChainInvariant world)
    {packet : Packet Peer LockBody} {rest sends : Sends} {servId junk : Int} {dserv : Dserver}
    (inFlight : world.lock.net.Perm (packet :: rest)) (dst : packet.dst = .dserv servId)
    (handled : dispatch (connectedCore servId junk) (world.lock.dservs servId) packet =
      some (dserv, sends)) :
    ChainInvariant
      { world with
        lock := { world.lock with net := rest }.update servId dserv sends
        sent := world.sent ++ sends } := by
  obtain ⟨released, releases⟩ := releases_dispatch handled
  dsimp only at releases
  have member : packet ∈ world.sent :=
    invariant.inFlight (inFlight.mem_iff.mpr List.mem_cons_self)
  have packetNamed := invariant.sentNamed packet member
  -- a lock that is released or left waiting was waiting before, or has just arrived
  have source : ∀ lock ∈ released ++ dserv.lockWaiting,
      (∃ ref pkt, lock = createLock ref pkt) ∧ world.Named lock.id := by
    intro lock inAfter
    rcases List.mem_append.mp (releases.waiting.mem_iff.mpr inAfter) with waited | arrived
    · exact ⟨invariant.created servId lock waited, invariant.waitingNamed servId lock waited⟩
    · obtain ⟨pkt, asks, rfl⟩ := mem_arrivals arrived
      refine ⟨⟨_, pkt, rfl⟩, ?_⟩
      rcases asks with body | body <;>
        · rw [body] at packetNamed
          exact packetNamed
  refine ⟨?_, ?_, ?_, ?_, ?_, ?_⟩
  · intro other inNet
    rcases List.mem_append.mp inNet with old | new
    · exact List.mem_append_left _ (invariant.inFlight (mem_of_inFlight inFlight old))
    · exact List.mem_append_right _ new
  · intro other lock waiting
    by_cases same : other = servId
    · subst same
      rw [LockWorld.update_dservs_same] at waiting
      exact (source lock (List.mem_append_right _ waiting)).1
    · rw [LockWorld.update_dservs_ne _ same] at waiting
      exact invariant.created other lock waiting
  · intro other inSent
    rcases List.mem_append.mp inSent with old | new
    · exact invariant.sentNamed other old
    · rw [releases.sends] at new
      obtain ⟨lock, inReleased, sent⟩ := List.mem_flatMap.mp new
      obtain ⟨⟨ref, pkt, rfl⟩, named⟩ := source lock (List.mem_append_left _ inReleased)
      have lockNamed : world.Named pkt.id := named
      rcases mem_takeSends sent with body | ⟨body, _⟩ | ⟨onward, body, same, _⟩
      · rw [body]
        exact lockNamed
      · rw [body]
        exact lockNamed
      · rw [body, bodyId, same]
        exact lockNamed
  · intro other lock waiting
    by_cases same : other = servId
    · subst same
      rw [LockWorld.update_dservs_same] at waiting
      exact (source lock (List.mem_append_right _ waiting)).2
    · rw [LockWorld.update_dservs_ne _ same] at waiting
      exact invariant.waitingNamed other lock waiting
  · intro other id taken
    by_cases same : other = servId
    · subst same
      rw [LockWorld.update_dservs_same, releases.taken] at taken
      rcases List.mem_append.mp taken with old | new
      · exact invariant.takenNamed other id old
      · obtain ⟨lock, inReleased, rfl⟩ := List.mem_map.mp new
        exact (source lock (List.mem_append_left _ inReleased)).2
    · rw [LockWorld.update_dservs_ne _ same] at taken
      exact invariant.takenNamed other id taken
  · intro op submitted
    obtain ⟨stage, course⟩ := invariant.courses op submitted
    exact ⟨_, onCourse_deliver invariant.created course (course.packets packet member) inFlight dst
      releases⟩

theorem chainInvariant_step {world after : ChainWorld} {event : ChainEvent}
    (invariant : ChainInvariant world) (stepped : world.step event = some after) :
    ChainInvariant after := by
  cases event with
  | submit op =>
      rw [ChainWorld.step] at stepped
      split at stepped
      next => cases stepped
      next notStranger =>
        rw [LockWorld.step] at stepped
        split at stepped
        next => cases stepped
        next lock submits =>
          cases stepped
          split at submits
          next => cases submits
          next notSubmitted =>
            cases submits
            exact chainInvariant_submit invariant fun named =>
              named.elim notSubmitted notStranger
  | stranger client servId pkt =>
      rw [ChainWorld.step] at stepped
      split at stepped
      next => cases stepped
      next unused =>
        cases stepped
        exact chainInvariant_stranger invariant rfl fun named => unused named.symm
  | deliver index junk =>
      rw [ChainWorld.step] at stepped
      split at stepped
      next => cases stepped
      next packet rest taken =>
        have inFlight := Packet.perm_of_takeAt taken
        split at stepped
        next client dst =>
          cases stepped
          refine { invariant with inFlight := ?_, courses := ?_ }
          · intro other member
            exact invariant.inFlight (mem_of_inFlight inFlight member)
          · intro op submitted
            obtain ⟨stage, course⟩ := invariant.courses op submitted
            exact ⟨stage, onCourse_toClient course inFlight dst⟩
        next servId dst =>
          split at stepped
          next => cases stepped
          next dserv sends handled =>
            cases stepped
            exact chainInvariant_deliver invariant inFlight dst handled

theorem chainInvariant_reachable {world : ChainWorld} (reached : chainSystem.Reachable world) :
    ChainInvariant world := by
  refine reached.invariant ChainInvariant ?_ fun _ _ _ _ invariant _ stepped =>
    chainInvariant_step invariant stepped
  intro start initial
  rw [initial]
  exact
    { inFlight := List.Subset.refl _
      created := fun _ _ member => absurd member List.not_mem_nil
      sentNamed := fun _ member => absurd member List.not_mem_nil
      waitingNamed := fun _ _ member => absurd member List.not_mem_nil
      takenNamed := fun _ _ member => absurd member List.not_mem_nil
      courses := fun _ member => absurd member List.not_mem_nil }

/-- What the chain of an operation looks like after `stage` of its servers. -/
structure Visited (world : ChainWorld) (op : Operation) (stage : Nat) : Prop where
  within : stage ≤ op.servs.length
  takenOnce : ∀ servId, (world.lock.dservs servId).taken.count op.id =
    if servId ∈ op.servIds.take stage then 1 else 0
  forwarded : ∀ packet ∈ world.sent, ∀ pkt, packet.body = .lockNext pkt → pkt.id = op.id →
    ∃ position servId, packet.dst = .dserv servId ∧ op.At position servId ∧
      readLock pkt.ints =
        some { curr := position, clientId := op.clientId, id := op.id, servs := op.servs }
  ended : world.sent.countP (fun packet => decide (packet.body = .lockEnd op.id)) =
    if stage = op.servs.length then 1 else 0
  endsAtClient : ∀ packet ∈ world.sent, packet.body = .lockEnd op.id →
    packet.dst = .client op.clientId

/-- **A chained lock visits its servers in turn.**  In every reachable state the
servers that have taken an operation are a prefix of its list, each once; every
LOCK_NEXT sent for it carries its data and its receiver's position; and its
client has been sent one LOCK_END if the prefix is the whole list, none
otherwise. -/
theorem visited_in_turn {world : ChainWorld} (reached : chainSystem.Reachable world)
    {op : Operation} (submitted : op ∈ world.lock.submitted) :
    ∃ stage, Visited world op stage := by
  obtain ⟨stage, course⟩ := (chainInvariant_reachable reached).courses op submitted
  have sameLength : op.servIds.length = op.servs.length := List.length_map _
  have within := course.within
  rw [sameLength] at within
  refine ⟨stage, within, course.taken, ?_, ?_, ?_⟩
  · intro packet member pkt body same
    have known := course.packets packet member
    unfold PacketOf at known
    simp only [body] at known
    obtain ⟨position, servId, _, rfl, here, _, dst⟩ := known same
    exact ⟨position, servId, dst, here, readLock_ints _⟩
  · have ends := course.ends
    rw [sameLength] at ends
    have whole : op.servs.length ≤ stage ↔ stage = op.servs.length := by omega
    simp only [whole] at ends
    exact ends
  · intro packet member body
    have known := course.packets packet member
    unfold PacketOf at known
    simp only [body] at known
    exact known trivial

/-- The operation over servers 1 and 2 among a stranger whose list names server
1 twice. -/
def strangerRun : ChainWorld :=
  chainSystem.outcome { lock := emptyLockWorld, sent := [], strangers := [] }
    [.submit opFirst,
      .stranger 9 1 { curr := 0, clientId := 9, id := ⟨9, 1⟩, servs := [(1, ⟨9, 1⟩), (1, ⟨9, 1⟩)] },
      .deliver 0 0, .deliver 0 0, .deliver 0 0]

theorem visited_in_turn_stranger :
    (strangerRun.lock.dservs 1).taken = [opFirst.id, ⟨9, 1⟩] ∧
      ∃ stage, Visited strangerRun opFirst stage := by
  have reached : chainSystem.Reachable strangerRun := System.reachable_outcome rfl _
  have submitted : opFirst ∈ strangerRun.lock.submitted := by
    have listed : strangerRun.lock.submitted = [opFirst] := rfl
    rw [listed]
    exact List.mem_cons_self
  exact ⟨by decide, visited_in_turn reached submitted⟩

end SimpleDfs.Dserv
