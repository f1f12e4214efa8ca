import Mathlib.Algebra.GroupWithZero.Nat
import Mathlib.Algebra.Order.BigOperators.Group.List
import Mathlib.Algebra.Order.Group.Nat
import SimpleDfs.Net.SendQueue

/-!
Contract: every connection gets each packet as it was when it was sent on it.

Owns: the bytes a queue has still to write, the invariant that ties them to what
was sent and to the reference counts, and its consequence for what has been
written at any time.

Does not own: runs in which a packet is filled anew after it was sent.
-/

set_option autoImplicit false

namespace SimpleDfs.Net

open SimpleDfs.Library
open SimpleDfs.Common

/-! ## The request id -/

/-- The memory of a packet holds all of it. -/
def Sized (pkt : SPacket) : Prop :=
  pkt.size ≤ pkt.data.length

/-- The id that is written last stays. -/
theorem sPacketSetReq_twice {pkt : SPacket} (sized : Sized pkt) (first second : BitVec 32) :
    sPacketSetReq (sPacketSetReq pkt first) second = sPacketSetReq pkt second := by
  unfold Sized at sized
  unfold sPacketSetReq SPacket.setHead
  by_cases short : pkt.size < sPktHeadSize
  · rw [if_pos short, if_pos short]
  · have hasHead : 12 ≤ pkt.size := not_lt.mp short
    rw [if_neg short, if_neg short]
    dsimp only
    rw [if_neg short, overwrite_twice (by rw [wordBytes_length]; omega)
      ((wordBytes_length second).trans (wordBytes_length first).symm)]

/-- Writing the id that is there changes nothing. -/
theorem sPacketSetReq_getReq {pkt : SPacket} (sized : Sized pkt) :
    sPacketSetReq pkt (sPacketGetReq pkt) = pkt := by
  unfold Sized at sized
  unfold sPacketSetReq SPacket.setHead sPacketGetReq SPacket.getHead
  by_cases short : pkt.size < sPktHeadSize
  · rw [if_pos short]
  · have hasHead : 12 ≤ pkt.size := not_lt.mp short
    rw [if_neg short, if_neg short]
    rw [Library.overwrite_wordOf (by omega)]

theorem sPacketSetReq_size (pkt : SPacket) (req : BitVec 32) :
    (sPacketSetReq pkt req).size = pkt.size := by
  unfold sPacketSetReq SPacket.setHead
  split
  · rfl
  · rfl

theorem sPacketSetReq_refCount (pkt : SPacket) (req : BitVec 32) :
    (sPacketSetReq pkt req).refCount = pkt.refCount := by
  unfold sPacketSetReq SPacket.setHead
  split
  · rfl
  · rfl

theorem sized_setReq {pkt : SPacket} (sized : Sized pkt) (req : BitVec 32) :
    Sized (sPacketSetReq pkt req) := by
  unfold Sized at sized ⊢
  rw [sPacketSetReq_size]
  unfold sPacketSetReq SPacket.setHead
  split
  · exact sized
  next hasHead =>
    have twelve : 12 ≤ pkt.size := not_lt.mp hasHead
    rw [Library.overwrite_length (by rw [wordBytes_length]; omega)]
    exact sized

/-! ## What a queue still has to write -/

/-- The bytes of a queued packet with the request id of its node. -/
def wire (packets : Nat → SPacket) (node : PacketNode) : List UInt8 :=
  (sPacketSetReq (packets node.pkt) node.reqId).data.take node.total

/-- The bytes of a queued packet that are not written yet. -/
def unsent (packets : Nat → SPacket) (node : PacketNode) : List UInt8 :=
  (wire packets node).drop node.curr

/-- The references that a queue holds to a packet. -/
def references (addr : Nat) (conn : SendConn) : Nat :=
  (queued conn.writeQueue).countP fun node => node.pkt == addr

/-- A connection: what is written and what is queued make up what was sent. -/
structure ConnSound (packets : Nat → SPacket) (begun : Nat → Bool) (conn : SendConn) : Prop where
  ring : RingQueue conn.writeQueue
  begun : ∀ node ∈ queued conn.writeQueue, begun node.pkt = true
  inOrder : conn.written <+: conn.sent.flatten
  complete : conn.live = true →
    conn.written ++ (queued conn.writeQueue).flatMap (unsent packets) = conn.sent.flatten

/-- The reference count of a packet is the references its users hold and those
of the queues. -/
structure SendSound (world : SendWorld) : Prop where
  counted : ∀ addr, (world.packets addr).refCount =
    world.held addr + (world.conns.map (references addr)).sum
  sized : ∀ addr, 0 < (world.packets addr).refCount → Sized (world.packets addr)
  conns : ∀ conn ∈ world.conns, ConnSound world.packets world.begun conn

/-- Packets whose queued bytes are the same are as good. -/
theorem ConnSound.congr {packets packets' : Nat → SPacket} {begun begun' : Nat → Bool}
    {conn : SendConn} (sound : ConnSound packets begun conn)
    (same : ∀ node ∈ queued conn.writeQueue, wire packets' node = wire packets node ∧
      (begun node.pkt = true → begun' node.pkt = true)) : ConnSound packets' begun' conn := by
  refine ⟨sound.ring, ?_, sound.inOrder, ?_⟩
  · exact fun node member => (same node member).2 (sound.begun node member)
  · intro live
    rw [← sound.complete live]
    congr 1
    refine List.flatMap_congr ?_
    intro node member
    unfold unsent
    rw [(same node member).1]

/-- A queue that holds a packet counts. -/
theorem references_pos {conn : SendConn} {node : PacketNode}
    (member : node ∈ queued conn.writeQueue) : 0 < references node.pkt conn :=
  List.countP_pos_iff.mpr ⟨node, member, beq_self_eq_true _⟩

theorem references_le_sum {conns : List SendConn} {conn : SendConn} (member : conn ∈ conns)
    (addr : Nat) : references addr conn ≤ (conns.map (references addr)).sum :=
  List.le_sum_of_mem (List.mem_map_of_mem member)

/-- A packet object is replaced by one whose queued bytes are the same, unless no
queue holds it. -/
theorem SendSound.replace {world : SendWorld} (sound : SendSound world) {addr : Nat}
    {pkt : SPacket} {held : Nat → Nat} {begun : Nat → Bool}
    (counts : pkt.refCount + world.held addr = (world.packets addr).refCount + held addr)
    (sized : 0 < pkt.refCount → Sized pkt)
    (others : ∀ other, other ≠ addr → held other = world.held other ∧ begun other = world.begun other)
    (kept : (∃ conn ∈ world.conns, 0 < references addr conn) →
      begun addr = world.begun addr ∧
        ∀ req, (sPacketSetReq pkt req).data = (sPacketSetReq (world.packets addr) req).data) :
    SendSound { world with
      packets := Function.update world.packets addr pkt, held := held, begun := begun } := by
  constructor
  · intro other
    have counted := sound.counted other
    by_cases same : other = addr
    · subst same
      dsimp only
      rw [Function.update_self]
      omega
    · dsimp only
      rw [Function.update_of_ne same, (others other same).1]
      exact counted
  · intro other
    by_cases same : other = addr
    · subst same
      dsimp only
      rw [Function.update_self]
      exact sized
    · dsimp only
      rw [Function.update_of_ne same]
      exact sound.sized other
  · intro conn member
    refine (sound.conns conn member).congr ?_
    intro node queuedNode
    by_cases same : node.pkt = addr
    · have holds := references_pos queuedNode
      rw [same] at holds
      obtain ⟨sameBegun, sameData⟩ := kept ⟨conn, member, holds⟩
      unfold wire
      dsimp only
      rw [same, Function.update_self, sameBegun, sameData]
      exact ⟨rfl, id⟩
    · unfold wire
      dsimp only
      rw [Function.update_of_ne same, (others node.pkt same).2]
      exact ⟨rfl, id⟩

theorem sum_map_set {Elem : Type} (size : Elem → Nat) (fresh : Elem) (elems : List Elem) :
    ∀ (index : Nat) (old : Elem), elems[index]? = some old →
      ((elems.set index fresh).map size).sum + size old = (elems.map size).sum + size fresh := by
  induction elems with
  | nil => exact fun _ _ absent => nomatch absent
  | cons here rest inductionHypothesis =>
      intro index old found
      cases index with
      | zero =>
          cases Option.some.inj found
          rw [List.set_cons_zero, List.map_cons, List.map_cons, List.sum_cons, List.sum_cons]
          omega
      | succ index =>
          have behind := inductionHypothesis index old found
          rw [List.set_cons_succ, List.map_cons, List.map_cons, List.sum_cons, List.sum_cons]
          omega

/-- A connection is replaced, with the references its queue takes or gives
back. -/
theorem SendSound.setConn {world : SendWorld} (sound : SendSound world) {index : Nat}
    {conn after : SendConn} (found : world.conns[index]? = some conn) {packets : Nat → SPacket}
    (counts : ∀ addr, (packets addr).refCount + references addr conn =
      (world.packets addr).refCount + references addr after)
    (alive : ∀ addr, 0 < (packets addr).refCount → 0 < (world.packets addr).refCount)
    (same : ∀ addr, (packets addr).data = (world.packets addr).data ∧
      (packets addr).size = (world.packets addr).size)
    (soundAfter : ConnSound world.packets world.begun after) :
    SendSound { world with packets := packets, conns := world.conns.set index after } := by
  have sameWire : ∀ node, wire packets node = wire world.packets node := by
    intro node
    unfold wire sPacketSetReq SPacket.setHead
    rw [(same node.pkt).1, (same node.pkt).2]
    split
    · exact congrArg _ (same node.pkt).1
    · rfl
  constructor
  · intro addr
    have total := sum_map_set (references addr) after world.conns index conn found
    have before := sound.counted addr
    have moved := counts addr
    dsimp only
    omega
  · intro addr live
    have sized := sound.sized addr (alive addr live)
    unfold Sized at sized ⊢
    dsimp only
    rw [(same addr).1, (same addr).2]
    exact sized
  · intro other member
    rcases List.mem_or_eq_of_mem_set member with old | rfl
    · exact (sound.conns other old).congr fun node _ => ⟨sameWire node, id⟩
    · exact soundAfter.congr fun node _ => ⟨sameWire node, id⟩

/-! ## Writing -/

/-- The loops of `iwrite_conn` and `irm_conn` are for connections that are, or
are no longer, written to. -/
def LiveAt (world : SendWorld) (index : Nat) (live : Bool) : Prop :=
  ∀ conn, world.conns[index]? = some conn → conn.live = live

theorem liveAt_set {world : SendWorld} {packets : Nat → SPacket} {index : Nat} {live : Bool}
    {conn : SendConn} (isLive : conn.live = live) :
    LiveAt { world with packets := packets, conns := world.conns.set index conn } index live := by
  intro other found
  rw [List.getElem?_set_self'] at found
  obtain ⟨_, _, rfl⟩ := Option.map_eq_some_iff.mp found
  exact isLive

/-- Setting the request id of a packet that is queued or held. -/
theorem SendSound.setReq {world : SendWorld} (sound : SendSound world) {addr : Nat}
    (alive : 0 < (world.packets addr).refCount) (req : BitVec 32) :
    SendSound (world.modify addr fun pkt => sPacketSetReq pkt req) := by
  have sized := sound.sized addr alive
  refine sound.replace ?_ (fun _ => sized_setReq sized req) (fun _ _ => ⟨rfl, rfl⟩) ?_
  · rw [sPacketSetReq_refCount]
  · intro _
    refine ⟨rfl, ?_⟩
    intro other
    rw [sPacketSetReq_twice sized]

/-- A packet in a queue is referred to. -/
theorem SendSound.queued_alive {world : SendWorld} (sound : SendSound world) {conn : SendConn}
    (member : conn ∈ world.conns) {node : PacketNode} (inQueue : node ∈ queued conn.writeQueue) :
    0 < (world.packets node.pkt).refCount := by
  have counted := sound.counted node.pkt
  have holds := references_pos inQueue
  have most := references_le_sum member node.pkt
  omega

/-- The references of a queue without its first packet. -/
theorem references_pop {conn after : SendConn} {node : PacketNode} {rest : List PacketNode}
    (before : queued conn.writeQueue = node :: rest) (behind : queued after.writeQueue = rest)
    (addr : Nat) :
    references addr conn = references addr after + if addr = node.pkt then 1 else 0 := by
  unfold references
  rw [before, behind, List.countP_cons]
  by_cases same : addr = node.pkt
  · rw [if_pos same, same, beq_self_eq_true, if_pos rfl]
  · have different : ¬ (node.pkt == addr) = true := by simpa using Ne.symm same
    rw [if_neg same, if_neg different]

/-- The first packet of a queue is given back. -/
theorem SendSound.pop {world : SendWorld} (sound : SendSound world) {index : Nat}
    {conn after : SendConn} (found : world.conns[index]? = some conn) {node : PacketNode}
    {rest : List PacketNode} (before : queued conn.writeQueue = node :: rest)
    (behind : queued after.writeQueue = rest)
    (soundAfter : ConnSound world.packets world.begun after) :
    SendSound ((world.modify node.pkt sPacketDrop).setConn index after) := by
  have alive := sound.queued_alive (List.mem_of_getElem? found) (before ▸ List.mem_cons_self)
  refine sound.setConn found ?_ ?_ ?_ soundAfter
  · intro addr
    have moved := references_pop before behind addr
    by_cases same : addr = node.pkt
    · subst same
      rw [modify_self]
      rw [if_pos rfl] at moved
      unfold sPacketDrop
      dsimp only
      omega
    · rw [modify_of_ne world same]
      rw [if_neg same] at moved
      omega
  · intro addr left
    by_cases same : addr = node.pkt
    · rw [same]
      exact alive
    · rw [modify_of_ne world same] at left
      exact left
  · intro addr
    by_cases same : addr = node.pkt
    · subst same
      rw [modify_self]
      exact ⟨rfl, rfl⟩
    · rw [modify_of_ne world same]
      exact ⟨rfl, rfl⟩

/-- Some bytes of the first packet of a queue are written. -/
theorem sound_advance {world : SendWorld} (sound : SendSound world) {index : Nat}
    {conn : SendConn} (found : world.conns[index]? = some conn) (live : conn.live = true)
    {node : PacketNode} {rest : List PacketNode} (first : queued conn.writeQueue = node :: rest)
    (headed : sPacketSetReq (world.packets node.pkt) node.reqId = world.packets node.pkt)
    {count : Nat} (fits : count ≤ node.total - node.curr) :
    SendSound (advance world index conn node count) ∧
      LiveAt (advance world index conn node count) index true := by
  have connSound := sound.conns conn (List.mem_of_getElem? found)
  have complete := connSound.complete live
  rw [first, List.flatMap_cons] at complete
  -- the bytes written are the next ones of the packet with its own request id
  have split : unsent world.packets node =
      ((world.packets node.pkt).data.drop node.curr).take count ++
        unsent world.packets { node with curr := node.curr + count } := by
    have wireSplit : ((world.packets node.pkt).data.drop node.curr).take count =
        (unsent world.packets node).take count := by
      unfold unsent wire
      rw [headed, List.drop_take, List.take_take, Nat.min_eq_left fits]
    have behind : unsent world.packets { node with curr := node.curr + count } =
        (unsent world.packets node).drop count := by
      unfold unsent wire
      dsimp only
      rw [List.drop_drop]
    rw [wireSplit, behind, List.take_append_drop]
  rw [split, List.append_assoc, ← List.append_assoc] at complete
  unfold advance
  dsimp only
  split
  next done =>
    obtain ⟨ring, behind⟩ := sQueuePop_cons connSound.ring first
    have nothing : unsent world.packets { node with curr := node.curr + count } = [] := by
      unfold unsent
      exact List.drop_eq_nil_of_le ((List.length_take_le _ _).trans done)
    rw [nothing, List.nil_append] at complete
    refine ⟨sound.pop found first behind ?_, liveAt_set live⟩
    refine ⟨ring, ?_, ⟨_, complete⟩, ?_⟩
    · dsimp only
      rw [behind]
      intro other member
      exact connSound.begun other (first ▸ List.mem_cons_of_mem node member)
    · intro _
      dsimp only
      rw [behind]
      exact complete
  next more =>
    obtain ⟨ring, behind⟩ := sQueueSetFirst_cons connSound.ring first
      { node with curr := node.curr + count }
    refine ⟨sound.setConn found ?_ (fun _ => id) (fun _ => ⟨rfl, rfl⟩) ?_, liveAt_set live⟩
    · intro addr
      unfold references
      dsimp only
      rw [first, behind, List.countP_cons, List.countP_cons]
    · refine ⟨ring, ?_, ⟨_, complete⟩, ?_⟩
      · dsimp only
        rw [behind]
        intro other member
        rcases List.mem_cons.mp member with rfl | later
        · exact connSound.begun node (first ▸ List.mem_cons_self)
        · exact connSound.begun other (first ▸ List.mem_cons_of_mem node later)
      · intro _
        dsimp only
        rw [behind, List.flatMap_cons]
        exact complete

/-- **`iwrite_conn` keeps the order**, whatever `write` returns. -/
theorem sound_iwriteConn {index : Nat} (results : List WriteResult) :
    ∀ {world after : SendWorld}, SendSound world → LiveAt world index true →
      iwriteConn world index results = some after → SendSound after := by
  induction results with
  | nil =>
      intro world after sound _ ran
      cases Option.some.inj ran
      exact sound
  | cons result rest inductionHypothesis =>
      intro world after sound live ran
      unfold iwriteConn at ran
      split at ran
      next => cases ran
      next conn found =>
        have member := List.mem_of_getElem? found
        have connSound := sound.conns conn member
        rw [sQueuePeek_eq connSound.ring] at ran
        cases first : queued conn.writeQueue with
        | nil =>
            rw [first] at ran
            cases Option.some.inj ran
            exact sound
        | cons node others =>
            rw [first] at ran
            have inQueue : node ∈ queued conn.writeQueue := first ▸ List.mem_cons_self
            have alive := sound.queued_alive member inQueue
            have sized := sound.sized node.pkt alive
            have headed := sound.setReq alive node.reqId
            dsimp only [List.head?_cons] at ran
            cases result with
            | again =>
                cases Option.some.inj ran
                exact headed
            | failed =>
                cases Option.some.inj ran
                exact headed
            | zero =>
                cases Option.some.inj ran
                exact headed
            | interrupted => exact inductionHypothesis headed live ran
            | wrote count =>
                dsimp only at ran
                split at ran
                next fits =>
                  have already : sPacketSetReq ((world.modify node.pkt fun pkt =>
                        sPacketSetReq pkt node.reqId).packets node.pkt) node.reqId =
                      (world.modify node.pkt fun pkt =>
                        sPacketSetReq pkt node.reqId).packets node.pkt := by
                    rw [modify_self, sPacketSetReq_twice sized]
                  obtain ⟨soundNext, liveNext⟩ := sound_advance headed found (live conn found) first
                    already fits.2
                  exact inductionHypothesis soundNext liveNext ran
                next => cases ran

/-! ## Runs -/

/-- A packet object fresh from `s_packet_create`. -/
theorem sPacketCreate_fresh {size : Int} {junk : Nat → UInt8} {pkt : SPacket}
    (created : sPacketCreate size (packetMemory junk size) = some pkt) :
    pkt.refCount = 1 ∧ Sized pkt := by
  have enough : size.toNat ≤ 2 ^ max 4 (Nat.clog 2 size.toNat) :=
    (Nat.le_pow_clog Nat.one_lt_two size.toNat).trans
      (Nat.pow_le_pow_right (by omega) (le_max_right _ _))
  have long : (packetMemory junk size).length = 12 + 2 ^ max 4 (Nat.clog 2 size.toNat) := by
    unfold packetMemory
    rw [List.length_map, List.length_range]
  unfold sPacketCreate at created
  split at created
  · cases created
  · cases Option.some.inj created
    refine ⟨rfl, ?_⟩
    unfold Sized sPktHeadSize
    dsimp only
    rw [Library.overwrite_length (by rw [wordBytes_length]; omega), long]
    omega

/-- A packet object fresh from `s_packet_create_from`. -/
theorem sPacketCreateFrom_fresh {bytes : List UInt8} {pkt : SPacket}
    (found : sPacketCreateFrom bytes = some (some pkt)) : pkt.refCount = 1 ∧ Sized pkt := by
  obtain ⟨_, _, _, _, _, _, _, _, enough, _, data⟩ := sPacketCreateFrom_some found
  have sized : Sized pkt := by
    unfold Sized
    rw [data, List.length_take]
    omega
  refine ⟨?_, sized⟩
  unfold sPacketCreateFrom at found
  split at found
  next =>
    dsimp only at found
    split at found
    next =>
      split at found
      next => cases found
      next =>
        split at found
        next => cases found
        next created made =>
          unfold sPacketCreate at made
          split at made
          · cases made
          · cases Option.some.inj made
            cases Option.some.inj (Option.some.inj found)
            rfl
    next => cases found
  next => cases found

theorem SendSound.obtain {world after : SendWorld} (sound : SendSound world) {addr : Nat}
    {pkt : SPacket} (fresh : pkt.refCount = 1 ∧ Sized pkt)
    (obtained : world.obtain addr pkt = some after) : SendSound after := by
  unfold SendWorld.obtain at obtained
  split at obtained
  next free =>
    cases Option.some.inj obtained
    have counted := sound.counted addr
    refine sound.replace ?_ (fun _ => fresh.2) ?_ ?_
    · rw [Function.update_self]
      omega
    · exact fun other different =>
        ⟨Function.update_of_ne different _ _, Function.update_of_ne different _ _⟩
    · rintro ⟨conn, member, holds⟩
      have most := references_le_sum member addr
      omega
  next => cases obtained

/-- A packet that was never sent is in no queue. -/
theorem SendSound.unqueued {world : SendWorld} (sound : SendSound world) {addr : Nat}
    (unsent : world.begun addr = false) : ¬ ∃ conn ∈ world.conns, 0 < references addr conn := by
  rintro ⟨conn, member, holds⟩
  obtain ⟨node, inQueue, isAddr⟩ := List.countP_pos_iff.mp holds
  have sent := (sound.conns conn member).begun node inQueue
  rw [beq_iff_eq] at isAddr
  rw [isAddr, unsent] at sent
  cases sent

theorem SendSound.held_alive {world : SendWorld} (sound : SendSound world) {addr : Nat}
    (held : 0 < world.held addr) : 0 < (world.packets addr).refCount := by
  have counted := sound.counted addr
  omega

/-- A user takes or gives back a reference, moves the position, or fills a
packet that was never sent. -/
theorem SendSound.use {world : SendWorld} (sound : SendSound world) {addr : Nat}
    (held : 0 < world.held addr) (change : SPacket → SPacket) (count : Nat)
    (counts : (change (world.packets addr)).refCount + world.held addr =
      (world.packets addr).refCount + count)
    (size : (change (world.packets addr)).size = (world.packets addr).size)
    (length : (change (world.packets addr)).data.length = (world.packets addr).data.length)
    (data : (change (world.packets addr)).data = (world.packets addr).data ∨
      world.begun addr = false) :
    SendSound { world.modify addr change with
      held := Function.update world.held addr count } := by
  have sized := sound.sized addr (sound.held_alive held)
  refine sound.replace ?_ ?_ ?_ ?_
  · rw [Function.update_self]
    exact counts
  · intro _
    unfold Sized at sized ⊢
    rw [size, length]
    exact sized
  · exact fun other different => ⟨Function.update_of_ne different _ _, rfl⟩
  · intro inQueue
    rcases data with same | unsent
    · refine ⟨rfl, ?_⟩
      intro req
      unfold sPacketSetReq SPacket.setHead
      rw [size, same]
      split
      · exact same
      · rfl
    · exact absurd inQueue (sound.unqueued unsent)

/-- **`s_net_send` queues the packet as it is.** -/
theorem sound_sNetSend {world after : SendWorld} (sound : SendSound world) {index addr : Nat}
    (begun : world.begun addr = true) (held : 0 < world.held addr) (live : LiveAt world index true)
    {junk : Nat → PacketNode} {results : List WriteResult}
    (sent : sNetSend world index addr junk results = some after) : SendSound after := by
  unfold sNetSend at sent
  split at sent
  next => cases sent
  next conn found =>
    have alive := sound.held_alive held
    have sized := sound.sized addr alive
    have connSound := sound.conns conn (List.mem_of_getElem? found)
    dsimp only at sent
    obtain ⟨ring, elems⟩ := sQueuePush_spec connSound.ring junk (nodeOf world.packets addr)
    have bytes : unsent world.packets (nodeOf world.packets addr) =
        (world.packets addr).bytes := by
      unfold unsent wire SPacket.bytes nodeOf
      dsimp only
      rw [sPacketSetReq_getReq sized, List.drop_zero]
    have isLive : conn.live = true := live conn found
    refine sound_iwriteConn results ?_ (liveAt_set (by exact isLive)) sent
    refine sound.setConn found ?_ ?_ ?_ ⟨ring, ?_, ?_, ?_⟩
    · intro other
      unfold references
      dsimp only
      rw [elems, List.countP_append, List.countP_singleton]
      unfold nodeOf
      dsimp only
      by_cases same : other = addr
      · subst same
        rw [modify_self, beq_self_eq_true, if_pos rfl]
        unfold sPacketGrab
        dsimp only
        omega
      · have different : ¬ (addr == other) = true := by simpa using Ne.symm same
        rw [modify_of_ne world same, if_neg different]
        omega
    · intro other more
      by_cases same : other = addr
      · rw [same]
        exact alive
      · rw [modify_of_ne world same] at more
        exact more
    · intro other
      by_cases same : other = addr
      · subst same
        rw [modify_self]
        exact ⟨rfl, rfl⟩
      · rw [modify_of_ne world same]
        exact ⟨rfl, rfl⟩
    · dsimp only
      rw [elems]
      intro other member
      rcases List.mem_append.mp member with earlier | last
      · exact connSound.begun other earlier
      · rw [List.mem_singleton.mp last]
        exact begun
    · dsimp only
      rw [List.flatten_append]
      exact connSound.inOrder.trans (List.prefix_append _ _)
    · intro _
      dsimp only
      rw [elems, List.flatMap_append, List.flatten_append, ← List.append_assoc,
        connSound.complete isLive, List.flatMap_singleton, List.flatten_singleton, bytes]

/-- `irm_conn` gives back every packet of a connection that is no longer written
to. -/
theorem sound_dropQueue {index : Nat} (fuel : Nat) :
    ∀ {world after : SendWorld}, SendSound world → LiveAt world index false →
      dropQueue index fuel world = some after → SendSound after := by
  induction fuel with
  | zero => exact fun _ _ ran => nomatch ran
  | succ fuel inductionHypothesis =>
      intro world after sound dead ran
      unfold dropQueue at ran
      split at ran
      next => cases ran
      next conn found =>
        have connSound := sound.conns conn (List.mem_of_getElem? found)
        rw [sQueuePeek_eq connSound.ring] at ran
        cases first : queued conn.writeQueue with
        | nil =>
            rw [first] at ran
            cases Option.some.inj ran
            exact sound
        | cons node rest =>
            rw [first] at ran
            dsimp only [List.head?_cons] at ran
            obtain ⟨ring, behind⟩ := sQueuePop_cons connSound.ring first
            have popped : ConnSound world.packets world.begun
                { conn with writeQueue := sQueuePop conn.writeQueue } := by
              refine ⟨ring, ?_, connSound.inOrder, ?_⟩
              · dsimp only
                rw [behind]
                exact fun other member =>
                  connSound.begun other (first ▸ List.mem_cons_of_mem node member)
              · intro live
                have isDead := dead conn found
                dsimp only at live
                rw [isDead] at live
                cases live
            exact inductionHypothesis (sound.pop found first behind popped)
              (liveAt_set (dead conn found)) ran

/-- The loop of `irm_conn` ends: a queue has fewer packets than slots. -/
theorem dropQueue_isSome {index : Nat} (fuel : Nat) :
    ∀ {world : SendWorld} {conn : SendConn}, world.conns[index]? = some conn →
      RingQueue conn.writeQueue → (queued conn.writeQueue).length < fuel →
      (dropQueue index fuel world).isSome = true := by
  induction fuel with
  | zero => exact fun _ _ none => absurd none (Nat.not_lt_zero _)
  | succ fuel inductionHypothesis =>
      intro world conn found ring short
      unfold dropQueue
      rw [found]
      dsimp only
      rw [sQueuePeek_eq ring]
      cases first : queued conn.writeQueue with
      | nil => rfl
      | cons node rest =>
          obtain ⟨popped, behind⟩ := sQueuePop_cons ring first
          rw [first, List.length_cons] at short
          have stays : (((world.modify node.pkt sPacketDrop).setConn index
              { conn with writeQueue := sQueuePop conn.writeQueue }).conns)[index]? =
              some { conn with writeQueue := sQueuePop conn.writeQueue } := by
            unfold SendWorld.setConn SendWorld.modify
            dsimp only
            rw [List.getElem?_set_self', found]
            rfl
          refine inductionHypothesis stays popped ?_
          dsimp only
          rw [behind]
          omega

/-- A user changes a packet and keeps its references. -/
theorem SendSound.use_kept {world : SendWorld} (sound : SendSound world) {addr : Nat}
    (held : 0 < world.held addr) (change : SPacket → SPacket)
    (counts : (change (world.packets addr)).refCount = (world.packets addr).refCount)
    (size : (change (world.packets addr)).size = (world.packets addr).size)
    (length : (change (world.packets addr)).data.length = (world.packets addr).data.length)
    (data : (change (world.packets addr)).data = (world.packets addr).data ∨
      world.begun addr = false) : SendSound (world.modify addr change) := by
  have used := sound.use held change (world.held addr) (by rw [counts]) size length data
  rw [Function.update_eq_self] at used
  exact used

/-- A new connection has nothing to write. -/
theorem SendSound.connect {world : SendWorld} (sound : SendSound world) (elemNum : Nat)
    (junk : Nat → PacketNode) :
    SendSound { world with
      conns := world.conns ++
        [{ writeQueue := sQueueCreate elemNum junk, written := [], sent := [], live := true }] } := by
  obtain ⟨ring, empty⟩ := ringQueue_create elemNum junk
  constructor
  · intro addr
    unfold references
    dsimp only
    rw [List.map_append, List.sum_append, List.map_singleton, List.sum_singleton, empty]
    exact sound.counted addr
  · exact sound.sized
  · intro conn member
    rcases List.mem_append.mp member with earlier | last
    · exact sound.conns conn earlier
    · rw [List.mem_singleton.mp last]
      refine ⟨ring, ?_, List.nil_prefix, ?_⟩
      · dsimp only
        rw [empty]
        exact fun _ absent => absurd absent List.not_mem_nil
      · dsimp only
        rw [empty]
        exact fun _ => rfl

/-- A packet is sent for the first time. -/
theorem SendSound.begin {world : SendWorld} (sound : SendSound world) (addr : Nat) :
    SendSound { world with begun := Function.update world.begun addr true } := by
  refine ⟨sound.counted, sound.sized, ?_⟩
  intro conn member
  refine (sound.conns conn member).congr fun node _ => ⟨rfl, ?_⟩
  intro begun
  dsimp only
  by_cases same : node.pkt = addr
  · rw [same, Function.update_self]
  · rw [Function.update_of_ne same]
    exact begun

/-- A connection is no longer written to. -/
theorem SendSound.shut {world : SendWorld} (sound : SendSound world) {index : Nat}
    {conn : SendConn} (found : world.conns[index]? = some conn) :
    SendSound (world.setConn index { conn with live := false }) := by
  have connSound := sound.conns conn (List.mem_of_getElem? found)
  exact sound.setConn found (fun _ => rfl) (fun _ => id) (fun _ => ⟨rfl, rfl⟩)
    ⟨connSound.ring, connSound.begun, connSound.inOrder, fun live => nomatch live⟩

/-- Every event keeps what is written in order. -/
theorem sound_step {before after : SendWorld} {event : SendEvent} (sound : SendSound before)
    (stepped : before.step event = some after) : SendSound after := by
  cases event with
  | create addr size junk =>
      obtain ⟨pkt, created, obtained⟩ := Option.bind_eq_some_iff.mp stepped
      exact sound.obtain (sPacketCreate_fresh created) obtained
  | receive addr bytes =>
      obtain ⟨pkt, found, obtained⟩ := Option.bind_eq_some_iff.mp stepped
      exact sound.obtain (sPacketCreateFrom_fresh (Option.join_eq_some_iff.mp found)) obtained
  | fill addr data =>
      unfold SendWorld.step at stepped
      dsimp only at stepped
      split at stepped
      next allowed =>
        cases Option.some.inj stepped
        exact sound.use_kept allowed.1 (fun pkt => { pkt with data := data }) rfl rfl allowed.2.2
          (Or.inr allowed.2.1)
      next => cases stepped
  | seek addr pos =>
      unfold SendWorld.step at stepped
      dsimp only at stepped
      split at stepped
      next held =>
        cases Option.some.inj stepped
        exact sound.use_kept held (fun pkt => { pkt with pos := pos }) rfl rfl rfl (Or.inl rfl)
      next => cases stepped
  | setReq addr req =>
      unfold SendWorld.step at stepped
      dsimp only at stepped
      split at stepped
      next held =>
        cases Option.some.inj stepped
        exact sound.setReq (sound.held_alive held) req
      next => cases stepped
  | grab addr =>
      unfold SendWorld.step at stepped
      dsimp only at stepped
      split at stepped
      next held =>
        cases Option.some.inj stepped
        refine sound.use held sPacketGrab _ ?_ rfl rfl (Or.inl rfl)
        unfold sPacketGrab
        dsimp only
        omega
      next => cases stepped
  | drop addr =>
      unfold SendWorld.step at stepped
      dsimp only at stepped
      split at stepped
      next held =>
        cases Option.some.inj stepped
        refine sound.use held sPacketDrop _ ?_ rfl rfl (Or.inl rfl)
        unfold sPacketDrop
        dsimp only
        omega
      next => cases stepped
  | connect elemNum junk =>
      cases Option.some.inj stepped
      exact sound.connect elemNum junk
  | send index addr junk results =>
      unfold SendWorld.step at stepped
      dsimp only at stepped
      split at stepped
      next => cases stepped
      next conn found =>
        split at stepped
        next allowed =>
          refine sound_sNetSend (sound.begin addr) (Function.update_self _ _ _) allowed.2 ?_ stepped
          intro other same
          rw [Option.some.inj (same.symm.trans found)]
          exact allowed.1
        next => cases stepped
  | writable index results =>
      unfold SendWorld.step at stepped
      dsimp only at stepped
      split at stepped
      next => cases stepped
      next conn found =>
        split at stepped
        next live =>
          refine sound_iwriteConn results sound ?_ stepped
          intro other same
          rw [Option.some.inj (same.symm.trans found)]
          exact live
        next => cases stepped
  | close index =>
      unfold SendWorld.step at stepped
      dsimp only at stepped
      split at stepped
      next => cases stepped
      next conn found =>
        split at stepped
        next => exact sound_dropQueue _ (sound.shut found) (liveAt_set rfl) stepped
        next => cases stepped

theorem sound_reachable {world : SendWorld} (reached : sendSystem.Reachable world) :
    SendSound world := by
  refine reached.invariant SendSound ?_ fun _ _ _ _ sound _ stepped => sound_step sound stepped
  rintro start ⟨free, unused, noConns⟩
  constructor
  · intro addr
    rw [free, unused, noConns]
    rfl
  · intro addr live
    rw [free] at live
    exact absurd live (lt_irrefl 0)
  · rw [noConns]
    exact fun _ absent => absurd absent List.not_mem_nil

/-- **What is written to a connection** is the beginning of the packets sent on
it, one after the other, each as it was when it was sent. -/
theorem written_isPrefix {world : SendWorld} (reached : sendSystem.Reachable world)
    {conn : SendConn} (member : conn ∈ world.conns) : conn.written <+: conn.sent.flatten :=
  ((sound_reachable reached).conns conn member).inOrder

/-- No packet and no connection. -/
def nothingSent : SendWorld where
  packets := fun _ => { size := 0, pos := 0, refCount := 0, exp := 0, data := [] }
  held := fun _ => 0
  begun := fun _ => false
  conns := []

/-- A packet without a body goes to two connections, the first of which takes
nine bytes before the id is set again. -/
def sentTwice : SendWorld :=
  sendSystem.outcome nothingSent
    [.create 0 0 fun _ => 0, .connect 16 fun _ => nodeOf nothingSent.packets 0,
      .connect 16 fun _ => nodeOf nothingSent.packets 0, .setReq 0 1,
      .send 0 0 (fun _ => nodeOf nothingSent.packets 0) [.wrote 9, .again], .setReq 0 2,
      .send 1 0 (fun _ => nodeOf nothingSent.packets 0) [.interrupted, .wrote 12], .drop 0,
      .writable 0 [.wrote 3]]

theorem written_isPrefix_sentTwice :
    ∃ conn ∈ sentTwice.conns, conn.written = [12, 0, 0, 0, 0, 0, 0, 0, 1, 0, 0, 0] ∧
      conn.written <+: conn.sent.flatten := by
  have initial : sendSystem.init nothingSent := ⟨fun _ => rfl, fun _ => rfl, rfl⟩
  have reached : sendSystem.Reachable sentTwice := System.reachable_outcome initial _
  have written : sentTwice.conns.map SendConn.written =
      [[12, 0, 0, 0, 0, 0, 0, 0, 1, 0, 0, 0], [12, 0, 0, 0, 0, 0, 0, 0, 2, 0, 0, 0]] := by
    decide +kernel
  have first : [12, 0, 0, 0, 0, 0, 0, 0, 1, 0, 0, 0] ∈ sentTwice.conns.map SendConn.written := by
    rw [written]
    exact List.mem_cons_self
  obtain ⟨conn, member, same⟩ := List.mem_map.mp first
  exact ⟨conn, member, same, written_isPrefix reached member⟩

end SimpleDfs.Net
