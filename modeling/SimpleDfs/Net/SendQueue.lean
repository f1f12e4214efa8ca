import SimpleDfs.Common.SQueue
import SimpleDfs.Library.Run
import SimpleDfs.Net.Fields

/-!
Contract: packets that wait on several connections at once (`s_net_send`,
`iwrite_conn` and `irm_conn` of `net/s_net.c`).

Owns: packet objects with their reference counts, write queues, and the runs in
which packets are filled, sent and written out.

Does not own: who sends a packet; what a connection receives.

A write queue holds the packet objects themselves.  Their request id is written
anew by every call that sends them, and by every write.
-/

set_option autoImplicit false

namespace SimpleDfs.Net

open SimpleDfs.Library
open SimpleDfs.Common

/-- `struct packet_node`; `p` points into `pkt`. -/
structure PacketNode where
  pkt : Nat
  curr : Nat
  total : Nat
  reqId : BitVec 32
  deriving DecidableEq, Repr

/-- A connection with all bytes written to it, and the packets of all calls of
`s_net_send` for it as they were then. -/
structure SendConn where
  writeQueue : SQueue PacketNode
  written : List UInt8
  sent : List (List UInt8)
  live : Bool

/-- The packet objects by address, the references their users hold, the packets
that have been sent, and the connections. -/
structure SendWorld where
  packets : Nat → SPacket
  held : Nat → Nat
  begun : Nat → Bool
  conns : List SendConn

/-- The bytes of a packet. -/
def SPacket.bytes (pkt : SPacket) : List UInt8 :=
  pkt.data.take pkt.size.toNat

/-- `s_packet_grab`. -/
def sPacketGrab (pkt : SPacket) : SPacket :=
  { pkt with refCount := pkt.refCount + 1 }

/-- `s_packet_drop`, but for the free list. -/
def sPacketDrop (pkt : SPacket) : SPacket :=
  { pkt with refCount := pkt.refCount - 1 }

/-- Change a packet object. -/
def SendWorld.modify (world : SendWorld) (addr : Nat) (change : SPacket → SPacket) : SendWorld :=
  { world with packets := Function.update world.packets addr (change (world.packets addr)) }

theorem modify_self (world : SendWorld) (addr : Nat) (change : SPacket → SPacket) :
    (world.modify addr change).packets addr = change (world.packets addr) :=
  Function.update_self _ _ _

theorem modify_of_ne (world : SendWorld) {addr other : Nat} (different : other ≠ addr)
    (change : SPacket → SPacket) :
    (world.modify addr change).packets other = world.packets other :=
  Function.update_of_ne different _ _

def SendWorld.setConn (world : SendWorld) (index : Nat) (conn : SendConn) : SendWorld :=
  { world with conns := world.conns.set index conn }

/-- One result of `write`: some bytes were taken, or one of the errors that the
loop tells apart. -/
inductive WriteResult where
  | wrote (count : Nat)
  | zero
  | again
  | interrupted
  | failed
  deriving DecidableEq, Repr

/-- The bookkeeping of `iwrite_conn` after some bytes of the first packet were
taken. -/
def advance (world : SendWorld) (index : Nat) (conn : SendConn) (pn : PacketNode) (count : Nat) :
    SendWorld :=
  let bytes := ((world.packets pn.pkt).data.drop pn.curr).take count
  let curr := pn.curr + count
  let conn := { conn with written := conn.written ++ bytes }
  if curr ≥ pn.total then
    (world.modify pn.pkt sPacketDrop).setConn index
      { conn with writeQueue := sQueuePop conn.writeQueue }
  else
    world.setConn index
      { conn with writeQueue := sQueueSetFirst conn.writeQueue { pn with curr := curr } }

/-- `iwrite_conn`, with the results of its calls of `write`; a list that ends
early stands for `EAGAIN`.  `none` is a count no kernel returns.  What it returns
decides whether the connection is closed, which is an event of its own. -/
def iwriteConn (world : SendWorld) (index : Nat) : List WriteResult → Option SendWorld
  | [] => some world
  | result :: rest =>
      match world.conns[index]? with
      | none => none
      | some conn =>
          match sQueuePeek conn.writeQueue with
          | none => some world
          | some pn =>
              let world := world.modify pn.pkt fun pkt => sPacketSetReq pkt pn.reqId
              match result with
              | .again => some world
              | .interrupted => iwriteConn world index rest
              | .failed => some world
              | .zero => some world
              | .wrote count =>
                  if 0 < count ∧ count ≤ pn.total - pn.curr then
                    iwriteConn (advance world index conn pn count) index rest
                  else none

/-- The node that `s_net_send` fills in. -/
def nodeOf (packets : Nat → SPacket) (addr : Nat) : PacketNode where
  pkt := addr
  curr := 0
  total := (packets addr).size.toNat
  reqId := sPacketGetReq (packets addr)

/-- `s_net_send`, without the close after a failed write. -/
def sNetSend (world : SendWorld) (index addr : Nat) (junk : Nat → PacketNode)
    (results : List WriteResult) : Option SendWorld :=
  match world.conns[index]? with
  | none => none
  | some conn =>
      let queued := { conn with
        writeQueue := sQueuePush conn.writeQueue junk (nodeOf world.packets addr)
        sent := conn.sent ++ [(world.packets addr).bytes] }
      iwriteConn ((world.modify addr sPacketGrab).setConn index queued) index results

/-- The loop of `irm_conn` over the write queue. -/
def dropQueue (index : Nat) : Nat → SendWorld → Option SendWorld
  | 0, _ => none
  | fuel + 1, world =>
      match world.conns[index]? with
      | none => none
      | some conn =>
          match sQueuePeek conn.writeQueue with
          | none => some world
          | some pn =>
              dropQueue index fuel ((world.modify pn.pkt sPacketDrop).setConn index
                { conn with writeQueue := sQueuePop conn.writeQueue })

/-- What happens to packets and connections.  The users of a packet obtain it,
fill it before its first call of `s_net_send`, move its position, set its
request id, and take and give back references. -/
inductive SendEvent where
  | create (addr : Nat) (size : Int) (junk : Nat → UInt8)
  | receive (addr : Nat) (bytes : List UInt8)
  | fill (addr : Nat) (data : List UInt8)
  | seek (addr : Nat) (pos : Int)
  | setReq (addr : Nat) (req : BitVec 32)
  | grab (addr : Nat)
  | drop (addr : Nat)
  | connect (elemNum : Nat) (junk : Nat → PacketNode)
  | send (index addr : Nat) (junk : Nat → PacketNode) (results : List WriteResult)
  | writable (index : Nat) (results : List WriteResult)
  | close (index : Nat)

/-- A packet object that nobody refers to is obtained. -/
def SendWorld.obtain (world : SendWorld) (addr : Nat) (pkt : SPacket) : Option SendWorld :=
  if (world.packets addr).refCount = 0 then
    some { world with
      packets := Function.update world.packets addr pkt
      held := Function.update world.held addr 1
      begun := Function.update world.begun addr false }
  else none

/-- Only the holder of a reference uses a packet; only live connections are
written to. -/
def SendWorld.step (world : SendWorld) : SendEvent → Option SendWorld
  | .create addr size junk =>
      (sPacketCreate size (packetMemory junk size)).bind (world.obtain addr)
  | .receive addr bytes =>
      (sPacketCreateFrom bytes).join.bind (world.obtain addr)
  | .fill addr data =>
      if 0 < world.held addr ∧ world.begun addr = false ∧
          data.length = (world.packets addr).data.length then
        some (world.modify addr fun pkt => { pkt with data := data })
      else none
  | .seek addr pos =>
      if 0 < world.held addr then some (world.modify addr fun pkt => { pkt with pos := pos })
      else none
  | .setReq addr req =>
      if 0 < world.held addr then some (world.modify addr fun pkt => sPacketSetReq pkt req)
      else none
  | .grab addr =>
      if 0 < world.held addr then
        some { world.modify addr sPacketGrab with
          held := Function.update world.held addr (world.held addr + 1) }
      else none
  | .drop addr =>
      if 0 < world.held addr then
        some { world.modify addr sPacketDrop with
          held := Function.update world.held addr (world.held addr - 1) }
      else none
  | .connect elemNum junk =>
      some { world with
        conns := world.conns ++
          [{ writeQueue := sQueueCreate elemNum junk, written := [], sent := [], live := true }] }
  | .send index addr junk results =>
      match world.conns[index]? with
      | none => none
      | some conn =>
          if conn.live = true ∧ 0 < world.held addr then
            sNetSend { world with begun := Function.update world.begun addr true } index addr junk
              results
          else none
  | .writable index results =>
      match world.conns[index]? with
      | none => none
      | some conn => if conn.live then iwriteConn world index results else none
  | .close index =>
      match world.conns[index]? with
      | none => none
      | some conn =>
          if conn.live then
            dropQueue index conn.writeQueue.total (world.setConn index { conn with live := false })
          else none

/-- No packet is in use and there is no connection. -/
def sendSystem : System SendWorld SendEvent where
  init := fun world => (∀ addr, (world.packets addr).refCount = 0) ∧ (∀ addr, world.held addr = 0) ∧
    world.conns = []
  step := SendWorld.step

end SimpleDfs.Net
