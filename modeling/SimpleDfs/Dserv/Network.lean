import SimpleDfs.Dserv.Handlers
import SimpleDfs.Library.Run
import SimpleDfs.Library.Sequence

/-!
Contract: data servers and clients joined by reliable channels, first in first
out for each ordered pair, on which every peer stays connected.

Owns: `Operation`, `LockWorld`, the dispatch of a packet to its handler, and
the runs in which clients submit operations of distinct ids and packets are
delivered in any order the channels allow.

Clients number their operations, so no id is used twice (`s_ud_client.c`).

Does not own: what a client does with LOCK_END.
-/

set_option autoImplicit false

namespace SimpleDfs.Dserv

open SimpleDfs.Common
open SimpleDfs.Library

/-- What a client asks for: the data servers to visit, in increasing order. -/
structure Operation where
  id : SId
  clientId : Int
  servs : List (Int × SId)
  nonempty : servs ≠ []
  increasing : (servs.map Prod.fst).Pairwise (· < ·)

namespace Operation

/-- The servers the operation names. -/
def servIds (op : Operation) : List Int :=
  op.servs.map Prod.fst

/-- The packet that carries the operation to position `curr`. -/
def packet (op : Operation) (curr : Nat) : LockPacket where
  curr := curr
  clientId := op.clientId
  id := op.id
  servs := op.servs

/-- The server the client sends LOCK_START to. -/
def first (op : Operation) : Int :=
  (op.servs.head op.nonempty).1

end Operation

/-- Data servers, packets in flight in the order they were sent, and the
operations submitted so far. -/
structure LockWorld where
  dservs : Int → Dserver
  net : Sends
  submitted : List Operation

/-- What can happen.  `junk` is what a handler reads past an array's end. -/
inductive LockEvent where
  | submit (op : Operation)
  | deliver (index : Nat) (junk : Int)

/-- The handler registered for the packet's type and sender. -/
def dispatch (core : Core) (dserv : Dserver) (packet : Packet Peer LockBody) :
    Option (Dserver × Sends) :=
  match packet.src, packet.body with
  | .client _, .lockStart pkt => sCoreDservLock core dserv pkt
  | .dserv _, .lockNext pkt => sCoreDservLock core dserv pkt
  | .dserv servId, .lockUnlock id => some (sCoreDservLockUnlock core dserv servId id)
  | _, _ => some (dserv, [])

/-- A data server whose peers are all connected. -/
def connectedCore (id junk : Int) : Core where
  id := id
  active := fun _ => true
  junk := junk

/-- Replace one data server and append what it sent. -/
def LockWorld.update (world : LockWorld) (servId : Int) (dserv : Dserver) (sends : Sends) :
    LockWorld :=
  { world with
    dservs := Function.update world.dservs servId dserv
    net := world.net ++ sends }

def LockWorld.step (world : LockWorld) : LockEvent → Option LockWorld
  | .submit op =>
      if op.id ∈ world.submitted.map Operation.id then none
      else
        some { world with
          submitted := op :: world.submitted
          net := world.net ++
            [{ src := .client op.clientId, dst := .dserv op.first
               body := .lockStart (op.packet 0) }] }
  | .deliver index junk =>
      match Packet.takeAt world.net index with
      | none => none
      | some (packet, rest) =>
          let world := { world with net := rest }
          match packet.dst with
          | .client _ => some world
          | .dserv servId =>
              match dispatch (connectedCore servId junk) (world.dservs servId) packet with
              | none => none
              | some (dserv, sends) => some (world.update servId dserv sends)

/-- Nothing submitted, nothing in flight. -/
def emptyLockWorld : LockWorld where
  dservs := fun _ => Dserver.empty
  net := []
  submitted := []

def lockSystem : System LockWorld LockEvent where
  init := fun world => world = emptyLockWorld
  step := LockWorld.step

/-- `before` was taken earlier than `after` at the data server. -/
def TakenBefore (world : LockWorld) (servId : Int) (before after : SId) : Prop :=
  Earlier (world.dservs servId).taken before after

/-- No chained-lock request or release is in flight. -/
def Quiet (world : LockWorld) : Prop :=
  ∀ packet ∈ world.net, ∃ id, packet.body = .lockEnd id

/-! ## A run of two operations that meet twice -/

/-- Operation number `number` of client `number`, over two servers. -/
def pairOperation (number : Nat) (low high : Int) (ordered : low < high) : Operation where
  id := ⟨number, 1⟩
  clientId := number
  servs := [(low, ⟨number, 1⟩), (high, ⟨number, 1⟩)]
  nonempty := by simp
  increasing := by simpa using ordered

def opFirst : Operation := pairOperation 1 1 2 (by decide)
def opSecond : Operation := pairOperation 2 1 2 (by decide)

/-- The second operation waits at server 1 until server 2 has taken the first. -/
def raceWorld : LockWorld :=
  lockSystem.outcome emptyLockWorld
    [.submit opFirst, .submit opSecond, .deliver 0 0, .deliver 0 0, .deliver 0 0, .deliver 0 0,
      .deliver 1 0, .deliver 1 0]

theorem raceWorld_reached : lockSystem.Reachable raceWorld :=
  System.reachable_outcome rfl _

theorem raceWorld_submitted : raceWorld.submitted = [opSecond, opFirst] := rfl

end SimpleDfs.Dserv
