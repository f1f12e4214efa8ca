import SimpleDfs.Library.Run
import SimpleDfs.Paxos.Proposer

/-!
Contract: servers of the Paxos layer joined by channels that are first in first
out for each ordered pair and may delay or lose packets.

Owns: the dispatch of a packet to its handler, the world of all servers with
the ledgers the properties speak of, its events and its runs.

Does not own: any property of a run.
-/

set_option autoImplicit false

namespace SimpleDfs.Paxos

open SimpleDfs.Common
open SimpleDfs.Library

/-- The handler registered for a packet. -/
def dispatch (layout : Layout) (core : Core) (src : Nat) : PaxosBody → Core
  | .request req request =>
      let (paxos, reply) := ireceiveRequest layout core.paxos request
      { core with paxos := paxos }.send src (.rpcBack req (.prepare reply))
  | .accept topic id value version =>
      { core with paxos := iaccept core.paxos topic id value version }
  | .learnRequest req version =>
      core.send src (.rpcBack req (.learn (ireceiveLearnRequest layout core.paxos version)))
  | .addMe => ireceiveAdd core src
  | .addAccept req dump =>
      { core with paxos := ireceiveAddAccept core.paxos dump }.send src (.rpcBack req .done)
  | .refreshAccept req dump =>
      match ireceiveRefreshAccept layout core.paxos dump with
      | (_, false) => core
      | (paxos, true) => { core with paxos := paxos }.send src (.rpcBack req .done)
  | .rpcBack req reply => finishCall layout core src req (some reply)

/-- An entry of an acceptor's table, with the acceptor. -/
structure Vote where
  server : Nat
  entry : PaxosAccept
  deriving DecidableEq, Repr

/-- A prepare request answered with a promise. -/
structure Promise where
  server : Nat
  topic : Topic
  id : SId
  deriving DecidableEq, Repr

/-- A promise that reached its proposer: the proposal, who gave it, and the
accepted value it reported. -/
structure Heard where
  proposal : SId
  server : Nat
  report : Option (SId × Value)
  deriving DecidableEq, Repr

/-- All servers and the packets in flight in the order they were sent.

The rest is history: every packet sent, every entry that ever stood in an
accept table, every promise given and every promise that reached its proposer,
and the proposals whose prepare calls ended without a packet. -/
structure PaxosWorld where
  cores : Nat → Core
  net : List PaxosPacket
  sent : List PaxosPacket
  votes : List Vote
  promises : List Promise
  heard : List Heard
  missed : List SId

/-- What can happen: a user's proposal, a server asking to join, the checks a
server makes from time to time, the delivery or loss of a packet, the end of a
call without a reply, and a change of a connection. -/
inductive PaxosEvent where
  | start (server : Nat) (topic : Topic) (value : Value)
  | askAdd (server target : Nat)
  | checkLeave (server : Nat)
  | learnAll (server : Nat)
  | deliver (index : Nat) (layout : Layout)
  | lose (index : Nat)
  | timeout (server peer req : Nat) (layout : Layout)
  | connection (server peer : Nat) (established : Bool)

/-- The entries of a table that another table does not have. -/
def newEntries (before after : SPaxos) : List PaxosAccept :=
  (after.accept.keys.flatMap after.accepts).filter fun entry =>
    !(before.accepts entry.topic).contains entry

/-- Let one server run a handler. -/
def PaxosWorld.act (world : PaxosWorld) (server : Nat) (handler : Core → Core) : PaxosWorld :=
  let before := world.cores server
  let after := handler before
  { world with
    cores := Function.update world.cores server { after with out := [] }
    net := world.net ++ after.out
    sent := world.sent ++ after.out
    votes := world.votes ++
      (newEntries before.paxos after.paxos).map fun entry => { server := server, entry := entry } }

/-- The promise a server gives when it handles a packet. -/
def promiseOf (core : Core) (packet : PaxosPacket) : List Promise :=
  match packet.body with
  | .request _ request =>
      if core.paxos.version.version = request.version.version then
        [{ server := packet.dst, topic := request.topic, id := request.id }]
      else []
  | _ => []

/-- The proposal whose prepare call to `peer` is pending under `req`. -/
def awaiting (core : Core) (peer req : Nat) : List SId :=
  match core.calls.find? fun call => call.req == req && call.peer == peer with
  | some { callback := .receiveResponse key, .. } => [⟨core.id, key⟩]
  | _ => []

/-- The promise a server hears when it handles a packet. -/
def heardBy (core : Core) (packet : PaxosPacket) : List Heard :=
  match packet.body with
  | .rpcBack req (.prepare (.promise report _ _)) =>
      (awaiting core packet.src req).map fun proposal =>
        { proposal := proposal, server := packet.src, report := report }
  | _ => []

/-- A user proposes a value only on a server that runs; everything else is
driven by packets and time. -/
def PaxosWorld.step (world : PaxosWorld) : PaxosEvent → Option PaxosWorld
  | .start server topic value =>
      some (world.act server fun core => sPaxosStart core topic value .normal 0)
  | .askAdd server target =>
      some (world.act server fun core => core.send target .addMe)
  | .checkLeave server => some (world.act server sPaxosCheckLeave)
  | .learnAll server => some (world.act server sPaxosLearnAll)
  | .deliver index layout =>
      match Packet.takeAt world.net index with
      | none => none
      | some (packet, rest) =>
          let core := world.cores packet.dst
          some ({ world with
              net := rest
              promises := world.promises ++ promiseOf core packet
              heard := world.heard ++ heardBy core packet }.act packet.dst
            fun core => dispatch layout core packet.src packet.body)
  | .lose index =>
      match world.net[index]? with
      | none => none
      | some packet =>
          if packet.src = packet.dst then none
          else some { world with net := world.net.eraseIdx index }
  | .timeout server peer req layout =>
      let missed := awaiting (world.cores server) peer req
      some ({ world with missed := world.missed ++ missed }.act server
        fun core => finishCall layout core peer req none)
  | .connection server peer established =>
      if server = peer then none
      else
        some (world.act server fun core =>
          { core with active := Function.update core.active peer established })

/-- The state before any packet: each server fresh, connected to itself and to
whomever it is. -/
def freshWorld (connected : Nat → Nat → Bool) : PaxosWorld where
  cores := fun server => createCore server (Function.update (connected server) server true)
  net := []
  sent := []
  votes := []
  promises := []
  heard := []
  missed := []

/-- Runs from the state in which server 1 alone is version 1. -/
def paxosSystem : System PaxosWorld PaxosEvent where
  init := fun world => ∃ connected, world = freshWorld connected
  step := PaxosWorld.step

/-! ## First runs -/

/-- Deliver packets by their positions. -/
def delivered (indices : List Nat) : List PaxosEvent :=
  indices.map fun index => .deliver index Layout.natural

/-- Server 2 joins server 1. -/
def pairRun : List PaxosEvent :=
  .askAdd 2 1 :: delivered [0, 0, 0, 0, 0, 0] ++ .learnAll 1 :: delivered [0, 0] ++
    .learnAll 2 :: delivered [0, 0]

/-- Server 3 joins servers 1 and 2. -/
def trioRun : List PaxosEvent :=
  pairRun ++ .askAdd 3 1 :: delivered [0, 0, 0, 0, 0, 0, 0, 0, 0] ++
    .learnAll 1 :: delivered [0, 1] ++ .learnAll 2 :: delivered [1, 1, 0, 1, 0] ++
    .learnAll 3 :: delivered [1, 1, 1, 1]

/-- The world in which all servers are connected. -/
def connectedWorld : PaxosWorld :=
  freshWorld fun _ _ => true

theorem init_connectedWorld : paxosSystem.init connectedWorld :=
  ⟨_, rfl⟩

example : [1, 2, 3].map (fun server =>
      ((paxosSystem.outcome connectedWorld trioRun).cores server).paxos.version) =
    List.replicate 3 { version := 3, servs := [1, 2, 3] } := by
  decide +kernel

end SimpleDfs.Paxos
