import SimpleDfs.Library.Run
import SimpleDfs.Mserv.Create

/-!
Contract: meta servers that create files, joined by reliable channels, first in
first out for each ordered pair, on which every peer stays connected.

Owns: `CreateGroup`, the dispatch of a packet to its handler, the world of all
servers with its history, and the runs in which clients request files at any
meta server and packets are delivered in any order the channels allow.

Does not own: any property of a run.
-/

set_option autoImplicit false

namespace SimpleDfs.Mserv

open SimpleDfs.Library

/-- The servers of the config, in the order of their arrays. -/
structure CreateGroup where
  mservs : List Nat
  dservs : List Nat
  mservsIncreasing : mservs.Pairwise (· < ·)
  dservsIncreasing : dservs.Pairwise (· < ·)

/-- What a handler depends on besides the packets: the memory the servers have
reported, and what it reads from memory nobody has written. -/
structure Readings where
  mem : CreatePeer → Nat
  strayFlags : Nat
  freshFlags : Nat
  freshMservs : Nat → Nat
  blockNum : FileSize → Nat

/-- All servers of the group are connected to each other and to the clients. -/
def CreateGroup.around (group : CreateGroup) (server : Nat) (readings : Readings) :
    Surroundings where
  mservs := (group.mservs.filter fun id => id != server).map fun id =>
    ⟨id, readings.mem (.mserv id)⟩
  dservs := group.dservs.map fun id => ⟨id, readings.mem (.dserv id)⟩
  mservActive := fun id => decide (id ∈ group.mservs)
  dservActive := fun id => decide (id ∈ group.dservs)
  clientActive := fun _ => true
  strayFlags := readings.strayFlags
  freshFlags := readings.freshFlags
  freshMservs := readings.freshMservs
  blockNum := readings.blockNum

section

variable {Name : Type} [DecidableEq Name]

/-- The handler registered for the packet's type and sender, or the callback of
the call it answers. -/
def createDispatch (around : Surroundings) (server : CreateServer Name)
    (packet : CreatePacket Name) : CreateServer Name :=
  match packet.src, packet.body with
  | .mserv src, .checkAuth fname => sCoreMservCreateCheckAuth around server src fname
  | .mserv src, .createMetadata md => sCoreMservCreateMetadata server src md
  | .mserv _, .createMetaMetaData mmd => sCoreMservCreateMetaMetaData around server mmd
  | _, .rpcBack .checkAuthBack fname ret => irpcCheckAuthBack around server fname (some ret)
  | _, .rpcBack .sendMdBack fname _ => irpcSendMdBack around server fname
  | _, _ => server

/-- `s_core_dserv_create_metadata`: a data server takes the record and says so. -/
def sCoreDservCreateMetadata (id : Nat) (packet : CreatePacket Name) : List (CreatePacket Name) :=
  match packet.body with
  | .createMetadata md =>
      [{ src := .dserv id, dst := packet.src, body := .rpcBack .sendMdBack md.fname 1 }]
  | _ => []

/-- The meta servers and the packets in flight, in the order they were sent;
then, as history, who called `icreate` for which name and who reported success
for which. -/
structure CreateWorld (Name : Type) where
  mservs : Nat → CreateServer Name
  net : List (CreatePacket Name)
  icreated : List (Nat × Name)
  succeeded : List (Nat × Name)

/-- What can happen: a request arrives, or a packet. -/
inductive CreateEvent (Name : Type) where
  | request (server clientId reqId : Nat) (fname : Name) (size : FileSize) (readings : Readings)
  | deliver (index : Nat) (readings : Readings)

/-- Let one meta server run a handler. -/
def CreateWorld.act (world : CreateWorld Name) (server : Nat)
    (handler : CreateServer Name → CreateServer Name) : CreateWorld Name :=
  let after := handler (world.mservs server)
  { mservs := Function.update world.mservs server
      { after with out := [], icreated := [], succeeded := [] }
    net := world.net ++ after.out
    icreated := world.icreated ++ after.icreated.map fun fname => (server, fname)
    succeeded := world.succeeded ++ after.succeeded.map fun fname => (server, fname) }

/-- A server that has aborted takes no request and no packet any more. -/
def CreateWorld.step (group : CreateGroup) (world : CreateWorld Name) :
    CreateEvent Name → Option (CreateWorld Name)
  | .request server clientId reqId fname size readings =>
      if server ∈ group.mservs ∧ (world.mservs server).aborted = false then
        some (world.act server fun mserv =>
          sCoreMservCreate (group.around server readings) mserv clientId reqId fname size)
      else none
  | .deliver index readings =>
      match Packet.takeAt world.net index with
      | none => none
      | some (packet, rest) =>
          let world := { world with net := rest }
          match packet.dst with
          | .client _ => some world
          | .dserv id => some { world with net := rest ++ sCoreDservCreateMetadata id packet }
          | .mserv server =>
              if (world.mservs server).aborted then none
              else
                some (world.act server fun mserv =>
                  createDispatch (group.around server readings) mserv packet)

/-- No file, nothing in flight. -/
def emptyCreateWorld : CreateWorld Name where
  mservs := CreateServer.init
  net := []
  icreated := []
  succeeded := []

def createSystem (Name : Type) [DecidableEq Name] (group : CreateGroup) :
    System (CreateWorld Name) (CreateEvent Name) where
  init := fun world => world = emptyCreateWorld
  step := CreateWorld.step group

/-- The name was created at most once: at most one request reached `icreate`,
and at most one success was reported. -/
def CreatedOnce (world : CreateWorld Name) (fname : Name) : Prop :=
  (world.icreated.map Prod.snd).count fname ≤ 1 ∧ (world.succeeded.map Prod.snd).count fname ≤ 1

instance (world : CreateWorld Name) (fname : Name) : Decidable (CreatedOnce world fname) :=
  inferInstanceAs (Decidable (_ ∧ _))

end

/-! ## A run of two requests for one name -/

/-- Three meta servers and one data server. -/
def trioGroup : CreateGroup where
  mservs := [1, 2, 3]
  dservs := [1]
  mservsIncreasing := by decide
  dservsIncreasing := by decide

/-- All servers report the same memory; no unset memory reads as deleted. -/
def plainReadings : Readings where
  mem := fun _ => 1
  strayFlags := 0
  freshFlags := 0
  freshMservs := fun _ => 0
  blockNum := fun _ => 1

/-- A request by client 1 for an empty file. -/
def requestAt (server : Nat) (fname : Nat) : CreateEvent Nat :=
  .request server 1 1 fname ⟨0, 0⟩ plainReadings

/-- Deliver packets by their positions. -/
def deliveries (indices : List Nat) : List (CreateEvent Nat) :=
  indices.map fun index => .deliver index plainReadings

/-- Server 1 says yes to server 2, and then starts on the same name itself. -/
def twiceWorld : CreateWorld Nat :=
  (createSystem Nat trioGroup).outcome emptyCreateWorld
    (requestAt 2 7 :: deliveries [0] ++ requestAt 1 7 ::
      deliveries ([1, 1, 0, 0, 1] ++ List.replicate 15 0))

end SimpleDfs.Mserv
