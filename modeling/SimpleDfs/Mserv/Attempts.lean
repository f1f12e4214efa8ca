import SimpleDfs.Library.Run
import SimpleDfs.Mserv.Create

/-!
Contract: the attempts of one meta server to create files, with the calls they
make.

Owns: `RpcCall` and how it ends, the requests and replies of clients, the world
of one meta server with its history, and the runs in which requests, answers in
any order, timeouts, broken connections and packets of other servers arrive.

Does not own: any property of a run; how a reply finds its call.
-/

set_option autoImplicit false

namespace SimpleDfs.Mserv

open SimpleDfs.Library

/-- How a call ends: its time is up or its connection breaks, or a packet
arrives, which may lack the number. -/
inductive CallEnding where
  | cut
  | noRet
  | answered (ret : Int)
  deriving DecidableEq, Repr

/-- What `irpc_check_auth_back` makes of it: a missing number fails the check,
as zero does. -/
def CallEnding.ret : CallEnding → Option Int
  | .cut => none
  | .noRet => some 0
  | .answered ret => some ret

/-- The ending is a positive answer, a timeout or a broken connection. -/
def CallEnding.accepts (ending : CallEnding) : Bool :=
  !ending.ret.any fun value => decide (value ≤ 0)

/-- A call by `s_servg_rpc_call` for a request, with the name as its user data;
`ending` is `none` while it is outstanding. -/
structure RpcCall (Name : Type) where
  request : Nat
  peer : CreatePeer
  callback : CreateCallback
  fname : Name
  ending : Option CallEnding
  deriving DecidableEq, Repr

/-- A create request of a client. -/
structure ClientRequest (Name : Type) where
  clientId : Nat
  reqId : Nat
  fname : Name
  deriving DecidableEq, Repr

/-- A reply to a client, with the request it is sent for; without metadata it
says that the file was not created. -/
structure ClientReply (Name : Type) where
  request : Nat
  clientId : Nat
  reqId : Nat
  md : Option (FileMetaData Name)
  deriving DecidableEq, Repr

section

variable {Name : Type} [DecidableEq Name]

/-- The callback a packet is sent with by `s_servg_rpc_call`, and its user
data. -/
def CreateBody.call : CreateBody Name → Option (CreateCallback × Name)
  | .checkAuth fname => some (.checkAuthBack, fname)
  | .createMetadata md => some (.sendMdBack, md.fname)
  | _ => none

/-- The call a packet starts. -/
def rpcCallOf (request : Nat) (packet : CreatePacket Name) : Option (RpcCall Name) :=
  packet.body.call.map fun (callback, fname) =>
    { request := request, peer := packet.dst, callback := callback, fname := fname
      ending := none }

/-- The reply a packet is. -/
def clientReplyOf (request : Nat) (packet : CreatePacket Name) : Option (ClientReply Name) :=
  match packet.dst, packet.body with
  | .client clientId, .created reqId md =>
      some { request := request, clientId := clientId, reqId := reqId, md := md }
  | _, _ => none

/-- A meta server; then, as history, the requests in the order of their arrival,
the request whose record stands under a name in `file_creating`, all calls, the
requests for which `icreate` was called and the replies. -/
structure AttemptWorld (Name : Type) where
  server : CreateServer Name
  requests : List (ClientRequest Name)
  owner : Name → Nat
  calls : List (RpcCall Name)
  icreated : List Nat
  replies : List (ClientReply Name)

/-- What can happen: a request arrives, a call ends, or a packet of another
server arrives. -/
inductive AttemptEvent (Name : Type) where
  | request (around : Surroundings) (clientId reqId : Nat) (fname : Name) (size : FileSize)
  | answer (around : Surroundings) (index : Nat) (ending : CallEnding)
  | checkAuth (around : Surroundings) (src : Nat) (fname : Name)
  | metadata (src : Nat) (md : FileMetaData Name)
  | metaMetaData (around : Surroundings) (mmd : FileMetaMetaData Name)

/-- The server with an empty log. -/
def CreateServer.settled (server : CreateServer Name) : CreateServer Name :=
  { server with out := [], icreated := [], succeeded := [] }

/-- Let the server run a handler for a request; its log is what the handler
notes. -/
def AttemptWorld.act (world : AttemptWorld Name) (request : Nat)
    (handler : CreateServer Name → CreateServer Name) : AttemptWorld Name :=
  let after := handler world.server.settled
  { world with
    server := after
    calls := world.calls ++ after.out.filterMap (rpcCallOf request)
    icreated := world.icreated ++ after.icreated.map fun _ => request
    replies := world.replies ++ after.out.filterMap (clientReplyOf request) }

/-- The callback of a call. -/
def runCallback (around : Surroundings) (server : CreateServer Name) (call : RpcCall Name)
    (ending : CallEnding) : CreateServer Name :=
  match call.callback with
  | .checkAuthBack => irpcCheckAuthBack around server call.fname ending.ret
  | .sendMdBack => irpcSendMdBack around server call.fname

/-- A request arrives; it becomes the owner of the record it makes. -/
def AttemptWorld.arrive (world : AttemptWorld Name) (around : Surroundings)
    (request : ClientRequest Name) : AttemptWorld Name :=
  { world with
    requests := world.requests ++ [request]
    owner :=
      if icheckCanCreate around world.server world.server.id request.fname then
        Function.update world.owner request.fname world.requests.length
      else world.owner }

/-- A call ends. -/
def AttemptWorld.finish (world : AttemptWorld Name) (index : Nat) (call : RpcCall Name)
    (ending : CallEnding) : AttemptWorld Name :=
  { world with calls := world.calls.set index { call with ending := some ending } }

/-- A server that has aborted takes nothing any more. -/
def AttemptWorld.step (world : AttemptWorld Name) (event : AttemptEvent Name) :
    Option (AttemptWorld Name) :=
  if world.server.aborted then none
  else
    match event with
    | .request around clientId reqId fname size =>
        let arrived := world.arrive around { clientId := clientId, reqId := reqId, fname := fname }
        some (arrived.act world.requests.length fun server =>
          sCoreMservCreate around server clientId reqId fname size)
    | .answer around index ending =>
        match world.calls[index]? with
        | none => none
        | some call =>
            if call.ending = none then
              some ((world.finish index call ending).act (world.owner call.fname) fun server =>
                runCallback around server call ending)
            else none
    | .checkAuth around src fname =>
        some { world with server := sCoreMservCreateCheckAuth around world.server src fname }
    | .metadata src md =>
        some { world with server := sCoreMservCreateMetadata world.server src md }
    | .metaMetaData around mmd =>
        some { world with server := sCoreMservCreateMetaMetaData around world.server mmd }

/-- A meta server that has just started. -/
def startedMserv (id : Nat) : AttemptWorld Name where
  server := CreateServer.init id
  requests := []
  owner := fun _ => 0
  calls := []
  icreated := []
  replies := []

def attemptSystem (Name : Type) [DecidableEq Name] :
    System (AttemptWorld Name) (AttemptEvent Name) where
  init := fun world => ∃ id, world = startedMserv id
  step := AttemptWorld.step

/-- A call for the name is outstanding. -/
def awaits (fname : Name) (call : RpcCall Name) : Bool :=
  decide (call.fname = fname ∧ call.ending = none)

/-- The number of calls for the name that are outstanding. -/
def AttemptWorld.outstanding (world : AttemptWorld Name) (fname : Name) : Nat :=
  world.calls.countP (awaits fname)

end

end SimpleDfs.Mserv
