import SimpleDfs.Library.Fifo
import SimpleDfs.Paxos.Learner

/-!
Contract: the proposer of the Paxos layer and the calls it waits for
(`core/s_core_paxos.c`, `serv_group/s_server_group.c`).

Owns: proposals, pending RPC calls, `s_paxos_start`, `s_paxos_learn_all`,
`s_paxos_check_leave`, the handlers of prepare responses for the three types
of proposals, and `ireceive_add`.

A callback sees a reply, or nothing when its call timed out or its connection
closed.

Does not own: when a packet is delivered or a call times out.
-/

set_option autoImplicit false

namespace SimpleDfs.Paxos

open SimpleDfs.Common
open SimpleDfs.Library

/-- The `response` part of `struct s_paxos_proposal`. -/
structure ProposalResponse where
  nsent : Int
  count : Int
  maxId : SId
  value : Value
  deriving DecidableEq, Repr

/-- `struct s_paxos_proposal`. -/
structure PaxosProposal where
  refCount : Nat
  version : PaxosVersion
  topic : Topic
  value : Value
  type : ProposalType
  theServ : Nat
  id : SId
  response : ProposalResponse
  deriving DecidableEq, Repr

/-- What an RPC_BACK packet carries. -/
inductive RpcReply where
  | prepare (reply : PrepareReply)
  | learn (reply : LearnReply)
  | done
  deriving DecidableEq, Repr

/-- The packets of the Paxos layer.  A call carries the number its reply comes
back under. -/
inductive PaxosBody where
  | request (req : Nat) (request : PrepareRequest)
  | accept (topic : Topic) (id : SId) (value : Value) (version : Int)
  | learnRequest (req : Nat) (version : Int)
  | addMe
  | addAccept (req : Nat) (dump : Dump)
  | refreshAccept (req : Nat) (dump : Dump)
  | rpcBack (req : Nat) (reply : RpcReply)
  deriving DecidableEq, Repr

abbrev PaxosPacket := Packet Nat PaxosBody

/-- The callback of a call and its user data; a proposal is known by its
number. -/
inductive Callback where
  | receiveResponse (proposal : Nat)
  | addNewServOk (proposal : Nat)
  | refreshAcceptBack (proposal : Nat)
  | receiveLearn
  deriving DecidableEq, Repr

/-- `struct s_servg_rpc_param`. -/
structure RpcCall where
  req : Nat
  peer : Nat
  callback : Callback
  deriving DecidableEq, Repr

/-- A process of the Paxos layer: `struct s_core`, its proposals, its pending
calls and established connections, what it has sent in the current handler and
what it has reported.  `aborted` is a failed assertion of
`s_paxos_proposal_drop`. -/
structure Core where
  id : Nat
  paxos : SPaxos
  proposals : Table Nat PaxosProposal
  calls : List RpcCall
  reqId : Nat
  active : Nat → Bool
  out : List PaxosPacket
  reported : List PaxosAccept
  aborted : Bool

/-- A fresh process with the given connections. -/
def createCore (id : Nat) (active : Nat → Bool) : Core where
  id := id
  paxos := sPaxosCreate id
  proposals := ∅
  calls := []
  reqId := 1
  active := active
  out := []
  reported := []
  aborted := false

namespace Core

/-- `s_servg_send`. -/
def send (core : Core) (dst : Nat) (body : PaxosBody) : Core :=
  { core with out := core.out ++ [{ src := core.id, dst := dst, body := body }] }

/-- `s_servg_rpc_call`. -/
def rpcCall (core : Core) (dst : Nat) (body : Nat → PaxosBody) (callback : Callback) : Core :=
  { core with
    calls := core.calls ++ [{ req := core.reqId, peer := dst, callback := callback }]
    reqId := core.reqId + 1
    out := core.out ++ [{ src := core.id, dst := dst, body := body core.reqId }] }

/-- Write to a proposal. -/
def modifyProposal (core : Core) (key : Nat) (f : PaxosProposal → PaxosProposal) : Core :=
  match core.proposals.lookup key with
  | none => core
  | some p => { core with proposals := core.proposals.insert key (f p) }

/-- A loop over the members of the current version that skips those without a
connection. -/
def forMembers (core : Core) (body : Core → Nat → Core) : Core :=
  core.paxos.version.servs.foldl
    (fun core serv => if core.active serv then body core serv else core) core

end Core

/-- `s_paxos_proposal_create`: the proposal and its number. -/
def sPaxosProposalCreate (core : Core) (topic : Topic) (value : Value) : Core × PaxosProposal :=
  let p : PaxosProposal :=
    { refCount := 1, version := core.paxos.version, topic := topic, value := value
      type := .normal, theServ := 0, id := ⟨core.id, core.paxos.id⟩
      response := { nsent := 0, count := 0, maxId := ⟨0, 0⟩, value := -1 } }
  ({ core with paxos := { core.paxos with id := core.paxos.id + 1 } }, p)

/-- `s_paxos_proposal_grab`. -/
def sPaxosProposalGrab (core : Core) (key : Nat) : Core :=
  core.modifyProposal key fun p => { p with refCount := p.refCount + 1 }

/-- `s_paxos_proposal_drop`.  A proposal whose count reaches zero is freed; its
last contents stay readable here. -/
def sPaxosProposalDrop (core : Core) (key : Nat) : Core :=
  match core.proposals.lookup key with
  | none => core
  | some p =>
      if p.refCount > 0 then
        { core with proposals := core.proposals.insert key { p with refCount := p.refCount - 1 } }
      else
        { core with aborted := true }

/-! ## Starting a proposal -/

/-- The value `s_paxos_start` proposes. -/
def proposalValue (paxos : SPaxos) (value : Value) (type : ProposalType) (theServ : Nat) : Value :=
  match type with
  | .add => servsValue paxos.version.servs ||| servBit theServ
  | .rm => servsValue (paxos.version.servs.filter fun serv => theServ ≠ serv)
  | .normal => value

/-- The PAXOS_REQUEST of a proposal. -/
def PaxosProposal.request (p : PaxosProposal) : PrepareRequest where
  topic := p.topic
  id := p.id
  value := p.value
  type := p.type
  theServ := p.theServ
  version := p.version

/-- One turn of the request loop of `s_paxos_start`. -/
def sendRequest (key : Nat) (request : PrepareRequest) (core : Core) (serv : Nat) : Core :=
  let core := sPaxosProposalGrab core key
  let core := core.rpcCall serv (fun req => .request req request) (.receiveResponse key)
  core.modifyProposal key fun p =>
    { p with response := { p.response with nsent := p.response.nsent + 1 } }

/-- `s_paxos_start`. -/
def sPaxosStart (core : Core) (topic : Topic) (value : Value) (type : ProposalType)
    (theServ : Nat) : Core :=
  if !sPaxosIsIn core.paxos core.id then core
  else
    let (core, p) := sPaxosProposalCreate core topic value
    let key := p.id.y
    let p := { p with type := type, theServ := theServ }
    if type = .add ∧ sPaxosIsIn core.paxos theServ then
      { core with proposals := core.proposals.insert key p }
    else
      let p := { p with value := proposalValue core.paxos value type theServ }
      let core := { core with proposals := core.proposals.insert key p }
      let core := core.forMembers (sendRequest key p.request)
      sPaxosProposalDrop core key

/-- `ireceive_add`: the sender asks to become a member. -/
def ireceiveAdd (core : Core) (newServ : Nat) : Core :=
  let value := servsValue core.paxos.version.servs ||| servBit newServ
  sPaxosStart core (versionTopic (core.paxos.version.version + 1)) value .add newServ

/-- `s_paxos_check_leave`: propose to remove the first member without a
connection. -/
def sPaxosCheckLeave (core : Core) : Core :=
  match core.paxos.version.servs.find? fun serv => !core.active serv with
  | none => core
  | some serv =>
      let value := servsValue core.paxos.version.servs &&& ~~~servBit serv
      sPaxosStart core (versionTopic (core.paxos.version.version + 1)) value .rm serv

/-- `s_paxos_learn_all`. -/
def sPaxosLearnAll (core : Core) : Core :=
  let core := { core with paxos := { core.paxos with learn := ∅ } }
  let version := core.paxos.version.version
  let before := core.calls.length
  let core := core.forMembers fun core serv =>
    core.rpcCall serv (fun req => .learnRequest req version) .receiveLearn
  { core with
    paxos := { core.paxos with learnReqCount := core.calls.length - before } }

/-! ## Prepare responses -/

/-- The PAXOS_ACCEPT of a proposal, sent to the members of the current version. -/
def sendAccept (core : Core) (p : PaxosProposal) : Core :=
  core.forMembers fun core serv =>
    core.send serv (.accept p.topic p.id p.value p.version.version)

/-- What `iresponse` does to the proposal. -/
def PaxosProposal.countResponse (p : PaxosProposal) (report : Option (SId × Value)) :
    PaxosProposal :=
  let p := { p with response := { p.response with count := p.response.count + 1 } }
  match report with
  | none => p
  | some (id, value) =>
      if sIdGt id p.response.maxId then
        { p with value := value, response := { p.response with maxId := id, value := value } }
      else p

/-- `iresponse`: the response of a NORMAL proposal.  ACCEPT is sent again for
every response past the majority. -/
def iresponse (core : Core) (key : Nat) (p : PaxosProposal) (report : Option (SId × Value)) :
    Core :=
  let p := p.countResponse report
  let core := { core with proposals := core.proposals.insert key p }
  if p.response.count > p.version.nserv / 2 then sendAccept core p else core

/-- The report part of an ADD or RM response. -/
def PaxosProposal.noteReport (p : PaxosProposal) (report : Option (SId × Value)) :
    PaxosProposal :=
  match report with
  | none => p
  | some (id, value) =>
      if sIdGt id p.response.maxId then
        { p with response := { p.response with maxId := id, value := value } }
      else p

/-- The proposal reported an accepted value that is not its own. -/
def PaxosProposal.conflicts (p : PaxosProposal) : Bool :=
  decide (p.response.value.toInt > 0) && p.response.value != p.value

/-- The end of `i_receive_response_add`: every member has answered, so the
newcomer is told.  A conflict returns before the proposal is dropped. -/
def addAnswered (layout : Layout) (core : Core) (key : Nat) (p : PaxosProposal) : Core :=
  if p.response.count = p.version.nserv then
    if p.conflicts then core
    else if core.active p.theServ then
      let (paxos, dump) := idumpLearn layout core.paxos
      let core := { core with paxos := paxos }
      let core := sPaxosProposalGrab core key
      let core := core.rpcCall p.theServ (fun req => .addAccept req dump) (.addNewServOk key)
      sPaxosProposalDrop core key
    else core
  else sPaxosProposalDrop core key

/-- `i_receive_response_add`.  A missing packet counts as an answer. -/
def ireceiveResponseAdd (layout : Layout) (core : Core) (servFrom key : Nat) (p : PaxosProposal)
    (reply : Option PrepareReply) : Core :=
  let counted := { p with response := { p.response with count := p.response.count + 1 } }
  match reply with
  | some .badVersion => sPaxosProposalDrop core key
  | none =>
      addAnswered layout { core with proposals := core.proposals.insert key counted } key counted
  | some (.promise report _ accepts) =>
      let p := counted.noteReport report
      let core := { core with
        proposals := core.proposals.insert key p
        paxos := ilearnTable layout core.id servFrom core.paxos accepts }
      addAnswered layout core key p

/-- One turn of the refresh loop of `i_receive_response_rm`. -/
def sendRefresh (key : Nat) (dump : Dump) (core : Core) (serv : Nat) : Core :=
  let core := sPaxosProposalGrab core key
  core.rpcCall serv (fun req => .refreshAccept req dump) (.refreshAcceptBack key)

/-- The end of `i_receive_response_rm`: every request sent has been answered, so
every member refreshes.  The counter then counts the refresh calls. -/
def rmAnswered (layout : Layout) (core : Core) (key : Nat) (p : PaxosProposal) : Core :=
  if p.response.count = p.response.nsent then
    if p.conflicts then core
    else
      let (paxos, dump) := idumpLearn layout core.paxos
      let core := { core with paxos := paxos }
      let before := core.calls.length
      let core := core.forMembers (sendRefresh key dump)
      let c := core.calls.length - before
      let core := core.modifyProposal key fun p =>
        { p with response := { p.response with count := c } }
      sPaxosProposalDrop core key
  else sPaxosProposalDrop core key

/-- `i_receive_response_rm`. -/
def ireceiveResponseRm (layout : Layout) (core : Core) (servFrom key : Nat) (p : PaxosProposal)
    (reply : Option PrepareReply) : Core :=
  let counted := { p with response := { p.response with count := p.response.count + 1 } }
  match reply with
  | some .badVersion => sPaxosProposalDrop core key
  | none =>
      rmAnswered layout { core with proposals := core.proposals.insert key counted } key counted
  | some (.promise report backup accepts) =>
      let p := counted.noteReport report
      let fromBackup := ilearnTable layout core.id p.theServ core.paxos
        (backup.map fun accept => (accept.topic, [accept]))
      let core := { core with
        proposals := core.proposals.insert key p
        paxos := ilearnTable layout core.id servFrom fromBackup accepts }
      rmAnswered layout core key p

/-- `ireceive_response`. -/
def ireceiveResponse (layout : Layout) (core : Core) (servFrom key : Nat)
    (reply : Option PrepareReply) : Core :=
  match core.proposals.lookup key with
  | none => core
  | some p =>
      match p.type with
      | .add => ireceiveResponseAdd layout core servFrom key p reply
      | .rm => ireceiveResponseRm layout core servFrom key p reply
      | .normal =>
          match reply with
          | none => sPaxosProposalDrop core key
          | some .badVersion => sPaxosProposalDrop core key
          | some (.promise report _ _) => sPaxosProposalDrop (iresponse core key p report) key

/-- `i_add_new_serv_ok`; it does not look at the packet. -/
def iaddNewServOk (core : Core) (key : Nat) : Core :=
  match core.proposals.lookup key with
  | none => core
  | some p => sendAccept core p

/-- `i_refresh_accept_back`; it does not look at the packet. -/
def irefreshAcceptBack (core : Core) (key : Nat) : Core :=
  match core.proposals.lookup key with
  | none => core
  | some p =>
      let p := { p with response := { p.response with count := p.response.count - 1 } }
      let core := { core with proposals := core.proposals.insert key p }
      if p.response.count = 0 then sendAccept core p else core

/-! ## Callbacks -/

/-- Run the callback of a call.  A reply of another kind fails to read. -/
def runCallback (layout : Layout) (core : Core) (call : RpcCall) (reply : Option RpcReply) :
    Core :=
  match call.callback, reply with
  | .receiveResponse key, none => ireceiveResponse layout core call.peer key none
  | .receiveResponse key, some (.prepare reply) =>
      ireceiveResponse layout core call.peer key (some reply)
  | .receiveResponse _, some _ => core
  | .addNewServOk key, _ => iaddNewServOk core key
  | .refreshAcceptBack key, _ => irefreshAcceptBack core key
  | .receiveLearn, none =>
      let (paxos, entries) := ireceiveLearn layout core.id call.peer core.paxos none
      { core with paxos := paxos, reported := core.reported ++ entries }
  | .receiveLearn, some (.learn reply) =>
      let (paxos, entries) := ireceiveLearn layout core.id call.peer core.paxos (some reply)
      { core with paxos := paxos, reported := core.reported ++ entries }
  | .receiveLearn, some _ => core

/-- `ihandle_rpc_back`, a timeout, or a closed connection: the pending call is
taken out and its callback runs.  A reply to a call that is no longer pending
is ignored. -/
def finishCall (layout : Layout) (core : Core) (peer req : Nat) (reply : Option RpcReply) : Core :=
  match core.calls.find? fun call => call.req == req && call.peer == peer with
  | none => core
  | some call =>
      runCallback layout
        { core with calls := core.calls.filter fun other => other.req != req } call reply

end SimpleDfs.Paxos
