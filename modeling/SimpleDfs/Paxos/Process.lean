import SimpleDfs.Paxos.Calls

/-!
Contract: one process of the Paxos layer by itself (`core/s_core_paxos.c`).

Owns: a process as a system of its own, which is given any packets in any order;
a call ends with a packet or without one, and the packet may break off.

Does not own: the other processes.
-/

set_option autoImplicit false

namespace SimpleDfs.Paxos

open SimpleDfs.Common
open SimpleDfs.Library

/-! ## Callbacks on any packet -/

/-- What a callback reads of its packet. A read that fails ends the reading; what
was read before it is given. -/
inductive ReplyRead where
  | prepare (reply : PrepareReply)
  | prepareFailed (report : Option (SId × Value)) (backup : List PaxosAccept)
      (accepts : List (Topic × List PaxosAccept))
  | learn (reply : LearnReply)
  | learnFailed (read : Option LearnReply)
  | unread
  deriving DecidableEq, Repr

/-- `ireceive_response` when a read fails: what was read stays learned, and
`label_error` drops the proposal. A NORMAL response is not counted. -/
def ireceiveResponseFailed (layout : Layout) (core : Core) (servFrom key : Nat)
    (report : Option (SId × Value)) (backup : List PaxosAccept)
    (accepts : List (Topic × List PaxosAccept)) : Core :=
  match core.proposals.lookup key with
  | none => core
  | some p =>
      let counted := { p with response := { p.response with count := p.response.count + 1 } }
      let noted := counted.noteReport report
      match p.type with
      | .normal => sPaxosProposalDrop core key
      | .add =>
          sPaxosProposalDrop
            { core with
              proposals := core.proposals.insert key noted
              paxos := ilearnTable layout core.id servFrom core.paxos accepts } key
      | .rm =>
          let fromBackup := ilearnTable layout core.id p.theServ core.paxos
            (backup.map fun accept => (accept.topic, [accept]))
          sPaxosProposalDrop
            { core with
              proposals := core.proposals.insert key noted
              paxos := ilearnTable layout core.id servFrom fromBackup accepts } key

/-- `ireceive_learn` when a read fails: nothing is reported. -/
def ireceiveLearnFailed (layout : Layout) (coreId servId : Nat) (paxos : SPaxos)
    (read : Option LearnReply) : SPaxos :=
  let paxos := { paxos with learnReqCount := paxos.learnReqCount - 1 }
  match read with
  | none => paxos
  | some reply =>
      if reply.version ≠ paxos.version.version then paxos
      else (learnLoop layout coreId servId reply.version paxos reply.entries).1

/-- Run the callback of a call with what it reads of its packet, or without a
packet. The callbacks of the second phase do not look at it. -/
def runRead (layout : Layout) (core : Core) (call : RpcCall) (read : Option ReplyRead) :
    Option Core :=
  match read with
  | none => some (runCallback layout core call none)
  | some read =>
      match call.callback with
      | .receiveResponse key =>
          match read with
          | .prepare reply => some (runCallback layout core call (some (.prepare reply)))
          | .prepareFailed report backup accepts =>
              some (ireceiveResponseFailed layout core call.peer key report backup accepts)
          | _ => none
      | .addNewServOk _ => some (runCallback layout core call (some .done))
      | .refreshAcceptBack _ => some (runCallback layout core call (some .done))
      | .receiveLearn =>
          match read with
          | .learn reply => some (runCallback layout core call (some (.learn reply)))
          | .learnFailed read =>
              some { core with
                paxos := ireceiveLearnFailed layout core.id call.peer core.paxos read }
          | _ => none

/-! ## A process of its own -/

/-- What can happen to a process. `partly` is a packet that breaks off: its
handler changes `struct s_paxos` in part, and takes no number back. -/
inductive ProposerEvent where
  | start (topic : Topic) (value : Value) (type : ProposalType) (theServ : Nat)
  | checkLeave
  | learnAll
  | receive (layout : Layout) (src : Nat) (body : PaxosBody)
  | partly (paxos : SPaxos)
  | finish (layout : Layout) (peer req : Nat) (read : Option ReplyRead)
  | connection (peer : Nat) (established : Bool)

/-- The pending call a reply, a timeout or a closed connection ends. -/
def Core.pendingCall (core : Core) (peer req : Nat) : Option RpcCall :=
  core.calls.find? fun call => call.req == req && call.peer == peer

/-- A reply is an end of a call; all other packets go to their handlers. -/
def Core.step (core : Core) : ProposerEvent → Option Core
  | .start topic value type theServ => some (sPaxosStart core topic value type theServ)
  | .checkLeave => some (sPaxosCheckLeave core)
  | .learnAll => some (sPaxosLearnAll core)
  | .receive _ _ (.rpcBack _ _) => none
  | .receive layout src body => some (dispatch layout core src body)
  | .partly paxos => if core.paxos.id ≤ paxos.id then some { core with paxos := paxos } else none
  | .finish layout peer req read =>
      match core.pendingCall peer req with
      | none => some core
      | some call =>
          runRead layout { core with calls := otherCalls core.calls call.req } call read
  | .connection peer established =>
      some { core with active := Function.update core.active peer established }

/-- Runs of one process from its creation, with any connections. -/
def proposerSystem : System Core ProposerEvent where
  init := fun core => ∃ id active, core = createCore id active
  step := Core.step

end SimpleDfs.Paxos
