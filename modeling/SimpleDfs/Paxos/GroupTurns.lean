import SimpleDfs.Paxos.Group
import SimpleDfs.Paxos.Steps

/-!
Contract: what one step of a group does to the acceptor and the learner of the
server that takes it.

Owns: `Turn`, and that every step is the loss of a packet or one turn.

Does not own: the proposals.
-/

set_option autoImplicit false

namespace SimpleDfs.Paxos

open SimpleDfs.Common
open SimpleDfs.Library

/-! ## Handlers that report nothing -/

@[simp] theorem modifyProposal_reported (core : Core) (key : Nat)
    (f : PaxosProposal → PaxosProposal) :
    (core.modifyProposal key f).reported = core.reported := by
  rw [Core.modifyProposal_eq]

@[simp] theorem sPaxosProposalDrop_reported (core : Core) (key : Nat) :
    (sPaxosProposalDrop core key).reported = core.reported := by
  unfold sPaxosProposalDrop
  split
  · rfl
  · split <;> rfl

theorem forMembers_reported (core : Core) (body : Core → Nat → Core)
    (turn : ∀ core serv, (body core serv).reported = core.reported) :
    (core.forMembers body).reported = core.reported := by
  apply core.forMembers_keeps (fun after => after.reported = core.reported) body
  · intro after serv same
    rw [turn, same]
  · rfl

theorem sPaxosStart_reported (core : Core) (topic : Topic) (value : Value) (type : ProposalType)
    (theServ : Nat) : (sPaxosStart core topic value type theServ).reported = core.reported := by
  unfold sPaxosStart
  split
  · rfl
  · dsimp only [sPaxosProposalCreate]
    split
    · rfl
    · rw [sPaxosProposalDrop_reported, forMembers_reported]
      intro after serv
      rw [sendRequest_eq]

theorem sPaxosLearnAll_reported (core : Core) :
    (sPaxosLearnAll core).reported = core.reported := by
  unfold sPaxosLearnAll
  dsimp only
  rw [forMembers_reported]
  exact fun after serv => rfl

/-- A response to a NORMAL proposal touches neither the acceptor nor the
learner. -/
theorem ireceiveResponse_normal {group : PaxosVersion} {core : Core} (kept : GroupCore group core)
    (layout : Layout) (servFrom key : Nat) (reply : Option PrepareReply) :
    (ireceiveResponse layout core servFrom key reply).paxos = core.paxos ∧
      (ireceiveResponse layout core servFrom key reply).reported = core.reported := by
  unfold ireceiveResponse
  split
  · exact ⟨rfl, rfl⟩
  next p found =>
    rw [(kept.proposals key p found).type]
    dsimp only
    split
    · exact ⟨sPaxosProposalDrop_paxos core key, sPaxosProposalDrop_reported core key⟩
    · exact ⟨sPaxosProposalDrop_paxos core key, sPaxosProposalDrop_reported core key⟩
    next report backup accepts =>
      rw [sPaxosProposalDrop_paxos, sPaxosProposalDrop_reported, iresponse_paxos]
      refine ⟨rfl, ?_⟩
      unfold iresponse
      dsimp only
      split
      · unfold sendAccept
        rw [forMembers_reported]
        exact fun after serv => rfl
      · rfl

/-- The end of a call of a group touches neither the acceptor nor the learner, or
it is `ireceive_learn`. -/
theorem finishCall_plain {group : PaxosVersion} {core : Core} (kept : GroupCore group core)
    (layout : Layout) (peer req : Nat) (reply : Option RpcReply) :
    (finishCall layout core peer req reply).paxos = core.paxos ∧
        (finishCall layout core peer req reply).reported = core.reported ∨
      ∃ call given, core.callTo peer req = some call ∧ call.callback = .receiveLearn ∧
        reply = Option.map RpcReply.learn given ∧
        (finishCall layout core peer req reply).paxos =
          (ireceiveLearn layout core.id call.peer core.paxos given).1 ∧
        (finishCall layout core peer req reply).reported =
          core.reported ++ (ireceiveLearn layout core.id call.peer core.paxos given).2 := by
  unfold finishCall Core.callTo
  cases search : core.calls.find? fun call => call.req == req && call.peer == peer with
  | none => exact Or.inl ⟨rfl, rfl⟩
  | some call =>
      have others := kept.endCall req
      obtain ⟨number, target, callback⟩ := call
      rcases kept.calls _ (List.mem_of_find?_eq_some search) with isLearn | ⟨key, isResponse⟩
      · dsimp only at isLearn
        rw [isLearn]
        match reply with
        | none => exact Or.inr ⟨_, none, rfl, rfl, rfl, rfl, rfl⟩
        | some (.learn given) => exact Or.inr ⟨_, some given, rfl, rfl, rfl, rfl, rfl⟩
        | some (.prepare given) => exact Or.inl ⟨rfl, rfl⟩
        | some .done => exact Or.inl ⟨rfl, rfl⟩
      · dsimp only at isResponse
        rw [isResponse]
        left
        match reply with
        | none => exact ireceiveResponse_normal others layout target key none
        | some (.prepare given) => exact ireceiveResponse_normal others layout target key (some given)
        | some (.learn given) => exact ⟨rfl, rfl⟩
        | some .done => exact ⟨rfl, rfl⟩

/-! ## Turns -/

/-- What a server does to its acceptor and its learner in one step: the
promises it gives, its state afterwards, and what it reports. -/
inductive Turn (world : PaxosWorld) (event : PaxosEvent) (server : Nat) :
    List Promise → SPaxos → List PaxosAccept → Prop where
  | idle (paxos : SPaxos) (accept : paxos.accept = (world.cores server).paxos.accept)
      (response : paxos.response = (world.cores server).paxos.response)
      (learn : paxos.learn = (world.cores server).paxos.learn ∨ paxos.learn = ∅) :
      Turn world event server [] paxos []
  | prepare (packet : PaxosPacket) (req : Nat) (request : PrepareRequest) (layout : Layout)
      (delivers : Delivers world event layout packet) (dst : packet.dst = server)
      (body : packet.body = .request req request) :
      Turn world event server (promiseOf (world.cores server) packet)
        (ireceiveRequest layout (world.cores server).paxos request).1 []
  | accept (packet : PaxosPacket) (topic : Topic) (id : SId) (value : Value) (version : Int)
      (layout : Layout) (delivers : Delivers world event layout packet) (dst : packet.dst = server)
      (body : packet.body = .accept topic id value version) :
      Turn world event server [] (iaccept (world.cores server).paxos topic id value version) []
  | learn (call : RpcCall) (reply : Option LearnReply) (layout : Layout)
      (search : (world.cores server).callTo call.peer call.req = some call)
      (isLearn : call.callback = .receiveLearn)
      (ends : EndsCall world event server call.peer call.req (reply.map .learn)) :
      Turn world event server []
        (ireceiveLearn layout (world.cores server).id call.peer (world.cores server).paxos reply).1
        (ireceiveLearn layout (world.cores server).id call.peer (world.cores server).paxos reply).2

/-- The world after a turn. -/
structure Turned (world after : PaxosWorld) (server : Nat) (promises : List Promise)
    (paxos : SPaxos) (reported : List PaxosAccept) : Prop where
  own : (after.cores server).paxos = paxos
  reported : (after.cores server).reported = (world.cores server).reported ++ reported
  others : ∀ other, other ≠ server → after.cores other = world.cores other
  votes : after.votes = world.votes ++ (newEntries (world.cores server).paxos paxos).map
    fun entry => { server := server, entry := entry }
  promises : after.promises = world.promises ++ promises

/-- One server takes a turn. -/
def OneTurn (world : PaxosWorld) (event : PaxosEvent) (after : PaxosWorld) : Prop :=
  ∃ server promises paxos reported, Turn world event server promises paxos reported ∧
    Turned world after server promises paxos reported

section

variable {group : PaxosVersion} {world : PaxosWorld}

theorem turned_act (server : Nat) (handler : Core → Core) (net : List PaxosPacket)
    (promises : List Promise) (heard : List Heard) (missed : List SId)
    {reported : List PaxosAccept}
    (reports : (handler (world.cores server)).reported =
      (world.cores server).reported ++ reported) :
    Turned world
      (({ world with
          net := net
          promises := world.promises ++ promises
          heard := heard
          missed := missed } : PaxosWorld).act server handler)
      server promises (handler (world.cores server)).paxos reported := by
  constructor
  · show (Function.update world.cores server _ server).paxos = _
    rw [Function.update_self]
  · show (Function.update world.cores server _ server).reported = _
    rw [Function.update_self]
    exact reports
  · intro other different
    show Function.update world.cores server _ other = _
    rw [Function.update_of_ne different]
  · rfl
  · rfl

/-- A handler that leaves the acceptor and the learner alone. -/
theorem oneTurn_idle {event : PaxosEvent} (server : Nat) (handler : Core → Core)
    (net : List PaxosPacket) (heard : List Heard) (missed : List SId)
    (accept : (handler (world.cores server)).paxos.accept = (world.cores server).paxos.accept)
    (response : (handler (world.cores server)).paxos.response =
      (world.cores server).paxos.response)
    (learn : (handler (world.cores server)).paxos.learn = (world.cores server).paxos.learn ∨
      (handler (world.cores server)).paxos.learn = ∅)
    (reports : (handler (world.cores server)).reported = (world.cores server).reported) :
    OneTurn world event
      (({ world with
          net := net
          promises := world.promises ++ []
          heard := heard
          missed := missed } : PaxosWorld).act server handler) :=
  ⟨server, [], _, [], Turn.idle _ accept response learn,
    turned_act server handler net [] heard missed (by rw [reports, List.append_nil])⟩

theorem oneTurn_quiet {event : PaxosEvent} (server : Nat) (handler : Core → Core)
    (net : List PaxosPacket) (heard : List Heard) (missed : List SId)
    (same : (handler (world.cores server)).paxos = (world.cores server).paxos ∧
      (handler (world.cores server)).reported = (world.cores server).reported) :
    OneTurn world event
      (({ world with
          net := net
          promises := world.promises ++ []
          heard := heard
          missed := missed } : PaxosWorld).act server handler) := by
  apply oneTurn_idle server handler net heard missed
  · rw [same.1]
  · rw [same.1]
  · exact Or.inl (by rw [same.1])
  · exact same.2

/-- The end of a call of a group. -/
theorem oneTurn_finishCall {event : PaxosEvent} (kept : GroupKept group world) (layout : Layout)
    (server peer req : Nat) (reply : Option RpcReply) (net : List PaxosPacket)
    (heard : List Heard) (missed : List SId)
    (ends : EndsCall world event server peer req reply) :
    OneTurn world event
      (({ world with
          net := net
          promises := world.promises ++ []
          heard := heard
          missed := missed } : PaxosWorld).act server
        fun core => finishCall layout core peer req reply) := by
  have own := kept.cores server
  rcases finishCall_plain own layout peer req reply with same |
    ⟨call, given, search, isLearn, isReply, paxos, reported⟩
  · exact oneTurn_quiet server _ net heard missed same
  · obtain ⟨isReq, isPeer⟩ := callTo_names search
    rw [← isReq, ← isPeer] at search
    rw [← isReq, ← isPeer, isReply] at ends
    have turned := turned_act server (fun core => finishCall layout core peer req reply) net []
      heard missed reported
    refine ⟨server, [], _, _, Turn.learn call given layout search isLearn ends, ?_⟩
    rw [← paxos]
    exact turned

theorem step_of_group {after : PaxosWorld} {event : PaxosEvent}
    (stepped : (groupSystem group).step world event = some after) :
    world.step event = some after := by
  dsimp only [groupSystem] at stepped
  split at stepped
  · exact stepped
  · cases stepped

/-- **Every step of a group is the loss of a packet or one turn.** -/
theorem oneTurn_of_step {after : PaxosWorld} {event : PaxosEvent} (kept : GroupKept group world)
    (stepped : (groupSystem group).step world event = some after) :
    (∃ net, after = { world with net := net }) ∨ OneTurn world event after := by
  dsimp only [groupSystem] at stepped
  split at stepped
  next allowed =>
    have quietLedger : ∀ server handler, OneTurn world event
        (({ world with promises := world.promises ++ [] } : PaxosWorld).act server handler) →
        OneTurn world event (world.act server handler) := by
      intro server handler turn
      rw [List.append_nil] at turn
      exact turn
    cases event with
    | start server topic value =>
        cases stepped
        right
        apply quietLedger
        obtain ⟨id, _, same⟩ := sPaxosStart_paxos (world.cores server) topic value .normal 0
        apply oneTurn_idle server _ world.net world.heard world.missed
        · rw [same]
        · rw [same]
        · exact Or.inl (by rw [same])
        · exact sPaxosStart_reported _ _ _ _ _
    | askAdd server target => cases allowed
    | checkLeave server => cases allowed
    | learnAll server =>
        cases stepped
        right
        apply quietLedger
        obtain ⟨count, same⟩ := sPaxosLearnAll_paxos (world.cores server)
        apply oneTurn_idle server _ world.net world.heard world.missed
        · rw [same]
        · rw [same]
        · exact Or.inr (by rw [same])
        · exact sPaxosLearnAll_reported _
    | deliver index layout =>
        dsimp only [PaxosWorld.step] at stepped
        split at stepped
        · cases stepped
        next packet rest taken =>
          cases stepped
          right
          have delivers : Delivers world (.deliver index layout) layout packet :=
            ⟨index, rest, rfl, taken⟩
          have plain := kept.net packet (Packet.mem_of_takeAt taken)
          obtain ⟨src, dst, body⟩ := packet
          cases body with
          | request req request =>
              refine ⟨dst, _, _, [], Turn.prepare _ req request layout delivers rfl rfl, ?_⟩
              exact turned_act dst (fun core => dispatch layout core src (.request req request)) rest
                _ _ _ (List.append_nil _).symm
          | accept topic id value version =>
              refine ⟨dst, _, _, [], Turn.accept _ topic id value version layout delivers rfl rfl, ?_⟩
              exact turned_act dst
                (fun core => dispatch layout core src (.accept topic id value version)) rest
                _ _ _ (List.append_nil _).symm
          | learnRequest req version => exact oneTurn_quiet dst _ rest _ _ ⟨rfl, rfl⟩
          | addMe => exact plain.elim
          | addAccept req dump => exact plain.elim
          | refreshAccept req dump => exact plain.elim
          | rpcBack req reply =>
              exact oneTurn_finishCall kept layout dst src req (some reply) rest _ _
                (EndsCall.reply layout _ reply delivers rfl rfl rfl)
    | lose index =>
        dsimp only [PaxosWorld.step] at stepped
        split at stepped
        · cases stepped
        · split at stepped
          · cases stepped
          · cases stepped
            exact Or.inl ⟨_, rfl⟩
    | timeout server peer req layout =>
        cases stepped
        right
        have ended := oneTurn_finishCall kept layout server peer req none world.net world.heard
          (world.missed ++ awaiting (world.cores server) peer req) (EndsCall.timeout layout rfl)
        rw [List.append_nil] at ended
        exact ended
    | connection server peer established =>
        dsimp only [PaxosWorld.step] at stepped
        split at stepped
        · cases stepped
        · cases stepped
          right
          apply quietLedger
          exact oneTurn_quiet server _ world.net world.heard world.missed ⟨rfl, rfl⟩
  next => cases stepped

end

end SimpleDfs.Paxos
