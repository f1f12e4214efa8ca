import SimpleDfs.Paxos.Calls

/-!
Contract: what one step of the world does to the server that takes it.

Owns: `Handled`, the four ways a server can act, that every step is one of
them, and the invariant of calls over all servers.

Does not own: votes, what a promise means.
-/

set_option autoImplicit false

namespace SimpleDfs.Paxos

open SimpleDfs.Common
open SimpleDfs.Library

/-- A proposal an event may create. -/
def Starts (event : PaxosEvent) (p : PaxosProposal) : Prop :=
  match p.type with
  | .normal => ∃ server, event = .start server p.topic p.value
  | .add => p.topic = versionTopic (p.version.version + 1) ∧
      p.value = servsValue p.version.servs ||| servBit p.theServ
  | .rm => p.topic = versionTopic (p.version.version + 1) ∧
      p.value = servsValue (p.version.servs.filter fun serv => p.theServ ≠ serv) ∧
      p.theServ ∈ p.version.servs

/-- The promise a finished call brings. -/
def endHeard (server : Nat) (call : RpcCall) (reply : Option RpcReply) : List Heard :=
  match call.callback, reply with
  | .receiveResponse key, some (.prepare (.promise report _ _)) =>
      [{ proposal := ⟨server, key⟩, server := call.peer, report := report }]
  | _, _ => []

/-- The proposal a finished call leaves without an answer. -/
def endMissed (server : Nat) (call : RpcCall) (reply : Option RpcReply) : List SId :=
  match call.callback, reply with
  | .receiveResponse key, none => [⟨server, key⟩]
  | _, _ => []

theorem callEnd_of_reply (server : Nat) (call : RpcCall) (reply : Option RpcReply) :
    CallEnd server call (endHeard server call reply) (endMissed server call reply) := by
  unfold endHeard endMissed
  split
  next key report _ _ prepare =>
    rw [prepare]
    exact CallEnd.heard key report prepare
  next =>
    split
    next prepare _ => exact CallEnd.missed _ prepare
    next => exact CallEnd.other

/-- The ADD and RM proposals whose second phase the end of a call starts. -/
def secondPhase (core : Core) (call : RpcCall) (key : Nat) : Prop :=
  call.callback = .addNewServOk key ∨
    call.callback = .refreshAcceptBack key ∧
      ∃ p, core.proposals.lookup key = some p ∧ p.response.count = 1

/-- The event delivers the packet. -/
def Delivers (world : PaxosWorld) (event : PaxosEvent) (layout : Layout) (packet : PaxosPacket) :
    Prop :=
  ∃ index rest, event = .deliver index layout ∧
    Packet.takeAt world.net index = some (packet, rest)

theorem Delivers.mem {world : PaxosWorld} {event : PaxosEvent} {layout : Layout}
    {packet : PaxosPacket} (delivers : Delivers world event layout packet) :
    packet ∈ world.net := by
  obtain ⟨index, rest, _, taken⟩ := delivers
  exact Packet.mem_of_takeAt taken

/-- The event ends a call to `peer`: its time is over, or the reply comes. -/
inductive EndsCall (world : PaxosWorld) (event : PaxosEvent) (server peer req : Nat) :
    Option RpcReply → Prop where
  | timeout (layout : Layout) (caused : event = .timeout server peer req layout) :
      EndsCall world event server peer req none
  | reply (layout : Layout) (packet : PaxosPacket) (body : RpcReply)
      (delivers : Delivers world event layout packet) (src : packet.src = peer)
      (dst : packet.dst = server) (carries : packet.body = .rpcBack req body) :
      EndsCall world event server peer req (some body)

/-- The pending call that `req` and `peer` name. -/
def Core.callTo (core : Core) (peer req : Nat) : Option RpcCall :=
  core.calls.find? fun call => call.req == req && call.peer == peer

/-- How a server acts: it moves, it answers a prepare or a learn request, or a
call of its own ends. -/
inductive Handled (world : PaxosWorld) (event : PaxosEvent) :
    Nat → List Promise → List Heard → List SId → Core → Prop where
  | quiet (server : Nat) (after : Core)
      (moves : Moves (fun _ => False) (Starts event) (world.cores server) after) :
      Handled world event server [] [] [] after
  | prepare (packet : PaxosPacket) (req : Nat) (request : PrepareRequest) (layout : Layout)
      (delivers : Delivers world event layout packet) (body : packet.body = .request req request) :
      Handled world event packet.dst (promiseOf (world.cores packet.dst) packet) [] []
        (dispatch layout (world.cores packet.dst) packet.src packet.body)
  | learn (packet : PaxosPacket) (req : Nat) (version : Int) (layout : Layout)
      (delivers : Delivers world event layout packet) (body : packet.body = .learnRequest req version) :
      Handled world event packet.dst [] [] []
        (dispatch layout (world.cores packet.dst) packet.src packet.body)
  | finish (server : Nat) (call : RpcCall) (reply : Option RpcReply) (after : Core)
      (search : (world.cores server).callTo call.peer call.req = some call)
      (ends : EndsCall world event server call.peer call.req reply)
      (moves : Moves (secondPhase (world.cores server) call) (Starts event)
        (noteCallback
          { world.cores server with calls := otherCalls (world.cores server).calls call.req }
          call.callback reply) after) :
      Handled world event server [] (endHeard server call reply) (endMissed server call reply) after

theorem mem_of_callTo {core : Core} {peer req : Nat} {call : RpcCall}
    (search : core.callTo peer req = some call) : call ∈ core.calls :=
  List.mem_of_find?_eq_some search

theorem callTo_names {core : Core} {peer req : Nat} {call : RpcCall}
    (search : core.callTo peer req = some call) : call.req = req ∧ call.peer = peer := by
  have named := List.find?_some search
  simpa only [Bool.and_eq_true, beq_iff_eq] using named

theorem finishCall_of_none (layout : Layout) {core : Core} {peer req : Nat}
    (reply : Option RpcReply) (search : core.callTo peer req = none) :
    finishCall layout core peer req reply = core := by
  unfold Core.callTo at search
  unfold finishCall
  rw [search]

theorem finishCall_of_some (layout : Layout) {core : Core} {peer req : Nat} {call : RpcCall}
    (reply : Option RpcReply) (search : core.callTo peer req = some call) :
    finishCall layout core peer req reply =
      runCallback layout { core with calls := otherCalls core.calls req } call reply := by
  unfold Core.callTo at search
  unfold finishCall
  rw [search]
  rfl

/-- The world after a server has acted. -/
structure Acted (world after : PaxosWorld) (server : Nat) (promises : List Promise)
    (heard : List Heard) (missed : List SId) (core : Core) : Prop where
  cores : after.cores = Function.update world.cores server { core with out := [] }
  sent : after.sent = world.sent ++ core.out
  net : ∀ packet ∈ after.net, packet ∈ world.net ∨ packet ∈ core.out
  votes : after.votes = world.votes ++
    (newEntries (world.cores server).paxos core.paxos).map
      fun entry => { server := server, entry := entry }
  promises : after.promises = world.promises ++ promises
  heard : after.heard = world.heard ++ heard
  missed : after.missed = world.missed ++ missed

/-- The invariant of calls: what holds of every server, and what is in flight
was sent. -/
structure CallsKept (world : PaxosWorld) : Prop where
  servers : ∀ server, ServerKept server world.sent world.heard world.missed (world.cores server)
  silent : ∀ server, (world.cores server).out = []
  inSent : ∀ packet ∈ world.net, packet ∈ world.sent

/-! ## Every step is an act -/

theorem acted_act (world : PaxosWorld) (server : Nat) (handler : Core → Core)
    (promises : List Promise) (heard : List Heard) (missed : List SId) (net : List PaxosPacket)
    (fewer : ∀ packet ∈ net, packet ∈ world.net) :
    Acted world
      (({ world with
          net := net
          promises := world.promises ++ promises
          heard := world.heard ++ heard
          missed := world.missed ++ missed } : PaxosWorld).act server handler)
      server promises heard missed (handler (world.cores server)) := by
  constructor
  · rfl
  · rfl
  · intro packet member
    rcases List.mem_append.mp member with old | new
    · exact Or.inl (fewer packet old)
    · exact Or.inr new
  · rfl
  · rfl
  · rfl
  · rfl

/-- A server has no call pending for the number of its next proposal. -/
theorem CallsKept.unused {world : PaxosWorld} (kept : CallsKept world) (server : Nat) :
    ∀ call ∈ (world.cores server).calls,
      call.callback.proposal ≠ some (world.cores server).paxos.id :=
  (kept.servers server).callback_absent (kept.servers server).absent_next

theorem starts_add (event : PaxosEvent) (core : Core) (newServ : Nat) :
    Starts event (startedProposal core (versionTopic (core.paxos.version.version + 1))
      (servsValue core.paxos.version.servs ||| servBit newServ) .add newServ) := by
  unfold Starts startedProposal
  dsimp only
  refine ⟨rfl, ?_⟩
  split <;> rfl

theorem starts_normal (server : Nat) (core : Core) (topic : Topic) (value : Value) :
    Starts (.start server topic value) (startedProposal core topic value .normal 0) := by
  refine ⟨server, ?_⟩
  unfold startedProposal
  rw [if_neg (fun both => nomatch both.1)]
  rfl

theorem moves_checkLeave {second : Nat → Prop} (event : PaxosEvent) (core : Core)
    (distinct : core.paxos.version.servs.Nodup)
    (unused : ∀ call ∈ core.calls, call.callback.proposal ≠ some core.paxos.id) :
    Moves second (Starts event) core (sPaxosCheckLeave core) := by
  unfold sPaxosCheckLeave
  split
  · exact Relation.ReflTransGen.refl
  next serv gone =>
    apply moves_sPaxosStart core _ _ _ _ distinct unused
    refine ⟨rfl, ?_, List.mem_of_find?_eq_some gone⟩
    unfold startedProposal
    rw [if_neg (fun both => nomatch both.1)]
    rfl

/-- The end of a call, whether a reply has come or not. -/
theorem handled_finishCall {world : PaxosWorld} (kept : CallsKept world) (event : PaxosEvent)
    (layout : Layout) (server peer req : Nat) (reply : Option RpcReply)
    (ends : EndsCall world event server peer req reply) :
    ((world.cores server).callTo peer req = none ∧
        finishCall layout (world.cores server) peer req reply = world.cores server) ∨
      ∃ call, (world.cores server).callTo peer req = some call ∧
        Handled world event server [] (endHeard server call reply) (endMissed server call reply)
          (finishCall layout (world.cores server) peer req reply) := by
  cases search : (world.cores server).callTo peer req with
  | none => exact Or.inl ⟨rfl, finishCall_of_none layout reply search⟩
  | some call =>
      right
      rw [finishCall_of_some layout reply search]
      have pending := mem_of_callTo search
      obtain ⟨rfl, rfl⟩ := callTo_names search
      refine ⟨call, rfl, Handled.finish server call reply _ search ends ?_⟩
      apply moves_runCallback layout
        { world.cores server with calls := otherCalls (world.cores server).calls call.req } call reply
      intro key p found phase
      rcases phase with isOk | ⟨isBack, last⟩
      · obtain ⟨q, foundToo, addition⟩ := (kept.servers server).addOf call pending key isOk
        have same := Option.some.inj (found.symm.trans foundToo)
        rw [same, addition]
        exact ⟨by decide, Or.inl isOk⟩
      · obtain ⟨q, foundToo, removal⟩ := (kept.servers server).refreshOf call pending key isBack
        have same := Option.some.inj (found.symm.trans foundToo)
        refine ⟨?_, Or.inr ⟨isBack, p, found, last⟩⟩
        rw [same, removal]
        decide

theorem awaiting_absent {core : Core} {peer req : Nat}
    (search : core.callTo peer req = none) : awaiting core peer req = [] := by
  unfold Core.callTo at search
  unfold awaiting
  rw [search]

/-- What a server hears when the reply to a pending call comes. -/
theorem heardBy_found {core : Core} {packet : PaxosPacket} {req : Nat} {reply : RpcReply}
    {call : RpcCall} (body : packet.body = .rpcBack req reply)
    (search : core.callTo packet.src req = some call) :
    heardBy core packet = endHeard core.id call (some reply) := by
  have named := callTo_names search
  unfold Core.callTo at search
  unfold heardBy awaiting endHeard
  rw [body, ← named.2]
  cases reply with
  | prepare reply =>
      cases reply with
      | badVersion => cases call.callback <;> rfl
      | promise report backup accepts =>
          dsimp only
          rw [named.2, search]
          obtain ⟨number, peer, callback⟩ := call
          cases callback <;> rfl
  | learn reply => cases call.callback <;> rfl
  | done => cases call.callback <;> rfl

theorem awaiting_found {core : Core} {peer req : Nat} {call : RpcCall}
    (search : core.callTo peer req = some call) :
    awaiting core peer req = endMissed core.id call none := by
  unfold Core.callTo at search
  unfold awaiting endMissed
  rw [search]
  obtain ⟨number, peer, callback⟩ := call
  cases callback <;> rfl

/-- A step in which one server acts. -/
def OneActs (world : PaxosWorld) (event : PaxosEvent) (after : PaxosWorld) : Prop :=
  ∃ server promises heard missed core, Handled world event server promises heard missed core ∧
    Acted world after server promises heard missed core

theorem oneActs_quiet (world : PaxosWorld) (event : PaxosEvent) (server : Nat)
    (handler : Core → Core)
    (moves : Moves (fun _ => False) (Starts event) (world.cores server)
      (handler (world.cores server))) :
    OneActs world event (world.act server handler) := by
  have acted := acted_act world server handler [] [] [] world.net fun packet member => member
  simp only [List.append_nil] at acted
  exact ⟨server, [], [], [], _, Handled.quiet server _ moves, acted⟩

/-- The delivery of a packet under which nothing is promised or heard. -/
theorem oneActs_unnoted {world : PaxosWorld} (event : PaxosEvent) (layout : Layout)
    (packet : PaxosPacket) (net : List PaxosPacket)
    (fewer : ∀ packet ∈ net, packet ∈ world.net)
    (noPromise : promiseOf (world.cores packet.dst) packet = [])
    (noHeard : heardBy (world.cores packet.dst) packet = [])
    (handled : Handled world event packet.dst [] [] []
      (dispatch layout (world.cores packet.dst) packet.src packet.body)) :
    OneActs world event
      (({ world with
          net := net
          promises := world.promises ++ promiseOf (world.cores packet.dst) packet
          heard := world.heard ++ heardBy (world.cores packet.dst) packet } : PaxosWorld).act
        packet.dst fun core => dispatch layout core packet.src packet.body) := by
  rw [noPromise, noHeard]
  have acted := acted_act world packet.dst
    (fun core => dispatch layout core packet.src packet.body) [] [] [] net fewer
  simp only [List.append_nil] at acted ⊢
  exact ⟨packet.dst, [], [], [], _, handled, acted⟩

theorem oneActs_deliver {world : PaxosWorld} (kept : CallsKept world) (event : PaxosEvent)
    (layout : Layout) (packet : PaxosPacket) (net : List PaxosPacket)
    (delivers : Delivers world event layout packet)
    (fewer : ∀ packet ∈ net, packet ∈ world.net) :
    OneActs world event
      (({ world with
          net := net
          promises := world.promises ++ promiseOf (world.cores packet.dst) packet
          heard := world.heard ++ heardBy (world.cores packet.dst) packet } : PaxosWorld).act
        packet.dst fun core => dispatch layout core packet.src packet.body) := by
  have unnoted := oneActs_unnoted event layout packet net fewer
  have own := kept.servers packet.dst
  cases body : packet.body with
  | request req request =>
      have noHeard : heardBy (world.cores packet.dst) packet = [] := by
        unfold heardBy
        rw [body]
      rw [noHeard, ← body]
      have acted := acted_act world packet.dst
        (fun core => dispatch layout core packet.src packet.body)
        (promiseOf (world.cores packet.dst) packet) [] [] net fewer
      simp only [List.append_nil] at acted ⊢
      exact ⟨packet.dst, _, [], [], _, Handled.prepare packet req request layout delivers body, acted⟩
  | accept topic id value version =>
      rw [← body]
      apply unnoted (by unfold promiseOf; rw [body]) (by unfold heardBy; rw [body])
      apply Handled.quiet
      rw [body]
      exact moves_paxos _ _ (grows_iaccept _ topic id value version)
  | learnRequest req version =>
      rw [← body]
      apply unnoted (by unfold promiseOf; rw [body]) (by unfold heardBy; rw [body])
      exact Handled.learn packet req version layout delivers body
  | addMe =>
      rw [← body]
      apply unnoted (by unfold promiseOf; rw [body]) (by unfold heardBy; rw [body])
      apply Handled.quiet
      rw [body]
      exact moves_sPaxosStart _ _ _ .add packet.src own.distinct (kept.unused packet.dst)
        (starts_add event _ packet.src)
  | addAccept req dump =>
      rw [← body]
      apply unnoted (by unfold promiseOf; rw [body]) (by unfold heardBy; rw [body])
      apply Handled.quiet
      rw [body]
      apply moves_addAccept
      have sentIt := List.mem_append_left (world.cores packet.src).out (kept.inSent packet delivers.mem)
      exact (kept.servers packet.src).dumps packet sentIt rfl req dump body
  | refreshAccept req dump =>
      rw [← body]
      apply unnoted (by unfold promiseOf; rw [body]) (by unfold heardBy; rw [body])
      apply Handled.quiet
      rw [body]
      exact moves_refreshAccept layout _ packet.src req dump
  | rpcBack req reply =>
      rw [← body]
      have noPromise : promiseOf (world.cores packet.dst) packet = [] := by
        unfold promiseOf
        rw [body]
      have handled := handled_finishCall kept event layout packet.dst packet.src req (some reply)
        (EndsCall.reply layout packet reply delivers rfl rfl body)
      rcases handled with ⟨search, unchanged⟩ | ⟨call, search, handled⟩
      · apply unnoted noPromise
        · unfold heardBy
          rw [body]
          cases reply with
          | prepare reply =>
              cases reply with
              | badVersion => rfl
              | promise report backup accepts =>
                  dsimp only
                  rw [awaiting_absent search]
                  rfl
          | learn reply => rfl
          | done => rfl
        · apply Handled.quiet
          rw [body]
          dsimp only [dispatch]
          rw [unchanged]
      · have heardIt := heardBy_found body search
        rw [own.ident] at heardIt
        rw [noPromise, heardIt, body]
        have missedNone : endMissed packet.dst call (some reply) = [] := by
          unfold endMissed
          cases call.callback <;> rfl
        rw [missedNone] at handled
        have acted := acted_act world packet.dst
          (fun core => dispatch layout core packet.src (.rpcBack req reply)) []
          (endHeard packet.dst call (some reply)) [] net fewer
        simp only [List.append_nil] at acted ⊢
        exact ⟨packet.dst, [], _, [], _, handled, acted⟩

theorem oneActs_timeout {world : PaxosWorld} (kept : CallsKept world) (layout : Layout)
    (server peer req : Nat) :
    OneActs world (.timeout server peer req layout)
      (({ world with
          missed := world.missed ++ awaiting (world.cores server) peer req } : PaxosWorld).act
        server fun core => finishCall layout core peer req none) := by
  have handled := handled_finishCall kept _ layout server peer req none
    (EndsCall.timeout layout rfl)
  have acted := fun missed => acted_act world server
    (fun core => finishCall layout core peer req none) [] [] missed world.net
    fun packet member => member
  simp only [List.append_nil] at acted
  rcases handled with ⟨search, unchanged⟩ | ⟨call, search, handled⟩
  · rw [awaiting_absent search]
    have silent := acted []
    refine ⟨server, [], [], [], _, Handled.quiet server _ ?_, silent⟩
    rw [unchanged]
  · rw [awaiting_found search, (kept.servers server).ident]
    have heardNone : endHeard server call none = [] := by
      unfold endHeard
      cases call.callback <;> rfl
    rw [heardNone] at handled
    exact ⟨server, [], [], _, _, handled, acted _⟩

/-- **Every step is the loss of a packet or the act of one server.** -/
theorem acted_of_step {world after : PaxosWorld} {event : PaxosEvent} (kept : CallsKept world)
    (stepped : world.step event = some after) :
    (∃ net, after = { world with net := net } ∧ ∀ packet ∈ net, packet ∈ world.net) ∨
      OneActs world event after := by
  cases event with
  | start server topic value =>
      cases stepped
      right
      apply oneActs_quiet
      exact moves_sPaxosStart _ topic value .normal 0 (kept.servers server).distinct
        (kept.unused server) (starts_normal server _ topic value)
  | askAdd server target =>
      cases stepped
      right
      apply oneActs_quiet
      exact Relation.ReflTransGen.single (Move.notify _ target .addMe rfl)
  | checkLeave server =>
      cases stepped
      right
      apply oneActs_quiet
      exact moves_checkLeave _ _ (kept.servers server).distinct (kept.unused server)
  | learnAll server =>
      cases stepped
      right
      apply oneActs_quiet
      exact moves_sPaxosLearnAll _
  | deliver index layout =>
      dsimp only [PaxosWorld.step] at stepped
      split at stepped
      · cases stepped
      next packet rest taken =>
        cases stepped
        right
        exact oneActs_deliver kept _ layout packet rest ⟨index, rest, rfl, taken⟩
          fun other member => Packet.mem_rest_of_takeAt taken member
  | lose index =>
      dsimp only [PaxosWorld.step] at stepped
      split at stepped
      · cases stepped
      · split at stepped
        · cases stepped
        · cases stepped
          exact Or.inl ⟨_, rfl, fun packet member => List.mem_of_mem_eraseIdx member⟩
  | timeout server peer req layout =>
      cases stepped
      exact Or.inr (oneActs_timeout kept layout server peer req)
  | connection server peer established =>
      dsimp only [PaxosWorld.step] at stepped
      split at stepped
      · cases stepped
      · cases stepped
        right
        apply oneActs_quiet
        exact Relation.ReflTransGen.single (Move.state _ _ _ _ _ le_rfl id)

/-! ## The invariant of calls -/

/-- What a server adds to the history is about its own proposals. -/
theorem Handled.own {world : PaxosWorld} {event : PaxosEvent} {server : Nat}
    {promises : List Promise} {heard : List Heard} {missed : List SId} {core : Core}
    (handled : Handled world event server promises heard missed core) :
    (∀ entry ∈ heard, entry.proposal.x = server) ∧ ∀ id ∈ missed, id.x = server := by
  cases handled with
  | quiet _ _ moves => exact ⟨by simp, by simp⟩
  | prepare packet req request layout delivers body => exact ⟨by simp, by simp⟩
  | learn packet req version layout delivers body => exact ⟨by simp, by simp⟩
  | finish _ call reply _ search ends moves =>
      generalize endHeard server call reply = gone, endMissed server call reply = lost,
        callEnd_of_reply server call reply = ending
      cases ending with
      | heard key report prepare => exact ⟨by simp, by simp⟩
      | missed key prepare => exact ⟨by simp, by simp⟩
      | other => exact ⟨by simp, by simp⟩

/-- The acting server keeps what holds of it, with the packets it is about to
send. -/
theorem CallsKept.handled {world : PaxosWorld} (kept : CallsKept world) {event : PaxosEvent}
    {server : Nat} {promises : List Promise} {heard : List Heard} {missed : List SId} {core : Core}
    (handled : Handled world event server promises heard missed core) :
    ServerKept server world.sent (world.heard ++ heard) (world.missed ++ missed) core := by
  have own := kept.servers server
  cases handled with
  | quiet _ _ moves =>
      rw [List.append_nil, List.append_nil]
      exact own.moves moves
  | prepare packet req request layout delivers body =>
      rw [List.append_nil, List.append_nil, body]
      have grown : Grows (world.cores packet.dst).paxos
          (ireceiveRequest layout (world.cores packet.dst).paxos request).1 := by
        unfold ireceiveRequest
        dsimp only
        split
        · exact ⟨Nat.le_succ _, fun distinct => distinct⟩
        · exact ⟨Nat.le_succ _, fun distinct => distinct⟩
      have promised := own.moves
        (@moves_paxos (fun _ => False) (fun _ => False) _ _ grown)
      exact promised.send packet.src _ rfl
  | learn packet req version layout delivers body =>
      rw [List.append_nil, List.append_nil, body]
      exact own.send packet.src _ rfl
  | finish _ call reply _ search ends moves =>
      have ended := own.finish (mem_of_callTo search) (callEnd_of_reply server call reply)
      exact (ended.noteCallback call.callback reply).moves moves

theorem callsKept_acted {world after : PaxosWorld} {event : PaxosEvent} (kept : CallsKept world)
    (acts : OneActs world event after) : CallsKept after := by
  obtain ⟨server, promises, heard, missed, core, handled, acted⟩ := acts
  have own := kept.handled handled
  have foreign := handled.own
  constructor
  · intro other
    rw [acted.cores, acted.sent, acted.heard, acted.missed]
    by_cases same : other = server
    · rw [same, Function.update_self]
      exact own.settle
    · rw [Function.update_of_ne same]
      apply (kept.servers other).others (kept.silent other)
      · intro packet member src
        exact same (src.symm.trans (own.sources packet member))
      · intro entry member src
        exact same (src.symm.trans (foreign.1 entry member))
      · intro id member src
        exact same (src.symm.trans (foreign.2 id member))
  · intro other
    rw [acted.cores]
    by_cases same : other = server
    · rw [same, Function.update_self]
    · rw [Function.update_of_ne same]
      exact kept.silent other
  · intro packet member
    rw [acted.sent]
    rcases acted.net packet member with old | new
    · exact List.mem_append_left _ (kept.inSent packet old)
    · exact List.mem_append_right _ new

theorem callsKept_step {world after : PaxosWorld} {event : PaxosEvent} (kept : CallsKept world)
    (stepped : world.step event = some after) : CallsKept after := by
  rcases acted_of_step kept stepped with ⟨net, same, fewer⟩ | acts
  · rw [same]
    exact ⟨kept.servers, kept.silent, fun packet member => kept.inSent packet (fewer packet member)⟩
  · exact callsKept_acted kept acts

/-- A server that has not done anything. -/
theorem serverKept_idle (server : Nat) (core : Core) (ident : core.id = server)
    (distinct : core.paxos.version.servs.Nodup) (proposals : core.proposals = ∅)
    (calls : core.calls = []) (out : core.out = []) : ServerKept server [] [] [] core := by
  have noCall : ∀ call, call ∉ core.calls := fun call member => by
    rw [calls] at member
    exact List.not_mem_nil member
  have noPacket : ∀ packet, packet ∉ [] ++ core.out := fun packet member => by
    rw [out] at member
    exact List.not_mem_nil member
  have noProposal : ∀ key p, core.proposals.lookup key ≠ some p := fun key p found => by
    rw [proposals] at found
    cases found
  have noPreparing : ∀ key, core.preparing key = [] := fun key => by
    unfold Core.preparing
    rw [calls]
    rfl
  constructor
  · exact ident
  · exact distinct
  · exact fun packet member => absurd member (noPacket packet)
  · exact fun key p found => absurd found (noProposal key p)
  · exact fun packet member => absurd member (noPacket packet)
  · exact fun packet member => absurd member (noPacket packet)
  · rw [calls]
    exact List.nodup_nil
  · exact fun call member => absurd member (noCall call)
  · exact fun packet member => absurd member (noPacket packet)
  · exact fun call member => absurd member (noCall call)
  · exact fun call member => absurd member (noCall call)
  · exact fun call member => absurd member (noCall call)
  · exact fun call member => absurd member (noCall call)
  · exact fun entry member => absurd member List.not_mem_nil
  · exact fun id member => absurd member List.not_mem_nil
  · intro key
    rw [noPreparing]
    exact List.nodup_nil
  · exact fun key p found => absurd found (noProposal key p)

theorem callsKept_fresh (connected : Nat → Nat → Bool) : CallsKept (freshWorld connected) := by
  constructor
  · intro server
    apply serverKept_idle server _ rfl _ rfl rfl rfl
    dsimp only [freshWorld, createCore, sPaxosCreate]
    split <;> simp
  · exact fun server => rfl
  · exact fun packet member => absurd member List.not_mem_nil

/-- The invariant of calls holds in every run from the fresh world. -/
theorem callsKept_of_reachable {admitted : PaxosWorld → PaxosEvent → Prop} {world : PaxosWorld}
    (reached : paxosSystem.ReachableVia admitted world) : CallsKept world := by
  apply reached.invariant CallsKept
  · intro start initial
    obtain ⟨connected, rfl⟩ := initial
    exact callsKept_fresh connected
  · intro before event after _ kept _ stepped
    exact callsKept_step kept stepped

end SimpleDfs.Paxos
