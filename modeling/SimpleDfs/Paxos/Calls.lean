import SimpleDfs.Paxos.Moves

/-!
Contract: the prepare calls of a proposal and what comes back for them.  Each
member is asked once, and each call ends in at most one of a promise heard, a
refusal and a missing packet.

Owns: what holds of one server together with the packets it has sent, and that
every move and the end of a call keep it.

Does not own: how responses are counted, the world of all servers.
-/

set_option autoImplicit false

namespace SimpleDfs.Paxos

open SimpleDfs.Common
open SimpleDfs.Library

/-- The number a call packet carries. -/
def PaxosBody.callNumber : PaxosBody → Option Nat
  | .request req _ => some req
  | .learnRequest req _ => some req
  | .addAccept req _ => some req
  | .refreshAccept req _ => some req
  | _ => none

/-- The servers whose promise a proposal has heard. -/
def heardFrom (heard : List Heard) (id : SId) : List Nat :=
  (heard.filter fun entry => entry.proposal == id).map Heard.server

/-- What a proposal keeps from its creation on. -/
structure SameOrigin (p q : PaxosProposal) : Prop where
  id : q.id = p.id
  topic : q.topic = p.topic
  version : q.version = p.version
  type : q.type = p.type
  theServ : q.theServ = p.theServ

/-- What it keeps from the end of its request loop on. -/
structure SameAsked (p q : PaxosProposal) : Prop extends SameOrigin p q where
  nsent : q.response.nsent = p.response.nsent

theorem SameOrigin.refl (p : PaxosProposal) : SameOrigin p p :=
  ⟨rfl, rfl, rfl, rfl, rfl⟩

theorem SameAsked.refl (p : PaxosProposal) : SameAsked p p :=
  ⟨SameOrigin.refl p, rfl⟩

theorem SameOrigin.trans {first second third : PaxosProposal} (early : SameOrigin first second)
    (late : SameOrigin second third) : SameOrigin first third :=
  ⟨late.id.trans early.id, late.topic.trans early.topic, late.version.trans early.version,
    late.type.trans early.type, late.theServ.trans early.theServ⟩

/-- What holds of a server and the packets it has sent: those of earlier
handlers and those it is about to send. -/
structure ServerKept (server : Nat) (sent : List PaxosPacket) (heard : List Heard)
    (missed : List SId) (core : Core) : Prop where
  ident : core.id = server
  distinct : core.paxos.version.servs.Nodup
  sources : ∀ packet ∈ core.out, packet.src = server
  numbered : ∀ key p, core.proposals.lookup key = some p →
    p.id = ⟨server, key⟩ ∧ key < core.paxos.id
  dumps : ∀ packet ∈ sent ++ core.out, packet.src = server →
    ∀ req dump, packet.body = .addAccept req dump → dump.version.servs.Nodup
  requests : ∀ packet ∈ sent ++ core.out, packet.src = server →
    ∀ req request, packet.body = .request req request → request.id.x = server ∧
      ∃ p, core.proposals.lookup request.id.y = some p ∧ p.topic = request.topic ∧
        p.version = request.version
  callsOnce : (core.calls.map RpcCall.req).Nodup
  callsBelow : ∀ call ∈ core.calls, call.req < core.reqId
  packetsBelow : ∀ packet ∈ sent ++ core.out, packet.src = server →
    ∀ req, packet.body.callNumber = some req → req < core.reqId
  answerable : ∀ call ∈ core.calls, ∀ packet ∈ sent ++ core.out, packet.src = server →
    packet.body.callNumber = some call.req → packet.dst = call.peer ∧
      ∀ key, call.callback = .receiveResponse key →
        ∃ request, packet.body = .request call.req request ∧ request.id = ⟨server, key⟩
  prepareOf : ∀ call ∈ core.calls, ∀ key, call.callback = .receiveResponse key →
    ∃ p, core.proposals.lookup key = some p ∧ call.peer ∈ p.version.servs
  addOf : ∀ call ∈ core.calls, ∀ key, call.callback = .addNewServOk key →
    ∃ p, core.proposals.lookup key = some p ∧ p.type = .add
  refreshOf : ∀ call ∈ core.calls, ∀ key, call.callback = .refreshAcceptBack key →
    ∃ p, core.proposals.lookup key = some p ∧ p.type = .rm
  heardOf : ∀ entry ∈ heard, entry.proposal.x = server →
    ∃ p, core.proposals.lookup entry.proposal.y = some p ∧ entry.server ∈ p.version.servs
  missedOf : ∀ id ∈ missed, id.x = server → ∃ p, core.proposals.lookup id.y = some p
  askedOnce : ∀ key,
    ((core.preparing key).map RpcCall.peer ++ heardFrom heard ⟨server, key⟩).Nodup
  tally : ∀ key p, core.proposals.lookup key = some p →
    ((core.preparing key).length + (heardFrom heard ⟨server, key⟩).length +
      missed.count ⟨server, key⟩ : Nat) ≤ p.response.nsent

namespace ServerKept

variable {server : Nat} {sent : List PaxosPacket} {heard : List Heard} {missed : List SId}
  {before : Core}

/-- No call is pending for a key without a proposal. -/
theorem preparing_absent (kept : ServerKept server sent heard missed before) {key : Nat}
    (absent : before.proposals.lookup key = none) : before.preparing key = [] := by
  apply List.filter_eq_nil_iff.mpr
  intro call pending waiting
  obtain ⟨p, found, _⟩ := kept.prepareOf call pending key (beq_iff_eq.mp waiting)
  exact nomatch absent.symm.trans found

theorem heardFrom_absent (kept : ServerKept server sent heard missed before) {key : Nat}
    (absent : before.proposals.lookup key = none) : heardFrom heard ⟨server, key⟩ = [] := by
  apply List.map_eq_nil_iff.mpr
  apply List.filter_eq_nil_iff.mpr
  intro entry member same
  have name : entry.proposal = ⟨server, key⟩ := beq_iff_eq.mp same
  obtain ⟨p, found, _⟩ := kept.heardOf entry member (by rw [name])
  rw [name] at found
  exact nomatch absent.symm.trans found

theorem missed_absent (kept : ServerKept server sent heard missed before) {key : Nat}
    (absent : before.proposals.lookup key = none) : missed.count ⟨server, key⟩ = 0 := by
  apply List.count_eq_zero.mpr
  intro member
  obtain ⟨p, found⟩ := kept.missedOf _ member rfl
  exact nomatch absent.symm.trans found

/-- No callback waits for a key without a proposal. -/
theorem callback_absent (kept : ServerKept server sent heard missed before) {key : Nat}
    (absent : before.proposals.lookup key = none) :
    ∀ call ∈ before.calls, call.callback.proposal ≠ some key := by
  intro call pending isKey
  cases callback : call.callback with
  | receiveResponse own =>
      rw [callback] at isKey
      cases isKey
      obtain ⟨p, found, _⟩ := kept.prepareOf call pending key callback
      exact nomatch absent.symm.trans found
  | addNewServOk own =>
      rw [callback] at isKey
      cases isKey
      obtain ⟨p, found, _⟩ := kept.addOf call pending key callback
      exact nomatch absent.symm.trans found
  | refreshAcceptBack own =>
      rw [callback] at isKey
      cases isKey
      obtain ⟨p, found, _⟩ := kept.refreshOf call pending key callback
      exact nomatch absent.symm.trans found
  | receiveLearn =>
      rw [callback] at isKey
      cases isKey

/-- The number of the next proposal is free. -/
theorem absent_next (kept : ServerKept server sent heard missed before) :
    before.proposals.lookup before.paxos.id = none := by
  cases found : before.proposals.lookup before.paxos.id with
  | none => rfl
  | some p => exact absurd (kept.numbered _ p found).2 (lt_irrefl _)

/-- A change that makes no call. -/
theorem quiet (kept : ServerKept server sent heard missed before) (after : Core)
    (ident : after.id = before.id) (calls : after.calls = before.calls)
    (reqId : after.reqId = before.reqId) (grown : Grows before.paxos after.paxos)
    (out : ∃ new, after.out = before.out ++ new ∧
      ∀ packet ∈ new, packet.src = server ∧ packet.body.callNumber = none)
    (proposals : Table.Continues SameAsked
      (fun key q => q.id = ⟨server, key⟩ ∧ key < after.paxos.id ∧ q.response.nsent = 0)
      before.proposals after.proposals) :
    ServerKept server sent heard missed after := by
  obtain ⟨new, appended, plain⟩ := out
  have preparing : ∀ key, after.preparing key = before.preparing key := by
    intro key
    unfold Core.preparing
    rw [calls]
  have oldPacket : ∀ packet ∈ sent ++ after.out, packet ∈ sent ++ before.out ∨
      packet.src = server ∧ packet.body.callNumber = none := by
    intro packet member
    rw [appended, ← List.append_assoc] at member
    rcases List.mem_append.mp member with old | fresh
    · exact Or.inl old
    · exact Or.inr (plain packet fresh)
  have callPacket : ∀ packet ∈ sent ++ after.out, ∀ req, packet.body.callNumber = some req →
      packet ∈ sent ++ before.out := by
    intro packet member req number
    rcases oldPacket packet member with old | ⟨_, silent⟩
    · exact old
    · exact nomatch silent.symm.trans number
  constructor
  · exact ident.trans kept.ident
  · exact grown.members kept.distinct
  · intro packet member
    rw [appended] at member
    rcases List.mem_append.mp member with old | fresh
    · exact kept.sources packet old
    · exact (plain packet fresh).1
  · intro key q found
    rcases proposals.source key q found with ⟨p, foundOld, same⟩ | ⟨_, named, below, _⟩
    · have old := kept.numbered key p foundOld
      exact ⟨same.id.trans old.1, old.2.trans_le grown.numbers⟩
    · exact ⟨named, below⟩
  · intro packet member src req dump body
    have old := callPacket packet member req (by rw [body]; rfl)
    exact kept.dumps packet old src req dump body
  · intro packet member src req request body
    have old := callPacket packet member req (by rw [body]; rfl)
    obtain ⟨own, p, found, topic, version⟩ := kept.requests packet old src req request body
    obtain ⟨q, foundNow, same⟩ := proposals.kept _ p found
    exact ⟨own, q, foundNow, same.topic.trans topic, same.version.trans version⟩
  · rw [calls]
    exact kept.callsOnce
  · rw [calls, reqId]
    exact kept.callsBelow
  · intro packet member src req number
    rw [reqId]
    exact kept.packetsBelow packet (callPacket packet member req number) src req number
  · intro call pending packet member src number
    rw [calls] at pending
    exact kept.answerable call pending packet (callPacket packet member _ number) src number
  · intro call pending key callback
    rw [calls] at pending
    obtain ⟨p, found, peer⟩ := kept.prepareOf call pending key callback
    obtain ⟨q, foundNow, same⟩ := proposals.kept key p found
    exact ⟨q, foundNow, same.version ▸ peer⟩
  · intro call pending key callback
    rw [calls] at pending
    obtain ⟨p, found, type⟩ := kept.addOf call pending key callback
    obtain ⟨q, foundNow, same⟩ := proposals.kept key p found
    exact ⟨q, foundNow, same.type.trans type⟩
  · intro call pending key callback
    rw [calls] at pending
    obtain ⟨p, found, type⟩ := kept.refreshOf call pending key callback
    obtain ⟨q, foundNow, same⟩ := proposals.kept key p found
    exact ⟨q, foundNow, same.type.trans type⟩
  · intro entry member own
    obtain ⟨p, found, peer⟩ := kept.heardOf entry member own
    obtain ⟨q, foundNow, same⟩ := proposals.kept _ p found
    exact ⟨q, foundNow, same.version ▸ peer⟩
  · intro id member own
    obtain ⟨p, found⟩ := kept.missedOf id member own
    obtain ⟨q, foundNow, _⟩ := proposals.kept _ p found
    exact ⟨q, foundNow⟩
  · intro key
    rw [preparing]
    exact kept.askedOnce key
  · intro key q found
    rw [preparing]
    rcases proposals.source key q found with ⟨p, foundOld, same⟩ | ⟨absent, _, _, unsent⟩
    · rw [same.nsent]
      exact kept.tally key p foundOld
    · rw [kept.preparing_absent absent, kept.heardFrom_absent absent, kept.missed_absent absent,
        unsent]
      rfl

/-- A packet that is no call. -/
theorem send (kept : ServerKept server sent heard missed before) (dst : Nat) (body : PaxosBody)
    (noCall : body.callNumber = none) :
    ServerKept server sent heard missed (before.send dst body) := by
  apply kept.quiet (before.send dst body) rfl rfl rfl (Grows.of_same rfl rfl)
  · refine ⟨[{ src := before.id, dst := dst, body := body }], rfl, ?_⟩
    intro packet member
    rw [List.mem_singleton.mp member]
    exact ⟨kept.ident, noCall⟩
  · exact Table.Continues.refl SameAsked.refl _

/-- A call is made: what is asked of the new call and its packet. -/
theorem call (kept : ServerKept server sent heard missed before) (after : Core) (dst : Nat)
    (body : PaxosBody) (callback : Callback) (ident : after.id = before.id)
    (paxos : after.paxos = before.paxos)
    (calls : after.calls =
      before.calls ++ [{ req := before.reqId, peer := dst, callback := callback }])
    (reqId : after.reqId = before.reqId + 1)
    (out : after.out = before.out ++ [{ src := server, dst := dst, body := body }])
    (number : body.callNumber = some before.reqId)
    (proposals : Table.Continues SameOrigin (fun _ _ => False) before.proposals after.proposals)
    (dump : ∀ req dump, body = .addAccept req dump → dump.version.servs.Nodup)
    (request : ∀ req request, body = .request req request → request.id.x = server ∧
      ∃ p, after.proposals.lookup request.id.y = some p ∧ p.topic = request.topic ∧
        p.version = request.version)
    (prepare : ∀ key, callback = .receiveResponse key →
      (∃ request, body = .request before.reqId request ∧ request.id = ⟨server, key⟩) ∧
        ∃ p, after.proposals.lookup key = some p ∧ dst ∈ p.version.servs)
    (addition : ∀ key, callback = .addNewServOk key →
      ∃ p, after.proposals.lookup key = some p ∧ p.type = .add)
    (removal : ∀ key, callback = .refreshAcceptBack key →
      ∃ p, after.proposals.lookup key = some p ∧ p.type = .rm)
    (askedOnce : ∀ key,
      ((after.preparing key).map RpcCall.peer ++ heardFrom heard ⟨server, key⟩).Nodup)
    (tally : ∀ key p, after.proposals.lookup key = some p →
      ((after.preparing key).length + (heardFrom heard ⟨server, key⟩).length +
        missed.count ⟨server, key⟩ : Nat) ≤ p.response.nsent) :
    ServerKept server sent heard missed after := by
  have eachCall : ∀ call ∈ after.calls, call ∈ before.calls ∨
      call = { req := before.reqId, peer := dst, callback := callback } := by
    intro call pending
    rw [calls] at pending
    rcases List.mem_append.mp pending with old | fresh
    · exact Or.inl old
    · exact Or.inr (List.mem_singleton.mp fresh)
  have eachPacket : ∀ packet ∈ sent ++ after.out, packet ∈ sent ++ before.out ∨
      packet = { src := server, dst := dst, body := body } := by
    intro packet member
    rw [out, ← List.append_assoc] at member
    rcases List.mem_append.mp member with old | fresh
    · exact Or.inl old
    · exact Or.inr (List.mem_singleton.mp fresh)
  constructor
  · exact ident.trans kept.ident
  · rw [paxos]
    exact kept.distinct
  · intro packet member
    rw [out] at member
    rcases List.mem_append.mp member with old | fresh
    · exact kept.sources packet old
    · rw [List.mem_singleton.mp fresh]
  · intro key q found
    rw [paxos]
    rcases proposals.source key q found with ⟨p, foundOld, same⟩ | ⟨_, impossible⟩
    · have old := kept.numbered key p foundOld
      exact ⟨same.id.trans old.1, old.2⟩
    · exact impossible.elim
  · intro packet member src req written isDump
    rcases eachPacket packet member with old | fresh
    · exact kept.dumps packet old src req written isDump
    · rw [fresh] at isDump
      exact dump req written isDump
  · intro packet member src req asked isRequest
    rcases eachPacket packet member with old | fresh
    · obtain ⟨own, p, found, topic, version⟩ := kept.requests packet old src req asked isRequest
      obtain ⟨q, foundNow, same⟩ := proposals.kept _ p found
      exact ⟨own, q, foundNow, same.topic.trans topic, same.version.trans version⟩
    · rw [fresh] at isRequest
      exact request req asked isRequest
  · rw [calls, List.map_append, List.nodup_append]
    refine ⟨kept.callsOnce, List.nodup_singleton _, ?_⟩
    intro old inOld new inNew same
    obtain ⟨call, pending, rfl⟩ := List.mem_map.mp inOld
    have below := kept.callsBelow call pending
    have newest : new = before.reqId := List.mem_singleton.mp inNew
    omega
  · intro call pending
    rw [reqId]
    rcases eachCall call pending with old | fresh
    · exact Nat.lt_succ_of_lt (kept.callsBelow call old)
    · rw [fresh]
      exact Nat.lt_succ_self _
  · intro packet member src req numbered
    rw [reqId]
    rcases eachPacket packet member with old | fresh
    · exact Nat.lt_succ_of_lt (kept.packetsBelow packet old src req numbered)
    · rw [fresh, number] at numbered
      rw [← Option.some.inj numbered]
      exact Nat.lt_succ_self _
  · intro call pending packet member src numbered
    rcases eachCall call pending with oldCall | freshCall
    · rcases eachPacket packet member with oldPacket | freshPacket
      · exact kept.answerable call oldCall packet oldPacket src numbered
      · -- the new packet has a number no older call has
        have below := kept.callsBelow call oldCall
        rw [freshPacket, number] at numbered
        have equal := Option.some.inj numbered
        omega
    · rcases eachPacket packet member with oldPacket | freshPacket
      · have below := kept.packetsBelow packet oldPacket src _ numbered
        rw [freshCall] at below
        exact absurd below (lt_irrefl _)
      · rw [freshCall, freshPacket]
        exact ⟨rfl, fun key callbackIs => (prepare key callbackIs).1⟩
  · intro call pending key callbackIs
    rcases eachCall call pending with old | fresh
    · obtain ⟨p, found, peer⟩ := kept.prepareOf call old key callbackIs
      obtain ⟨q, foundNow, same⟩ := proposals.kept key p found
      exact ⟨q, foundNow, same.version ▸ peer⟩
    · rw [fresh] at callbackIs ⊢
      exact (prepare key callbackIs).2
  · intro call pending key callbackIs
    rcases eachCall call pending with old | fresh
    · obtain ⟨p, found, type⟩ := kept.addOf call old key callbackIs
      obtain ⟨q, foundNow, same⟩ := proposals.kept key p found
      exact ⟨q, foundNow, same.type.trans type⟩
    · rw [fresh] at callbackIs
      exact addition key callbackIs
  · intro call pending key callbackIs
    rcases eachCall call pending with old | fresh
    · obtain ⟨p, found, type⟩ := kept.refreshOf call old key callbackIs
      obtain ⟨q, foundNow, same⟩ := proposals.kept key p found
      exact ⟨q, foundNow, same.type.trans type⟩
    · rw [fresh] at callbackIs
      exact removal key callbackIs
  · intro entry member own
    obtain ⟨p, found, peer⟩ := kept.heardOf entry member own
    obtain ⟨q, foundNow, same⟩ := proposals.kept _ p found
    exact ⟨q, foundNow, same.version ▸ peer⟩
  · intro id member own
    obtain ⟨p, found⟩ := kept.missedOf id member own
    obtain ⟨q, foundNow, _⟩ := proposals.kept _ p found
    exact ⟨q, foundNow⟩
  · exact askedOnce
  · exact tally

/-- A call that is no prepare call. -/
theorem otherCall (kept : ServerKept server sent heard missed before) (dst : Nat)
    (body : Nat → PaxosBody) (callback : Callback)
    (number : ∀ req, (body req).callNumber = some req)
    (noRequest : ∀ req request, body before.reqId ≠ .request req request)
    (noPrepare : ∀ key, callback ≠ .receiveResponse key)
    (dump : ∀ req dump, body before.reqId = .addAccept req dump → dump.version.servs.Nodup)
    (addition : ∀ key, callback = .addNewServOk key →
      ∃ p, before.proposals.lookup key = some p ∧ p.type = .add)
    (removal : ∀ key, callback = .refreshAcceptBack key →
      ∃ p, before.proposals.lookup key = some p ∧ p.type = .rm) :
    ServerKept server sent heard missed (before.rpcCall dst body callback) := by
  have preparing : ∀ key, (before.rpcCall dst body callback).preparing key =
      before.preparing key := by
    intro key
    unfold Core.preparing Core.rpcCall
    rw [List.filter_append, List.filter_cons_of_neg (by simpa using noPrepare key)]
    exact List.append_nil _
  apply kept.call (before.rpcCall dst body callback) dst (body before.reqId) callback rfl rfl rfl rfl
  · rw [← kept.ident]
    rfl
  · exact number before.reqId
  · exact Table.Continues.refl SameOrigin.refl _
  · exact dump
  · intro req request isRequest
    exact absurd isRequest (noRequest req request)
  · intro key isPrepare
    exact absurd isPrepare (noPrepare key)
  · exact addition
  · exact removal
  · intro key
    rw [preparing]
    exact kept.askedOnce key
  · intro key p found
    rw [preparing]
    exact kept.tally key p found

/-- A prepare call to a member that has not been asked. -/
theorem requestCall (kept : ServerKept server sent heard missed before) (key : Nat)
    (p : PaxosProposal) (serv : Nat) (found : before.proposals.lookup key = some p)
    (member : serv ∈ p.version.servs) (unasked : ∀ call ∈ before.preparing key, call.peer ≠ serv)
    (allPending : (before.preparing key).length = p.response.nsent) :
    ServerKept server sent heard missed (sendRequest key p.request before serv) := by
  have foundNow := lookup_asked before found
  have preparing := preparing_sendRequest before key p.request serv
  have preparingOther : ∀ other, other ≠ key →
      (sendRequest key p.request before serv).preparing other = before.preparing other := by
    intro other different
    rw [sendRequest_eq]
    unfold Core.preparing
    rw [List.filter_append, List.filter_cons_of_neg (by simpa using different.symm)]
    exact List.append_nil _
  have written : Table.Continues SameOrigin (fun _ _ => False) before.proposals
      (askedProposals before key) :=
    continues_asked SameOrigin.refl (fun _ _ _ => ⟨rfl, rfl, rfl, rfl, rfl⟩) before key
  have own := kept.numbered key p found
  have tallied := kept.tally key p found
  rw [sendRequest_eq] at preparing preparingOther ⊢
  apply kept.call _ serv (.request before.reqId p.request) (.receiveResponse key)
  · rfl
  · rfl
  · rfl
  · rfl
  · rw [kept.ident]
  · rfl
  · exact written
  · exact fun req dump impossible => nomatch impossible
  · intro req request isRequest
    cases isRequest
    rw [show p.request.id = ⟨server, key⟩ from own.1]
    exact ⟨rfl, _, foundNow, rfl, rfl⟩
  · intro other isPrepare
    cases isPrepare
    exact ⟨⟨p.request, rfl, own.1⟩, _, foundNow, member⟩
  · exact fun key impossible => nomatch impossible
  · exact fun key impossible => nomatch impossible
  · intro other
    by_cases same : other = key
    · subst same
      have silent : heardFrom heard ⟨server, other⟩ = [] := by
        apply List.eq_nil_of_length_eq_zero
        omega
      have once := kept.askedOnce other
      rw [silent, List.append_nil] at once
      rw [preparing, silent, List.append_nil, List.map_append, List.nodup_append]
      refine ⟨once, List.nodup_singleton _, ?_⟩
      intro old inOld new inNew equal
      obtain ⟨call, pending, rfl⟩ := List.mem_map.mp inOld
      rw [List.mem_singleton.mp inNew] at equal
      exact unasked call pending equal
    · rw [preparingOther other same]
      exact kept.askedOnce other
  · intro other q foundOther
    by_cases same : other = key
    · subst same
      rw [foundNow] at foundOther
      rw [preparing, List.length_append, List.length_singleton, ← Option.some.inj foundOther]
      dsimp only
      omega
    · rw [preparingOther other same]
      exact kept.tally other q ((lookup_asked_ne before same).symm.trans foundOther)

end ServerKept

/-! ## The end of a call -/

/-- The pending calls without one of them. -/
def otherCalls (calls : List RpcCall) (req : Nat) : List RpcCall :=
  calls.filter fun other => other.req != req

theorem perm_otherCalls {calls : List RpcCall} {call : RpcCall}
    (once : (calls.map RpcCall.req).Nodup) (pending : call ∈ calls) :
    calls.Perm (call :: otherCalls calls call.req) := by
  induction calls with
  | nil => exact absurd pending List.not_mem_nil
  | cons head tail inductionHypothesis =>
      obtain ⟨notLater, onceTail⟩ := List.nodup_cons.mp once
      unfold otherCalls
      rcases List.mem_cons.mp pending with same | later
      · have stay : (tail.filter fun other => other.req != call.req) = tail := by
          apply List.filter_eq_self.mpr
          intro other member
          rw [bne_iff_ne]
          intro equal
          exact notLater (List.mem_map.mpr ⟨other, member, by rw [equal, same]⟩)
        rw [List.filter_cons_of_neg (by simp [same]), stay, same]
      · have different : head.req ≠ call.req := by
          intro equal
          exact notLater (List.mem_map.mpr ⟨call, later, equal.symm⟩)
        rw [List.filter_cons_of_pos (by simpa using different)]
        exact ((inductionHypothesis onceTail later).cons head).trans (List.Perm.swap call head _)

theorem heardFrom_append (first last : List Heard) (id : SId) :
    heardFrom (first ++ last) id = heardFrom first id ++ heardFrom last id := by
  unfold heardFrom
  rw [List.filter_append, List.map_append]

/-- Promises to others are not heard by a server. -/
theorem heardFrom_foreign {heard : List Heard} {server : Nat}
    (foreign : ∀ entry ∈ heard, entry.proposal.x ≠ server) (key : Nat) :
    heardFrom heard ⟨server, key⟩ = [] := by
  apply List.map_eq_nil_iff.mpr
  apply List.filter_eq_nil_iff.mpr
  intro entry member same
  exact foreign entry member (by rw [beq_iff_eq.mp same])

theorem count_foreign {missed : List SId} {server : Nat} (foreign : ∀ id ∈ missed, id.x ≠ server)
    (key : Nat) : missed.count ⟨server, key⟩ = 0 :=
  List.count_eq_zero.mpr fun member => foreign _ member rfl

/-- What the end of a call adds to the history: a promise heard, a packet
missed, or nothing. -/
inductive CallEnd (server : Nat) (call : RpcCall) : List Heard → List SId → Prop where
  | heard (key : Nat) (report : Option (SId × Value)) (prepare : call.callback = .receiveResponse key) :
      CallEnd server call
        [{ proposal := ⟨server, key⟩, server := call.peer, report := report }] []
  | missed (key : Nat) (prepare : call.callback = .receiveResponse key) :
      CallEnd server call [] [⟨server, key⟩]
  | other : CallEnd server call [] []

/-- The counts of one proposal at the end of a call. -/
theorem callEnd_counts {server : Nat} {call : RpcCall} {gone : List Heard} {lost : List SId}
    (ending : CallEnd server call gone lost) (key : Nat) :
    (heardFrom gone ⟨server, key⟩ = [] ∧ lost.count ⟨server, key⟩ = 0) ∨
      call.callback = .receiveResponse key ∧
        (heardFrom gone ⟨server, key⟩ = [call.peer] ∧ lost.count ⟨server, key⟩ = 0 ∨
          heardFrom gone ⟨server, key⟩ = [] ∧ lost.count ⟨server, key⟩ = 1) := by
  cases ending with
  | heard own report prepare =>
      by_cases same : own = key
      · subst same
        exact Or.inr ⟨prepare, Or.inl ⟨by simp [heardFrom], rfl⟩⟩
      · exact Or.inl ⟨by simp [heardFrom, same], rfl⟩
  | missed own prepare =>
      by_cases same : own = key
      · subst same
        exact Or.inr ⟨prepare, Or.inr ⟨rfl, by simp⟩⟩
      · exact Or.inl ⟨rfl, by simp [same]⟩
  | other => exact Or.inl ⟨rfl, rfl⟩

/-- Counting a reply leaves what was asked. -/
theorem counted_sameAsked {p q : PaxosProposal} {reply : Option PrepareReply}
    (counted : p.counted reply = some q) : SameAsked p q := by
  have reported : ∀ (p : PaxosProposal) report, SameAsked p (p.noteReport report) := by
    intro p report
    unfold PaxosProposal.noteReport
    split
    · exact SameAsked.refl p
    · split <;> exact ⟨⟨rfl, rfl, rfl, rfl, rfl⟩, rfl⟩
  unfold PaxosProposal.counted at counted
  dsimp only at counted
  split at counted
  · cases counted
  · split at counted
    · cases counted
    · cases counted
      exact ⟨⟨rfl, rfl, rfl, rfl, rfl⟩, rfl⟩
  next report _ _ =>
    rw [← Option.some.inj counted]
    split
    · unfold PaxosProposal.countResponse
      dsimp only
      split
      · exact ⟨⟨rfl, rfl, rfl, rfl, rfl⟩, rfl⟩
      · split <;> exact ⟨⟨rfl, rfl, rfl, rfl, rfl⟩, rfl⟩
    · have same := reported { p with response := { p.response with count := p.response.count + 1 } } report
      exact ⟨⟨same.id, same.topic, same.version, same.type, same.theServ⟩, same.nsent⟩

namespace ServerKept

variable {server : Nat} {sent : List PaxosPacket} {heard : List Heard} {missed : List SId}
  {before : Core}

/-- The end of a pending call. -/
theorem finish (kept : ServerKept server sent heard missed before) {call : RpcCall}
    (pending : call ∈ before.calls) {gone : List Heard} {lost : List SId}
    (ending : CallEnd server call gone lost) :
    ServerKept server sent (heard ++ gone) (missed ++ lost)
      { before with calls := otherCalls before.calls call.req } := by
  have perm := perm_otherCalls kept.callsOnce pending
  have older : ∀ other ∈ otherCalls before.calls call.req, other ∈ before.calls :=
    fun other member => List.mem_of_mem_filter member
  -- what is left of the pending calls of a proposal
  have preparing : ∀ key, (before.preparing key).Perm
      ([call].filter (fun call => call.callback == .receiveResponse key) ++
        ({ before with calls := otherCalls before.calls call.req } : Core).preparing key) := by
    intro key
    unfold Core.preparing
    rw [← List.filter_append]
    exact perm.filter _
  constructor
  · exact kept.ident
  · exact kept.distinct
  · exact kept.sources
  · exact kept.numbered
  · exact kept.dumps
  · exact kept.requests
  · exact kept.callsOnce.sublist (List.Sublist.map _ List.filter_sublist)
  · exact fun other member => kept.callsBelow other (older other member)
  · exact kept.packetsBelow
  · exact fun other member => kept.answerable other (older other member)
  · exact fun other member => kept.prepareOf other (older other member)
  · exact fun other member => kept.addOf other (older other member)
  · exact fun other member => kept.refreshOf other (older other member)
  · intro entry member own
    rcases List.mem_append.mp member with old | new
    · exact kept.heardOf entry old own
    · cases ending with
      | heard key report prepare =>
          rw [List.mem_singleton.mp new]
          exact kept.prepareOf call pending key prepare
      | missed key prepare => exact absurd new List.not_mem_nil
      | other => exact absurd new List.not_mem_nil
  · intro id member own
    rcases List.mem_append.mp member with old | new
    · exact kept.missedOf id old own
    · cases ending with
      | heard key report prepare => exact absurd new List.not_mem_nil
      | missed key prepare =>
          rw [List.mem_singleton.mp new]
          obtain ⟨p, found, _⟩ := kept.prepareOf call pending key prepare
          exact ⟨p, found⟩
      | other => exact absurd new List.not_mem_nil
  · intro key
    have once := kept.askedOnce key
    rw [((preparing key).map RpcCall.peer |>.append_right _).nodup_iff, List.map_append] at once
    rw [heardFrom_append]
    rcases callEnd_counts ending key with ⟨silent, _⟩ | ⟨prepare, ⟨spoke, _⟩ | ⟨silent, _⟩⟩
    · rw [silent, List.append_nil]
      rw [List.append_assoc] at once
      exact (List.nodup_append.mp once).2.1
    · rw [List.filter_cons_of_pos (by simpa using prepare)] at once
      rw [spoke, ← List.append_assoc]
      exact (List.perm_append_singleton _ _).nodup_iff.mpr once
    · rw [silent, List.append_nil]
      rw [List.append_assoc] at once
      exact (List.nodup_append.mp once).2.1
  · intro key p found
    have tallied := kept.tally key p found
    rw [(preparing key).length_eq, List.length_append] at tallied
    rw [heardFrom_append, List.length_append, List.count_append]
    rcases callEnd_counts ending key with ⟨silent, zero⟩ | ⟨prepare, ⟨spoke, zero⟩ | ⟨silent, one⟩⟩
    · rw [silent, zero]
      dsimp only [List.length_nil]
      omega
    · rw [List.filter_cons_of_pos (by simpa using prepare)] at tallied
      rw [spoke, zero]
      dsimp only [List.length_cons, List.length_nil] at tallied ⊢
      omega
    · rw [List.filter_cons_of_pos (by simpa using prepare)] at tallied
      rw [silent, one]
      dsimp only [List.length_cons, List.length_nil] at tallied ⊢
      omega

/-! ## Moves -/

theorem move {second : Nat → Prop} {created : PaxosProposal → Prop} {after : Core}
    (kept : ServerKept server sent heard missed before)
    (moved : Move second created before after) : ServerKept server sent heard missed after := by
  cases moved with
  | state paxos active reported aborted numbers members =>
      refine kept.quiet _ rfl rfl rfl ⟨numbers, members⟩ ⟨[], (List.append_nil _).symm, by simp⟩ ?_
      exact Table.Continues.refl SameAsked.refl _
  | refer key p refCount found =>
      refine kept.quiet _ rfl rfl rfl (Grows.of_same rfl rfl) ⟨[], (List.append_nil _).symm, by simp⟩ ?_
      exact Table.Continues.insert_present SameAsked.refl found ⟨⟨rfl, rfl, rfl, rfl, rfl⟩, rfl⟩
  | recount key p count found removal answered =>
      refine kept.quiet _ rfl rfl rfl (Grows.of_same rfl rfl) ⟨[], (List.append_nil _).symm, by simp⟩ ?_
      exact Table.Continues.insert_present SameAsked.refl found ⟨⟨rfl, rfl, rfl, rfl, rfl⟩, rfl⟩
  | create p allowed named version fresh =>
      refine kept.quiet _ rfl rfl rfl ⟨Nat.le_succ _, fun distinct => distinct⟩
        ⟨[], (List.append_nil _).symm, by simp⟩ ?_
      apply Table.Continues.insert_absent SameAsked.refl kept.absent_next
      rw [named, fresh, kept.ident]
      exact ⟨rfl, Nat.lt_succ_self _, rfl⟩
  | request key p serv asking =>
      exact kept.requestCall key p serv asking.found asking.member asking.unasked asking.allPending
  | learnCall serv version =>
      apply kept.otherCall
      · exact fun req => rfl
      · exact fun req request impossible => nomatch impossible
      · exact fun key impossible => nomatch impossible
      · exact fun req dump impossible => nomatch impossible
      · exact fun key impossible => nomatch impossible
      · exact fun key impossible => nomatch impossible
  | addCall key p serv dump found addition answered version =>
      apply kept.otherCall
      · exact fun req => rfl
      · exact fun req request impossible => nomatch impossible
      · exact fun key impossible => nomatch impossible
      · intro req written isDump
        cases isDump
        rw [version]
        exact kept.distinct
      · intro other isOk
        cases isOk
        exact ⟨p, found, addition⟩
      · exact fun key impossible => nomatch impossible
  | refreshCall key p serv dump found removal answered =>
      apply kept.otherCall
      · exact fun req => rfl
      · exact fun req request impossible => nomatch impossible
      · exact fun key impossible => nomatch impossible
      · exact fun req dump impossible => nomatch impossible
      · exact fun key impossible => nomatch impossible
      · intro other isBack
        cases isBack
        exact ⟨p, found, removal⟩
  | accept key p serv found cleared =>
      exact kept.send serv (.accept p.topic p.id p.value p.version.version) rfl
  | notify serv body notice =>
      apply kept.send serv body
      cases body with
      | addMe => rfl
      | rpcBack req reply => rfl
      | request req request => cases notice
      | accept topic id value version => cases notice
      | learnRequest req version => cases notice
      | addAccept req dump => cases notice
      | refreshAccept req dump => cases notice

theorem moves {second : Nat → Prop} {created : PaxosProposal → Prop} {after : Core}
    (kept : ServerKept server sent heard missed before)
    (moved : Moves second created before after) : ServerKept server sent heard missed after := by
  induction moved with
  | refl => exact kept
  | tail _ last inductionHypothesis => exact inductionHypothesis.move last

/-- What a callback counts. -/
theorem noteCallback (kept : ServerKept server sent heard missed before) (callback : Callback)
    (reply : Option RpcReply) :
    ServerKept server sent heard missed (noteCallback before callback reply) := by
  have noted : ∀ key reply, ServerKept server sent heard missed (noteResponse before key reply) := by
    intro key reply
    unfold noteResponse
    split
    · exact kept
    next p found =>
      split
      · exact kept
      next q counted =>
        refine kept.quiet _ rfl rfl rfl (Grows.of_same rfl rfl)
          ⟨[], (List.append_nil _).symm, by simp⟩ ?_
        exact Table.Continues.insert_present SameAsked.refl found (counted_sameAsked counted)
  unfold Paxos.noteCallback
  split
  · exact noted _ none
  · exact noted _ (some _)
  · rw [Core.modifyProposal_eq]
    refine kept.quiet _ rfl rfl rfl (Grows.of_same rfl rfl) ⟨[], (List.append_nil _).symm, by simp⟩ ?_
    exact before.continues_written SameAsked.refl fun p => ⟨⟨rfl, rfl, rfl, rfl, rfl⟩, rfl⟩
  · exact kept

/-! ## The server among the others -/

/-- The handler is over: its packets are sent. -/
theorem settle (kept : ServerKept server sent heard missed before) :
    ServerKept server (sent ++ before.out) heard missed { before with out := [] } := by
  constructor
  · exact kept.ident
  · exact kept.distinct
  · exact fun packet member => absurd member List.not_mem_nil
  · exact kept.numbered
  · rw [List.append_nil]
    exact kept.dumps
  · rw [List.append_nil]
    exact kept.requests
  · exact kept.callsOnce
  · exact kept.callsBelow
  · rw [List.append_nil]
    exact kept.packetsBelow
  · rw [List.append_nil]
    exact kept.answerable
  · exact kept.prepareOf
  · exact kept.addOf
  · exact kept.refreshOf
  · exact kept.heardOf
  · exact kept.missedOf
  · exact kept.askedOnce
  · exact kept.tally

/-- Another server sends, hears and misses. -/
theorem others (kept : ServerKept server sent heard missed before) {packets : List PaxosPacket}
    {gone : List Heard} {lost : List SId} (silent : before.out = [])
    (foreign : ∀ packet ∈ packets, packet.src ≠ server)
    (foreignHeard : ∀ entry ∈ gone, entry.proposal.x ≠ server)
    (foreignMissed : ∀ id ∈ lost, id.x ≠ server) :
    ServerKept server (sent ++ packets) (heard ++ gone) (missed ++ lost) before := by
  have own : ∀ packet ∈ sent ++ packets ++ before.out, packet.src = server →
      packet ∈ sent ++ before.out := by
    intro packet member src
    rw [silent, List.append_nil] at member ⊢
    rcases List.mem_append.mp member with old | new
    · exact old
    · exact absurd src (foreign packet new)
  have noHeard : ∀ key, heardFrom (heard ++ gone) ⟨server, key⟩ = heardFrom heard ⟨server, key⟩ := by
    intro key
    rw [heardFrom_append, heardFrom_foreign foreignHeard, List.append_nil]
  have noMissed : ∀ key, (missed ++ lost).count ⟨server, key⟩ = missed.count ⟨server, key⟩ := by
    intro key
    rw [List.count_append, count_foreign foreignMissed, Nat.add_zero]
  constructor
  · exact kept.ident
  · exact kept.distinct
  · exact kept.sources
  · exact kept.numbered
  · exact fun packet member src => kept.dumps packet (own packet member src) src
  · exact fun packet member src => kept.requests packet (own packet member src) src
  · exact kept.callsOnce
  · exact kept.callsBelow
  · exact fun packet member src => kept.packetsBelow packet (own packet member src) src
  · exact fun call pending packet member src =>
      kept.answerable call pending packet (own packet member src) src
  · exact kept.prepareOf
  · exact kept.addOf
  · exact kept.refreshOf
  · intro entry member own
    rcases List.mem_append.mp member with old | new
    · exact kept.heardOf entry old own
    · exact absurd own (foreignHeard entry new)
  · intro id member own
    rcases List.mem_append.mp member with old | new
    · exact kept.missedOf id old own
    · exact absurd own (foreignMissed id new)
  · intro key
    rw [noHeard]
    exact kept.askedOnce key
  · intro key p found
    rw [noHeard, noMissed]
    exact kept.tally key p found

end ServerKept

end SimpleDfs.Paxos
