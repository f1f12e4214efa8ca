import SimpleDfs.Paxos.Steps

/-!
Contract: what the moves of a server keep of its proposals, and which ACCEPT
packets they send.

Owns: `SameRound`, the proposals and the ACCEPT packets after a chain of moves.

Does not own: how a response is counted.
-/

set_option autoImplicit false

namespace SimpleDfs.Paxos

open SimpleDfs.Common
open SimpleDfs.Library

/-- What a proposal keeps while no response is counted for it. -/
structure SameRound (p q : PaxosProposal) : Prop extends SameOrigin p q where
  value : q.value = p.value
  maxId : q.response.maxId = p.response.maxId
  reported : q.response.value = p.response.value
  count : p.type ≠ .rm → q.response.count = p.response.count

theorem SameRound.refl (p : PaxosProposal) : SameRound p p :=
  ⟨SameOrigin.refl p, rfl, rfl, rfl, fun _ => rfl⟩

theorem SameRound.trans {first second third : PaxosProposal} (early : SameRound first second)
    (late : SameRound second third) : SameRound first third where
  toSameOrigin := early.toSameOrigin.trans late.toSameOrigin
  value := late.value.trans early.value
  maxId := late.maxId.trans early.maxId
  reported := late.reported.trans early.reported
  count := fun other => (late.count (early.type ▸ other)).trans (early.count other)

theorem SameRound.pastMajority {p q : PaxosProposal} (same : SameRound p q)
    (normal : p.type = .normal) (past : p.pastMajority) : q.pastMajority := by
  have count := same.count (fun removal => nomatch normal.symm.trans removal)
  unfold PaxosProposal.pastMajority at past ⊢
  rw [count, same.version]
  exact past

/-- A proposal that was created among the moves of a server. -/
def NewProposal (server : Nat) (created : PaxosProposal → Prop) (key : Nat) (q : PaxosProposal) :
    Prop :=
  ∃ p, created p ∧ p.id = ⟨server, key⟩ ∧
    p.response = { nsent := 0, count := 0, maxId := ⟨0, 0⟩, value := -1 } ∧ SameRound p q

section

variable {server : Nat} {sent : List PaxosPacket} {heard : List Heard} {missed : List SId}
  {second : Nat → Prop} {created : PaxosProposal → Prop} {before after : Core}

theorem continues_move (kept : ServerKept server sent heard missed before)
    (moved : Move second created before after) :
    Table.Continues SameRound (NewProposal server created) before.proposals after.proposals := by
  cases moved with
  | state paxos active reported aborted numbers members =>
      exact Table.Continues.refl SameRound.refl _
  | refer key p refCount found =>
      apply Table.Continues.insert_present SameRound.refl found
      exact ⟨⟨rfl, rfl, rfl, rfl, rfl⟩, rfl, rfl, rfl, fun _ => rfl⟩
  | recount key p count found removal answered =>
      apply Table.Continues.insert_present SameRound.refl found
      exact ⟨⟨rfl, rfl, rfl, rfl, rfl⟩, rfl, rfl, rfl, fun other => absurd removal other⟩
  | create p allowed named version fresh =>
      apply Table.Continues.insert_absent SameRound.refl kept.absent_next
      rw [kept.ident] at named
      exact ⟨p, allowed, named, fresh, SameRound.refl p⟩
  | request key p serv asking =>
      rw [sendRequest_eq]
      apply continues_asked SameRound.refl
      exact fun _ _ _ => ⟨⟨rfl, rfl, rfl, rfl, rfl⟩, rfl, rfl, rfl, fun _ => rfl⟩
  | learnCall serv version => exact Table.Continues.refl SameRound.refl _
  | addCall key p serv dump found addition answered version =>
      exact Table.Continues.refl SameRound.refl _
  | refreshCall key p serv dump found removal answered => exact Table.Continues.refl SameRound.refl _
  | accept key p serv found cleared => exact Table.Continues.refl SameRound.refl _
  | notify serv body notice => exact Table.Continues.refl SameRound.refl _

theorem continues_moves (kept : ServerKept server sent heard missed before)
    (moved : Moves second created before after) :
    Table.Continues SameRound (NewProposal server created) before.proposals after.proposals := by
  induction moved with
  | refl => exact Table.Continues.refl SameRound.refl _
  | tail earlier last inductionHypothesis =>
      have next := continues_move (kept.moves earlier) last
      apply Table.Continues.trans (fun early late => early.trans late) _ inductionHypothesis next
      intro key value later new same
      obtain ⟨p, allowed, named, fresh, round⟩ := new
      exact ⟨p, allowed, named, fresh, round.trans same⟩

/-- The ACCEPT of a proposal that may be in its second phase. -/
structure AcceptOf (second : Nat → Prop) (core : Core) (topic : Topic) (id : SId) (value : Value)
    (version : Int) (p : PaxosProposal) : Prop where
  found : core.proposals.lookup id.y = some p
  named : p.id = id
  topic : p.topic = topic
  value : p.value = value
  version : p.version.version = version
  cleared : p.type = .normal ∧ p.pastMajority ∨ p.type ≠ .normal ∧ second id.y

/-- Every ACCEPT packet that the moves add is that of one of the proposals. -/
theorem accepts_moves (kept : ServerKept server sent heard missed before)
    (moved : Moves second created before after) :
    ∀ packet ∈ after.out, ∀ topic id value version,
      packet.body = .accept topic id value version →
      packet ∈ before.out ∨ ∃ p, AcceptOf second after topic id value version p := by
  induction moved with
  | refl => exact fun packet member _ _ _ _ _ => Or.inl member
  | @tail middle last earlier step inductionHypothesis =>
      have keptMiddle := kept.moves earlier
      have round := continues_move keptMiddle step
      intro packet member topic id value version body
      have carry : packet ∈ middle.out → packet ∈ before.out ∨
          ∃ p, AcceptOf second last topic id value version p := by
        intro old
        rcases inductionHypothesis packet old topic id value version body with first | ⟨p, accept⟩
        · exact Or.inl first
        · obtain ⟨q, found, same⟩ := round.kept _ p accept.found
          refine Or.inr ⟨q, found, same.id.trans accept.named, same.topic.trans accept.topic,
            same.value.trans accept.value, ?_, ?_⟩
          · rw [same.version]
            exact accept.version
          · rw [same.type]
            rcases accept.cleared with ⟨normal, past⟩ | other
            · exact Or.inl ⟨normal, same.pastMajority normal past⟩
            · exact Or.inr other
      have sends : ∀ dst other, last.out = middle.out ++ [{ src := middle.id, dst := dst, body := other }] →
          (∀ topic id value version, other ≠ .accept topic id value version) →
          packet ∈ before.out ∨ ∃ p, AcceptOf second last topic id value version p := by
        intro dst other out plain
        rw [out] at member
        rcases List.mem_append.mp member with old | new
        · exact carry old
        · rw [List.mem_singleton.mp new] at body
          exact absurd body (plain topic id value version)
      cases step with
      | state paxos active reported aborted numbers members => exact carry member
      | refer key p refCount found => exact carry member
      | recount key p count found removal answered => exact carry member
      | create p allowed named version fresh => exact carry member
      | request key p serv asking =>
          apply sends serv (.request middle.reqId p.request)
          · rw [sendRequest_eq]
          · exact fun _ _ _ _ impossible => nomatch impossible
      | learnCall serv version =>
          exact sends serv _ rfl fun _ _ _ _ impossible => nomatch impossible
      | addCall key p serv dump found addition answered version =>
          exact sends serv _ rfl fun _ _ _ _ impossible => nomatch impossible
      | refreshCall key p serv dump found removal answered =>
          exact sends serv _ rfl fun _ _ _ _ impossible => nomatch impossible
      | accept key p serv found cleared =>
          rcases List.mem_append.mp member with old | new
          · exact carry old
          · rw [List.mem_singleton.mp new] at body
            cases body
            have named := (keptMiddle.numbered key p found).1
            have sameKey : p.id.y = key := by rw [named]
            exact Or.inr ⟨p, sameKey ▸ found, rfl, rfl, rfl, rfl, sameKey ▸ cleared⟩
      | notify serv other notice =>
          apply sends serv other rfl
          intro topic id value version same
          rw [same] at notice
          cases notice

end

/-! ## What a callback counts -/

/-- What a callback makes of the proposal at `key`. -/
inductive Noted (callback : Callback) (reply : Option RpcReply) (key : Nat) (p : PaxosProposal) :
    PaxosProposal → Prop where
  | same : Noted callback reply key p p
  | counted (q : PaxosProposal) (response : Option PrepareReply)
      (isResponse : callback = .receiveResponse key) (carries : reply = response.map .prepare)
      (counts : p.counted response = some q) : Noted callback reply key p q
  | refreshed (isBack : callback = .refreshAcceptBack key) :
      Noted callback reply key p
        { p with response := { p.response with count := p.response.count - 1 } }

theorem noteResponse_lookup (core : Core) (key other : Nat) (response : Option PrepareReply) :
    (noteResponse core key response).proposals.lookup other = core.proposals.lookup other ∨
      other = key ∧ ∃ p q, core.proposals.lookup key = some p ∧ p.counted response = some q ∧
        (noteResponse core key response).proposals.lookup key = some q := by
  unfold noteResponse
  split
  · exact Or.inl rfl
  next p found =>
    split
    · exact Or.inl rfl
    next q counts =>
      by_cases same : other = key
      · exact Or.inr ⟨same, p, q, found, counts, AList.lookup_insert _⟩
      · exact Or.inl (AList.lookup_insert_ne same)

/-- Counting writes to proposals only. -/
theorem noteCallback_eq (core : Core) (callback : Callback) (reply : Option RpcReply) :
    ∃ proposals, noteCallback core callback reply = { core with proposals := proposals } := by
  have response : ∀ key response, ∃ proposals,
      noteResponse core key response = { core with proposals := proposals } := by
    intro key response
    unfold noteResponse
    split
    · exact ⟨core.proposals, rfl⟩
    · split
      · exact ⟨core.proposals, rfl⟩
      · exact ⟨_, rfl⟩
  unfold noteCallback
  split
  · exact response _ none
  · exact response _ (some _)
  · rw [Core.modifyProposal_eq]
    exact ⟨_, rfl⟩
  · exact ⟨core.proposals, rfl⟩

theorem noteCallback_out (core : Core) (callback : Callback) (reply : Option RpcReply) :
    (noteCallback core callback reply).out = core.out := by
  obtain ⟨proposals, same⟩ := noteCallback_eq core callback reply
  rw [same]

theorem noteCallback_calls (core : Core) (callback : Callback) (reply : Option RpcReply) :
    (noteCallback core callback reply).calls = core.calls := by
  obtain ⟨proposals, same⟩ := noteCallback_eq core callback reply
  rw [same]

/-- A callback keeps the keys of the proposals and notes what it counts. -/
theorem noteCallback_lookup (core : Core) (callback : Callback) (reply : Option RpcReply)
    (key : Nat) :
    (noteCallback core callback reply).proposals.lookup key = core.proposals.lookup key ∨
      ∃ p q, core.proposals.lookup key = some p ∧ Noted callback reply key p q ∧
        (noteCallback core callback reply).proposals.lookup key = some q := by
  have response : ∀ own response, callback = .receiveResponse own →
      reply = response.map .prepare →
      noteCallback core callback reply = noteResponse core own response →
      (noteCallback core callback reply).proposals.lookup key = core.proposals.lookup key ∨
        ∃ p q, core.proposals.lookup key = some p ∧ Noted callback reply key p q ∧
          (noteCallback core callback reply).proposals.lookup key = some q := by
    intro own response isResponse carries same
    rw [same]
    rcases noteResponse_lookup core own key response with unchanged | ⟨rfl, p, q, found, counts, now⟩
    · exact Or.inl unchanged
    · exact Or.inr ⟨p, q, found, Noted.counted q response isResponse carries counts, now⟩
  cases callback with
  | receiveResponse own =>
      cases reply with
      | none => exact response own none rfl rfl rfl
      | some reply =>
          cases reply with
          | prepare reply => exact response own (some reply) rfl rfl rfl
          | learn reply => exact Or.inl rfl
          | done => exact Or.inl rfl
  | addNewServOk own => exact Or.inl rfl
  | refreshAcceptBack own =>
      unfold noteCallback
      dsimp only
      rw [Core.modifyProposal_eq]
      by_cases same : key = own
      · subst same
        unfold Core.writtenProposals
        cases found : core.proposals.lookup key with
        | none => exact Or.inl found
        | some p => exact Or.inr ⟨p, _, rfl, Noted.refreshed rfl, AList.lookup_insert _⟩
      · exact Or.inl (core.lookup_written_ne same)
  | receiveLearn => exact Or.inl rfl

/-- Counting leaves what a proposal was created with. -/
theorem Noted.sameOrigin {callback : Callback} {reply : Option RpcReply} {key : Nat}
    {p q : PaxosProposal} (noted : Noted callback reply key p q) : SameOrigin p q := by
  cases noted with
  | same => exact SameOrigin.refl p
  | counted _ response isResponse carries counts => exact (counted_sameAsked counts).toSameOrigin
  | refreshed isBack => exact ⟨rfl, rfl, rfl, rfl, rfl⟩

/-- What a promise makes of a NORMAL proposal. -/
theorem countResponse_spec (p : PaxosProposal) (report : Option (SId × Value)) :
    (p.countResponse report).response.count = p.response.count + 1 ∧
      ((p.countResponse report).value = p.value ∧
          (p.countResponse report).response.maxId = p.response.maxId ∧
          (∀ id value, report = some (id, value) → id ≤ p.response.maxId) ∨
        ∃ id value, report = some (id, value) ∧ p.response.maxId < id ∧
          (p.countResponse report).value = value ∧
          (p.countResponse report).response.maxId = id) := by
  unfold PaxosProposal.countResponse
  cases report with
  | none => exact ⟨rfl, Or.inl ⟨rfl, rfl, fun _ _ impossible => nomatch impossible⟩⟩
  | some report =>
      obtain ⟨id, value⟩ := report
      dsimp only
      split
      next above => exact ⟨rfl, Or.inr ⟨id, value, rfl, (sIdGt_iff _ _).mp above, rfl, rfl⟩⟩
      next below =>
        refine ⟨rfl, Or.inl ⟨rfl, rfl, ?_⟩⟩
        intro other _ same
        rw [← (Prod.mk.inj (Option.some.inj same)).1]
        exact (sIdGt_eq_false _ _).mp (Bool.not_eq_true _ ▸ below)

/-- A report leaves the value of an ADD or RM proposal. -/
theorem noteReport_value (p : PaxosProposal) (report : Option (SId × Value)) :
    (p.noteReport report).value = p.value := by
  unfold PaxosProposal.noteReport
  split
  · rfl
  · split <;> rfl

/-! ## One act -/

/-- What an act of a server makes of its proposal at `key`. -/
inductive Carried (world : PaxosWorld) (event : PaxosEvent) (server : Nat) (heard : List Heard)
    (missed : List SId) (key : Nat) (p q : PaxosProposal) : Prop where
  | moved (round : SameRound p q) : Carried world event server heard missed key p q
  | finished (call : RpcCall) (reply : Option RpcReply) (counted : PaxosProposal)
      (search : (world.cores server).callTo call.peer call.req = some call)
      (ends : EndsCall world event server call.peer call.req reply)
      (heardIs : heard = endHeard server call reply) (missedIs : missed = endMissed server call reply)
      (noted : Noted call.callback reply key p counted) (round : SameRound counted q) :
      Carried world event server heard missed key p q

section

variable {world : PaxosWorld} {event : PaxosEvent} {server : Nat} {promises : List Promise}
  {heard : List Heard} {missed : List SId} {core : Core} {key : Nat}

theorem Carried.sameOrigin {p q : PaxosProposal}
    (carried : Carried world event server heard missed key p q) : SameOrigin p q := by
  cases carried with
  | moved round => exact round.toSameOrigin
  | finished call reply counted search ends heardIs missedIs noted round =>
      exact noted.sameOrigin.trans round.toSameOrigin

/-- No act loses a proposal. -/
theorem carried_kept (kept : CallsKept world)
    (handled : Handled world event server promises heard missed core) {p : PaxosProposal}
    (found : (world.cores server).proposals.lookup key = some p) :
    ∃ q, core.proposals.lookup key = some q ∧ Carried world event server heard missed key p q := by
  have own := kept.servers server
  cases handled with
  | quiet _ _ moves =>
      obtain ⟨q, foundNow, same⟩ := (continues_moves own moves).kept key p found
      exact ⟨q, foundNow, Carried.moved same⟩
  | prepare packet req request layout delivers body =>
      rw [body]
      exact ⟨p, found, Carried.moved (SameRound.refl p)⟩
  | learn packet req version layout delivers body =>
      rw [body]
      exact ⟨p, found, Carried.moved (SameRound.refl p)⟩
  | finish _ call reply _ search ends moves =>
      have ended := own.finish (mem_of_callTo search) (callEnd_of_reply server call reply)
      have round := continues_moves (ended.noteCallback call.callback reply) moves
      rcases noteCallback_lookup
        { world.cores server with calls := otherCalls (world.cores server).calls call.req }
        call.callback reply key with unchanged | ⟨old, counted, foundOld, noted, foundNow⟩
      · obtain ⟨q, foundLater, same⟩ := round.kept key p (unchanged.trans found)
        exact ⟨q, foundLater, Carried.moved same⟩
      · obtain ⟨q, foundLater, same⟩ := round.kept key counted foundNow
        have equal := Option.some.inj (foundOld.symm.trans found)
        rw [equal] at noted
        exact ⟨q, foundLater, Carried.finished call reply counted search ends rfl rfl noted same⟩

end

/-! ## Packets of one act -/

/-- An answer to a prepare or a learn request. -/
def PaxosBody.isAnswer : PaxosBody → Bool
  | .rpcBack _ (.prepare _) => true
  | .rpcBack _ (.learn _) => true
  | _ => false

/-- Moves answer no request. -/
theorem noAnswer_moves {second : Nat → Prop} {created : PaxosProposal → Prop} {before after : Core}
    (moved : Moves second created before after) :
    ∀ packet ∈ after.out, packet ∈ before.out ∨ packet.body.isAnswer = false := by
  induction moved with
  | refl => exact fun packet member => Or.inl member
  | @tail middle last earlier step inductionHypothesis =>
      intro packet member
      have sends : ∀ dst body,
          last.out = middle.out ++ [{ src := middle.id, dst := dst, body := body }] →
          body.isAnswer = false → packet ∈ before.out ∨ packet.body.isAnswer = false := by
        intro dst body out plain
        rw [out] at member
        rcases List.mem_append.mp member with old | new
        · exact inductionHypothesis packet old
        · rw [List.mem_singleton.mp new]
          exact Or.inr plain
      cases step with
      | state paxos active reported aborted numbers members => exact inductionHypothesis packet member
      | refer key p refCount found => exact inductionHypothesis packet member
      | recount key p count found removal answered => exact inductionHypothesis packet member
      | create p allowed named version fresh => exact inductionHypothesis packet member
      | request key p serv asking =>
          apply sends serv (.request middle.reqId p.request)
          · rw [sendRequest_eq]
          · rfl
      | learnCall serv version => exact sends serv _ rfl rfl
      | addCall key p serv dump found addition answered version => exact sends serv _ rfl rfl
      | refreshCall key p serv dump found removal answered => exact sends serv _ rfl rfl
      | accept key p serv found cleared => exact sends serv _ rfl rfl
      | notify serv body notice =>
          apply sends serv body rfl
          cases body with
          | addMe => rfl
          | rpcBack req reply => cases reply <;> first | rfl | cases notice
          | request req request => rfl
          | accept topic id value version => rfl
          | learnRequest req version => rfl
          | addAccept req dump => rfl
          | refreshAccept req dump => rfl

/-- An answer a server sends in one act is the answer to the packet delivered. -/
theorem answer_handled {world : PaxosWorld} (kept : CallsKept world) {event : PaxosEvent}
    {server : Nat} {promises : List Promise} {heard : List Heard} {missed : List SId} {core : Core}
    (handled : Handled world event server promises heard missed core) {packet : PaxosPacket}
    (member : packet ∈ core.out) (answer : packet.body.isAnswer = true) :
    ∃ asked layout, Delivers world event layout asked ∧ asked.dst = server ∧
      packet.src = server ∧ packet.dst = asked.src ∧
        ((∃ req request, asked.body = .request req request ∧ packet.body = .rpcBack req
            (.prepare (ireceiveRequest layout (world.cores server).paxos request).2)) ∨
          ∃ req version, asked.body = .learnRequest req version ∧ packet.body = .rpcBack req
            (.learn (ireceiveLearnRequest layout (world.cores server).paxos version))) := by
  have own := kept.servers server
  have silent := kept.silent server
  cases handled with
  | quiet _ _ moves =>
      rcases noAnswer_moves moves packet member with old | plain
      · rw [silent] at old
        exact absurd old List.not_mem_nil
      · exact nomatch plain.symm.trans answer
  | prepare asked req request layout delivers body =>
      rw [body] at member
      have alone : packet ∈ (world.cores asked.dst).out ++ [_] := member
      rw [silent, List.nil_append] at alone
      rw [List.mem_singleton.mp alone]
      exact ⟨asked, layout, delivers, rfl, own.ident, rfl, Or.inl ⟨req, request, body, rfl⟩⟩
  | learn asked req version layout delivers body =>
      rw [body] at member
      have alone : packet ∈ (world.cores asked.dst).out ++ [_] := member
      rw [silent, List.nil_append] at alone
      rw [List.mem_singleton.mp alone]
      exact ⟨asked, layout, delivers, rfl, own.ident, rfl, Or.inr ⟨req, version, body, rfl⟩⟩
  | finish _ call reply _ search ends moves =>
      rcases noAnswer_moves moves packet member with old | plain
      · rw [noteCallback_out] at old
        dsimp only at old
        rw [silent] at old
        exact absurd old List.not_mem_nil
      · exact nomatch plain.symm.trans answer

/-- The event ends a call that starts the second phase of an ADD or RM
proposal. -/
def Enters (world : PaxosWorld) (event : PaxosEvent) (server key : Nat) : Prop :=
  ∃ call reply, (world.cores server).callTo call.peer call.req = some call ∧
    EndsCall world event server call.peer call.req reply ∧
    secondPhase (world.cores server) call key

/-- The ACCEPT packets a server sends in one act. -/
theorem accepts_handled {world : PaxosWorld} (kept : CallsKept world) {event : PaxosEvent}
    {server : Nat} {promises : List Promise} {heard : List Heard} {missed : List SId} {core : Core}
    (handled : Handled world event server promises heard missed core) {packet : PaxosPacket}
    (member : packet ∈ core.out) {topic : Topic} {id : SId} {value : Value} {version : Int}
    (body : packet.body = .accept topic id value version) :
    ∃ p, AcceptOf (Enters world event server) core topic id value version p := by
  have own := kept.servers server
  have silent := kept.silent server
  have widened : ∀ {second : Nat → Prop} {p : PaxosProposal},
      (∀ key, second key → Enters world event server key) →
      AcceptOf second core topic id value version p →
      AcceptOf (Enters world event server) core topic id value version p :=
    fun enters accept => ⟨accept.found, accept.named, accept.topic, accept.value, accept.version,
      accept.cleared.imp_right fun other => ⟨other.1, enters _ other.2⟩⟩
  cases handled with
  | quiet _ _ moves =>
      rcases accepts_moves own moves packet member topic id value version body with old | ⟨p, accept⟩
      · rw [silent] at old
        exact absurd old List.not_mem_nil
      · exact ⟨p, widened (fun _ impossible => impossible.elim) accept⟩
  | prepare asked req request layout delivers bodyAsked =>
      rw [bodyAsked] at member
      have alone : packet ∈ (world.cores asked.dst).out ++ [_] := member
      rw [silent, List.nil_append] at alone
      rw [List.mem_singleton.mp alone] at body
      cases body
  | learn asked req wanted layout delivers bodyAsked =>
      rw [bodyAsked] at member
      have alone : packet ∈ (world.cores asked.dst).out ++ [_] := member
      rw [silent, List.nil_append] at alone
      rw [List.mem_singleton.mp alone] at body
      cases body
  | finish _ call reply _ search ends moves =>
      have ended := own.finish (mem_of_callTo search) (callEnd_of_reply server call reply)
      rcases accepts_moves (ended.noteCallback call.callback reply) moves packet member topic id value
        version body with old | ⟨p, accept⟩
      · rw [noteCallback_out] at old
        dsimp only at old
        rw [silent] at old
        exact absurd old List.not_mem_nil
      · exact ⟨p, widened (fun _ phase => ⟨call, reply, search, ends, phase⟩) accept⟩

end SimpleDfs.Paxos
