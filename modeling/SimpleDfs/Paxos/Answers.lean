import SimpleDfs.Paxos.Rounds

/-!
Contract: what an acceptor vouches for when it answers a prepare request is
what the proposer hears.

Owns: the rule that carries a fact about an answer from the acceptor, over the
packet in flight, to the promises a proposer has heard.

Does not own: which facts those are.
-/

set_option autoImplicit false

namespace SimpleDfs.Paxos

open SimpleDfs.Common
open SimpleDfs.Library

/-- A fact about the answer of a server to a prepare request for a topic and an
id. -/
abbrev AnswerFact := Nat → Topic → SId → Option (SId × Value) → Prop

/-- The fact holds of every answer sent and of every promise heard. -/
structure AnswersHold (fact : AnswerFact) (world : PaxosWorld) : Prop where
  replies : ∀ packet ∈ world.sent, ∀ req report backup accepts,
    packet.body = .rpcBack req (.prepare (.promise report backup accepts)) →
    ∃ asked ∈ world.sent, asked.src = packet.dst ∧ ∃ request, asked.body = .request req request ∧
      fact packet.src request.topic request.id report
  heard : ∀ entry ∈ world.heard, ∃ p,
    (world.cores entry.proposal.x).proposals.lookup entry.proposal.y = some p ∧
      fact entry.server p.topic entry.proposal entry.report

theorem answersHold_start {world : PaxosWorld} (fact : AnswerFact) (sent : world.sent = [])
    (heard : world.heard = []) : AnswersHold fact world := by
  constructor
  · intro packet member
    rw [sent] at member
    exact absurd member List.not_mem_nil
  · intro entry member
    rw [heard] at member
    exact absurd member List.not_mem_nil

section

variable {fact later : AnswerFact} {world after : PaxosWorld} {event : PaxosEvent}

/-- The fact reaches a proposer with the reply to its call. -/
theorem fact_endHeard (kept : CallsKept world) (holds : AnswersHold fact world) {server : Nat}
    {call : RpcCall} {reply : Option RpcReply}
    (search : (world.cores server).callTo call.peer call.req = some call)
    (ends : EndsCall world event server call.peer call.req reply) :
    ∀ entry ∈ endHeard server call reply, entry.proposal.x = server ∧
      ∃ p, (world.cores server).proposals.lookup entry.proposal.y = some p ∧
        fact entry.server p.topic entry.proposal entry.report := by
  have own := kept.servers server
  intro entry member
  unfold endHeard at member
  split at member
  next key report backup accepts isResponse =>
    rw [List.mem_singleton.mp member]
    refine ⟨rfl, ?_⟩
    cases ends with
    | reply layout packet _ delivers src dst carries =>
        have sent := kept.inSent packet delivers.mem
        obtain ⟨asked, askedSent, from_, request, isRequest, holdsHere⟩ :=
          holds.replies packet sent call.req report backup accepts carries
        rw [dst] at from_
        have askedNow := List.mem_append_left (world.cores server).out askedSent
        obtain ⟨_, names⟩ := own.answerable call (mem_of_callTo search) asked askedNow from_
          (by rw [isRequest]; rfl)
        obtain ⟨other, isOther, named⟩ := names key isResponse
        rw [isRequest] at isOther
        cases isOther
        obtain ⟨_, p, found, topic, _⟩ :=
          own.requests asked askedNow from_ call.req request isRequest
        rw [named] at found holdsHere
        rw [src] at holdsHere
        exact ⟨p, found, topic ▸ holdsHere⟩
  next => exact absurd member List.not_mem_nil

/-- **Answers hold across an act** if the fact persists and the acceptor that
answers makes it true. -/
theorem answersHold_acted (kept : CallsKept world) (holds : AnswersHold fact world)
    (acts : OneActs world event after)
    (persists : ∀ server topic id report, fact server topic id report → later server topic id report)
    (answers : ∀ packet layout req request report backup accepts,
      Delivers world event layout packet → packet.body = .request req request →
      (ireceiveRequest layout (world.cores packet.dst).paxos request).2 =
        .promise report backup accepts →
      later packet.dst request.topic request.id report) :
    AnswersHold later after := by
  obtain ⟨server, promises, heard, missed, core, handled, acted⟩ := acts
  have sentMore : ∀ packet ∈ world.sent, packet ∈ after.sent := by
    intro packet member
    rw [acted.sent]
    exact List.mem_append_left _ member
  have carriedOver : ∀ owner key p, (world.cores owner).proposals.lookup key = some p →
      ∃ q, (after.cores owner).proposals.lookup key = some q ∧ q.topic = p.topic := by
    intro owner key p found
    rw [acted.cores]
    by_cases same : owner = server
    · rw [same, Function.update_self]
      rw [same] at found
      obtain ⟨q, foundNow, carried⟩ := carried_kept kept handled found
      exact ⟨q, foundNow, carried.sameOrigin.topic⟩
    · rw [Function.update_of_ne same]
      exact ⟨p, found, rfl⟩
  have carriedFact : ∀ (entry : Heard) owner p,
      (world.cores owner).proposals.lookup entry.proposal.y = some p → entry.proposal.x = owner →
      fact entry.server p.topic entry.proposal entry.report →
      ∃ q, (after.cores entry.proposal.x).proposals.lookup entry.proposal.y = some q ∧
        later entry.server q.topic entry.proposal entry.report := by
    intro entry owner p found isOwner known
    obtain ⟨q, foundNow, topic⟩ := carriedOver owner entry.proposal.y p found
    rw [isOwner]
    refine ⟨q, foundNow, ?_⟩
    rw [topic]
    exact persists _ _ _ _ known
  constructor
  · intro packet member req report backup accepts body
    rw [acted.sent] at member
    rcases List.mem_append.mp member with old | new
    · obtain ⟨asked, askedSent, from_, request, isRequest, known⟩ :=
        holds.replies packet old req report backup accepts body
      exact ⟨asked, sentMore asked askedSent, from_, request, isRequest, persists _ _ _ _ known⟩
    · obtain ⟨asked, layout, delivers, dst, src, back, answer⟩ :=
        answer_handled kept handled new (by rw [body]; rfl)
      rcases answer with ⟨number, request, isRequest, isReply⟩ | ⟨number, version, _, isReply⟩
      · rw [body] at isReply
        obtain ⟨sameNumber, sameReply⟩ := PaxosBody.rpcBack.inj isReply
        have promise := (RpcReply.prepare.inj sameReply).symm
        rw [← dst] at promise
        refine ⟨asked, sentMore asked (kept.inSent asked delivers.mem), back.symm, request, ?_, ?_⟩
        · rw [sameNumber]
          exact isRequest
        · rw [src, ← dst]
          exact answers asked layout number request report backup accepts delivers isRequest promise
      · rw [body] at isReply
        cases isReply
  · intro entry member
    rw [acted.heard] at member
    rcases List.mem_append.mp member with old | new
    · obtain ⟨p, found, known⟩ := holds.heard entry old
      exact carriedFact entry _ p found rfl known
    · cases handled with
      | quiet _ _ moves => exact absurd new List.not_mem_nil
      | prepare packet req request layout delivers body => exact absurd new List.not_mem_nil
      | learn packet req version layout delivers body => exact absurd new List.not_mem_nil
      | finish _ call reply _ search ends moves =>
          obtain ⟨isOwner, p, found, known⟩ := fact_endHeard kept holds search ends entry new
          exact carriedFact entry server p found isOwner known

end

/-! ## Promises -/

/-- The server has promised. -/
def PromiseGiven (world : PaxosWorld) : AnswerFact :=
  fun server topic id _ => { server := server, topic := topic, id := id } ∈ world.promises

/-- A reply that is no refusal is a promise. -/
theorem promiseOf_answer {layout : Layout} {core : Core} {packet : PaxosPacket} {req : Nat}
    {request : PrepareRequest} {report : Option (SId × Value)} {backup : List PaxosAccept}
    {accepts : List (Topic × List PaxosAccept)} (body : packet.body = .request req request)
    (answer : (ireceiveRequest layout core.paxos request).2 = .promise report backup accepts) :
    core.paxos.version.version = request.version.version ∧
      promiseOf core packet =
        [{ server := packet.dst, topic := request.topic, id := request.id }] := by
  have same : core.paxos.version.version = request.version.version := by
    unfold ireceiveRequest at answer
    dsimp only at answer
    split at answer
    · cases answer
    next same => exact not_not.mp same
  refine ⟨same, ?_⟩
  unfold promiseOf
  rw [body]
  exact if_pos same

/-- The ledger of promises after the answer to a request. -/
theorem promises_answered {world after : PaxosWorld} {event : PaxosEvent} {layout : Layout}
    {packet : PaxosPacket} (delivers : Delivers world event layout packet)
    (stepped : world.step event = some after) :
    after.promises = world.promises ++ promiseOf (world.cores packet.dst) packet := by
  obtain ⟨index, rest, caused, taken⟩ := delivers
  rw [caused] at stepped
  dsimp only [PaxosWorld.step] at stepped
  rw [taken] at stepped
  cases stepped
  rfl

/-- Every promise heard was given. -/
theorem promisesHeard_of_reachable {admitted : PaxosWorld → PaxosEvent → Prop} {world : PaxosWorld}
    (reached : paxosSystem.ReachableVia admitted world) :
    AnswersHold (PromiseGiven world) world := by
  apply reached.invariant fun world => AnswersHold (PromiseGiven world) world
  · intro start initial
    obtain ⟨connected, rfl⟩ := initial
    exact answersHold_start _ rfl rfl
  · intro before event after reachedBefore holds _ stepped
    have kept := callsKept_of_reachable reachedBefore
    rcases acted_of_step kept stepped with ⟨net, same, _⟩ | acts
    · rw [same]
      exact ⟨holds.replies, holds.heard⟩
    · apply answersHold_acted kept holds acts
      · intro server topic id report given
        obtain ⟨_, _, _, _, _, _, acted⟩ := acts
        unfold PromiseGiven
        rw [acted.promises]
        exact List.mem_append_left _ given
      · intro packet layout req request report backup accepts delivers body answer
        unfold PromiseGiven
        rw [promises_answered delivers stepped, (promiseOf_answer body answer).2]
        exact List.mem_append_right _ List.mem_cons_self

end SimpleDfs.Paxos
