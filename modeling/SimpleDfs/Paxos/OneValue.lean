import SimpleDfs.Paxos.Rounds

/-!
Contract: one value for each proposal id.  ACCEPT packets of one proposal carry
one value as long as no response that comes after the majority brings another.

Owns: the condition on late responses, the invariant of ACCEPT packets, and a
run without the condition.

Does not own: agreement between proposals.
-/

set_option autoImplicit false

namespace SimpleDfs.Paxos

open SimpleDfs.Common
open SimpleDfs.Library

/-- A response to a NORMAL proposal that is past its majority brings no other
value. -/
def lateValueKept (core : Core) (packet : PaxosPacket) : Bool :=
  match packet.body with
  | .rpcBack req (.prepare (.promise (some (id, value)) _ _)) =>
      match core.callTo packet.src req with
      | some { callback := .receiveResponse key, .. } =>
          match core.proposals.lookup key with
          | some p =>
              !(p.type == .normal && decide p.pastMajority && sIdGt id p.response.maxId) ||
                value == p.value
          | none => true
      | _ => true
  | _ => true

/-- No event hands a proposer a late response with another value. -/
def keepsValue (world : PaxosWorld) : PaxosEvent → Bool
  | .deliver index _ =>
      match Packet.takeAt world.net index with
      | some (packet, _) => lateValueKept (world.cores packet.dst) packet
      | none => true
  | _ => true

theorem keepsValue_reply {world : PaxosWorld} {event : PaxosEvent} (keeps : keepsValue world event)
    {server : Nat} {call : RpcCall} {key : Nat} {p : PaxosProposal} {id : SId} {value : Value}
    {backup : List PaxosAccept} {accepts : List (Topic × List PaxosAccept)}
    (search : (world.cores server).callTo call.peer call.req = some call)
    (isResponse : call.callback = .receiveResponse key)
    (ends : EndsCall world event server call.peer call.req
      (some (.prepare (.promise (some (id, value)) backup accepts))))
    (found : (world.cores server).proposals.lookup key = some p) (normal : p.type = .normal)
    (past : p.pastMajority) (above : p.response.maxId < id) : value = p.value := by
  cases ends with
  | reply layout packet _ delivers src dst carries =>
      obtain ⟨index, rest, caused, taken⟩ := delivers
      rw [caused, keepsValue, taken] at keeps
      dsimp only at keeps
      unfold lateValueKept at keeps
      obtain ⟨number, peer, callback⟩ := call
      dsimp only at isResponse search
      rw [isResponse] at search
      dsimp only at src carries
      rw [carries, dst, src] at keeps
      dsimp only at keeps
      rw [search] at keeps
      dsimp only at keeps
      rw [found] at keeps
      simpa [normal, past, (sIdGt_iff id p.response.maxId).mpr above] using keeps

/-! ## The invariant -/

/-- An ACCEPT that agrees with its proposal. -/
structure AgreesWith (core : Core) (topic : Topic) (id : SId) (value : Value) (version : Int)
    (p : PaxosProposal) : Prop where
  found : core.proposals.lookup id.y = some p
  topic : p.topic = topic
  value : p.value = value
  version : p.version.version = version
  past : p.type = .normal → p.pastMajority

/-- Every ACCEPT sent agrees with its proposal. -/
def AcceptsAgree (world : PaxosWorld) : Prop :=
  ∀ packet ∈ world.sent, ∀ topic id value version, packet.body = .accept topic id value version →
    packet.src = id.x ∧ ∃ p, AgreesWith (world.cores id.x) topic id value version p

/-- What a proposal in its second phase keeps. -/
structure StaysSettled (p q : PaxosProposal) : Prop extends SameOrigin p q where
  value : (p.type = .normal → p.pastMajority) → q.value = p.value
  past : (p.type = .normal → p.pastMajority) → q.type = .normal → q.pastMajority

theorem StaysSettled.of_sameRound {p q : PaxosProposal} (same : SameRound p q) :
    StaysSettled p q where
  toSameOrigin := same.toSameOrigin
  value := fun _ => same.value
  past := by
    intro past normal
    rw [same.type] at normal
    exact same.pastMajority normal (past normal)

/-- Counting a response keeps a settled proposal if it brings no other value. -/
theorem staysSettled_counted {p q : PaxosProposal} {response : Option PrepareReply}
    (counts : p.counted response = some q)
    (kept : ∀ id value backup accepts,
      response = some (.promise (some (id, value)) backup accepts) → p.type = .normal →
      p.pastMajority → p.response.maxId < id → value = p.value) : StaysSettled p q := by
  have origin := (counted_sameAsked counts).toSameOrigin
  unfold PaxosProposal.counted at counts
  dsimp only at counts
  split at counts
  · cases counts
  · split at counts
    · cases counts
    next other =>
      cases counts
      exact ⟨origin, fun _ => rfl, fun _ normal => absurd normal other⟩
  next report backup accepts =>
    have counted := Option.some.inj counts
    by_cases normal : p.type = .normal
    · rw [if_pos normal] at counted
      have spec := countResponse_spec p report
      rw [counted] at spec
      refine ⟨origin, ?_, ?_⟩
      · intro past
        rcases spec.2 with ⟨same, _⟩ | ⟨id, value, isReport, above, new, _⟩
        · exact same
        · rw [new]
          apply kept id value backup accepts _ normal (past normal) above
          rw [isReport]
      · intro past _
        have before := past normal
        unfold PaxosProposal.pastMajority at before ⊢
        rw [spec.1, origin.version]
        omega
    · rw [if_neg normal] at counted
      refine ⟨origin, ?_, ?_⟩
      · intro _
        rw [← counted, noteReport_value]
      · intro _ isNormal
        rw [origin.type] at isNormal
        exact absurd isNormal normal

theorem StaysSettled.trans {first second third : PaxosProposal}
    (early : StaysSettled first second) (late : StaysSettled second third) :
    StaysSettled first third where
  toSameOrigin := early.toSameOrigin.trans late.toSameOrigin
  value := fun past => (late.value (early.past past)).trans (early.value past)
  past := fun past => late.past (early.past past)

/-- Across an act, every proposal of the server that is settled stays so. -/
theorem settled_handled {world : PaxosWorld} (kept : CallsKept world) {event : PaxosEvent}
    (keeps : keepsValue world event) {server : Nat} {heard : List Heard} {missed : List SId}
    {key : Nat} {p q : PaxosProposal}
    (found : (world.cores server).proposals.lookup key = some p)
    (carried : Carried world event server heard missed key p q) : StaysSettled p q := by
  cases carried with
  | moved round => exact StaysSettled.of_sameRound round
  | finished call reply counted search ends heardIs missedIs noted round =>
      apply StaysSettled.trans _ (StaysSettled.of_sameRound round)
      cases noted with
      | same => exact StaysSettled.of_sameRound (SameRound.refl p)
      | counted _ response isResponse carries counts =>
          apply staysSettled_counted counts
          intro id value backup accepts isReport normal past above
          rw [isReport] at carries
          rw [carries] at ends
          exact keepsValue_reply keeps search isResponse ends found normal past above
      | refreshed isBack =>
          obtain ⟨other, foundToo, removal⟩ :=
            (kept.servers server).refreshOf call (mem_of_callTo search) key isBack
          have same := Option.some.inj (foundToo.symm.trans found)
          rw [same] at removal
          refine ⟨⟨rfl, rfl, rfl, rfl, rfl⟩, fun _ => rfl, ?_⟩
          intro _ normal
          exact nomatch removal.symm.trans normal

theorem acceptsAgree_acted {world after : PaxosWorld} {event : PaxosEvent} (kept : CallsKept world)
    (agree : AcceptsAgree world) (keeps : keepsValue world event)
    (acts : OneActs world event after) : AcceptsAgree after := by
  obtain ⟨server, promises, heard, missed, core, handled, acted⟩ := acts
  have own := kept.handled handled
  intro packet member topic id value version body
  rw [acted.cores]
  rw [acted.sent] at member
  rcases List.mem_append.mp member with old | new
  · obtain ⟨src, p, agrees⟩ := agree packet old topic id value version body
    refine ⟨src, ?_⟩
    by_cases same : id.x = server
    · rw [same, Function.update_self]
      have found := agrees.found
      rw [same] at found
      obtain ⟨q, foundNow, carried⟩ := carried_kept kept handled found
      have settled := settled_handled kept keeps found carried
      refine ⟨q, foundNow, settled.topic.trans agrees.topic,
        (settled.value agrees.past).trans agrees.value, ?_, settled.past agrees.past⟩
      rw [settled.version]
      exact agrees.version
    · rw [Function.update_of_ne same]
      exact ⟨p, agrees⟩
  · obtain ⟨p, accept⟩ := accepts_handled kept handled new body
    have named := (own.numbered id.y p accept.found).1
    have src : id.x = server := by rw [← accept.named, named]
    refine ⟨(own.sources packet new).trans src.symm, p, ?_⟩
    rw [src, Function.update_self]
    refine ⟨accept.found, accept.topic, accept.value, accept.version, ?_⟩
    intro normal
    rcases accept.cleared with ⟨_, past⟩ | ⟨other, _⟩
    · exact past
    · exact absurd normal other

/-- The admitted runs keep the invariant of ACCEPT packets. -/
theorem acceptsAgree_of_reachable {world : PaxosWorld}
    (reached : paxosSystem.ReachableVia (fun world event => keepsValue world event = true) world) :
    AcceptsAgree world := by
  apply reached.invariant AcceptsAgree
  · intro start initial packet member
    obtain ⟨connected, rfl⟩ := initial
    exact absurd member List.not_mem_nil
  · intro before event after reachedBefore agree keeps stepped
    have kept := callsKept_of_reachable reachedBefore
    rcases acted_of_step kept stepped with ⟨net, same, _⟩ | acts
    · rw [same]
      exact agree
    · exact acceptsAgree_acted kept agree keeps acts

/-- **One value for each proposal id.**  While no response that comes after the
majority brings another value, all ACCEPT packets ever sent with one proposal
id carry one value. -/
theorem one_value_per_id {world : PaxosWorld}
    (reached : paxosSystem.ReachableVia (fun world event => keepsValue world event = true) world)
    {first second : PaxosPacket} (inFirst : first ∈ world.sent) (inSecond : second ∈ world.sent)
    {id : SId} {topicFirst topicSecond : Topic} {valueFirst valueSecond : Value}
    {versionFirst versionSecond : Int}
    (bodyFirst : first.body = .accept topicFirst id valueFirst versionFirst)
    (bodySecond : second.body = .accept topicSecond id valueSecond versionSecond) :
    valueFirst = valueSecond := by
  have agree := acceptsAgree_of_reachable reached
  obtain ⟨_, p, agreesFirst⟩ := agree first inFirst _ _ _ _ bodyFirst
  obtain ⟨_, q, agreesSecond⟩ := agree second inSecond _ _ _ _ bodySecond
  have same := Option.some.inj (agreesFirst.found.symm.trans agreesSecond.found)
  rw [← agreesFirst.value, ← agreesSecond.value, same]

/-- Server 1 of the pair proposes 5, and both ACCEPT packets carry it. -/
def proposalRun : List PaxosEvent :=
  pairRun ++ .start 1 [120] 5#32 :: delivered [0, 0, 0, 0]

theorem one_value_per_id_pair :
    { src := 1, dst := 1, body := .accept [120] ⟨1, 3⟩ 5#32 2 } ∈
        (paxosSystem.outcome connectedWorld proposalRun).sent ∧
      { src := 1, dst := 2, body := .accept [120] ⟨1, 3⟩ 5#32 2 } ∈
        (paxosSystem.outcome connectedWorld proposalRun).sent ∧
      5#32 = 5#32 := by
  have reached : paxosSystem.ReachableVia (fun world event => keepsValue world event = true)
      (paxosSystem.outcome connectedWorld proposalRun) :=
    System.reachableVia_outcome init_connectedWorld proposalRun (by decide +kernel)
  have toFirst : ({ src := 1, dst := 1, body := .accept [120] ⟨1, 3⟩ 5#32 2 } : PaxosPacket) ∈
      (paxosSystem.outcome connectedWorld proposalRun).sent := by decide +kernel
  have toSecond : ({ src := 1, dst := 2, body := .accept [120] ⟨1, 3⟩ 5#32 2 } : PaxosPacket) ∈
      (paxosSystem.outcome connectedWorld proposalRun).sent := by decide +kernel
  exact ⟨toFirst, toSecond, one_value_per_id reached toFirst toSecond rfl rfl⟩

/-- Server 3 has its value 7 accepted by itself alone.  Server 1 proposes 5, has
two empty responses, and then the late one of server 3. -/
def lateResponseRun : List PaxosEvent :=
  trioRun ++ .start 3 [120] 7#32 :: delivered [3, 2, 2, 2, 4] ++
    .start 1 [120] 5#32 :: delivered [4, 0, 3, 4, 4, 3, 0, 0, 4]

/-- A late response with another value makes the proposer send two values under
one id. -/
theorem not_always_one_value :
    ¬ ∀ world, paxosSystem.Reachable world → ∀ first ∈ world.sent, ∀ second ∈ world.sent,
      ∀ id topicFirst topicSecond valueFirst valueSecond versionFirst versionSecond,
        ((world.cores id.x).proposals.lookup id.y).map PaxosProposal.type = some .normal →
        first.body = .accept topicFirst id valueFirst versionFirst →
        second.body = .accept topicSecond id valueSecond versionSecond →
        valueFirst = valueSecond := by
  intro always
  have reached := System.reachable_outcome init_connectedWorld lateResponseRun
  have equal := always _ reached
    { src := 1, dst := 1, body := .accept [120] ⟨1, 5⟩ 5#32 3 } (by decide +kernel)
    { src := 1, dst := 1, body := .accept [120] ⟨1, 5⟩ 7#32 3 } (by decide +kernel)
    ⟨1, 5⟩ [120] [120] 5#32 7#32 3 3 (by decide +kernel) rfl rfl
  revert equal
  decide

end SimpleDfs.Paxos
