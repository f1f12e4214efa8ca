import SimpleDfs.Library.Poll
import SimpleDfs.Paxos.GroupVotes
import SimpleDfs.Paxos.OneValue
import SimpleDfs.Paxos.Quorum

/-!
Contract: the value a NORMAL proposal takes from the reports it hears.

Owns: that it is the value of the greatest report, and the law of the votes of
one topic in a group.

Does not own: what a learner makes of the votes.
-/

set_option autoImplicit false

namespace SimpleDfs.Paxos

open SimpleDfs.Common
open SimpleDfs.Library

/-! ## The greatest report -/

/-- Every report heard is at most the one the proposal has taken its value
from. -/
structure CountsReports (heard : List Heard) (id : SId) (p : PaxosProposal) : Prop where
  below : ∀ entry ∈ heard, entry.proposal = id → ∀ highest value,
    entry.report = some (highest, value) → highest ≤ p.response.maxId
  leader : p.response.maxId = ⟨0, 0⟩ ∨ ∃ leader ∈ heard, leader.proposal = id ∧
    leader.report = some (p.response.maxId, p.value)

/-- The NORMAL proposals of a server. -/
def ReportsCounted (server : Nat) (heard : List Heard) (core : Core) : Prop :=
  ∀ key p, core.proposals.lookup key = some p → p.type = .normal →
    CountsReports heard ⟨server, key⟩ p

theorem CountsReports.congr {heard : List Heard} {id : SId} {p q : PaxosProposal}
    (counts : CountsReports heard id p) (maxId : q.response.maxId = p.response.maxId)
    (value : q.value = p.value) : CountsReports heard id q := by
  constructor
  · rw [maxId]
    exact counts.below
  · rw [maxId, value]
    exact counts.leader

theorem CountsReports.foreign {heard gone : List Heard} {id : SId} {p : PaxosProposal}
    (counts : CountsReports heard id p) (foreign : ∀ entry ∈ gone, entry.proposal ≠ id) :
    CountsReports (heard ++ gone) id p := by
  constructor
  · intro entry member isOwn
    rcases List.mem_append.mp member with old | new
    · exact counts.below entry old isOwn
    · exact absurd isOwn (foreign entry new)
  · rcases counts.leader with none | ⟨leader, member, isLeader⟩
    · exact Or.inl none
    · exact Or.inr ⟨leader, List.mem_append_left _ member, isLeader⟩

/-- A promise raises what the proposal has taken its value from. -/
theorem CountsReports.promise {heard : List Heard} {id : SId} {p : PaxosProposal}
    (counts : CountsReports heard id p) (peer : Nat) (report : Option (SId × Value)) :
    CountsReports (heard ++ [{ proposal := id, server := peer, report := report }]) id
      (p.countResponse report) := by
  rcases (countResponse_spec p report).2 with
    ⟨value, maxId, below⟩ | ⟨highest, given, isReport, above, value, maxId⟩
  · constructor
    · intro entry member isOwn high other isGiven
      rw [maxId]
      rcases List.mem_append.mp member with old | new
      · exact counts.below entry old isOwn high other isGiven
      · rw [List.mem_singleton.mp new] at isGiven
        exact below high other isGiven
    · rw [maxId, value]
      rcases counts.leader with none | ⟨leader, member, isLeader⟩
      · exact Or.inl none
      · exact Or.inr ⟨leader, List.mem_append_left _ member, isLeader⟩
  · constructor
    · intro entry member isOwn high other isGiven
      rw [maxId]
      rcases List.mem_append.mp member with old | new
      · exact (counts.below entry old isOwn high other isGiven).trans above.le
      · rw [List.mem_singleton.mp new] at isGiven
        dsimp only at isGiven
        rw [isReport] at isGiven
        exact (Prod.mk.inj (Option.some.inj isGiven)).1.ge
    · rw [maxId, value]
      refine Or.inr ⟨_, List.mem_append_right _ List.mem_cons_self, rfl, isReport⟩

section

variable {server : Nat} {sent : List PaxosPacket} {heard : List Heard} {missed : List SId}
  {before after : Core}

theorem reportsCounted_moves {second : Nat → Prop} {created : PaxosProposal → Prop}
    (kept : ServerKept server sent heard missed before)
    (counted : ReportsCounted server heard before) (moved : Moves second created before after) :
    ReportsCounted server heard after := by
  intro key q found normal
  rcases (continues_moves kept moved).source key q found with ⟨p, foundOld, same⟩ | ⟨absent, new⟩
  · exact (counted key p foundOld (same.type.symm.trans normal)).congr same.maxId same.value
  · obtain ⟨p, _, _, fresh, same⟩ := new
    constructor
    · intro entry member isOwn
      obtain ⟨old, foundOld, _⟩ := kept.heardOf entry member (by rw [isOwn])
      rw [isOwn] at foundOld
      exact nomatch absent.symm.trans foundOld
    · left
      rw [same.maxId, fresh]

/-- The proposal a response is counted for, and the others. -/
theorem reportsCounted_noteResponse (counted : ReportsCounted server heard before) (own peer : Nat)
    (report : Option (SId × Value)) (backup : List PaxosAccept)
    (accepts : List (Topic × List PaxosAccept)) :
    ReportsCounted server
      (heard ++ [{ proposal := ⟨server, own⟩, server := peer, report := report }])
      (noteResponse before own (some (.promise report backup accepts))) := by
  intro key q found normal
  by_cases same : key = own
  · subst same
    cases foundOld : before.proposals.lookup key with
    | none =>
        unfold noteResponse at found
        rw [foundOld] at found
        exact nomatch foundOld.symm.trans found
    | some p =>
        unfold noteResponse at found
        rw [foundOld] at found
        dsimp only [PaxosProposal.counted] at found
        rw [AList.lookup_insert] at found
        have isCounted := Option.some.inj found
        have normalOld : p.type = .normal := by
          by_contra other
          rw [if_neg other] at isCounted
          have counts : p.counted (some (.promise report backup accepts)) = some q := by
            rw [← isCounted, PaxosProposal.counted]
            dsimp only
            rw [if_neg other]
          exact other ((counted_sameAsked counts).type.symm.trans normal)
        rw [if_pos normalOld] at isCounted
        rw [← isCounted]
        exact (counted key p foundOld normalOld).promise peer report
  · rcases noteResponse_lookup before own key (some (.promise report backup accepts)) with
      unchanged | ⟨isOwn, _⟩
    · apply (counted key q (unchanged.symm.trans found) normal).foreign
      intro entry member isKey
      rw [List.mem_singleton.mp member] at isKey
      exact same (SId.mk.inj isKey).2.symm
    · exact absurd isOwn same

/-- What the end of a call of a group counts. -/
theorem reportsCounted_finish (counted : ReportsCounted server heard before) (call : RpcCall)
    (plain : call.callback.IsPlain) (reply : Option RpcReply) :
    ReportsCounted server (heard ++ endHeard server call reply)
      (noteCallback { before with calls := otherCalls before.calls call.req } call.callback
        reply) := by
  let others : Core := { before with calls := otherCalls before.calls call.req }
  have kept : ReportsCounted server heard others := counted
  have uncounted : ∀ key response, (∀ p : PaxosProposal, p.type = .normal →
      p.counted response = none) → ReportsCounted server (heard ++ []) (noteResponse others key response) := by
    intro key response refuses other q found normal
    rw [List.append_nil]
    rcases noteResponse_lookup others key other response with
      unchanged | ⟨rfl, p, later, foundOld, counts, foundLater⟩
    · exact counted other q (unchanged.symm.trans found) normal
    · have same := Option.some.inj (foundLater.symm.trans found)
      rw [same] at counts
      have normalOld := (counted_sameAsked counts).type.symm.trans normal
      exact nomatch (refuses p normalOld).symm.trans counts
  obtain ⟨number, peer, callback⟩ := call
  unfold Callback.IsPlain at plain
  dsimp only at plain
  rcases plain with rfl | ⟨key, rfl⟩
  · show ReportsCounted server (heard ++ []) others
    rw [List.append_nil]
    exact kept
  · match reply with
    | none => exact uncounted key none fun _ normal => if_pos normal
    | some (.prepare .badVersion) => exact uncounted key (some .badVersion) fun _ _ => rfl
    | some (.prepare (.promise report backup accepts)) =>
        exact reportsCounted_noteResponse kept key peer report backup accepts
    | some (.learn given) =>
        show ReportsCounted server (heard ++ []) others
        rw [List.append_nil]
        exact kept
    | some .done =>
        show ReportsCounted server (heard ++ []) others
        rw [List.append_nil]
        exact kept

end

section

variable {group : PaxosVersion} {world after : PaxosWorld} {event : PaxosEvent}

/-- The reports of all servers are counted. -/
def AllCounted (world : PaxosWorld) : Prop :=
  ∀ server, ReportsCounted server world.heard (world.cores server)

theorem allCounted_acted (kept : CallsKept world) (plain : GroupKept group world)
    (counted : AllCounted world) (acts : OneActs world event after) : AllCounted after := by
  obtain ⟨server, promises, heard, missed, core, handled, acted⟩ := acts
  have foreign := handled.own.1
  have own := kept.servers server
  have acting : ReportsCounted server (world.heard ++ heard) core := by
    cases handled with
    | quiet _ _ moves =>
        rw [List.append_nil]
        exact reportsCounted_moves own (counted server) moves
    | prepare packet req request layout delivers body =>
        rw [List.append_nil, body]
        exact counted packet.dst
    | learn packet req version layout delivers body =>
        rw [List.append_nil, body]
        exact counted packet.dst
    | finish _ call reply _ search ends moves =>
        have ended := own.finish (mem_of_callTo search) (callEnd_of_reply server call reply)
        exact reportsCounted_moves (ended.noteCallback call.callback reply)
          (reportsCounted_finish (counted server) call
            ((plain.cores server).calls call (mem_of_callTo search)) reply) moves
  intro other
  rw [acted.cores, acted.heard]
  by_cases same : other = server
  · rw [same, Function.update_self]
    exact acting
  · rw [Function.update_of_ne same]
    intro key p found normal
    apply (counted other key p found normal).foreign
    intro entry member isOther
    have isServer := foreign entry member
    rw [isOther] at isServer
    exact same isServer

/-- No ADD or RM proposal starts its second phase in a group. -/
theorem keepsQuorum_plain (plain : GroupKept group world) (event : PaxosEvent) :
    keepsQuorum world event = true := by
  have few : ∀ server peer req, fewMissed world server peer req = true := by
    intro server peer req
    have none : (world.cores server).entersPhase peer req = none := by
      unfold Core.entersPhase
      cases search : (world.cores server).callTo peer req with
      | none => rfl
      | some call =>
          have plainCall := (plain.cores server).calls call (mem_of_callTo search)
          obtain ⟨number, target, callback⟩ := call
          unfold Callback.IsPlain at plainCall
          dsimp only at plainCall
          rcases plainCall with rfl | ⟨key, rfl⟩ <;> rfl
    unfold fewMissed
    rw [none]
  unfold keepsQuorum
  split
  · split
    · split
      · exact few _ _ _
      · rfl
    · rfl
  · exact few _ _ _
  · rfl

/-- The answer to a prepare request casts no vote. -/
theorem votes_answered (plain : GroupKept group world) {layout : Layout} {packet : PaxosPacket}
    {req : Nat} {request : PrepareRequest} (delivers : Delivers world event layout packet)
    (body : packet.body = .request req request) (stepped : world.step event = some after) :
    after.votes = world.votes := by
  obtain ⟨index, rest, caused, taken⟩ := delivers
  rw [caused] at stepped
  dsimp only [PaxosWorld.step] at stepped
  rw [taken] at stepped
  cases stepped
  have answered : (dispatch layout (world.cores packet.dst) packet.src packet.body).paxos =
      (ireceiveRequest layout (world.cores packet.dst).paxos request).1 := by
    rw [body]
    rfl
  have unchanged := (ireceiveRequest_tables layout (world.cores packet.dst).paxos request).1
  have none : newEntries (world.cores packet.dst).paxos
      (dispatch layout (world.cores packet.dst) packet.src packet.body).paxos = [] := by
    rw [answered, List.eq_nil_iff_forall_not_mem]
    intro entry member
    obtain ⟨⟨topic, listed⟩, absent⟩ := of_mem_newEntries member
    rw [accepts_congr unchanged] at listed
    rw [((plain.cores packet.dst).accepts topic entry listed).1] at absent
    exact absent listed
  unfold PaxosWorld.act
  dsimp only
  rw [none]
  exact List.append_nil _

/-! ## The invariant of a group -/

/-- What holds of a group whose proposals keep their values and whose requests
meet only entries below them. -/
structure GroupInvariant (group : PaxosVersion) (world : PaxosWorld) : Prop where
  calls : CallsKept world
  plain : GroupKept group world
  promises : PromisesStand world
  votes : VotesStand world
  answers : AnswersHold (Covered world.votes world.promises) world
  agree : AcceptsAgree world
  heard : AcceptsHeard world
  counted : AllCounted world

theorem groupInvariant_start {connected : Nat → Nat → Bool} (distinct : group.servs.Nodup) :
    GroupInvariant group (groupWorld group connected) where
  calls := ⟨fun server => serverKept_idle server _ rfl distinct rfl rfl rfl, fun _ => rfl,
    fun _ member => absurd member List.not_mem_nil⟩
  plain := groupKept_start
  promises := fun _ member => absurd member List.not_mem_nil
  votes := ⟨fun _ _ _ member => absurd member List.not_mem_nil,
    fun _ member => absurd member List.not_mem_nil, fun _ member => absurd member List.not_mem_nil⟩
  answers := answersHold_start _ rfl rfl
  agree := fun _ member => absurd member List.not_mem_nil
  heard := ⟨fun _ => ⟨fun _ _ found => (nomatch found), fun _ _ found => (nomatch found),
    fun _ _ found => (nomatch found), fun _ pending => absurd pending List.not_mem_nil⟩,
    fun _ member => absurd member List.not_mem_nil⟩
  counted := by
    intro server key p found
    cases found

/-- Packets in flight matter to the calls and to what is plain only. -/
theorem groupInvariant_net (holds : GroupInvariant group world) (net : List PaxosPacket)
    (calls : CallsKept { world with net := net })
    (plain : GroupKept group { world with net := net }) :
    GroupInvariant group { world with net := net } where
  calls := calls
  plain := plain
  promises := holds.promises
  votes := ⟨holds.votes.listed, holds.votes.kept, holds.votes.sent⟩
  answers := ⟨holds.answers.replies, holds.answers.heard⟩
  agree := holds.agree
  heard := ⟨holds.heard.servers, holds.heard.majority⟩
  counted := holds.counted

/-- One step of a group keeps the invariant. -/
theorem groupInvariant_step (holds : GroupInvariant group world)
    (keeps : keepsValue world event = true) (above : keepsAbove world event = true)
    (stepped : (groupSystem group).step world event = some after) : GroupInvariant group after := by
  have plainAfter := groupKept_step holds.plain stepped
  have moved := step_of_group stepped
  have callsAfter := callsKept_step holds.calls moved
  rcases oneTurn_of_step holds.plain stepped with
    ⟨net, rfl⟩ | ⟨server, promises, paxos, reported, taken, turned⟩
  · exact groupInvariant_net holds net callsAfter plainAfter
  rcases acted_of_step holds.calls moved with ⟨net, rfl, _⟩ | acts
  · exact groupInvariant_net holds net callsAfter plainAfter
  · have sentMore : ∀ packet ∈ world.sent, packet ∈ after.sent := by
      obtain ⟨_, _, _, _, _, _, acted⟩ := acts
      intro packet member
      rw [acted.sent]
      exact List.mem_append_left _ member
    exact {
      calls := callsAfter
      plain := plainAfter
      promises := promisesStand_turned holds.promises taken turned
      votes := votesStand_turned holds.plain plainAfter holds.calls.inSent sentMore holds.votes
        taken turned
      answers := by
        apply answersHold_acted holds.calls holds.answers acts
        · intro acceptor topic id report covered
          exact covered_turned plainAfter holds.promises taken turned covered
        · intro packet layout req request report backup accepts delivers body answer
          have given := (promiseOf_answer body answer).2
          have ledger := promises_answered delivers moved
          apply covered_answer holds.plain holds.votes above delivers body answer
            (votes_answered holds.plain delivers body moved)
          rw [ledger, given]
          exact List.mem_append_right _ List.mem_cons_self
      agree := acceptsAgree_acted holds.calls holds.agree keeps acts
      heard := acceptsHeard_acted holds.calls holds.heard (keepsQuorum_plain holds.plain event) acts
      counted := allCounted_acted holds.calls holds.plain holds.counted acts }

/-! ## The law of votes -/

/-- The votes and the ACCEPT packets for one topic, and the majorities of the
group. -/
def topicPoll (group : PaxosVersion) (world : PaxosWorld) (topic : Topic) :
    Poll Nat SId Value where
  votes := fun server id value =>
    { server := server, entry := { topic := topic, id := id, value := value } } ∈ world.votes
  proposed := fun id value => ∃ packet ∈ world.sent, ∃ version,
    packet.body = .accept topic id value version
  quorum := Majority group.servs.toFinset

/-- The servers whose promise a proposal of the group has heard lead it. -/
theorem led_heard (holds : GroupInvariant group world) {topic : Topic} {id : SId} {value : Value}
    {p : PaxosProposal} (found : (world.cores id.x).proposals.lookup id.y = some p)
    (onTopic : p.topic = topic) (isValue : p.value = value) {voter : Nat}
    (listens : voter ∈ heardFrom world.heard id) :
    (topicPoll group world topic).Led id value voter := by
  intro lower other voted below
  have normal := ((holds.plain.cores id.x).proposals id.y p found).type
  have counted := holds.counted id.x id.y p found normal
  have coveredBy : ∀ entry ∈ world.heard, entry.proposal = id →
      Covered world.votes world.promises entry.server topic id entry.report := by
    intro entry member isOwn
    obtain ⟨q, foundToo, covered⟩ := holds.answers.heard entry member
    rw [isOwn] at foundToo covered
    rw [Option.some.inj (foundToo.symm.trans found), onTopic] at covered
    exact covered
  obtain ⟨report, listed⟩ := mem_heardFrom.mp listens
  obtain ⟨highest, given, isReport, above⟩ :=
    (coveredBy _ listed rfl).covers _ voted rfl rfl below
  have reached := counted.below _ listed rfl highest given isReport
  rcases counted.leader with none | ⟨leader, leads, isOwn, isLeader⟩
  · -- the votes have ids above the one a proposal starts from
    obtain ⟨packet, sent, version, body⟩ := holds.votes.sent _ voted
    have plain := holds.plain.sent packet sent
    rw [body] at plain
    have lowest : (⟨0, 0⟩ : SId) < lower := (SId.lt_iff _ _).mpr (Or.inl plain.2.2)
    rw [none] at reached
    exact absurd (above.trans reached) (not_le.mpr lowest)
  · obtain ⟨lowerThan, leaderVoted⟩ := (coveredBy leader leads isOwn).source _ _ isLeader
    rw [isValue] at leaderVoted
    exact ⟨leader.server, p.response.maxId, above.trans reached, lowerThan, leaderVoted⟩

theorem topicPoll_law (holds : GroupInvariant group world) (topic : Topic) :
    (topicPoll group world topic).Law where
  meet := fun _ _ => Majority.meet
  cast := fun _ _ _ voted => holds.votes.sent _ voted
  single := by
    intro id first second proposedFirst proposedSecond
    obtain ⟨one, inOne, versionOne, bodyOne⟩ := proposedFirst
    obtain ⟨two, inTwo, versionTwo, bodyTwo⟩ := proposedSecond
    obtain ⟨_, p, agreesOne⟩ := holds.agree one inOne _ _ _ _ bodyOne
    obtain ⟨_, q, agreesTwo⟩ := holds.agree two inTwo _ _ _ _ bodyTwo
    have same := Option.some.inj (agreesOne.found.symm.trans agreesTwo.found)
    rw [← agreesOne.value, ← agreesTwo.value, same]
  led := by
    intro id value proposed
    obtain ⟨packet, sent, version, body⟩ := proposed
    obtain ⟨_, p, agrees⟩ := holds.agree packet sent _ _ _ _ body
    obtain ⟨q, found, majority⟩ := holds.heard.majority packet sent _ _ _ _ body
    have same := Option.some.inj (found.symm.trans agrees.found)
    have own := holds.calls.servers id.x
    have isGroup := ((holds.plain.cores id.x).proposals id.y p agrees.found).version
    rw [same, isGroup] at majority
    refine ⟨(heardFrom world.heard id).toFinset, ?_, ?_⟩
    · apply majority_of_list
      · exact (List.nodup_append.mp (own.askedOnce id.y)).2.1
      · intro server listens
        obtain ⟨report, inHeard⟩ := mem_heardFrom.mp listens
        obtain ⟨r, foundToo, listed⟩ := own.heardOf _ inHeard rfl
        rw [Option.some.inj (foundToo.symm.trans agrees.found), isGroup] at listed
        exact listed
      · unfold PaxosVersion.nserv at majority
        omega
    · intro voter member
      exact led_heard holds agrees.found agrees.topic agrees.value (List.mem_toFinset.mp member)

end

end SimpleDfs.Paxos
