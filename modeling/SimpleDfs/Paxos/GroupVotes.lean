import SimpleDfs.Paxos.Answers
import SimpleDfs.Paxos.GroupTurns
import SimpleDfs.Paxos.Promises

/-!
Contract: the votes, the promises and the reports of a group.  A promise covers
every vote its acceptor has cast below it, as long as no request meets an entry
that is not below it.

Owns: what a turn does to an accept table, the ledger of votes, and what a
report says of the votes.

Does not own: which value a proposal takes from the reports.
-/

set_option autoImplicit false

namespace SimpleDfs.Paxos

open SimpleDfs.Common
open SimpleDfs.Library

/-! ## Accept lists -/

/-- An entry of an accept list is kept, if under a higher id. -/
theorem acceptInto_keeps {topic : Topic} {id : SId} {value : Value} {list : List PaxosAccept}
    {entry : PaxosAccept} (member : entry ∈ list) :
    ∃ later ∈ acceptInto topic id value list, later.value = entry.value ∧ entry.id ≤ later.id := by
  induction list with
  | nil => exact absurd member List.not_mem_nil
  | cons head tail inductionHypothesis =>
      rw [acceptInto]
      split
      next same =>
        rcases List.mem_cons.mp member with rfl | later
        · split
          next above => exact ⟨_, List.mem_cons_self, rfl, ((sIdGt_iff _ _).mp above).le⟩
          next => exact ⟨_, List.mem_cons_self, rfl, le_rfl⟩
        · exact ⟨entry, List.mem_cons_of_mem _ later, rfl, le_rfl⟩
      next =>
        rcases List.mem_cons.mp member with rfl | later
        · exact ⟨_, List.mem_cons_self, rfl, le_rfl⟩
        · obtain ⟨kept, listed, same, above⟩ := inductionHypothesis later
          exact ⟨kept, List.mem_cons_of_mem _ listed, same, above⟩

/-! ## Turns and accept tables -/

section

variable {group : PaxosVersion} {world after : PaxosWorld} {event : PaxosEvent} {server : Nat}
  {promises : List Promise} {paxos : SPaxos} {reported : List PaxosAccept}

/-- `ireceive_learn` leaves the accept table of a group. -/
theorem ireceiveLearn_accept (layout : Layout) (coreId servId : Nat) {before : SPaxos}
    {reply : Option LearnReply} (version : before.version = group)
    (plain : ∀ topic ∈ before.learn, IsPlain group topic)
    (new : ∀ given, reply = some given → ∀ entry ∈ given.entries, IsPlain group entry.topic) :
    (ireceiveLearn layout coreId servId before reply).1.accept = before.accept := by
  have learned : (learnReply servId before reply).accept = before.accept := by
    cases reply <;> rfl
  rcases ireceiveLearn_plain layout coreId servId reply version plain new with whole | refused
  · rw [whole]
    rcases reportIfLast_learn layout (learnReply servId before reply) with same | pruned
    · rw [same, learned]
    · rw [pruned]
      exact learned
  · rw [refused]

/-- The reply that ends a learn call lists plain topics. -/
theorem plain_endsCall (kept : GroupKept group world) {peer req : Nat} {reply : Option LearnReply}
    (ends : EndsCall world event server peer req (reply.map .learn)) :
    ∀ given, reply = some given → ∀ entry ∈ given.entries, IsPlain group entry.topic := by
  intro given same
  rw [same] at ends
  cases ends with
  | reply layout packet _ delivers src dst carries =>
      have plain := kept.net packet delivers.mem
      rw [carries] at plain
      exact plain

/-- What a turn writes into the accept table: nothing, or the entry of an
ACCEPT that no promise refuses. -/
theorem turn_accepts (kept : GroupKept group world)
    (turn : Turn world event server promises paxos reported) :
    paxos.accept = (world.cores server).paxos.accept ∨
      ∃ packet topic id value version, packet ∈ world.net ∧ packet.dst = server ∧
        packet.body = .accept topic id value version ∧
        paxos.accept = (world.cores server).paxos.accept.insert topic
          (acceptInto topic id value ((world.cores server).paxos.accepts topic)) := by
  have own := kept.cores server
  cases turn with
  | idle _ accept response learn => exact Or.inl accept
  | prepare packet req request layout delivers dst body =>
      left
      unfold ireceiveRequest
      dsimp only
      split <;> rfl
  | accept packet topic id value version layout delivers dst body =>
      unfold iaccept
      dsimp only
      split
      · exact Or.inl rfl
      · split
        · exact Or.inl rfl
        · split
          · exact Or.inl rfl
          · exact Or.inr ⟨packet, topic, id, value, version, delivers.mem, dst, body, rfl⟩
  | learn call reply layout search isLearn ends =>
      exact Or.inl (ireceiveLearn_accept layout _ _ own.version own.learns (plain_endsCall kept ends))

/-- Every turn honours the promises of the server. -/
theorem honours_turn (turn : Turn world event server promises paxos reported) :
    Honours (world.cores server).paxos paxos := by
  cases turn with
  | idle _ accept response learn => exact Honours.of_same response accept
  | prepare packet req request layout delivers dst body => exact honours_ireceiveRequest _ _ _
  | accept packet topic id value version layout delivers dst body => exact honours_iaccept _ _ _ _ _
  | learn call reply layout search isLearn ends =>
      exact (learnerClosed_honours layout _).calls.ireceiveLearn call.peer _ reply

theorem accepts_congr {first second : SPaxos} (same : first.accept = second.accept)
    (topic : Topic) : first.accepts topic = second.accepts topic := by
  unfold SPaxos.accepts
  rw [same]

theorem accepts_write {first second : SPaxos} {topic : Topic} {list : List PaxosAccept}
    (write : first.accept = second.accept.insert topic list) (other : Topic) :
    first.accepts other = if other = topic then list else second.accepts other := by
  rw [← accepts_insert second topic other list]
  exact accepts_congr write other

theorem mem_newEntries {before later : SPaxos} {entry : PaxosAccept}
    (listed : entry ∈ later.accepts entry.topic) (new : entry ∉ before.accepts entry.topic) :
    entry ∈ newEntries before later := by
  unfold newEntries
  refine List.mem_filter.mpr ⟨List.mem_flatMap.mpr ⟨entry.topic, ?_, listed⟩, by simp [new]⟩
  unfold SPaxos.accepts at listed
  cases found : later.accept.lookup entry.topic with
  | none =>
      rw [found] at listed
      exact absurd listed List.not_mem_nil
  | some list => exact AList.mem_keys.mp (AList.lookup_isSome.mp (by rw [found]; rfl))

theorem of_mem_newEntries {before later : SPaxos} {entry : PaxosAccept}
    (member : entry ∈ newEntries before later) :
    (∃ topic, entry ∈ later.accepts topic) ∧ entry ∉ before.accepts entry.topic := by
  unfold newEntries at member
  obtain ⟨listed, new⟩ := List.mem_filter.mp member
  obtain ⟨topic, _, inList⟩ := List.mem_flatMap.mp listed
  exact ⟨⟨topic, inList⟩, by simpa using new⟩

/-! ## The ledger of votes -/

/-- Every promise stands in its acceptor. -/
def PromisesStand (world : PaxosWorld) : Prop :=
  ∀ promise ∈ world.promises, ∃ pid,
    (world.cores promise.server).paxos.response.lookup promise.topic = some pid ∧ promise.id ≤ pid

/-- The votes are the entries of the accept tables, and those are of ACCEPT
packets.  A vote stays in its table, if under a higher id. -/
structure VotesStand (world : PaxosWorld) : Prop where
  listed : ∀ server topic, ∀ entry ∈ (world.cores server).paxos.accepts topic,
    { server := server, entry := entry } ∈ world.votes
  kept : ∀ vote ∈ world.votes,
    ∃ entry ∈ (world.cores vote.server).paxos.accepts vote.entry.topic,
      entry.value = vote.entry.value ∧ vote.entry.id ≤ entry.id
  sent : ∀ vote ∈ world.votes, ∃ packet ∈ world.sent, ∃ version,
    packet.body = .accept vote.entry.topic vote.entry.id vote.entry.value version

/-- What an acceptor's answer to a prepare request says of its votes. -/
structure Covered (votes : List Vote) (promises : List Promise) (server : Nat) (topic : Topic)
    (id : SId) (report : Option (SId × Value)) : Prop where
  promised : { server := server, topic := topic, id := id } ∈ promises
  covers : ∀ vote ∈ votes, vote.server = server → vote.entry.topic = topic →
    vote.entry.id < id → ∃ highest value, report = some (highest, value) ∧ vote.entry.id ≤ highest
  source : ∀ highest value, report = some (highest, value) → highest < id ∧
    { server := server, entry := { topic := topic, id := highest, value := value } } ∈ votes

theorem promisesStand_turned (stand : PromisesStand world)
    (turn : Turn world event server promises paxos reported)
    (turned : Turned world after server promises paxos reported) :
    PromisesStand after := by
  intro promise member
  rw [turned.promises] at member
  rcases List.mem_append.mp member with old | new
  · obtain ⟨pid, found, below⟩ := stand promise old
    by_cases same : promise.server = server
    · rw [same] at found ⊢
      obtain ⟨later, foundLater, above⟩ := (honours_turn turn).raised promise.topic pid found
      rw [turned.own]
      exact ⟨later, foundLater, below.trans above⟩
    · rw [turned.others promise.server same]
      exact ⟨pid, found, below⟩
  · cases turn with
    | idle _ accept response learn => exact absurd new List.not_mem_nil
    | prepare packet req request layout delivers dst body =>
        unfold promiseOf at new
        rw [body] at new
        dsimp only at new
        split at new
        next sameVersion =>
          rw [List.mem_singleton.mp new, dst, turned.own]
          exact promised_of_ireceiveRequest layout _ request sameVersion
        next => exact absurd new List.not_mem_nil
    | accept packet topic id value version layout delivers dst body =>
        exact absurd new List.not_mem_nil
    | learn call reply layout search isLearn ends => exact absurd new List.not_mem_nil

/-- A new vote of a turn is for the ACCEPT it handled. -/
theorem vote_turn (kept : GroupKept group world)
    (turn : Turn world event server promises paxos reported) {entry : PaxosAccept}
    (new : entry ∈ newEntries (world.cores server).paxos paxos) :
    ∃ packet ∈ world.net, ∃ version, packet.body = .accept entry.topic entry.id entry.value version := by
  obtain ⟨⟨topic, listed⟩, absent⟩ := of_mem_newEntries new
  rcases turn_accepts kept turn with same | ⟨packet, target, id, value, version, member, _, body, write⟩
  · rw [accepts_congr same] at listed
    rw [((kept.cores server).accepts topic entry listed).1] at absent
    exact absurd listed absent
  · rw [accepts_write write] at listed
    split at listed
    · rcases mem_acceptInto listed with old | isNew
      · rw [((kept.cores server).accepts target entry old).1] at absent
        exact absurd old absent
      · exact ⟨packet, member, version, by rw [isNew, body]⟩
    next =>
      rw [((kept.cores server).accepts topic entry listed).1] at absent
      exact absurd listed absent

theorem votesStand_turned (kept : GroupKept group world) (keptAfter : GroupKept group after)
    (inSent : ∀ packet ∈ world.net, packet ∈ world.sent)
    (sentMore : ∀ packet ∈ world.sent, packet ∈ after.sent) (stand : VotesStand world)
    (turn : Turn world event server promises paxos reported)
    (turned : Turned world after server promises paxos reported) : VotesStand after := by
  have votesMore : ∀ vote ∈ world.votes, vote ∈ after.votes := by
    intro vote member
    rw [turned.votes]
    exact List.mem_append_left _ member
  have fresh : ∀ entry ∈ newEntries (world.cores server).paxos paxos,
      { server := server, entry := entry } ∈ after.votes := by
    intro entry new
    rw [turned.votes]
    exact List.mem_append_right _ (List.mem_map.mpr ⟨entry, new, rfl⟩)
  constructor
  · intro other topic entry listed
    by_cases same : other = server
    · rw [same] at listed ⊢
      have onTopic := ((keptAfter.cores server).accepts topic entry listed).1
      rw [turned.own, ← onTopic] at listed
      by_cases old : entry ∈ (world.cores server).paxos.accepts entry.topic
      · exact votesMore _ (stand.listed server entry.topic entry old)
      · exact fresh entry (mem_newEntries listed old)
    · rw [turned.others other same] at listed
      exact votesMore _ (stand.listed other topic entry listed)
  · intro vote member
    rw [turned.votes] at member
    rcases List.mem_append.mp member with old | new
    · obtain ⟨entry, listed, sameValue, above⟩ := stand.kept vote old
      by_cases same : vote.server = server
      · rw [same] at listed ⊢
        rw [turned.own]
        rcases turn_accepts kept turn with unchanged | ⟨_, target, _, _, _, _, _, _, write⟩
        · rw [accepts_congr unchanged]
          exact ⟨entry, listed, sameValue, above⟩
        · rw [accepts_write write]
          split
          next sameTopic =>
            rw [sameTopic] at listed
            obtain ⟨later, listedLater, valueLater, higher⟩ := acceptInto_keeps listed
            exact ⟨later, listedLater, valueLater.trans sameValue, above.trans higher⟩
          next => exact ⟨entry, listed, sameValue, above⟩
      · rw [turned.others vote.server same]
        exact ⟨entry, listed, sameValue, above⟩
    · obtain ⟨entry, isNew, rfl⟩ := List.mem_map.mp new
      obtain ⟨⟨topic, listed⟩, _⟩ := of_mem_newEntries isNew
      have own := turned.own
      rw [← own] at listed
      have onTopic := ((keptAfter.cores server).accepts topic entry listed).1
      exact ⟨entry, onTopic ▸ listed, rfl, le_rfl⟩
  · intro vote member
    rw [turned.votes] at member
    rcases List.mem_append.mp member with old | new
    · obtain ⟨packet, sent, version, body⟩ := stand.sent vote old
      exact ⟨packet, sentMore packet sent, version, body⟩
    · obtain ⟨entry, isNew, rfl⟩ := List.mem_map.mp new
      obtain ⟨packet, flying, version, body⟩ := vote_turn kept turn isNew
      exact ⟨packet, sentMore packet (inSent packet flying), version, body⟩

/-- **A promise keeps covering the votes of its acceptor.**  Below a promise no
vote is cast. -/
theorem covered_turned (keptAfter : GroupKept group after) (stand : PromisesStand world)
    (turn : Turn world event server promises paxos reported)
    (turned : Turned world after server promises paxos reported) {acceptor : Nat} {topic : Topic}
    {id : SId} {report : Option (SId × Value)}
    (covered : Covered world.votes world.promises acceptor topic id report) :
    Covered after.votes after.promises acceptor topic id report := by
  constructor
  · rw [turned.promises]
    exact List.mem_append_left _ covered.promised
  · intro vote member isServer onTopic below
    rw [turned.votes] at member
    rcases List.mem_append.mp member with old | new
    · exact covered.covers vote old isServer onTopic below
    · obtain ⟨entry, isNew, rfl⟩ := List.mem_map.mp new
      obtain ⟨⟨listTopic, listed⟩, absent⟩ := of_mem_newEntries isNew
      obtain ⟨pid, found, promised⟩ := stand _ covered.promised
      dsimp only at isServer onTopic below found promised
      rw [← isServer, ← onTopic] at found
      rw [← turned.own] at listed
      have sameTopic := ((keptAfter.cores server).accepts listTopic entry listed).1
      rw [← sameTopic, turned.own] at listed
      have old := (honours_turn turn).respected entry.topic pid found entry listed
        (below.trans_le promised)
      exact absurd old absent
  · intro highest value isReport
    obtain ⟨below, voted⟩ := covered.source highest value isReport
    refine ⟨below, ?_⟩
    rw [turned.votes]
    exact List.mem_append_left _ voted

/-! ## The condition on requests -/

/-- The request meets only entries below its id. -/
def requestAbove (core : Core) (packet : PaxosPacket) : Bool :=
  match packet.body with
  | .request _ request =>
      (core.paxos.accepts request.topic).all fun accept => sIdGt request.id accept.id
  | _ => true

/-- No event hands an acceptor a prepare request under an id that one of its
entries has reached. -/
def keepsAbove (world : PaxosWorld) : PaxosEvent → Bool
  | .deliver index _ =>
      match Packet.takeAt world.net index with
      | some (packet, _) => requestAbove (world.cores packet.dst) packet
      | none => true
  | _ => true

theorem above_of_delivers {layout : Layout} {packet : PaxosPacket} {req : Nat}
    {request : PrepareRequest} (keeps : keepsAbove world event = true)
    (delivers : Delivers world event layout packet) (body : packet.body = .request req request) :
    ∀ entry ∈ (world.cores packet.dst).paxos.accepts request.topic, entry.id < request.id := by
  obtain ⟨index, rest, caused, taken⟩ := delivers
  rw [caused, keepsAbove, taken] at keeps
  dsimp only at keeps
  unfold requestAbove at keeps
  rw [body] at keeps
  intro entry listed
  exact (sIdGt_iff _ _).mp (List.all_eq_true.mp keeps entry listed)

/-- The promise in an answer covers the votes cast so far. -/
theorem covered_answer (kept : GroupKept group world) (stand : VotesStand world)
    (keeps : keepsAbove world event = true) {layout : Layout} {packet : PaxosPacket} {req : Nat}
    {request : PrepareRequest} {report : Option (SId × Value)} {backup : List PaxosAccept}
    {accepts : List (Topic × List PaxosAccept)} (delivers : Delivers world event layout packet)
    (body : packet.body = .request req request)
    (answer : (ireceiveRequest layout (world.cores packet.dst).paxos request).2 =
      .promise report backup accepts)
    (sameVotes : after.votes = world.votes)
    (promised : { server := packet.dst, topic := request.topic, id := request.id } ∈
      after.promises) :
    Covered after.votes after.promises packet.dst request.topic request.id report := by
  have own := kept.cores packet.dst
  have below := above_of_delivers keeps delivers body
  have spec := prepareReport_first request.id ((world.cores packet.dst).paxos.accepts request.topic)
  generalize found : prepareReport request.id
    ((world.cores packet.dst).paxos.accepts request.topic) = best at spec
  have isReport : report = if best.2.toInt < 0 then none else some best := by
    unfold ireceiveRequest at answer
    dsimp only at answer
    split at answer
    · cases answer
    · rw [← found]
      exact (PrepareReply.promise.inj answer).1.symm
  constructor
  · exact promised
  · intro vote member isServer onTopic lower
    rw [sameVotes] at member
    obtain ⟨entry, listed, _, higher⟩ := stand.kept vote member
    rw [isServer, onTopic] at listed
    have reached := spec.1 entry listed (below entry listed)
    have positive := (own.accepts request.topic entry listed).2.2.2
    rcases spec.2 with none | ⟨_, _, accept, found, isBest⟩
    · rw [none] at reached
      have lowest : (⟨0, 0⟩ : SId) < entry.id := (SId.lt_iff _ _).mpr (Or.inl positive)
      exact absurd reached (not_le.mpr lowest)
    · have acceptListed := List.mem_of_find?_eq_some found
      have nonneg := (own.accepts request.topic accept acceptListed).2.2.1
      rw [isBest] at isReport reached
      rw [isReport, if_neg (not_lt.mpr nonneg)]
      exact ⟨accept.id, accept.value, rfl, higher.trans reached⟩
  · intro highest value same
    rw [isReport] at same
    split at same
    · cases same
    next nonneg =>
      have isPair := Option.some.inj same
      rcases spec.2 with none | ⟨_, lower, accept, found, isBest⟩
      · rw [none] at nonneg
        exact absurd (by decide) nonneg
      · rw [isBest] at isPair
        obtain ⟨rfl, rfl⟩ := Prod.mk.inj isPair
        rw [isBest] at lower
        refine ⟨lower, ?_⟩
        rw [sameVotes]
        have acceptListed := List.mem_of_find?_eq_some found
        have onTopic := (own.accepts request.topic accept acceptListed).1
        have voted := stand.listed packet.dst request.topic accept acceptListed
        rw [← onTopic]
        exact voted

end

end SimpleDfs.Paxos
