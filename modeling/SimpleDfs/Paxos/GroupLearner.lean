import SimpleDfs.Paxos.GroupVotes
import SimpleDfs.Paxos.Rounds

/-!
Contract: what the learners of a group know of the votes.

Owns: that every entry of a learn table is a vote, that the majority test counts
voters, and what a turn reports.

Does not own: which votes are cast.
-/

set_option autoImplicit false

namespace SimpleDfs.Paxos

open SimpleDfs.Common
open SimpleDfs.Library

/-! ## Learn lists -/

theorem mem_raiseLearn {servId : Nat} {value : Value} {id : SId} {array : List PaxosLearn}
    {learn : PaxosLearn} (member : learn ∈ raiseLearn servId value id array) :
    learn ∈ array ∨ learn = { value := value, servId := servId, id := id } := by
  induction array with
  | nil => exact Or.inl member
  | cons head tail inductionHypothesis =>
      rw [raiseLearn] at member
      split at member
      next same =>
        rcases List.mem_cons.mp member with isHead | later
        · split at isHead
          · right
            rw [isHead, ← same.1, ← same.2]
          · exact Or.inl (isHead ▸ List.mem_cons_self)
        · exact Or.inl (List.mem_cons_of_mem head later)
      next =>
        rcases List.mem_cons.mp member with rfl | later
        · exact Or.inl List.mem_cons_self
        · exact (inductionHypothesis later).imp_left (List.mem_cons_of_mem head)

/-- The server and the value of an entry. -/
def PaxosLearn.source (learn : PaxosLearn) : Nat × Value :=
  (learn.servId, learn.value)

theorem raiseLearn_sources (servId : Nat) (value : Value) (id : SId) (array : List PaxosLearn) :
    (raiseLearn servId value id array).map PaxosLearn.source = array.map PaxosLearn.source := by
  induction array with
  | nil => rfl
  | cons head tail inductionHypothesis =>
      rw [raiseLearn]
      split
      · rw [List.map_cons, List.map_cons]
        split <;> rfl
      · rw [List.map_cons, List.map_cons, inductionHypothesis]

theorem mem_learnInto {servId : Nat} {value : Value} {id : SId} {array : List PaxosLearn}
    {learn : PaxosLearn} (member : learn ∈ learnInto servId value id array) :
    learn ∈ array ∨ learn = { value := value, servId := servId, id := id } := by
  unfold learnInto at member
  split at member
  · exact mem_raiseLearn member
  · rcases List.mem_append.mp member with old | new
    · exact Or.inl old
    · exact Or.inr (List.mem_singleton.mp new)

/-- A server has one entry for each value. -/
theorem learnInto_once {servId : Nat} {value : Value} {id : SId} {array : List PaxosLearn}
    (once : (array.map PaxosLearn.source).Nodup) :
    ((learnInto servId value id array).map PaxosLearn.source).Nodup := by
  unfold learnInto
  split
  · rw [raiseLearn_sources]
    exact once
  next absent =>
    rw [List.map_append, List.map_singleton]
    apply List.Nodup.append once (List.nodup_singleton _)
    intro source old new
    obtain ⟨learn, member, same⟩ := List.mem_map.mp old
    have isNew := (List.mem_singleton.mp new).symm.trans same.symm
    obtain ⟨isServer, isValue⟩ := Prod.mk.inj isNew
    apply absent
    rw [List.any_eq_true]
    exact ⟨learn, member, by simp [← isServer, ← isValue]⟩

/-! ## Learn tables -/

/-- Every entry of the table is a vote, and a server has one entry for each
topic and value. -/
structure Learned (votes : List Vote) (learn : Table Topic (List PaxosLearn)) : Prop where
  voted : ∀ topic array, learn.lookup topic = some array → ∀ entry ∈ array,
    { server := entry.servId
      entry := { topic := topic, id := entry.id, value := entry.value } } ∈ votes
  once : ∀ topic array, learn.lookup topic = some array → (array.map PaxosLearn.source).Nodup

section

variable {votes more : List Vote} {learn : Table Topic (List PaxosLearn)}

theorem learned_empty (votes : List Vote) : Learned votes ∅ :=
  ⟨fun _ _ found => (nomatch found), fun _ _ found => (nomatch found)⟩

theorem Learned.mono (learned : Learned votes learn) (grown : ∀ vote ∈ votes, vote ∈ more) :
    Learned more learn :=
  ⟨fun topic array found entry member => grown _ (learned.voted topic array found entry member),
    learned.once⟩

theorem Learned.insert (learned : Learned votes learn) (servId : Nat) {topic : Topic}
    {value : Value} {id : SId}
    (vote : { server := servId, entry := { topic := topic, id := id, value := value } } ∈ votes) :
    Learned votes
      (learn.insert topic (learnInto servId value id ((learn.lookup topic).getD []))) := by
  constructor
  · intro other array found entry member
    by_cases same : other = topic
    · subst same
      rw [← Option.some.inj ((AList.lookup_insert _).symm.trans found)] at member
      rcases mem_learnInto member with old | new
      · cases before : learn.lookup other with
        | none =>
            rw [before] at old
            exact absurd old List.not_mem_nil
        | some list =>
            rw [before] at old
            exact learned.voted other list before entry old
      · rw [new]
        exact vote
    · rw [AList.lookup_insert_ne same] at found
      exact learned.voted other array found entry member
  · intro other array found
    by_cases same : other = topic
    · subst same
      rw [← Option.some.inj ((AList.lookup_insert _).symm.trans found)]
      apply learnInto_once
      cases before : learn.lookup other with
      | none => exact List.nodup_nil
      | some list => exact learned.once other list before
    · rw [AList.lookup_insert_ne same] at found
      exact learned.once other array found

theorem Learned.entries (learned : Learned votes learn) (servId : Nat) (entries : List PaxosAccept)
    (voted : ∀ entry ∈ entries, { server := servId, entry := entry } ∈ votes) :
    Learned votes (learnEntries servId learn entries) := by
  induction entries generalizing learn with
  | nil => exact learned
  | cons entry rest inductionHypothesis =>
      apply inductionHypothesis
      · exact learned.insert servId (voted entry List.mem_cons_self)
      · exact fun other member => voted other (List.mem_cons_of_mem entry member)

theorem Learned.prune (learned : Learned votes learn) (keep : PaxosLearn → Bool) :
    Learned votes (learn.mapValues fun array => array.filter keep) := by
  constructor
  · intro topic array found entry member
    rw [Table.lookup_mapValues] at found
    obtain ⟨list, before, rfl⟩ := Option.map_eq_some_iff.mp found
    exact learned.voted topic list before entry (List.mem_of_mem_filter member)
  · intro topic array found
    rw [Table.lookup_mapValues] at found
    obtain ⟨list, before, rfl⟩ := Option.map_eq_some_iff.mp found
    exact (learned.once topic list before).sublist (List.filter_sublist.map _)

end

/-! ## The majority test -/

/-- An entry the majority test writes has passed half of the group, or the
shortcut holds. -/
theorem majorityScan_passes (nserv : Nat) (shortcut : Bool) {array : List PaxosLearn}
    {counted : List Value} {learn : PaxosLearn}
    (member : learn ∈ majorityScan nserv shortcut counted array) :
    learn ∈ array ∧ (shortcut = true ∨
      nserv / 2 < counted.count learn.value + (array.map PaxosLearn.value).count learn.value) := by
  induction array generalizing counted with
  | nil => exact absurd member List.not_mem_nil
  | cons head tail inductionHypothesis =>
      rw [majorityScan] at member
      have moved : (head.value :: counted).count learn.value +
          (tail.map PaxosLearn.value).count learn.value =
          counted.count learn.value +
            ((head :: tail).map PaxosLearn.value).count learn.value := by
        rw [List.map_cons, List.count_cons, List.count_cons]
        omega
      rw [← moved]
      split at member
      next passes =>
        rcases List.mem_cons.mp member with rfl | later
        · refine ⟨List.mem_cons_self, ?_⟩
          rw [Bool.or_eq_true, decide_eq_true_eq] at passes
          rcases passes with past | short
          · exact Or.inr (past.trans_le (Nat.le_add_right _ _))
          · exact Or.inl short
        · obtain ⟨inTail, passed⟩ := inductionHypothesis later
          exact ⟨List.mem_cons_of_mem head inTail, passed⟩
      next =>
        obtain ⟨inTail, passed⟩ := inductionHypothesis member
        exact ⟨List.mem_cons_of_mem head inTail, passed⟩

theorem majorityScan_counts (nserv : Nat) {array : List PaxosLearn} {counted : List Value}
    {learn : PaxosLearn} (member : learn ∈ majorityScan nserv false counted array) :
    nserv / 2 < counted.count learn.value + (array.map PaxosLearn.value).count learn.value := by
  rcases (majorityScan_passes nserv false member).2 with short | passed
  · cases short
  · exact passed

/-- A value that passes half of the group behind the entries counted is written. -/
theorem majorityScan_reports {nserv : Nat} {array : List PaxosLearn} {counted : List Value}
    {value : Value} (before : counted.count value ≤ nserv / 2)
    (passes : nserv / 2 < counted.count value + (array.map PaxosLearn.value).count value) :
    ∃ learn ∈ majorityScan nserv false counted array, learn.value = value := by
  induction array generalizing counted with
  | nil => exact absurd passes (not_lt.mpr before)
  | cons head tail inductionHypothesis =>
      have moved : (head.value :: counted).count value + (tail.map PaxosLearn.value).count value =
          counted.count value + ((head :: tail).map PaxosLearn.value).count value := by
        rw [List.map_cons, List.count_cons, List.count_cons]
        omega
      rw [← moved] at passes
      rw [majorityScan]
      by_cases still : (head.value :: counted).count value ≤ nserv / 2
      · obtain ⟨learn, scanned, isValue⟩ := inductionHypothesis still passes
        split
        · exact ⟨learn, List.mem_cons_of_mem head scanned, isValue⟩
        · exact ⟨learn, scanned, isValue⟩
      · -- the count passes half at this entry, which is then one of the value
        have isHead : head.value = value := by
          by_contra other
          rw [List.count_cons_of_ne other] at still
          exact still before
        have past : (decide ((head.value :: counted).count head.value > nserv / 2) || false) =
            true := by
          rw [isHead] at still ⊢
          simpa using still
        rw [if_pos past]
        exact ⟨head, List.mem_cons_self, isHead⟩

/-- The members of a group that have voted for an entry that passes the test. -/
def PaxosWorld.voters (world : PaxosWorld) (group : PaxosVersion) (test : PaxosAccept → Bool) :
    List Nat :=
  group.servs.filter fun server =>
    world.votes.any fun vote => vote.server == server && test vote.entry

/-- The entry is one for the topic and the value. -/
def isFor (topic : Topic) (value : Value) (entry : PaxosAccept) : Bool :=
  entry.topic == topic && entry.value == value

theorem mem_voters {world : PaxosWorld} {group : PaxosVersion} {test : PaxosAccept → Bool}
    {server : Nat} : server ∈ world.voters group test ↔
      server ∈ group.servs ∧ ∃ vote ∈ world.votes, vote.server = server ∧ test vote.entry := by
  unfold PaxosWorld.voters
  rw [List.mem_filter, List.any_eq_true]
  simp only [Bool.and_eq_true, beq_iff_eq]

/-- The servers with an entry for the value are as many as the entries. -/
theorem count_holders {array : List PaxosLearn} (once : (array.map PaxosLearn.source).Nodup)
    (value : Value) :
    ∃ holders : List Nat, holders.Nodup ∧
      holders.length = (array.map PaxosLearn.value).count value ∧
      ∀ server, server ∈ holders ↔
        ∃ learn ∈ array, learn.servId = server ∧ learn.value = value := by
  let equal := array.filter fun learn => learn.value == value
  have member : ∀ learn ∈ equal, learn ∈ array ∧ learn.value = value := fun learn listed =>
    ⟨(List.mem_filter.mp listed).1, beq_iff_eq.mp (List.mem_filter.mp listed).2⟩
  have sources : equal.map PaxosLearn.source =
      (equal.map PaxosLearn.servId).map fun server => (server, value) := by
    rw [List.map_map]
    apply List.map_congr_left
    intro learn listed
    show (learn.servId, learn.value) = (learn.servId, value)
    rw [(member learn listed).2]
  refine ⟨equal.map PaxosLearn.servId, ?_, ?_, ?_⟩
  · have shorter : equal.Sublist array := List.filter_sublist
    have distinct := once.sublist (shorter.map PaxosLearn.source)
    rw [sources] at distinct
    exact distinct.of_map _
  · rw [List.length_map, List.count, List.countP_map, List.countP_eq_length_filter]
    rfl
  · intro server
    constructor
    · intro listed
      obtain ⟨learn, isEqual, same⟩ := List.mem_map.mp listed
      exact ⟨learn, (member learn isEqual).1, same, (member learn isEqual).2⟩
    · rintro ⟨learn, listed, same, isValue⟩
      exact List.mem_map.mpr
        ⟨learn, List.mem_filter.mpr ⟨listed, beq_iff_eq.mpr isValue⟩, same⟩

theorem learns_idumpLearn (layout : Layout) (paxos : SPaxos) (topic : Topic) :
    (idumpLearn layout paxos).1.learns topic =
      (paxos.learns topic).filter fun learn => sPaxosIsIn paxos learn.servId := by
  unfold idumpLearn SPaxos.learns
  dsimp only
  rw [Table.lookup_mapValues]
  cases paxos.learn.lookup topic <;> rfl

/-- `idump_learn` writes the values that have passed half of the members in the
list of their topic. -/
theorem mem_dump_iff {layout : Layout} {paxos : SPaxos} {topic : Topic} {value : Value} :
    (∃ entry ∈ (idumpLearn layout paxos).2.entries, entry.topic = topic ∧ entry.value = value) ↔
      paxos.version.nserv / 2 <
        (((idumpLearn layout paxos).1.learns topic).map PaxosLearn.value).count value := by
  have entries : (idumpLearn layout paxos).2.entries =
      (layout.topics.arrange (idumpLearn layout paxos).1.learn.keys).flatMap fun topic =>
        (majorityScan paxos.version.nserv false []
          ((idumpLearn layout paxos).1.learns topic)).map fun learn =>
            { topic := topic, id := learn.id, value := learn.value } := rfl
  rw [entries]
  generalize (idumpLearn layout paxos).1 = pruned
  constructor
  · rintro ⟨entry, dumped, rfl, rfl⟩
    obtain ⟨topic, _, listed⟩ := List.mem_flatMap.mp dumped
    obtain ⟨learn, scanned, rfl⟩ := List.mem_map.mp listed
    have passes := majorityScan_counts paxos.version.nserv scanned
    rw [List.count_nil, Nat.zero_add] at passes
    exact passes
  · intro passes
    have counted : paxos.version.nserv / 2 <
        ([] : List Value).count value + ((pruned.learns topic).map PaxosLearn.value).count value := by
      rw [List.count_nil, Nat.zero_add]
      exact passes
    obtain ⟨learn, scanned, rfl⟩ := majorityScan_reports (Nat.zero_le _) counted
    have inside : topic ∈ pruned.learn.keys := by
      by_contra absent
      have nothing : pruned.learns topic = [] := by
        unfold SPaxos.learns
        rw [AList.lookup_eq_none.mpr absent]
        rfl
      rw [nothing] at scanned
      exact absurd scanned List.not_mem_nil
    have listed := (layout.topics.mem_arrange _ topic).mpr inside
    exact ⟨_, List.mem_flatMap.mpr ⟨topic, listed, List.mem_map.mpr ⟨learn, scanned, rfl⟩⟩, rfl, rfl⟩

/-- **The majority test counts voters.**  A value that `idump_learn` writes has
been voted for by more than half of the members. -/
theorem voters_of_dump {world : PaxosWorld} {group : PaxosVersion} {layout : Layout}
    {paxos : SPaxos} (version : paxos.version = group) (learned : Learned world.votes paxos.learn)
    {entry : PaxosAccept} (dumped : entry ∈ (idumpLearn layout paxos).2.entries) :
    group.nserv / 2 < (world.voters group (isFor entry.topic entry.value)).length := by
  have passes := mem_dump_iff.mp ⟨entry, dumped, rfl, rfl⟩
  rw [version, learns_idumpLearn, SPaxos.learns] at passes
  cases found : paxos.learn.lookup entry.topic with
  | none =>
      rw [found] at passes
      exact absurd passes (Nat.not_lt_zero _)
  | some array =>
      rw [found, Option.getD_some] at passes
      have shorter : (array.filter fun learn => sPaxosIsIn paxos learn.servId).Sublist array :=
        List.filter_sublist
      have once := (learned.once entry.topic array found).sublist (shorter.map PaxosLearn.source)
      obtain ⟨holders, distinct, length, hold⟩ := count_holders once entry.value
      rw [← length] at passes
      have inside : holders ⊆ world.voters group (isFor entry.topic entry.value) := by
        intro server member
        obtain ⟨learn, listed, isServer, isValue⟩ := (hold server).mp member
        obtain ⟨inArray, isMember⟩ := List.mem_filter.mp listed
        unfold sPaxosIsIn at isMember
        rw [version, isServer, List.contains_iff_mem] at isMember
        have voted := learned.voted entry.topic array found learn inArray
        refine mem_voters.mpr ⟨isMember, _, voted, isServer, ?_⟩
        simp [isFor, isValue]
      exact lt_of_lt_of_le passes (distinct.subperm inside).length_le

/-! ## Turns -/

/-- Learn tables and the answers to learn requests hold votes. -/
structure LearnsVoted (world : PaxosWorld) : Prop where
  tables : ∀ server, Learned world.votes (world.cores server).paxos.learn
  replies : ∀ packet ∈ world.sent, ∀ req reply, packet.body = .rpcBack req (.learn reply) →
    ∀ entry ∈ reply.entries, { server := packet.src, entry := entry } ∈ world.votes

section

variable {group : PaxosVersion} {world after : PaxosWorld} {event : PaxosEvent} {server : Nat}
  {promises : List Promise} {paxos : SPaxos} {reported : List PaxosAccept}

/-- The reply that ends a call lists votes of the server called. -/
theorem voted_endsCall (kept : CallsKept world) (voted : LearnsVoted world) {peer req : Nat}
    {reply : Option LearnReply} (ends : EndsCall world event server peer req (reply.map .learn)) :
    ∀ given, reply = some given → ∀ entry ∈ given.entries,
      { server := peer, entry := entry } ∈ world.votes := by
  intro given same
  rw [same] at ends
  cases ends with
  | reply layout packet _ delivers src dst carries =>
      intro entry member
      rw [← src]
      exact voted.replies packet (kept.inSent packet delivers.mem) req given carries entry member

theorem learned_learnReply {before : SPaxos} (learned : Learned world.votes before.learn)
    (servId : Nat) {reply : Option LearnReply}
    (voted : ∀ given, reply = some given → ∀ entry ∈ given.entries,
      { server := servId, entry := entry } ∈ world.votes) :
    Learned world.votes (learnReply servId before reply).learn := by
  cases reply with
  | none => exact learned
  | some reply => exact learned.entries servId reply.entries (voted reply rfl)

/-- A turn leaves the learn table with votes only. -/
theorem learned_turn (kept : CallsKept world) (plain : GroupKept group world)
    (voted : LearnsVoted world) (turn : Turn world event server promises paxos reported) :
    Learned world.votes paxos.learn := by
  have own := plain.cores server
  have learned := voted.tables server
  cases turn with
  | idle _ accept response learn =>
      rcases learn with same | cleared
      · rw [same]
        exact learned
      · rw [cleared]
        exact learned_empty _
  | prepare packet req request layout delivers dst body =>
      rw [(ireceiveRequest_tables layout (world.cores server).paxos request).2.1]
      exact learned
  | accept packet topic id value version layout delivers dst body =>
      obtain ⟨accept, same⟩ := iaccept_eq (world.cores server).paxos topic id value version
      rw [same]
      exact learned
  | learn call reply layout search isLearn ends =>
      have replied := learned_learnReply learned call.peer (voted_endsCall kept voted ends)
      rcases ireceiveLearn_plain layout (world.cores server).id call.peer reply own.version
        own.learns (plain_endsCall plain ends) with whole | refused
      · rw [whole]
        rcases reportIfLast_learn layout (learnReply call.peer (world.cores server).paxos reply) with
          same | pruned
        · rw [same]
          exact replied
        · rw [pruned]
          exact replied.prune _
      · rw [refused]
        exact learned

theorem learnsVoted_step (kept : CallsKept world) (plain : GroupKept group world)
    (stand : VotesStand world) (voted : LearnsVoted world) (acts : OneActs world event after)
    (turn : Turn world event server promises paxos reported)
    (turned : Turned world after server promises paxos reported) : LearnsVoted after := by
  have votesMore : ∀ vote ∈ world.votes, vote ∈ after.votes := by
    intro vote member
    rw [turned.votes]
    exact List.mem_append_left _ member
  constructor
  · intro other
    by_cases same : other = server
    · rw [same, turned.own]
      exact (learned_turn kept plain voted turn).mono votesMore
    · rw [turned.others other same]
      exact (voted.tables other).mono votesMore
  · obtain ⟨actor, _, _, _, core, handled, acted⟩ := acts
    intro packet member req reply body entry listed
    rw [acted.sent] at member
    rcases List.mem_append.mp member with old | new
    · exact votesMore _ (voted.replies packet old req reply body entry listed)
    · obtain ⟨asked, layout, _, _, src, _, answer⟩ :=
        answer_handled kept handled new (by rw [body]; rfl)
      rcases answer with ⟨_, request, _, isReply⟩ | ⟨number, version, _, isReply⟩
      · rw [body] at isReply
        cases isReply
      · rw [body] at isReply
        obtain ⟨_, sameReply⟩ := PaxosBody.rpcBack.inj isReply
        rw [RpcReply.learn.inj sameReply] at listed
        obtain ⟨topic, _, inTable⟩ := List.mem_flatMap.mp listed
        rw [src]
        exact votesMore _ (stand.listed actor topic entry inTable)

/-- **What a turn reports has been voted for by more than half of the
members.** -/
theorem voters_of_turn (kept : CallsKept world) (plain : GroupKept group world)
    (voted : LearnsVoted world) (turn : Turn world event server promises paxos reported) :
    ∀ entry ∈ reported,
      group.nserv / 2 < (world.voters group (isFor entry.topic entry.value)).length := by
  have own := plain.cores server
  intro entry member
  cases turn with
  | idle _ accept response learn => exact absurd member List.not_mem_nil
  | prepare packet req request layout delivers dst body => exact absurd member List.not_mem_nil
  | accept packet topic id value version layout delivers dst body =>
      exact absurd member List.not_mem_nil
  | learn call reply layout search isLearn ends =>
      have replied := learned_learnReply (voted.tables server) call.peer
        (voted_endsCall kept voted ends)
      rcases ireceiveLearn_plain layout (world.cores server).id call.peer reply own.version
        own.learns (plain_endsCall plain ends) with whole | refused
      · rw [whole] at member
        unfold reportIfLast at member
        split at member
        · have version : (learnReply call.peer (world.cores server).paxos reply).version = group := by
            cases reply <;> exact own.version
          exact voters_of_dump version replied member
        · exact absurd member List.not_mem_nil
      · rw [refused] at member
        exact absurd member List.not_mem_nil

end

end SimpleDfs.Paxos
