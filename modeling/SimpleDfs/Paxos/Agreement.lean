import SimpleDfs.Paxos.GroupLeader
import SimpleDfs.Paxos.GroupLearner

/-!
Contract: agreement on a topic in a group.  A learner counts the accepted
entries by their values, not by their proposals, so what it reports is chosen
only where one proposal has the votes.

Owns: the condition on counts, the agreement of all reports, and runs without
one of the conditions.

Does not own: how a report comes to be.
-/

set_option autoImplicit false

namespace SimpleDfs.Paxos

open SimpleDfs.Common
open SimpleDfs.Library

/-! ## The condition on counts -/

/-- Each value with the votes of more than half of the group has those of more
than half under one proposal. -/
def oneProposalEach (world : PaxosWorld) (group : PaxosVersion) : Bool :=
  world.votes.all fun vote =>
    let sameValue := isFor vote.entry.topic vote.entry.value
    decide ((world.voters group sameValue).length ≤ group.nserv / 2) ||
      world.votes.any fun other =>
        sameValue other.entry &&
          decide (group.nserv / 2 < (world.voters group fun entry => entry == other.entry).length)

/-- If the end of the call lets the server count, it counts no value under
different proposals only. -/
def countsOneProposal (world : PaxosWorld) (server peer req : Nat) : Bool :=
  match (world.cores server).callTo peer req with
  | some { callback := .receiveLearn, .. } =>
      (world.cores server).paxos.learnReqCount != 1 ||
        oneProposalEach world (world.cores server).paxos.version
  | _ => true

/-- No event lets a server count a value that only different proposals together
bring past the majority. -/
def keepsOneProposal (world : PaxosWorld) : PaxosEvent → Bool
  | .deliver index _ =>
      match Packet.takeAt world.net index with
      | some (packet, _) =>
          match packet.body with
          | .rpcBack req _ => countsOneProposal world packet.dst packet.src req
          | _ => true
      | none => true
  | .timeout server peer req _ => countsOneProposal world server peer req
  | _ => true

/-- The three conditions of agreement. -/
def agrees (world : PaxosWorld) (event : PaxosEvent) : Bool :=
  keepsValue world event && keepsAbove world event && keepsOneProposal world event

section

variable {group : PaxosVersion} {world after : PaxosWorld} {event : PaxosEvent} {server : Nat}
  {promises : List Promise} {paxos : SPaxos} {reported : List PaxosAccept}

theorem counts_of_ends (keeps : keepsOneProposal world event = true) {peer req : Nat}
    {reply : Option RpcReply} (ends : EndsCall world event server peer req reply) :
    countsOneProposal world server peer req = true := by
  cases ends with
  | timeout layout caused =>
      rw [caused] at keeps
      exact keeps
  | reply layout packet body delivers src dst carries =>
      obtain ⟨index, rest, caused, taken⟩ := delivers
      rw [caused, keepsOneProposal, taken] at keeps
      dsimp only at keeps
      rw [carries, src, dst] at keeps
      exact keeps

/-- A server reports only when the last of its learn calls ends. -/
theorem last_of_report (plain : GroupKept group world)
    (turn : Turn world event server promises paxos reported) {entry : PaxosAccept}
    (member : entry ∈ reported) :
    ∃ call reply, (world.cores server).callTo call.peer call.req = some call ∧
      call.callback = .receiveLearn ∧ EndsCall world event server call.peer call.req reply ∧
      (world.cores server).paxos.learnReqCount = 1 := by
  have own := plain.cores server
  cases turn with
  | idle _ accept response learn => exact absurd member List.not_mem_nil
  | prepare packet req request layout delivers dst body => exact absurd member List.not_mem_nil
  | accept packet topic id value version layout delivers dst body =>
      exact absurd member List.not_mem_nil
  | learn call reply layout search isLearn ends =>
      refine ⟨call, _, search, isLearn, ends, ?_⟩
      rcases ireceiveLearn_plain layout (world.cores server).id call.peer reply own.version
        own.learns (plain_endsCall plain ends) with whole | refused
      · rw [whole] at member
        unfold reportIfLast at member
        split at member
        next last =>
          have counted : (learnReply call.peer (world.cores server).paxos reply).learnReqCount =
              (world.cores server).paxos.learnReqCount - 1 := by
            cases reply <;> rfl
          omega
        · exact absurd member List.not_mem_nil
      · rw [refused] at member
        exact absurd member List.not_mem_nil

/-! ## Reports -/

/-- Every report is of a chosen value. -/
def ReportsChosen (group : PaxosVersion) (world : PaxosWorld) : Prop :=
  ∀ server, ∀ entry ∈ (world.cores server).reported,
    ∃ id, (topicPoll group world entry.topic).Chosen id entry.value

/-- A chosen value stays chosen. -/
theorem chosen_mono {topic : Topic} {id : SId} {value : Value}
    (chosen : (topicPoll group world topic).Chosen id value)
    (grown : ∀ vote ∈ world.votes, vote ∈ after.votes) :
    (topicPoll group after topic).Chosen id value := by
  obtain ⟨voters, enough, voted⟩ := chosen
  exact ⟨voters, enough, fun voter member => grown _ (voted voter member)⟩

/-- A value counted under one proposal is chosen. -/
theorem chosen_of_counted (distinct : group.servs.Nodup)
    (each : oneProposalEach world group = true) {topic : Topic} {value : Value}
    (most : group.nserv / 2 < (world.voters group (isFor topic value)).length) :
    ∃ id, (topicPoll group world topic).Chosen id value := by
  have someone : world.voters group (isFor topic value) ≠ [] := by
    intro none
    rw [none] at most
    exact absurd most (Nat.not_lt_zero _)
  obtain ⟨server, member⟩ := List.exists_mem_of_ne_nil _ someone
  obtain ⟨_, vote, voted, _, isFor⟩ := mem_voters.mp member
  unfold Paxos.isFor at isFor
  rw [Bool.and_eq_true, beq_iff_eq, beq_iff_eq] at isFor
  have counted := List.all_eq_true.mp each vote voted
  rw [isFor.1, isFor.2, Bool.or_eq_true, decide_eq_true_eq] at counted
  rcases counted with few | many
  · exact absurd most (not_lt.mpr few)
  · obtain ⟨other, _, passes⟩ := List.any_eq_true.mp many
    rw [Bool.and_eq_true, decide_eq_true_eq] at passes
    obtain ⟨same, majority⟩ := passes
    unfold Paxos.isFor at same
    rw [Bool.and_eq_true, beq_iff_eq, beq_iff_eq] at same
    refine ⟨other.entry.id, (world.voters group fun entry => entry == other.entry).toFinset, ?_, ?_⟩
    · apply majority_of_list
      · exact distinct.filter _
      · exact List.filter_sublist.subset
      · unfold PaxosVersion.nserv at majority
        omega
    · intro voter listed
      obtain ⟨_, cast, inVotes, isVoter, isEntry⟩ := mem_voters.mp (List.mem_toFinset.mp listed)
      rw [← same.1, ← same.2]
      show { server := voter, entry := other.entry } ∈ world.votes
      rw [← beq_iff_eq.mp isEntry, ← isVoter]
      exact inVotes

theorem reportsChosen_turned (calls : CallsKept world) (plain : GroupKept group world)
    (voted : LearnsVoted world) (chosen : ReportsChosen group world)
    (keeps : keepsOneProposal world event = true)
    (turn : Turn world event server promises paxos reported)
    (turned : Turned world after server promises paxos reported) : ReportsChosen group after := by
  have votesMore : ∀ vote ∈ world.votes, vote ∈ after.votes := by
    intro vote member
    rw [turned.votes]
    exact List.mem_append_left _ member
  have carried : ∀ other, ∀ entry ∈ (world.cores other).reported,
      ∃ id, (topicPoll group after entry.topic).Chosen id entry.value := by
    intro other entry member
    obtain ⟨id, isChosen⟩ := chosen other entry member
    exact ⟨id, chosen_mono isChosen votesMore⟩
  intro other entry member
  by_cases same : other = server
  · rw [same, turned.reported] at member
    rcases List.mem_append.mp member with old | new
    · exact carried server entry old
    · have most := voters_of_turn calls plain voted turn entry new
      obtain ⟨call, reply, search, isLearn, ends, last⟩ := last_of_report plain turn new
      have version := (plain.cores server).version
      have counts := counts_of_ends keeps ends
      have each : oneProposalEach world group = true := by
        obtain ⟨number, peer, callback⟩ := call
        dsimp only at isLearn search counts
        unfold countsOneProposal at counts
        rw [search, isLearn] at counts
        dsimp only at counts
        rw [last, version] at counts
        exact counts
      have distinct := (calls.servers server).distinct
      rw [version] at distinct
      obtain ⟨id, isChosen⟩ := chosen_of_counted distinct each most
      exact ⟨id, chosen_mono isChosen votesMore⟩
  · rw [turned.others other same] at member
    exact carried other entry member

/-! ## Runs -/

/-- What holds in every run of a group that meets the conditions. -/
structure GroupAgrees (group : PaxosVersion) (world : PaxosWorld) : Prop where
  invariant : GroupInvariant group world
  learns : LearnsVoted world
  chosen : ReportsChosen group world

theorem groupAgrees_step (holds : GroupAgrees group world) (keeps : agrees world event = true)
    (stepped : (groupSystem group).step world event = some after) : GroupAgrees group after := by
  unfold agrees at keeps
  rw [Bool.and_eq_true, Bool.and_eq_true] at keeps
  obtain ⟨⟨value, above⟩, proposal⟩ := keeps
  have calls := holds.invariant.calls
  have plain := holds.invariant.plain
  have invariant := groupInvariant_step holds.invariant value above stepped
  rcases oneTurn_of_step plain stepped with
    ⟨net, rfl⟩ | ⟨server, promises, paxos, reported, turn, turned⟩
  · exact ⟨invariant, ⟨holds.learns.tables, holds.learns.replies⟩, holds.chosen⟩
  rcases acted_of_step calls (step_of_group stepped) with ⟨net, rfl, _⟩ | acts
  · exact ⟨invariant, ⟨holds.learns.tables, holds.learns.replies⟩, holds.chosen⟩
  · exact ⟨invariant,
      learnsVoted_step calls plain holds.invariant.votes holds.learns acts turn turned,
      reportsChosen_turned calls plain holds.learns holds.chosen proposal turn turned⟩

theorem groupAgrees_of_reachable
    (reached : (groupSystem group).ReachableVia (fun world event => agrees world event = true)
      world) : GroupAgrees group world := by
  apply reached.invariant (GroupAgrees group)
  · intro start initial
    obtain ⟨distinct, connected, rfl⟩ := initial
    refine ⟨groupInvariant_start distinct, ⟨fun _ => learned_empty _,
      fun _ member => absurd member List.not_mem_nil⟩, fun _ _ member => absurd member List.not_mem_nil⟩
  · intro before event after _ holds keeps stepped
    exact groupAgrees_step holds keeps stepped

end

/-- **Agreement on a topic.**  While no late response brings another value, no
prepare request meets an entry that is not below it, and no value is counted
under different proposals only, all values ever reported for one topic are one
value, whoever reports them. -/
theorem agreement {group : PaxosVersion} {world : PaxosWorld}
    (reached : (groupSystem group).ReachableVia (fun world event => agrees world event = true)
      world) {first second : Nat} {one other : PaxosAccept}
    (inFirst : one ∈ (world.cores first).reported)
    (inSecond : other ∈ (world.cores second).reported) (sameTopic : one.topic = other.topic) :
    one.value = other.value := by
  have holds := groupAgrees_of_reachable reached
  obtain ⟨_, chosenOne⟩ := holds.chosen first one inFirst
  obtain ⟨_, chosenOther⟩ := holds.chosen second other inSecond
  rw [← sameTopic] at chosenOther
  exact (topicPoll_law holds.invariant one.topic).chosen_eq chosenOne chosenOther

/-! ## Runs of a trio -/

/-- Servers 1, 2 and 3 hold version 3. -/
def trio : PaxosVersion := { version := 3, servs := [1, 2, 3] }

/-- The trio with all connections. -/
def trioWorld : PaxosWorld :=
  groupWorld trio fun _ _ => true

theorem init_trioWorld : (groupSystem trio).init trioWorld :=
  ⟨by decide, _, rfl⟩

/-- Deliver the packet sent first, again and again. -/
def drained (count : Nat) : List PaxosEvent :=
  delivered (List.replicate count 0)

/-- Lose packets by their positions. -/
def lost (indices : List Nat) : List PaxosEvent :=
  indices.map PaxosEvent.lose

/-- Server 1 has its value 5 accepted and reports it.  Server 3 proposes 7 and
has 5 accepted, and server 2 reports it. -/
def repeatedRun : List PaxosEvent :=
  .start 1 [120] 5#32 :: drained 12 ++ .learnAll 1 :: drained 6 ++
    .start 3 [120] 7#32 :: drained 12 ++ .learnAll 2 :: drained 6

theorem agreement_repeated :
    ∃ one ∈ (((groupSystem trio).outcome trioWorld repeatedRun).cores 1).reported,
      ∃ other ∈ (((groupSystem trio).outcome trioWorld repeatedRun).cores 2).reported,
        one.id = ⟨1, 1⟩ ∧ other.id = ⟨3, 2⟩ ∧ one.value = other.value := by
  have reached : (groupSystem trio).ReachableVia (fun world event => agrees world event = true)
      ((groupSystem trio).outcome trioWorld repeatedRun) :=
    System.reachableVia_outcome init_trioWorld repeatedRun (by decide +kernel)
  have first : ({ topic := [120], id := ⟨1, 1⟩, value := 5#32 } : PaxosAccept) ∈
      (((groupSystem trio).outcome trioWorld repeatedRun).cores 1).reported := by decide +kernel
  have second : ({ topic := [120], id := ⟨3, 2⟩, value := 5#32 } : PaxosAccept) ∈
      (((groupSystem trio).outcome trioWorld repeatedRun).cores 2).reported := by decide +kernel
  exact ⟨_, first, _, second, rfl, rfl, agreement reached first second rfl⟩

/-- Server 3 has its value 7 accepted by itself alone.  Server 1 proposes 5 and
sends it after two empty responses, then sends 7 after the late one. -/
def lateValueRun : List PaxosEvent :=
  .start 3 [120] 7#32 :: delivered [2, 2, 0, 1, 3] ++ lost [1, 1, 0] ++
    .start 1 [120] 5#32 :: delivered [0, 0, 1, 1] ++ drained 8 ++ .learnAll 1 :: drained 6

/-- A late response lets one server report two values. -/
theorem not_always_agreement :
    ¬ ∀ group world, (groupSystem group).Reachable world → ∀ first second,
      ∀ one ∈ (world.cores first).reported, ∀ other ∈ (world.cores second).reported,
        one.topic = other.topic → one.value = other.value := by
  intro always
  have reached := System.reachable_outcome init_trioWorld lateValueRun
  have equal := always trio _ reached 1 1
    { topic := [120], id := ⟨1, 2⟩, value := 5#32 } (by decide +kernel)
    { topic := [120], id := ⟨1, 2⟩, value := 7#32 } (by decide +kernel) rfl
  revert equal
  decide

/-! ## Each condition is needed -/

/-- The values a server has reported for a topic. -/
def PaxosWorld.reports (world : PaxosWorld) (server : Nat) (topic : Topic) : List Value :=
  ((world.cores server).reported.filter fun entry => entry.topic == topic).map PaxosAccept.value

theorem agreement_needs_value :
    ∃ world, (groupSystem trio).ReachableVia
        (fun world event => (keepsAbove world event && keepsOneProposal world event) = true) world ∧
      5#32 ∈ world.reports 1 [120] ∧ 7#32 ∈ world.reports 1 [120] :=
  ⟨_, System.reachableVia_outcome init_trioWorld lateValueRun (by decide +kernel),
    by decide +kernel, by decide +kernel⟩

/-- Value 5 is accepted by server 1 alone under its first proposal and by server
3 alone under another.  Server 2 has 7 accepted between the two, and a fourth
proposal has 7 accepted by everybody. -/
def splitRun : List PaxosEvent :=
  .start 1 [120] 5#32 :: lost [2] ++ drained 5 ++ lost [0, 0] ++
    .start 2 [120] 7#32 :: lost [0] ++ delivered [0, 0, 0, 0, 1] ++ lost [0, 0] ++
    .start 3 [120] 9#32 :: lost [1] ++ delivered [1, 0, 0, 0, 2] ++ lost [0, 0] ++
    .start 1 [120] 9#32 :: lost [2] ++ drained 7 ++ .learnAll 1 :: drained 6

theorem agreement_needs_oneProposal :
    ∃ world, (groupSystem trio).ReachableVia
        (fun world event => (keepsValue world event && keepsAbove world event) = true) world ∧
      5#32 ∈ world.reports 1 [120] ∧ 7#32 ∈ world.reports 1 [120] :=
  ⟨_, System.reachableVia_outcome init_trioWorld splitRun (by decide +kernel),
    by decide +kernel, by decide +kernel⟩

/-- Five servers hold version 5. -/
def quintet : PaxosVersion := { version := 5, servs := [1, 2, 3, 4, 5] }

/-- Servers 1, 2 and 3 accept 5 from server 1.  Servers 3, 4 and 5 promise the
second proposal, of server 3, and server 1 accepts 5 under it.  Only then it
answers the older proposal of server 5, and hides what it has accepted; server 2
accepts 7 from server 5 and reports it to the last proposal. -/
def hiddenRun : List PaxosEvent :=
  .start 5 [120] 7#32 :: lost [1, 1] ++
    .start 1 [120] 5#32 :: lost [6, 6] ++ delivered (List.replicate 9 3) ++ lost [3, 3] ++
    .start 3 [120] 9#32 :: lost [3, 3] ++ delivered (List.replicate 7 3) ++ lost [3, 4, 4] ++
      delivered [3] ++ drained 6 ++ lost [0] ++ drained 1 ++ lost [0, 0] ++
    .start 4 [120] 9#32 :: lost [1] ++ delivered [1] ++ lost [1] ++
      delivered (List.replicate 8 1) ++ .learnAll 1 :: delivered (List.replicate 10 3)

theorem agreement_needs_above :
    ∃ world, (groupSystem quintet).ReachableVia
        (fun world event => (keepsValue world event && keepsOneProposal world event) = true) world ∧
      5#32 ∈ world.reports 1 [120] ∧ 7#32 ∈ world.reports 1 [120] := by
  have start : (groupSystem quintet).init (groupWorld quintet fun _ _ => true) :=
    ⟨by decide, _, rfl⟩
  exact ⟨_, System.reachableVia_outcome start hiddenRun (by decide +kernel), by decide +kernel,
    by decide +kernel⟩

end SimpleDfs.Paxos
