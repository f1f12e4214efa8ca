import SimpleDfs.Paxos.Answers

/-!
Contract: the promises behind an ACCEPT packet.

Owns: what the counters of a proposal count, for each type of proposal; the
condition on the calls that start a second phase; the runs in which every ACCEPT
packet has a majority of promises behind it, and a run in which one has not.

A NORMAL proposal counts promises.  An ADD or RM proposal also counts the prepare
calls that end without a packet, so its counter says nothing of a majority.

Does not own: the value an ACCEPT packet carries.
-/

set_option autoImplicit false

namespace SimpleDfs.Paxos

open SimpleDfs.Common
open SimpleDfs.Library

/-! ## What is counted -/

/-- The prepare calls of a proposal that have ended with a promise or without a
packet. -/
def endedCalls (heard : List Heard) (missed : List SId) (id : SId) : Nat :=
  (heardFrom heard id).length + missed.count id

/-- The callback starts the second phase of a proposal. -/
def Callback.startsPhase (callback : Callback) (key : Nat) : Prop :=
  callback = .addNewServOk key ∨ callback = .refreshAcceptBack key

/-- What the counters of the proposals of a server count.  Once all calls of an
ADD or RM proposal have ended, its counter is used for another round. -/
structure QuorumKept (server : Nat) (heard : List Heard) (missed : List SId) (core : Core) :
    Prop where
  asked : ∀ key p, core.proposals.lookup key = some p →
    p.response.nsent ≤ (p.version.nserv : Int)
  promised : ∀ key p, core.proposals.lookup key = some p → p.type = .normal →
    p.response.count ≤ ((heardFrom heard ⟨server, key⟩).length : Int)
  counted : ∀ key p, core.proposals.lookup key = some p → p.type ≠ .normal →
    p.response.count ≤ (endedCalls heard missed ⟨server, key⟩ : Int) ∨
      p.response.nsent ≤ (endedCalls heard missed ⟨server, key⟩ : Int)
  awaited : ∀ call ∈ core.calls, ∀ key, call.callback.startsPhase key →
    ∃ p, core.proposals.lookup key = some p ∧
      p.response.nsent ≤ (endedCalls heard missed ⟨server, key⟩ : Int)

/-- What a proposal keeps while neither counter changes. -/
structure SameCount (p q : PaxosProposal) : Prop extends SameAsked p q where
  count : q.response.count = p.response.count

theorem SameCount.refl (p : PaxosProposal) : SameCount p p :=
  ⟨SameAsked.refl p, rfl⟩

/-- A counted reply was a promise, or the proposal is not NORMAL and no packet
came. -/
theorem counted_count {p q : PaxosProposal} {reply : Option PrepareReply}
    (counts : p.counted reply = some q) : q.response.count = p.response.count + 1 ∧
      (reply = none ∧ p.type ≠ .normal ∨
        ∃ report backup accepts, reply = some (.promise report backup accepts)) := by
  unfold PaxosProposal.counted at counts
  dsimp only at counts
  split at counts
  · cases counts
  · split at counts
    · cases counts
    next other =>
      cases counts
      exact ⟨rfl, Or.inl ⟨rfl, other⟩⟩
  next report backup accepts =>
    refine ⟨?_, Or.inr ⟨report, backup, accepts, rfl⟩⟩
    rw [← Option.some.inj counts]
    split
    · exact (countResponse_spec p report).1
    · unfold PaxosProposal.noteReport
      split
      · rfl
      · split <;> rfl

/-- What a callback adds to the counter is a promise heard or, for ADD and RM, a
call without a packet. -/
theorem noted_count (server : Nat) {call : RpcCall} {reply : Option RpcReply} {key : Nat} {p q : PaxosProposal}
    (noted : Noted call.callback reply key p q) :
    q.response.count ≤ p.response.count +
        ((heardFrom (endHeard server call reply) ⟨server, key⟩).length : Int) ∨
      p.type ≠ .normal ∧ q.response.count ≤ p.response.count +
        (endedCalls (endHeard server call reply) (endMissed server call reply) ⟨server, key⟩ :
          Int) := by
  cases noted with
  | same =>
      left
      omega
  | counted _ response isResponse carries counts =>
      obtain ⟨more, ⟨noPacket, other⟩ | ⟨report, backup, accepts, promise⟩⟩ := counted_count counts
      · right
        refine ⟨other, ?_⟩
        have lost : endMissed server call reply = [⟨server, key⟩] := by
          rw [carries, noPacket]
          unfold endMissed
          rw [isResponse]
          rfl
        unfold endedCalls
        rw [lost, List.count_singleton_self]
        omega
      · left
        have spoke : endHeard server call reply =
            [{ proposal := ⟨server, key⟩, server := call.peer, report := report }] := by
          rw [carries, promise]
          unfold endHeard
          rw [isResponse]
          rfl
        have one : heardFrom (endHeard server call reply) ⟨server, key⟩ = [call.peer] := by
          rw [spoke]
          simp [heardFrom]
        rw [one, List.length_singleton]
        omega
  | refreshed isBack =>
      left
      dsimp only
      omega

theorem Noted.nsent {callback : Callback} {reply : Option RpcReply} {key : Nat}
    {p q : PaxosProposal} (noted : Noted callback reply key p q) :
    q.response.nsent = p.response.nsent := by
  cases noted with
  | same => rfl
  | counted _ response isResponse carries counts => exact (counted_sameAsked counts).nsent
  | refreshed isBack => rfl

theorem endedCalls_append (heard gone : List Heard) (missed lost : List SId) (id : SId) :
    endedCalls (heard ++ gone) (missed ++ lost) id =
      endedCalls heard missed id + endedCalls gone lost id := by
  unfold endedCalls
  rw [heardFrom_append, List.length_append, List.count_append]
  omega

namespace QuorumKept

variable {server : Nat} {sent : List PaxosPacket} {heard : List Heard} {missed : List SId}
  {before : Core}

/-- All calls of the proposal have ended. -/
theorem all_ended (quorum : QuorumKept server heard missed before) {key : Nat} {p : PaxosProposal}
    (found : before.proposals.lookup key = some p) (other : p.type ≠ .normal)
    (answered : p.response.nsent ≤ p.response.count) :
    p.response.nsent ≤ (endedCalls heard missed ⟨server, key⟩ : Int) := by
  rcases quorum.counted key p found other with counted | ended
  · omega
  · exact ended

/-- A change that counts nothing and starts no second phase. -/
theorem quiet (quorum : QuorumKept server heard missed before) (after : Core)
    (calls : ∀ call ∈ after.calls, call ∈ before.calls ∨
      ∀ key, ¬ call.callback.startsPhase key)
    (proposals : Table.Continues SameCount
      (fun _ q => q.response.nsent = 0 ∧ q.response.count = 0)
      before.proposals after.proposals) : QuorumKept server heard missed after := by
  constructor
  · intro key q found
    rcases proposals.source key q found with ⟨p, foundOld, same⟩ | ⟨_, unsent, _⟩
    · rw [same.nsent, same.version]
      exact quorum.asked key p foundOld
    · omega
  · intro key q found normal
    rcases proposals.source key q found with ⟨p, foundOld, same⟩ | ⟨_, _, uncounted⟩
    · rw [same.count]
      exact quorum.promised key p foundOld (same.type.symm.trans normal)
    · omega
  · intro key q found other
    rcases proposals.source key q found with ⟨p, foundOld, same⟩ | ⟨_, _, uncounted⟩
    · rw [same.count, same.nsent]
      exact quorum.counted key p foundOld fun normal => other (same.type.trans normal)
    · left
      omega
  · intro call pending key starts
    rcases calls call pending with old | plain
    · obtain ⟨p, found, ended⟩ := quorum.awaited call old key starts
      obtain ⟨q, foundNow, same⟩ := proposals.kept key p found
      exact ⟨q, foundNow, by rw [same.nsent]; exact ended⟩
    · exact absurd starts (plain key)

/-- A call for a second phase, when all prepare calls have ended. -/
theorem phaseCall (quorum : QuorumKept server heard missed before) (after : Core) (call : RpcCall)
    (key : Nat) (calls : after.calls = before.calls ++ [call])
    (proposals : after.proposals = before.proposals)
    (only : ∀ other, call.callback.startsPhase other → other = key) {p : PaxosProposal}
    (found : before.proposals.lookup key = some p)
    (ended : p.response.nsent ≤ (endedCalls heard missed ⟨server, key⟩ : Int)) :
    QuorumKept server heard missed after := by
  constructor
  · rw [proposals]
    exact quorum.asked
  · rw [proposals]
    exact quorum.promised
  · rw [proposals]
    exact quorum.counted
  · intro other pending own starts
    rw [calls] at pending
    rw [proposals]
    rcases List.mem_append.mp pending with old | new
    · exact quorum.awaited other old own starts
    · rw [List.mem_singleton.mp new] at starts
      rw [only own starts]
      exact ⟨p, found, ended⟩

/-- A prepare call is sent to one more member. -/
theorem request (quorum : QuorumKept server heard missed before) {key serv : Nat}
    {p : PaxosProposal} (asking : Asking before key p serv)
    (keptAfter : ServerKept server sent heard missed (sendRequest key p.request before serv)) :
    QuorumKept server heard missed (sendRequest key p.request before serv) := by
  have pending := preparing_sendRequest before key p.request serv
  have once := keptAfter.askedOnce key
  have ofMembers := keptAfter.prepareOf
  have foundNow := lookup_sendRequest before p.request serv asking.found
  have other : ∀ own, own ≠ key →
      (sendRequest key p.request before serv).proposals.lookup own =
        before.proposals.lookup own := by
    intro own different
    rw [sendRequest_eq]
    exact lookup_asked_ne before different
  -- the members asked so far are distinct members
  have room : p.response.nsent + 1 ≤ (p.version.nserv : Int) := by
    have distinct := (List.nodup_append.mp once).1
    have inside : ((sendRequest key p.request before serv).preparing key).map RpcCall.peer ⊆
        p.version.servs := by
      intro peer member
      obtain ⟨call, waiting, rfl⟩ := List.mem_map.mp member
      have isKey := beq_iff_eq.mp (List.mem_filter.mp waiting).2
      obtain ⟨q, found, listed⟩ := ofMembers call (List.mem_filter.mp waiting).1 key isKey
      rw [foundNow] at found
      rw [← Option.some.inj found] at listed
      exact listed
    have below := (List.Nodup.subperm distinct inside).length_le
    have counted := asking.allPending
    rw [pending, List.map_append, List.length_append, List.length_map, List.length_map,
      List.length_singleton] at below
    rw [PaxosVersion.nserv]
    omega
  constructor
  · intro own q found
    by_cases same : own = key
    · subst same
      rw [foundNow] at found
      rw [← Option.some.inj found]
      exact room
    · exact quorum.asked own q ((other own same).symm.trans found)
  · intro own q found normal
    by_cases same : own = key
    · subst same
      rw [foundNow] at found
      rw [← Option.some.inj found] at normal ⊢
      exact quorum.promised own p asking.found normal
    · exact quorum.promised own q ((other own same).symm.trans found) normal
  · intro own q found unlike
    by_cases same : own = key
    · subst same
      rw [foundNow] at found
      left
      rw [← Option.some.inj found]
      have uncounted := asking.uncounted
      dsimp only
      omega
    · exact quorum.counted own q ((other own same).symm.trans found) unlike
  · intro call member own starts
    have isOld : call ∈ before.calls := by
      rw [sendRequest_eq] at member
      rcases List.mem_append.mp member with old | new
      · exact old
      · rw [List.mem_singleton.mp new] at starts
        rcases starts with isOk | isBack
        · cases isOk
        · cases isBack
    obtain ⟨q, found, ended⟩ := quorum.awaited call isOld own starts
    have different : own ≠ key := by
      rintro rfl
      have isKey : call.callback.proposal = some own := by
        rcases starts with isOk | isBack
        · rw [isOk]
          rfl
        · rw [isBack]
          rfl
      have prepares := asking.onlyAsked call isOld isKey
      rcases starts with isOk | isBack
      · rw [prepares] at isOk
        cases isOk
      · rw [prepares] at isBack
        cases isBack
    exact ⟨q, (other own different).trans found, ended⟩

/-- The counter is reset for the refresh round. -/
theorem recount (quorum : QuorumKept server heard missed before) {key : Nat} {p : PaxosProposal}
    (count : Int) (found : before.proposals.lookup key = some p) (other : p.type ≠ .normal)
    (ended : p.response.nsent ≤ (endedCalls heard missed ⟨server, key⟩ : Int)) :
    QuorumKept server heard missed
      { before with
        proposals := before.proposals.insert key
          { p with response := { p.response with count := count } } } := by
  constructor
  · intro own q foundNow
    by_cases same : own = key
    · subst same
      rw [AList.lookup_insert] at foundNow
      rw [← Option.some.inj foundNow]
      exact quorum.asked own p found
    · exact quorum.asked own q ((AList.lookup_insert_ne same).symm.trans foundNow)
  · intro own q foundNow normal
    by_cases same : own = key
    · subst same
      rw [AList.lookup_insert] at foundNow
      rw [← Option.some.inj foundNow] at normal
      exact absurd normal other
    · exact quorum.promised own q ((AList.lookup_insert_ne same).symm.trans foundNow) normal
  · intro own q foundNow unlike
    by_cases same : own = key
    · subst same
      rw [AList.lookup_insert] at foundNow
      rw [← Option.some.inj foundNow]
      exact Or.inr ended
    · exact quorum.counted own q ((AList.lookup_insert_ne same).symm.trans foundNow) unlike
  · intro call pending own starts
    obtain ⟨q, foundOld, endedOld⟩ := quorum.awaited call pending own starts
    by_cases same : own = key
    · subst same
      exact ⟨_, AList.lookup_insert _, ended⟩
    · exact ⟨q, (AList.lookup_insert_ne same).trans foundOld, endedOld⟩

/-! ## Moves -/

theorem move {second : Nat → Prop} {created : PaxosProposal → Prop} {after : Core}
    (quorum : QuorumKept server heard missed before)
    (kept : ServerKept server sent heard missed before)
    (moved : Move second created before after) : QuorumKept server heard missed after := by
  have keptAfter := kept.move moved
  have sends : ∀ serv body, QuorumKept server heard missed (before.send serv body) :=
    fun serv body => quorum.quiet _ (fun call pending => Or.inl pending)
      (Table.Continues.refl SameCount.refl _)
  cases moved with
  | state paxos active reported aborted numbers members =>
      exact quorum.quiet _ (fun call pending => Or.inl pending)
        (Table.Continues.refl SameCount.refl _)
  | refer key p refCount found =>
      refine quorum.quiet _ (fun call pending => Or.inl pending) ?_
      exact Table.Continues.insert_present SameCount.refl found
        ⟨⟨⟨rfl, rfl, rfl, rfl, rfl⟩, rfl⟩, rfl⟩
  | recount key p count found removal answered =>
      have other : p.type ≠ .normal := fun normal => nomatch removal.symm.trans normal
      exact quorum.recount count found other (quorum.all_ended found other answered.ge)
  | create p allowed named version fresh =>
      refine quorum.quiet _ (fun call pending => Or.inl pending) ?_
      apply Table.Continues.insert_absent SameCount.refl kept.absent_next
      rw [fresh]
      exact ⟨rfl, rfl⟩
  | request key p serv asking => exact quorum.request asking keptAfter
  | learnCall serv version =>
      refine quorum.quiet _ ?_ (Table.Continues.refl SameCount.refl _)
      intro call pending
      rcases List.mem_append.mp pending with old | new
      · exact Or.inl old
      · right
        rw [List.mem_singleton.mp new]
        intro key starts
        rcases starts with isOk | isBack
        · cases isOk
        · cases isBack
  | addCall key p serv dump found addition answered version =>
      have other : p.type ≠ .normal := fun normal => nomatch addition.symm.trans normal
      have asked := quorum.asked key p found
      refine quorum.phaseCall _ _ key rfl rfl ?_ found
        (quorum.all_ended found other (by rw [answered]; exact asked))
      intro own starts
      rcases starts with isOk | isBack
      · exact (Callback.addNewServOk.inj isOk).symm
      · cases isBack
  | refreshCall key p serv dump found removal answered =>
      have other : p.type ≠ .normal := fun normal => nomatch removal.symm.trans normal
      refine quorum.phaseCall _ _ key rfl rfl ?_ found (quorum.all_ended found other answered.ge)
      intro own starts
      rcases starts with isOk | isBack
      · cases isOk
      · exact (Callback.refreshAcceptBack.inj isBack).symm
  | accept key p serv found cleared => exact sends serv _
  | notify serv body notice => exact sends serv body

theorem moves {second : Nat → Prop} {created : PaxosProposal → Prop} {after : Core}
    (quorum : QuorumKept server heard missed before)
    (kept : ServerKept server sent heard missed before)
    (moved : Moves second created before after) : QuorumKept server heard missed after := by
  induction moved with
  | refl => exact quorum
  | tail earlier last inductionHypothesis => exact inductionHypothesis.move (kept.moves earlier) last

/-! ## The end of a call -/

/-- A callback counts the reply to its call. -/
theorem finish (quorum : QuorumKept server heard missed before) (call : RpcCall)
    (reply : Option RpcReply) :
    QuorumKept server (heard ++ endHeard server call reply) (missed ++ endMissed server call reply)
      (noteCallback { before with calls := otherCalls before.calls call.req }
        call.callback reply) := by
  have lookup := noteCallback_lookup
    { before with calls := otherCalls before.calls call.req } call.callback reply
  -- each proposal after the callback, with what was counted for it
  have counted : ∀ key q, (noteCallback
      { before with calls := otherCalls before.calls call.req }
      call.callback reply).proposals.lookup key = some q →
      ∃ p, before.proposals.lookup key = some p ∧ Noted call.callback reply key p q := by
    intro key q foundNow
    rcases lookup key with unchanged | ⟨p, later, found, noted, now⟩
    · exact ⟨q, unchanged.symm.trans foundNow, Noted.same⟩
    · have same := Option.some.inj (now.symm.trans foundNow)
      exact ⟨p, found, same ▸ noted⟩
  have ended := endedCalls_append heard (endHeard server call reply) missed
    (endMissed server call reply)
  constructor
  · intro key q foundNow
    obtain ⟨p, found, noted⟩ := counted key q foundNow
    rw [noted.nsent, noted.sameOrigin.version]
    exact quorum.asked key p found
  · intro key q foundNow normal
    obtain ⟨p, found, noted⟩ := counted key q foundNow
    have normalBefore := noted.sameOrigin.type.symm.trans normal
    have below := quorum.promised key p found normalBefore
    rw [heardFrom_append, List.length_append]
    rcases noted_count server noted with heardMore | ⟨other, _⟩
    · push_cast
      exact heardMore.trans (by omega)
    · exact absurd normalBefore other
  · intro key q foundNow other
    obtain ⟨p, found, noted⟩ := counted key q foundNow
    have otherBefore : p.type ≠ .normal := fun normal =>
      other (noted.sameOrigin.type.trans normal)
    have more : q.response.count ≤ p.response.count +
        (endedCalls (endHeard server call reply) (endMissed server call reply) ⟨server, key⟩ :
          Int) := by
      rcases noted_count server noted with heardMore | ⟨_, more⟩
      · unfold endedCalls
        omega
      · exact more
    rw [ended, noted.nsent]
    rcases quorum.counted key p found otherBefore with below | all
    · left
      omega
    · right
      omega
  · intro pendingCall pending key starts
    rw [noteCallback_calls] at pending
    obtain ⟨p, found, all⟩ := quorum.awaited pendingCall (List.mem_of_mem_filter pending) key starts
    rw [ended]
    rcases lookup key with unchanged | ⟨old, later, foundOld, noted, now⟩
    · exact ⟨p, unchanged.trans found, by omega⟩
    · have same := Option.some.inj (foundOld.symm.trans found)
      refine ⟨later, now, ?_⟩
      rw [noted.nsent, same]
      omega

/-- Other servers hear and miss. -/
theorem others (quorum : QuorumKept server heard missed before) {gone : List Heard}
    {lost : List SId} (foreignHeard : ∀ entry ∈ gone, entry.proposal.x ≠ server)
    (foreignMissed : ∀ id ∈ lost, id.x ≠ server) :
    QuorumKept server (heard ++ gone) (missed ++ lost) before := by
  have sameHeard : ∀ key, heardFrom (heard ++ gone) ⟨server, key⟩ = heardFrom heard ⟨server, key⟩ := by
    intro key
    rw [heardFrom_append, heardFrom_foreign foreignHeard, List.append_nil]
  have sameEnded : ∀ key, endedCalls (heard ++ gone) (missed ++ lost) ⟨server, key⟩ =
      endedCalls heard missed ⟨server, key⟩ := by
    intro key
    unfold endedCalls
    rw [sameHeard, List.count_append, count_foreign foreignMissed, Nat.add_zero]
  constructor
  · exact quorum.asked
  · intro key
    rw [sameHeard]
    exact quorum.promised key
  · intro key
    rw [sameEnded]
    exact quorum.counted key
  · intro call pending key
    rw [sameEnded]
    exact quorum.awaited call pending key

end QuorumKept

/-! ## The condition -/

/-- The ADD or RM proposal whose second phase the end of a pending call
starts. -/
def Core.entersPhase (core : Core) (peer req : Nat) : Option PaxosProposal :=
  match core.callTo peer req with
  | some { callback := .addNewServOk key, .. } => core.proposals.lookup key
  | some { callback := .refreshAcceptBack key, .. } =>
      (core.proposals.lookup key).filter fun p => p.response.count = 1
  | _ => none

/-- If a second phase starts, the prepare calls of the proposal less those that
ended without a packet are more than half of the members. -/
def fewMissed (world : PaxosWorld) (server peer req : Nat) : Bool :=
  match (world.cores server).entersPhase peer req with
  | none => true
  | some p => decide (((p.version.nserv / 2 + world.missed.count p.id : Nat) : Int) < p.response.nsent)

/-- No event starts a second phase with too many prepare calls missed. -/
def keepsQuorum (world : PaxosWorld) : PaxosEvent → Bool
  | .deliver index _ =>
      match Packet.takeAt world.net index with
      | some (packet, _) =>
          match packet.body with
          | .rpcBack req _ => fewMissed world packet.dst packet.src req
          | _ => true
      | none => true
  | .timeout server peer req _ => fewMissed world server peer req
  | _ => true

theorem fewMissed_of_ends {world : PaxosWorld} {event : PaxosEvent}
    (keeps : keepsQuorum world event = true) {server peer req : Nat} {reply : Option RpcReply}
    (ends : EndsCall world event server peer req reply) :
    fewMissed world server peer req = true := by
  cases ends with
  | timeout layout caused =>
      rw [caused] at keeps
      exact keeps
  | reply layout packet body delivers src dst carries =>
      obtain ⟨index, rest, caused, taken⟩ := delivers
      rw [caused, keepsQuorum, taken] at keeps
      dsimp only at keeps
      rw [carries, src, dst] at keeps
      exact keeps

/-- The promises behind a second phase. -/
theorem promised_of_enters {world : PaxosWorld} (kept : CallsKept world)
    (quorums : ∀ server, QuorumKept server world.heard world.missed (world.cores server))
    {event : PaxosEvent} (keeps : keepsQuorum world event = true) {server key : Nat}
    (enters : Enters world event server key) :
    ∃ p, (world.cores server).proposals.lookup key = some p ∧
      p.version.nserv / 2 < (heardFrom world.heard ⟨server, key⟩).length := by
  obtain ⟨call, reply, search, ends, phase⟩ := enters
  have few := fewMissed_of_ends keeps ends
  have starts : call.callback.startsPhase key := phase.imp_right And.left
  obtain ⟨p, found, ended⟩ :=
    (quorums server).awaited call (mem_of_callTo search) key starts
  refine ⟨p, found, ?_⟩
  have named := ((kept.servers server).numbered key p found).1
  have entering : (world.cores server).entersPhase call.peer call.req = some p := by
    unfold Core.entersPhase
    rw [search]
    obtain ⟨number, peer, callback⟩ := call
    rcases phase with isOk | ⟨isBack, q, foundToo, last⟩
    · dsimp only at isOk
      rw [isOk]
      exact found
    · have same := Option.some.inj (foundToo.symm.trans found)
      rw [same] at last
      dsimp only at isBack
      rw [isBack]
      dsimp only
      rw [found]
      exact Option.filter_some_pos (decide_eq_true last)
  unfold fewMissed at few
  rw [entering] at few
  have enough := of_decide_eq_true few
  rw [named] at enough
  unfold endedCalls at ended
  omega

/-! ## Runs -/

/-- The counters of all servers, and the promises behind each ACCEPT packet. -/
structure AcceptsHeard (world : PaxosWorld) : Prop where
  servers : ∀ server, QuorumKept server world.heard world.missed (world.cores server)
  majority : ∀ packet ∈ world.sent, ∀ topic id value version,
    packet.body = .accept topic id value version →
    ∃ p, (world.cores id.x).proposals.lookup id.y = some p ∧
      p.version.nserv / 2 < (heardFrom world.heard id).length

section

variable {world after : PaxosWorld} {event : PaxosEvent} {server : Nat} {promises : List Promise}
  {heard : List Heard} {missed : List SId} {core : Core}

/-- The acting server keeps what its counters count. -/
theorem quorumKept_handled (kept : CallsKept world)
    (quorum : QuorumKept server world.heard world.missed (world.cores server))
    (handled : Handled world event server promises heard missed core) :
    QuorumKept server (world.heard ++ heard) (world.missed ++ missed) core := by
  have own := kept.servers server
  cases handled with
  | quiet _ _ moves =>
      rw [List.append_nil, List.append_nil]
      exact quorum.moves own moves
  | prepare packet req request layout delivers body =>
      rw [List.append_nil, List.append_nil, body]
      exact quorum.quiet _ (fun call pending => Or.inl pending)
        (Table.Continues.refl SameCount.refl _)
  | learn packet req version layout delivers body =>
      rw [List.append_nil, List.append_nil, body]
      exact quorum.quiet _ (fun call pending => Or.inl pending)
        (Table.Continues.refl SameCount.refl _)
  | finish _ call reply _ search ends moves =>
      have ended := own.finish (mem_of_callTo search) (callEnd_of_reply server call reply)
      exact (quorum.finish call reply).moves (ended.noteCallback call.callback reply) moves

/-- An ACCEPT a server sends has a majority of promises behind it. -/
theorem majority_handled (kept : CallsKept world)
    (quorums : ∀ server, QuorumKept server world.heard world.missed (world.cores server))
    (keeps : keepsQuorum world event = true)
    (handled : Handled world event server promises heard missed core) {packet : PaxosPacket}
    (member : packet ∈ core.out) {topic : Topic} {id : SId} {value : Value} {version : Int}
    (body : packet.body = .accept topic id value version) :
    id.x = server ∧ ∃ p, core.proposals.lookup id.y = some p ∧
      p.version.nserv / 2 < (heardFrom (world.heard ++ heard) id).length := by
  have quorum := quorumKept_handled kept (quorums server) handled
  obtain ⟨p, accept⟩ := accepts_handled kept handled member body
  have named : id = ⟨server, id.y⟩ :=
    accept.named.symm.trans ((kept.handled handled).numbered id.y p accept.found).1
  refine ⟨by rw [named], p, accept.found, ?_⟩
  rcases accept.cleared with ⟨normal, past⟩ | ⟨_, enters⟩
  · have counted := quorum.promised id.y p accept.found normal
    rw [← named] at counted
    unfold PaxosProposal.pastMajority at past
    omega
  · obtain ⟨q, found, majority⟩ := promised_of_enters kept quorums keeps enters
    obtain ⟨later, foundNow, carried⟩ := carried_kept kept handled found
    have same := Option.some.inj (foundNow.symm.trans accept.found)
    rw [← named] at majority
    rw [← same, carried.sameOrigin.version, heardFrom_append, List.length_append]
    omega

theorem acceptsHeard_acted (kept : CallsKept world) (holds : AcceptsHeard world)
    (keeps : keepsQuorum world event = true) (acts : OneActs world event after) :
    AcceptsHeard after := by
  obtain ⟨server, promises, heard, missed, core, handled, acted⟩ := acts
  have foreign := handled.own
  constructor
  · intro other
    rw [acted.cores, acted.heard, acted.missed]
    by_cases same : other = server
    · rw [same, Function.update_self]
      have quorum := quorumKept_handled kept (holds.servers server) handled
      exact ⟨quorum.asked, quorum.promised, quorum.counted, quorum.awaited⟩
    · rw [Function.update_of_ne same]
      apply (holds.servers other).others
      · intro entry member src
        exact same (src.symm.trans (foreign.1 entry member))
      · intro id member src
        exact same (src.symm.trans (foreign.2 id member))
  · intro packet member topic id value version body
    rw [acted.cores, acted.heard]
    rw [acted.sent] at member
    rcases List.mem_append.mp member with old | new
    · obtain ⟨p, found, majority⟩ := holds.majority packet old topic id value version body
      have more : p.version.nserv / 2 < (heardFrom (world.heard ++ heard) id).length := by
        rw [heardFrom_append, List.length_append]
        omega
      by_cases same : id.x = server
      · rw [same] at found ⊢
        rw [Function.update_self]
        obtain ⟨q, foundNow, carried⟩ := carried_kept kept handled found
        exact ⟨q, foundNow, by rw [carried.sameOrigin.version]; exact more⟩
      · rw [Function.update_of_ne same]
        exact ⟨p, found, more⟩
    · obtain ⟨src, p, found, majority⟩ :=
        majority_handled kept holds.servers keeps handled new body
      rw [src, Function.update_self]
      exact ⟨p, found, majority⟩

end

theorem acceptsHeard_fresh (connected : Nat → Nat → Bool) :
    AcceptsHeard (freshWorld connected) := by
  constructor
  · intro server
    constructor
    · intro key p found
      cases found
    · intro key p found
      cases found
    · intro key p found
      cases found
    · exact fun call pending => absurd pending List.not_mem_nil
  · exact fun packet member => absurd member List.not_mem_nil

theorem acceptsHeard_of_reachable {world : PaxosWorld}
    (reached : paxosSystem.ReachableVia (fun world event => keepsQuorum world event = true) world) :
    AcceptsHeard world := by
  apply reached.invariant AcceptsHeard
  · intro start initial
    obtain ⟨connected, rfl⟩ := initial
    exact acceptsHeard_fresh connected
  · intro before event after reachedBefore holds keeps stepped
    have kept := callsKept_of_reachable reachedBefore
    rcases acted_of_step kept stepped with ⟨net, same, _⟩ | acts
    · rw [same]
      exact ⟨holds.servers, holds.majority⟩
    · exact acceptsHeard_acted kept holds keeps acts

/-- More than half of the members of the proposal's version have promised, and
their promises have reached the proposer. -/
def PromisedByMajority (world : PaxosWorld) (p : PaxosProposal) : Prop :=
  ∃ quorum : List Nat, quorum.Nodup ∧ quorum ⊆ p.version.servs ∧
    p.version.nserv < 2 * quorum.length ∧ ∀ server ∈ quorum,
      { server := server, topic := p.topic, id := p.id } ∈ world.promises ∧
        ∃ report, { proposal := p.id, server := server, report := report } ∈ world.heard

theorem mem_heardFrom {heard : List Heard} {id : SId} {server : Nat} :
    server ∈ heardFrom heard id ↔
      ∃ report, { proposal := id, server := server, report := report } ∈ heard := by
  unfold heardFrom
  constructor
  · intro member
    obtain ⟨entry, listed, rfl⟩ := List.mem_map.mp member
    obtain ⟨inHeard, same⟩ := List.mem_filter.mp listed
    exact ⟨entry.report, beq_iff_eq.mp same ▸ inHeard⟩
  · rintro ⟨report, inHeard⟩
    exact List.mem_map.mpr ⟨_, List.mem_filter.mpr ⟨inHeard, beq_self_eq_true id⟩, rfl⟩

/-- **A second phase has a quorum of promises behind it.**  While each ADD and
RM proposal that starts its second phase has missed few enough of its prepare
calls, every ACCEPT packet ever sent has the promises of a majority behind
it. -/
theorem promised_of_accept {world : PaxosWorld}
    (reached : paxosSystem.ReachableVia (fun world event => keepsQuorum world event = true) world)
    {packet : PaxosPacket} (member : packet ∈ world.sent) {topic : Topic} {id : SId}
    {value : Value} {version : Int} (body : packet.body = .accept topic id value version) :
    ∃ p, (world.cores id.x).proposals.lookup id.y = some p ∧ p.id = id ∧
      PromisedByMajority world p := by
  have kept := callsKept_of_reachable reached
  have own := kept.servers id.x
  obtain ⟨p, found, majority⟩ :=
    (acceptsHeard_of_reachable reached).majority packet member topic id value version body
  have named : p.id = id := (own.numbered id.y p found).1
  refine ⟨p, found, named, heardFrom world.heard id, ?_, ?_, by omega, ?_⟩
  · exact (List.nodup_append.mp (own.askedOnce id.y)).2.1
  · intro server heard
    obtain ⟨report, inHeard⟩ := mem_heardFrom.mp heard
    obtain ⟨q, foundToo, listed⟩ := own.heardOf _ inHeard rfl
    exact Option.some.inj (foundToo.symm.trans found) ▸ listed
  · intro server heard
    obtain ⟨report, inHeard⟩ := mem_heardFrom.mp heard
    obtain ⟨q, foundToo, given⟩ := (promisesHeard_of_reachable reached).heard _ inHeard
    have same := Option.some.inj (foundToo.symm.trans found)
    rw [same] at given
    rw [named]
    exact ⟨given, report, inHeard⟩

/-- The ACCEPT packet of the proposal that lets server 2 join has the promise of
the only member behind it. -/
theorem promised_of_accept_pair :
    ∃ p, ((paxosSystem.outcome connectedWorld pairRun).cores 1).proposals.lookup 1 = some p ∧
      p.id = ⟨1, 1⟩ ∧ PromisedByMajority (paxosSystem.outcome connectedWorld pairRun) p := by
  have reached : paxosSystem.ReachableVia (fun world event => keepsQuorum world event = true)
      (paxosSystem.outcome connectedWorld pairRun) :=
    System.reachableVia_outcome init_connectedWorld pairRun (by decide +kernel)
  have sent : ({ src := 1, dst := 1, body := .accept (versionTopic 2) ⟨1, 1⟩ 6#32 1 } :
      PaxosPacket) ∈ (paxosSystem.outcome connectedWorld pairRun).sent := by decide +kernel
  exact promised_of_accept reached sent rfl

/-- Server 3 joins the pair.  Server 1 answers its own prepare request, and the
time of the request to server 2 is over. -/
def missedPrepareRun : List PaxosEvent :=
  pairRun ++ .askAdd 3 1 :: delivered [0, 0, 1] ++ .timeout 1 2 5 Layout.natural ::
    delivered [1, 1, 1]

/-- The ACCEPT packets of an ADD proposal can have one promise of two behind
them. -/
theorem not_always_promised :
    ¬ ∀ world, paxosSystem.Reachable world → ∀ packet ∈ world.sent, ∀ topic id value version,
      packet.body = .accept topic id value version →
      ∃ p, (world.cores id.x).proposals.lookup id.y = some p ∧ PromisedByMajority world p := by
  intro always
  have reached := System.reachable_outcome init_connectedWorld missedPrepareRun
  obtain ⟨p, found, quorum, distinct, _, majority, promised⟩ := always _ reached
    { src := 1, dst := 2, body := .accept (versionTopic 3) ⟨1, 3⟩ 14#32 2 } (by decide +kernel)
    (versionTopic 3) ⟨1, 3⟩ 14#32 2 rfl
  have known : (((paxosSystem.outcome connectedWorld missedPrepareRun).cores 1).proposals.lookup 3).map
      (fun p => (p.id, p.version.nserv)) = some (⟨1, 3⟩, 2) := by decide +kernel
  rw [found] at known
  obtain ⟨named, members⟩ := Prod.mk.inj (Option.some.inj known)
  have byOne : ∀ promise ∈ (paxosSystem.outcome connectedWorld missedPrepareRun).promises,
      promise.id = ⟨1, 3⟩ → promise.server = 1 := by decide +kernel
  have inside : quorum ⊆ [1] := by
    intro server member
    rw [List.mem_singleton]
    exact byOne _ (promised server member).1 named
  have few := (List.Nodup.subperm distinct inside).length_le
  rw [List.length_singleton] at few
  omega

end SimpleDfs.Paxos
