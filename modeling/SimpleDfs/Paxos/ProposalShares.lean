import SimpleDfs.Paxos.Process

/-!
Contract: the references to the proposals of a process, and the calls that hold
them.

Owns: the account of references, calls and what is left over; which exits of the
proposer keep a reference, and that a handler otherwise gives back what it takes.

Does not own: events and runs.
-/

set_option autoImplicit false

namespace SimpleDfs.Paxos

open SimpleDfs.Common
open SimpleDfs.Library

/-! ## References -/

/-- The references of a proposal; a proposal that was never started has none. -/
def Core.refs (core : Core) (key : Nat) : Nat :=
  ((core.proposals.lookup key).map PaxosProposal.refCount).getD 0

/-- The pending calls that hold the proposal as their user data. -/
def Core.holders (core : Core) (key : Nat) : Nat :=
  core.calls.countP fun call => call.callback.proposal == some key

/-! ## Exits that leave a reference -/

/-- `s_paxos_start` returns early: an ADD of a member. -/
def startKeeps (core : Core) (type : ProposalType) (theServ : Nat) : Bool :=
  sPaxosIsIn core.paxos core.id && type == .add && sPaxosIsIn core.paxos theServ

/-- The last response of an ADD conflicts, or the newcomer is missing; the last
response of an RM conflicts. -/
def answerKeeps (core : Core) (p : PaxosProposal) : Bool :=
  match p.type with
  | .normal => false
  | .add =>
      p.response.count == p.version.nserv && (p.conflicts || !core.active p.theServ)
  | .rm => p.response.count == p.response.nsent && p.conflicts

/-- What a read counts for the proposal, if it is read to its end. -/
def countedBy (p : PaxosProposal) : Option ReplyRead → Option PaxosProposal
  | none => p.counted none
  | some (.prepare reply) => p.counted (some reply)
  | some _ => none

/-- The end of a call returns without a drop: always in the second phase, and in
the first where the last response leads nowhere. -/
def callKeeps (core : Core) (call : RpcCall) (read : Option ReplyRead) : Bool :=
  match call.callback with
  | .addNewServOk _ => true
  | .refreshAcceptBack _ => true
  | .receiveLearn => false
  | .receiveResponse key =>
      ((core.proposals.lookup key).bind fun p => countedBy p read).any (answerKeeps core)

/-! ## The account of references -/

/-- The share a call of the holder has in a proposal. -/
def share (holder : Option Nat) (key : Nat) : Nat :=
  if holder = some key then 1 else 0

theorem share_none : share none = 0 := by
  funext key
  exact if_neg (by simp)

theorem share_self (key : Nat) : share (some key) key = 1 :=
  if_pos rfl

theorem share_other {key other : Nat} (different : other ≠ key) : share (some key) other = 0 :=
  if_neg fun same => different (Option.some.inj same).symm

/-- Every proposal has one reference for each pending call that holds it, and
`spare` ones more. -/
structure Accounted (spare : Nat → Nat) (core : Core) : Prop where
  numbered : ∀ key, core.paxos.id ≤ key → core.proposals.lookup key = none
  callsOnce : (core.calls.map RpcCall.req).Nodup
  callsBelow : ∀ call ∈ core.calls, call.req < core.reqId
  shares : ∀ key, core.refs key = core.holders key + spare key
  sound : core.aborted = false

theorem refs_found {core : Core} {key : Nat} {p : PaxosProposal}
    (found : core.proposals.lookup key = some p) : core.refs key = p.refCount := by
  rw [Core.refs, found]
  rfl

theorem refs_absent {core : Core} {key : Nat} (absent : core.proposals.lookup key = none) :
    core.refs key = 0 := by
  rw [Core.refs, absent]
  rfl

theorem refs_insert (core : Core) (key : Nat) (p : PaxosProposal) (other : Nat) :
    ({ core with proposals := core.proposals.insert key p } : Core).refs other =
      if other = key then p.refCount else core.refs other := by
  unfold Core.refs
  dsimp only
  by_cases same : other = key
  · rw [same, AList.lookup_insert, if_pos rfl]
    rfl
  · rw [AList.lookup_insert_ne same, if_neg same]

namespace Accounted

variable {spare : Nat → Nat} {core : Core}

/-- A change that concerns no proposal and no call. -/
theorem quiet (law : Accounted spare core) {after : Core} (numbers : core.paxos.id ≤ after.paxos.id)
    (proposals : after.proposals = core.proposals) (calls : after.calls = core.calls)
    (reqId : after.reqId = core.reqId) (aborted : after.aborted = core.aborted) :
    Accounted spare after := by
  constructor
  · intro key above
    rw [proposals]
    exact law.numbered key (numbers.trans above)
  · rw [calls]
    exact law.callsOnce
  · rw [calls, reqId]
    exact law.callsBelow
  · intro key
    unfold Core.refs Core.holders
    rw [proposals, calls]
    exact law.shares key
  · exact aborted.trans law.sound

/-- A proposal is written, with the references that `spare` asks for. -/
theorem write (law : Accounted spare core) {key : Nat} {p : PaxosProposal}
    (found : core.proposals.lookup key = some p) (q : PaxosProposal) {left : Nat → Nat}
    (count : q.refCount = core.holders key + left key)
    (others : ∀ other, other ≠ key → left other = spare other) :
    Accounted left { core with proposals := core.proposals.insert key q } := by
  constructor
  · intro other above
    have absent := law.numbered other above
    have different : other ≠ key := by
      rintro rfl
      rw [found] at absent
      cases absent
    exact (AList.lookup_insert_ne different).trans absent
  · exact law.callsOnce
  · exact law.callsBelow
  · intro other
    rw [refs_insert]
    by_cases same : other = key
    · rw [if_pos same, same]
      exact count
    · rw [if_neg same, others other same]
      exact law.shares other
  · exact law.sound

/-- Whatever else is written, the references stay. -/
theorem rewrite (law : Accounted spare core) {key : Nat} {p : PaxosProposal}
    (found : core.proposals.lookup key = some p) (q : PaxosProposal)
    (count : q.refCount = p.refCount) :
    Accounted spare { core with proposals := core.proposals.insert key q } := by
  apply law.write found q _ fun _ _ => rfl
  rw [count, ← refs_found found]
  exact law.shares key

theorem grab (law : Accounted spare core) {key : Nat} {p : PaxosProposal}
    (found : core.proposals.lookup key = some p) :
    Accounted (spare + share (some key)) (sPaxosProposalGrab core key) := by
  unfold sPaxosProposalGrab Core.modifyProposal
  rw [found]
  apply law.write found
  · have before := law.shares key
    rw [refs_found found] at before
    rw [Pi.add_apply, share_self]
    dsimp only
    omega
  · intro other different
    rw [Pi.add_apply, share_other different]
    rfl

/-- A share to spare is a reference, so there is a proposal. -/
theorem present {key : Nat} (law : Accounted (spare + share (some key)) core) :
    ∃ p, core.proposals.lookup key = some p ∧ 0 < p.refCount := by
  have shares := law.shares key
  rw [Pi.add_apply, share_self] at shares
  cases found : core.proposals.lookup key with
  | none =>
      rw [refs_absent found] at shares
      omega
  | some p =>
      rw [refs_found found] at shares
      exact ⟨p, rfl, by omega⟩

theorem drop {key : Nat} (law : Accounted (spare + share (some key)) core) :
    Accounted spare (sPaxosProposalDrop core key) := by
  obtain ⟨p, found, positive⟩ := law.present
  unfold sPaxosProposalDrop
  rw [found]
  dsimp only
  rw [if_pos positive]
  apply law.write found
  · have before := law.shares key
    rw [refs_found found, Pi.add_apply, share_self] at before
    dsimp only
    omega
  · intro other different
    rw [Pi.add_apply, share_other different]
    rfl

/-- A new proposal has the reference of its creator. -/
theorem create (law : Accounted spare core) (p : PaxosProposal) (one : p.refCount = 1) :
    Accounted (spare + share (some core.paxos.id))
      { core with
        paxos := { core.paxos with id := core.paxos.id + 1 }
        proposals := core.proposals.insert core.paxos.id p } := by
  have absent := law.numbered core.paxos.id le_rfl
  have nothing := law.shares core.paxos.id
  rw [refs_absent absent] at nothing
  constructor
  · intro key above
    have different : key ≠ core.paxos.id := by
      rintro rfl
      exact absurd above (Nat.not_succ_le_self _)
    exact (AList.lookup_insert_ne different).trans (law.numbered key (Nat.le_of_succ_le above))
  · exact law.callsOnce
  · exact law.callsBelow
  · intro key
    have inserted := refs_insert core core.paxos.id p key
    show ({ core with proposals := core.proposals.insert core.paxos.id p } : Core).refs key = _
    rw [inserted, Pi.add_apply]
    by_cases same : key = core.paxos.id
    · rw [if_pos same, same, share_self, one]
      show 1 = core.holders core.paxos.id + (spare core.paxos.id + 1)
      omega
    · rw [if_neg same, share_other same]
      exact law.shares key
  · exact law.sound

/-- A call takes over a share. -/
theorem call {callback : Callback} (law : Accounted (spare + share callback.proposal) core)
    (dst : Nat) (body : Nat → PaxosBody) : Accounted spare (core.rpcCall dst body callback) := by
  constructor
  · exact law.numbered
  · show ((core.calls ++ [_]).map RpcCall.req).Nodup
    rw [List.map_append]
    apply List.nodup_append.mpr
    refine ⟨law.callsOnce, List.nodup_singleton _, ?_⟩
    intro req old fresh new same
    obtain ⟨pending, member, isReq⟩ := List.mem_map.mp old
    have below := law.callsBelow pending member
    rw [List.mem_singleton.mp new] at same
    dsimp only at same
    omega
  · intro pending member
    rcases List.mem_append.mp member with old | new
    · exact Nat.lt_succ_of_lt (law.callsBelow pending old)
    · rw [List.mem_singleton.mp new]
      exact Nat.lt_succ_self _
  · intro key
    have before := law.shares key
    rw [Pi.add_apply] at before
    show core.refs key = (core.calls ++ [_]).countP _ + spare key
    rw [List.countP_append, List.countP_singleton, before]
    unfold share Core.holders
    by_cases holds : callback.proposal = some key
    · rw [if_pos holds, if_pos (by simpa using holds)]
      omega
    · rw [if_neg holds, if_neg (by simpa using holds)]
      omega
  · exact law.sound

/-- The end of a call leaves its share. -/
theorem finish (law : Accounted spare core) {call : RpcCall} (pending : call ∈ core.calls) :
    Accounted (spare + share call.callback.proposal)
      { core with calls := otherCalls core.calls call.req } := by
  have perm := perm_otherCalls law.callsOnce pending
  constructor
  · exact law.numbered
  · exact law.callsOnce.sublist (List.Sublist.map _ List.filter_sublist)
  · exact fun other member => law.callsBelow other (List.mem_of_mem_filter member)
  · intro key
    have before := law.shares key
    unfold Core.holders at before
    rw [perm.countP_eq, List.countP_cons] at before
    show core.refs key = (otherCalls core.calls call.req).countP _ + (spare key + share _ key)
    rw [before]
    unfold share
    by_cases holds : call.callback.proposal = some key
    · rw [if_pos holds, if_pos (by simpa using holds)]
      omega
    · rw [if_neg holds, if_neg (by simpa using holds)]
      omega
  · exact law.sound

/-- A turn of a loop that grabs the proposal for a call. -/
theorem grabbedCall {key : Nat} (law : Accounted (spare + share (some key)) core)
    {callback : Callback} (holder : callback.proposal = some key) (dst : Nat)
    (body : Nat → PaxosBody) :
    Accounted (spare + share (some key))
      ((sPaxosProposalGrab core key).rpcCall dst body callback) := by
  obtain ⟨p, found, _⟩ := law.present
  have grabbed := law.grab found
  rw [← holder] at grabbed
  rw [← holder]
  exact grabbed.call dst body

theorem sendAccept (law : Accounted spare core) (p : PaxosProposal) :
    Accounted spare (sendAccept core p) :=
  core.forMembers_keeps (Accounted spare) _
    (fun _ _ kept => kept.quiet le_rfl rfl rfl rfl rfl) law

theorem paxos (law : Accounted spare core) {paxos : SPaxos} (numbers : core.paxos.id ≤ paxos.id) :
    Accounted spare { core with paxos := paxos } :=
  law.quiet numbers rfl rfl rfl rfl

end Accounted

/-! ## Starting a proposal -/

section Start

variable {spare : Nat → Nat} {core : Core}

theorem accounted_sendRequest {key : Nat} (law : Accounted (spare + share (some key)) core)
    (request : PrepareRequest) (serv : Nat) :
    Accounted (spare + share (some key)) (sendRequest key request core serv) := by
  have called := @Accounted.grabbedCall _ _ key law (.receiveResponse key) rfl serv
    fun req => .request req request
  obtain ⟨p, found, _⟩ := called.present
  unfold sendRequest Core.modifyProposal
  dsimp only
  rw [found]
  exact called.rewrite found _ rfl

theorem accounted_sPaxosStart (law : Accounted spare core) (topic : Topic) (value : Value)
    (type : ProposalType) (theServ : Nat) :
    Accounted (spare + share (if startKeeps core type theServ then some core.paxos.id else none))
      (sPaxosStart core topic value type theServ) := by
  unfold sPaxosStart startKeeps
  cases member : sPaxosIsIn core.paxos core.id with
  | false =>
      rw [Bool.false_and, Bool.false_and, if_neg Bool.false_ne_true, share_none, add_zero]
      exact law
  | true =>
      rw [Bool.true_and, if_neg (show ¬(!true) = true by simp)]
      dsimp only [sPaxosProposalCreate]
      by_cases known : type = .add ∧ sPaxosIsIn core.paxos theServ = true
      · have keeps : (type == .add && sPaxosIsIn core.paxos theServ) = true := by
          rw [known.1, known.2]
          rfl
        rw [if_pos keeps, if_pos (by exact known)]
        exact law.create _ rfl
      · have leaves : ¬(type == .add && sPaxosIsIn core.paxos theServ) = true := by
          rwa [Bool.and_eq_true, beq_iff_eq]
        rw [if_neg leaves, if_neg (by exact known), share_none, add_zero]
        apply Accounted.drop
        apply Core.forMembers_keeps _ (Accounted (spare + share (some core.paxos.id)))
        · exact fun _ serv kept => accounted_sendRequest kept _ serv
        · exact law.create _ rfl

theorem accounted_sPaxosCheckLeave (law : Accounted spare core) :
    Accounted spare (sPaxosCheckLeave core) := by
  unfold sPaxosCheckLeave
  split
  · exact law
  next serv _ =>
    have started := accounted_sPaxosStart law (versionTopic (core.paxos.version.version + 1))
      (servsValue core.paxos.version.servs &&& ~~~servBit serv) .rm serv
    have drops : startKeeps core .rm serv = false := by
      unfold startKeeps
      simp
    rw [drops, if_neg Bool.false_ne_true, share_none, add_zero] at started
    exact started

theorem accounted_sPaxosLearnAll (law : Accounted spare core) :
    Accounted spare (sPaxosLearnAll core) := by
  unfold sPaxosLearnAll
  dsimp only
  have cleared : Accounted spare { core with paxos := { core.paxos with learn := ∅ } } :=
    law.paxos le_rfl
  have asked := Core.forMembers_keeps _ (Accounted spare)
    (fun core' serv => core'.rpcCall serv
      (fun req => .learnRequest req core.paxos.version.version) .receiveLearn)
    (by
      intro after serv kept
      apply Accounted.call
      rw [show Callback.receiveLearn.proposal = none from rfl, share_none, add_zero]
      exact kept)
    cleared
  exact asked.paxos le_rfl

end Start

/-! ## Ends of calls -/

section Answers

variable {spare : Nat → Nat} {core : Core} {key : Nat} {p : PaxosProposal}

/-- The end of an ADD response drops the proposal, or keeps it. -/
theorem accounted_addAnswered (layout : Layout) (law : Accounted (spare + share (some key)) core)
    (addition : p.type = .add) :
    Accounted (spare + share (if answerKeeps core p then some key else none))
      (addAnswered layout core key p) := by
  unfold addAnswered answerKeeps
  rw [addition]
  dsimp only
  by_cases answered : p.response.count = p.version.nserv
  · rw [if_pos answered, beq_iff_eq.mpr answered, Bool.true_and]
    cases p.conflicts with
    | true => exact law
    | false =>
        rw [if_neg Bool.false_ne_true, Bool.false_or]
        cases core.active p.theServ with
        | false => exact law
        | true =>
            rw [Bool.not_true, if_neg Bool.false_ne_true, if_pos rfl, share_none, add_zero]
            have pruned : Accounted (spare + share (some key))
                { core with paxos := (idumpLearn layout core.paxos).1 } := law.paxos le_rfl
            exact (pruned.grabbedCall rfl p.theServ _).drop
  · rw [if_neg answered, beq_false_of_ne answered, Bool.false_and, if_neg Bool.false_ne_true,
      share_none, add_zero]
    exact law.drop

theorem accounted_sendRefresh (law : Accounted (spare + share (some key)) core) (dump : Dump)
    (serv : Nat) : Accounted (spare + share (some key)) (sendRefresh key dump core serv) :=
  @Accounted.grabbedCall _ _ key law (.refreshAcceptBack key) rfl serv
    fun req => .refreshAccept req dump

theorem accounted_rmAnswered (layout : Layout) (law : Accounted (spare + share (some key)) core)
    (removal : p.type = .rm) :
    Accounted (spare + share (if answerKeeps core p then some key else none))
      (rmAnswered layout core key p) := by
  unfold rmAnswered answerKeeps
  rw [removal]
  dsimp only
  by_cases answered : p.response.count = p.response.nsent
  · rw [if_pos answered, beq_iff_eq.mpr answered, Bool.true_and]
    cases p.conflicts with
    | true => exact law
    | false =>
        rw [if_neg Bool.false_ne_true, if_neg Bool.false_ne_true, share_none, add_zero]
        have pruned : Accounted (spare + share (some key))
            { core with paxos := (idumpLearn layout core.paxos).1 } := law.paxos le_rfl
        have asked := Core.forMembers_keeps _ (Accounted (spare + share (some key)))
          (sendRefresh key (idumpLearn layout core.paxos).2)
          (fun _ serv kept => accounted_sendRefresh kept _ serv) pruned
        apply Accounted.drop
        obtain ⟨q, found, _⟩ := asked.present
        unfold Core.modifyProposal
        rw [found]
        exact asked.rewrite found _ rfl
  · rw [if_neg answered, beq_false_of_ne answered, Bool.false_and, if_neg Bool.false_ne_true,
      share_none, add_zero]
    exact law.drop

theorem noteReport_refCount (p : PaxosProposal) (report : Option (SId × Value)) :
    (p.noteReport report).refCount = p.refCount := by
  unfold PaxosProposal.noteReport
  split
  · rfl
  · split <;> rfl

theorem countResponse_refCount (p : PaxosProposal) (report : Option (SId × Value)) :
    (p.countResponse report).refCount = p.refCount := by
  unfold PaxosProposal.countResponse
  dsimp only
  split
  · rfl
  · split <;> rfl

/-- The proposal with one more response. -/
def PaxosProposal.once (p : PaxosProposal) : PaxosProposal :=
  { p with response := { p.response with count := p.response.count + 1 } }

theorem counted_none (notNormal : p.type ≠ .normal) : p.counted none = some p.once :=
  if_neg notNormal

theorem counted_promise (notNormal : p.type ≠ .normal) (report : Option (SId × Value))
    (backup : List PaxosAccept) (accepts : List (Topic × List PaxosAccept)) :
    p.counted (some (.promise report backup accepts)) = some (p.once.noteReport report) :=
  congrArg some (if_neg notNormal)

theorem accounted_ireceiveResponseAdd (layout : Layout) (servFrom : Nat)
    (reply : Option PrepareReply) (law : Accounted (spare + share (some key)) core)
    (found : core.proposals.lookup key = some p) (addition : p.type = .add) :
    Accounted
      (spare + share (if (p.counted reply).any (answerKeeps core) then some key else none))
      (ireceiveResponseAdd layout core servFrom key p reply) := by
  have notNormal : p.type ≠ .normal := fun normal => nomatch addition.symm.trans normal
  have learnt := (learnerClosed_grows layout core.id).calls
  unfold ireceiveResponseAdd
  dsimp only
  cases reply with
  | none =>
      rw [counted_none notNormal]
      have counted := law.rewrite found p.once rfl
      have once : p.once.type = .add := addition
      exact accounted_addAnswered layout counted once
  | some reply =>
      cases reply with
      | badVersion =>
          have uncounted : p.counted (some .badVersion) = none := rfl
          rw [uncounted, Option.any_none, if_neg Bool.false_ne_true, share_none, add_zero]
          exact law.drop
      | promise report backup accepts =>
          rw [counted_promise notNormal]
          have counted := law.rewrite found (p.once.noteReport report)
            (noteReport_refCount _ report)
          have noted : (p.once.noteReport report).type = .add := by
            rw [noteReport_type]
            exact addition
          exact accounted_addAnswered layout
            (counted.paxos (learnt.ilearnTable servFrom accepts core.paxos).numbers) noted

theorem accounted_ireceiveResponseRm (layout : Layout) (servFrom : Nat)
    (reply : Option PrepareReply) (law : Accounted (spare + share (some key)) core)
    (found : core.proposals.lookup key = some p) (removal : p.type = .rm) :
    Accounted
      (spare + share (if (p.counted reply).any (answerKeeps core) then some key else none))
      (ireceiveResponseRm layout core servFrom key p reply) := by
  have notNormal : p.type ≠ .normal := fun normal => nomatch removal.symm.trans normal
  have learnt := (learnerClosed_grows layout core.id).calls
  unfold ireceiveResponseRm
  dsimp only
  cases reply with
  | none =>
      rw [counted_none notNormal]
      have counted := law.rewrite found p.once rfl
      have once : p.once.type = .rm := removal
      exact accounted_rmAnswered layout counted once
  | some reply =>
      cases reply with
      | badVersion =>
          have uncounted : p.counted (some .badVersion) = none := rfl
          rw [uncounted, Option.any_none, if_neg Bool.false_ne_true, share_none, add_zero]
          exact law.drop
      | promise report backup accepts =>
          rw [counted_promise notNormal]
          have counted := law.rewrite found (p.once.noteReport report)
            (noteReport_refCount _ report)
          have grown := learnt.trans
            (learnt.ilearnTable (p.once.noteReport report).theServ
              (backup.map fun accept => (accept.topic, [accept])) core.paxos)
            (learnt.ilearnTable servFrom accepts _)
          have noted : (p.once.noteReport report).type = .rm := by
            rw [noteReport_type]
            exact removal
          exact accounted_rmAnswered layout (counted.paxos grown.numbers) noted

/-- A NORMAL response always drops the proposal. -/
theorem accounted_iresponse (law : Accounted (spare + share (some key)) core)
    (found : core.proposals.lookup key = some p) (report : Option (SId × Value)) :
    Accounted spare (sPaxosProposalDrop (iresponse core key p report) key) := by
  have counted := law.rewrite found (p.countResponse report) (countResponse_refCount p report)
  apply Accounted.drop
  unfold iresponse
  dsimp only
  split
  · exact counted.sendAccept _
  · exact counted

theorem answerKeeps_normal (normal : p.type = .normal) : answerKeeps core p = false := by
  unfold answerKeeps
  rw [normal]

theorem accounted_ireceiveResponse (layout : Layout) (servFrom : Nat)
    (reply : Option PrepareReply) (law : Accounted (spare + share (some key)) core)
    (found : core.proposals.lookup key = some p) :
    Accounted
      (spare + share (if (p.counted reply).any (answerKeeps core) then some key else none))
      (ireceiveResponse layout core servFrom key reply) := by
  unfold ireceiveResponse
  rw [found]
  dsimp only
  cases type : p.type with
  | add => exact accounted_ireceiveResponseAdd layout servFrom reply law found type
  | rm => exact accounted_ireceiveResponseRm layout servFrom reply law found type
  | normal =>
      have drops : (p.counted reply).any (answerKeeps core) = false := by
        cases counted : p.counted reply with
        | none => rfl
        | some q => exact answerKeeps_normal ((counted_sameAsked counted).type.trans type)
      rw [drops, if_neg Bool.false_ne_true, share_none, add_zero]
      dsimp only
      split
      · exact law.drop
      · exact law.drop
      · exact accounted_iresponse law found _

theorem accounted_ireceiveResponseFailed (layout : Layout) (servFrom : Nat)
    (report : Option (SId × Value)) (backup : List PaxosAccept)
    (accepts : List (Topic × List PaxosAccept))
    (law : Accounted (spare + share (some key)) core)
    (found : core.proposals.lookup key = some p) :
    Accounted spare (ireceiveResponseFailed layout core servFrom key report backup accepts) := by
  have learnt := (learnerClosed_grows layout core.id).calls
  have noted := law.rewrite found (p.once.noteReport report) (noteReport_refCount _ report)
  unfold ireceiveResponseFailed
  rw [found]
  dsimp only
  split
  · exact law.drop
  · apply Accounted.drop
    exact noted.paxos (learnt.ilearnTable servFrom accepts core.paxos).numbers
  · apply Accounted.drop
    have grown := learnt.trans
      (learnt.ilearnTable p.theServ (backup.map fun accept => (accept.topic, [accept])) core.paxos)
      (learnt.ilearnTable servFrom accepts _)
    exact noted.paxos grown.numbers

theorem accounted_iaddNewServOk (law : Accounted spare core) :
    Accounted spare (iaddNewServOk core key) := by
  unfold iaddNewServOk
  split
  · exact law
  · exact law.sendAccept _

theorem accounted_irefreshAcceptBack (law : Accounted spare core) :
    Accounted spare (irefreshAcceptBack core key) := by
  unfold irefreshAcceptBack
  cases found : core.proposals.lookup key with
  | none => exact law
  | some p =>
      have counted := law.rewrite found
        { p with response := { p.response with count := p.response.count - 1 } } rfl
      dsimp only
      split
      · exact counted.sendAccept _
      · exact counted

theorem ireceiveLearnFailed_numbers (layout : Layout) (coreId servId : Nat) (paxos : SPaxos)
    (read : Option LearnReply) :
    paxos.id ≤ (ireceiveLearnFailed layout coreId servId paxos read).id := by
  have learnt := (learnerClosed_grows layout coreId).calls
  unfold ireceiveLearnFailed
  dsimp only
  cases read with
  | none => exact le_rfl
  | some reply =>
      dsimp only
      split
      · exact le_rfl
      · exact (learnt.learnLoop servId reply.version reply.entries
          { paxos with learnReqCount := paxos.learnReqCount - 1 }).numbers

theorem accounted_learnCallback (layout : Layout) (req peer : Nat) (law : Accounted spare core)
    (reply : Option LearnReply) :
    Accounted spare
      (runCallback layout core ⟨req, peer, .receiveLearn⟩ (reply.map RpcReply.learn)) := by
  have grown := (learnerClosed_grows layout core.id).calls.ireceiveLearn peer core.paxos reply
  cases reply with
  | none => exact law.quiet grown.numbers rfl rfl rfl rfl
  | some reply => exact law.quiet grown.numbers rfl rfl rfl rfl

/-- A prepare call's callback drops the proposal, or keeps it. -/
theorem accounted_readResponse (layout : Layout) (req peer : Nat) {read : Option ReplyRead}
    {next : Core} (law : Accounted (spare + share (some key)) core)
    (ran : runRead layout core ⟨req, peer, .receiveResponse key⟩ read = some next) :
    Accounted
      (spare + share (if callKeeps core ⟨req, peer, .receiveResponse key⟩ read then some key
        else none)) next := by
  obtain ⟨p, found, _⟩ := law.present
  have keeps : callKeeps core ⟨req, peer, .receiveResponse key⟩ read =
      (countedBy p read).any (answerKeeps core) := by
    unfold callKeeps
    dsimp only
    rw [found]
    rfl
  rw [keeps]
  cases read with
  | none =>
      cases ran
      exact accounted_ireceiveResponse layout peer none law found
  | some read =>
      cases read with
      | prepare reply =>
          cases ran
          exact accounted_ireceiveResponse layout peer (some reply) law found
      | prepareFailed report backup accepts =>
          cases ran
          have uncounted : countedBy p (some (.prepareFailed report backup accepts)) = none := rfl
          rw [uncounted, Option.any_none, if_neg Bool.false_ne_true, share_none, add_zero]
          exact accounted_ireceiveResponseFailed layout peer report backup accepts law found
      | learn reply => cases ran
      | learnFailed read => cases ran
      | unread => cases ran

/-- A callback drops the proposal of its call, or keeps it. -/
theorem accounted_runRead (layout : Layout) {call : RpcCall} {read : Option ReplyRead}
    {next : Core} (law : Accounted (spare + share call.callback.proposal) core)
    (ran : runRead layout core call read = some next) :
    Accounted (spare + share (if callKeeps core call read then call.callback.proposal else none))
      next := by
  obtain ⟨req, peer, callback⟩ := call
  cases callback with
  | receiveResponse key => exact accounted_readResponse layout req peer law ran
  | addNewServOk key =>
      have kept := @accounted_iaddNewServOk _ _ key law
      cases read with
      | none =>
          cases ran
          exact kept
      | some read =>
          cases ran
          exact kept
  | refreshAcceptBack key =>
      have kept := @accounted_irefreshAcceptBack _ _ key law
      cases read with
      | none =>
          cases ran
          exact kept
      | some read =>
          cases ran
          exact kept
  | receiveLearn =>
      rw [show Callback.receiveLearn.proposal = none from rfl, ite_self, share_none, add_zero]
      rw [show Callback.receiveLearn.proposal = none from rfl, share_none, add_zero] at law
      cases read with
      | none =>
          cases ran
          exact accounted_learnCallback layout req peer law none
      | some read =>
          cases read with
          | prepare reply => cases ran
          | prepareFailed report backup accepts => cases ran
          | learn reply =>
              cases ran
              exact accounted_learnCallback layout req peer law (some reply)
          | learnFailed read =>
              cases ran
              exact law.paxos (ireceiveLearnFailed_numbers layout core.id peer core.paxos read)
          | unread => cases ran

end Answers

end SimpleDfs.Paxos
