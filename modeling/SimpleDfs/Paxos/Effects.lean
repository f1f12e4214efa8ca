import SimpleDfs.Paxos.Network

/-!
Contract: which parts of a server each step of the Paxos layer can change.

Owns: the shape of a write to a proposal and of a loop over the members, what
every handler does to `struct s_paxos`, and the accept lists of an updated
table.

Does not own: invariants of runs.
-/

set_option autoImplicit false

namespace SimpleDfs.Paxos

open SimpleDfs.Common
open SimpleDfs.Library

namespace Core

variable (core : Core)

@[simp] theorem send_paxos (dst : Nat) (body : PaxosBody) :
    (core.send dst body).paxos = core.paxos := rfl

@[simp] theorem rpcCall_paxos (dst : Nat) (body : Nat → PaxosBody) (callback : Callback) :
    (core.rpcCall dst body callback).paxos = core.paxos := rfl

/-- The proposals after a write to one of them. -/
def writtenProposals (key : Nat) (f : PaxosProposal → PaxosProposal) : Table Nat PaxosProposal :=
  match core.proposals.lookup key with
  | none => core.proposals
  | some p => core.proposals.insert key (f p)

theorem modifyProposal_eq (key : Nat) (f : PaxosProposal → PaxosProposal) :
    core.modifyProposal key f = { core with proposals := core.writtenProposals key f } := by
  unfold modifyProposal writtenProposals
  cases core.proposals.lookup key <;> rfl

/-- A write to a proposal continues the table if it continues the proposal. -/
theorem continues_written {R : PaxosProposal → PaxosProposal → Prop}
    {fresh : Nat → PaxosProposal → Prop} (reflexive : ∀ p, R p p) {key : Nat}
    {f : PaxosProposal → PaxosProposal} (related : ∀ p, R p (f p)) :
    Table.Continues R fresh core.proposals (core.writtenProposals key f) := by
  unfold writtenProposals
  split
  · exact Table.Continues.refl reflexive _
  next p found => exact Table.Continues.insert_present reflexive found (related p)

theorem lookup_written_ne {key other : Nat} (different : other ≠ key)
    {f : PaxosProposal → PaxosProposal} :
    (core.writtenProposals key f).lookup other = core.proposals.lookup other := by
  unfold writtenProposals
  split
  · rfl
  · exact AList.lookup_insert_ne different

@[simp] theorem modifyProposal_paxos (key : Nat) (f : PaxosProposal → PaxosProposal) :
    (core.modifyProposal key f).paxos = core.paxos := by
  rw [modifyProposal_eq]

/-- What every turn of a loop over the members keeps, the loop keeps. -/
theorem forMembers_keeps (P : Core → Prop) (body : Core → Nat → Core)
    (turn : ∀ core serv, P core → P (body core serv)) (start : P core) :
    P (core.forMembers body) := by
  unfold forMembers
  generalize core.paxos.version.servs = servs
  induction servs generalizing core with
  | nil => exact start
  | cons head tail inductionHypothesis =>
      rw [List.foldl_cons]
      apply inductionHypothesis
      split
      · exact turn core head start
      · exact start

theorem forMembers_paxos (body : Core → Nat → Core)
    (turn : ∀ core serv, (body core serv).paxos = core.paxos) :
    (core.forMembers body).paxos = core.paxos := by
  apply core.forMembers_keeps (fun after => after.paxos = core.paxos) body
  · intro after serv same
    rw [turn, same]
  · rfl

end Core

/-! ## `struct s_paxos` under the handlers -/

@[simp] theorem sPaxosProposalGrab_paxos (core : Core) (key : Nat) :
    (sPaxosProposalGrab core key).paxos = core.paxos :=
  core.modifyProposal_paxos key _

@[simp] theorem sPaxosProposalDrop_paxos (core : Core) (key : Nat) :
    (sPaxosProposalDrop core key).paxos = core.paxos := by
  unfold sPaxosProposalDrop
  split
  · rfl
  · split <;> rfl

@[simp] theorem sendRequest_paxos (key : Nat) (request : PrepareRequest) (core : Core)
    (serv : Nat) : (sendRequest key request core serv).paxos = core.paxos := by
  simp [sendRequest]

/-- The proposals after one request: a share taken, and one more sent. -/
def askedProposals (core : Core) (key : Nat) : Table Nat PaxosProposal :=
  { core with
    proposals := core.writtenProposals key fun p => { p with refCount := p.refCount + 1 }
  }.writtenProposals key fun p =>
    { p with response := { p.response with nsent := p.response.nsent + 1 } }

theorem sendRequest_eq (key : Nat) (request : PrepareRequest) (core : Core) (serv : Nat) :
    sendRequest key request core serv =
      { core with
        proposals := askedProposals core key
        calls := core.calls ++
          [{ req := core.reqId, peer := serv, callback := .receiveResponse key }]
        reqId := core.reqId + 1
        out := core.out ++
          [{ src := core.id, dst := serv, body := .request core.reqId request }] } := by
  unfold sendRequest sPaxosProposalGrab
  rw [Core.modifyProposal_eq, Core.modifyProposal_eq]
  rfl

theorem lookup_asked_ne {key other : Nat} (core : Core) (different : other ≠ key) :
    (askedProposals core key).lookup other = core.proposals.lookup other :=
  (Core.lookup_written_ne _ different).trans (core.lookup_written_ne different)

theorem lookup_asked {key : Nat} {p : PaxosProposal} (core : Core)
    (found : core.proposals.lookup key = some p) :
    (askedProposals core key).lookup key =
      some { p with
        refCount := p.refCount + 1
        response := { p.response with nsent := p.response.nsent + 1 } } := by
  unfold askedProposals Core.writtenProposals
  rw [found]
  dsimp only
  rw [AList.lookup_insert]
  exact AList.lookup_insert _

/-- A request continues the proposals wherever a share and a number sent do
not matter. -/
theorem continues_asked {R : PaxosProposal → PaxosProposal → Prop}
    {fresh : Nat → PaxosProposal → Prop} (reflexive : ∀ p, R p p)
    (related : ∀ (p : PaxosProposal) refCount nsent,
      R p { p with refCount := refCount, response := { p.response with nsent := nsent } })
    (core : Core) (key : Nat) :
    Table.Continues R fresh core.proposals (askedProposals core key) := by
  constructor
  · intro other p found
    by_cases same : other = key
    · subst same
      exact ⟨_, lookup_asked core found, related p _ _⟩
    · exact ⟨p, (lookup_asked_ne core same).trans found, reflexive p⟩
  · intro other q found
    by_cases same : other = key
    · subst same
      cases before : core.proposals.lookup other with
      | none =>
          unfold askedProposals Core.writtenProposals at found
          rw [before] at found
          dsimp only at found
          rw [before] at found
          exact nomatch before.symm.trans found
      | some p =>
          rw [← Option.some.inj ((lookup_asked core before).symm.trans found)]
          exact Or.inl ⟨p, rfl, related p _ _⟩
    · rw [lookup_asked_ne core same] at found
      exact Or.inl ⟨q, found, reflexive q⟩

theorem lookup_sendRequest {key : Nat} {p : PaxosProposal} (core : Core) (request : PrepareRequest)
    (serv : Nat) (found : core.proposals.lookup key = some p) :
    (sendRequest key request core serv).proposals.lookup key =
      some { p with
        refCount := p.refCount + 1
        response := { p.response with nsent := p.response.nsent + 1 } } := by
  rw [sendRequest_eq]
  exact lookup_asked core found

@[simp] theorem sendAccept_paxos (core : Core) (p : PaxosProposal) :
    (sendAccept core p).paxos = core.paxos :=
  core.forMembers_paxos _ fun core serv => core.send_paxos serv _

@[simp] theorem sendRefresh_paxos (key : Nat) (dump : Dump) (core : Core) (serv : Nat) :
    (sendRefresh key dump core serv).paxos = core.paxos := by
  simp [sendRefresh]

/-- Starting a proposal takes a number at most. -/
theorem sPaxosStart_paxos (core : Core) (topic : Topic) (value : Value) (type : ProposalType)
    (theServ : Nat) :
    ∃ id, core.paxos.id ≤ id ∧
      (sPaxosStart core topic value type theServ).paxos = { core.paxos with id := id } := by
  unfold sPaxosStart
  split
  · exact ⟨core.paxos.id, le_rfl, rfl⟩
  · refine ⟨core.paxos.id + 1, Nat.le_succ _, ?_⟩
    dsimp only [sPaxosProposalCreate]
    split
    · rfl
    · rw [sPaxosProposalDrop_paxos, Core.forMembers_paxos _ _ (sendRequest_paxos _ _)]

theorem sPaxosCheckLeave_paxos (core : Core) :
    ∃ id, core.paxos.id ≤ id ∧ (sPaxosCheckLeave core).paxos = { core.paxos with id := id } := by
  unfold sPaxosCheckLeave
  split
  · exact ⟨core.paxos.id, le_rfl, rfl⟩
  · exact sPaxosStart_paxos core _ _ _ _

/-- Asking everybody clears what was learned and counts the calls. -/
theorem sPaxosLearnAll_paxos (core : Core) :
    ∃ count, (sPaxosLearnAll core).paxos =
      { core.paxos with learn := ∅, learnReqCount := count } := by
  refine ⟨(sPaxosLearnAll core).paxos.learnReqCount, ?_⟩
  unfold sPaxosLearnAll
  dsimp only
  rw [Core.forMembers_paxos _ _ (fun core serv => core.rpcCall_paxos serv _ _)]

@[simp] theorem iresponse_paxos (core : Core) (key : Nat) (p : PaxosProposal)
    (report : Option (SId × Value)) : (iresponse core key p report).paxos = core.paxos := by
  unfold iresponse
  dsimp only
  split
  · rw [sendAccept_paxos]
  · rfl

/-- The end of a membership proposal's prepare phase dumps the learn table or
leaves it. -/
theorem addAnswered_paxos (layout : Layout) (core : Core) (key : Nat) (p : PaxosProposal) :
    (addAnswered layout core key p).paxos = core.paxos ∨
      (addAnswered layout core key p).paxos = (idumpLearn layout core.paxos).1 := by
  unfold addAnswered
  split
  · split
    · exact Or.inl rfl
    · split
      · right
        dsimp only
        rw [sPaxosProposalDrop_paxos, Core.rpcCall_paxos, sPaxosProposalGrab_paxos]
      · exact Or.inl rfl
  · exact Or.inl (by rw [sPaxosProposalDrop_paxos])

theorem rmAnswered_paxos (layout : Layout) (core : Core) (key : Nat) (p : PaxosProposal) :
    (rmAnswered layout core key p).paxos = core.paxos ∨
      (rmAnswered layout core key p).paxos = (idumpLearn layout core.paxos).1 := by
  unfold rmAnswered
  split
  · split
    · exact Or.inl rfl
    · right
      dsimp only
      rw [sPaxosProposalDrop_paxos, Core.modifyProposal_paxos,
        Core.forMembers_paxos _ _ (sendRefresh_paxos _ _)]
  · exact Or.inl (by rw [sPaxosProposalDrop_paxos])

@[simp] theorem iaddNewServOk_paxos (core : Core) (key : Nat) :
    (iaddNewServOk core key).paxos = core.paxos := by
  unfold iaddNewServOk
  split
  · rfl
  · rw [sendAccept_paxos]

@[simp] theorem irefreshAcceptBack_paxos (core : Core) (key : Nat) :
    (irefreshAcceptBack core key).paxos = core.paxos := by
  unfold irefreshAcceptBack
  split
  · rfl
  · dsimp only
    split
    · rw [sendAccept_paxos]
    · rfl

/-- Accepting writes nothing but the accept table. -/
theorem iaccept_eq (paxos : SPaxos) (topic : Topic) (id : SId) (value : Value) (version : Int) :
    ∃ accept, iaccept paxos topic id value version = { paxos with accept := accept } := by
  unfold iaccept
  dsimp only
  split
  · exact ⟨paxos.accept, rfl⟩
  · split
    · exact ⟨paxos.accept, rfl⟩
    · split
      · exact ⟨paxos.accept, rfl⟩
      · exact ⟨_, rfl⟩

theorem acceptLoop_eq (entries : List PaxosAccept) (paxos : SPaxos) :
    ∃ accept, acceptLoop paxos entries = { paxos with accept := accept } := by
  induction entries generalizing paxos with
  | nil => exact ⟨paxos.accept, rfl⟩
  | cons entry rest inductionHypothesis =>
      obtain ⟨first, same⟩ := iaccept_eq paxos entry.topic entry.id entry.value (-1)
      rw [acceptLoop, same]
      exact inductionHypothesis _

/-- Installing a version writes the version and the accept table. -/
theorem icheckNewVersion_eq (layout : Layout) (coreId : Nat) (paxos : SPaxos) :
    icheckNewVersion layout coreId paxos = paxos ∨ ∃ value accept,
      icheckNewVersion layout coreId paxos =
        { paxos with
          version := { version := paxos.version.version + 1, servs := valueServs value }
          accept := accept } := by
  unfold icheckNewVersion
  dsimp only
  split
  · exact Or.inl rfl
  · split
    · exact Or.inl rfl
    next learn _ =>
      obtain ⟨accept, same⟩ := iaccept_eq
        { paxos with
          version := { version := paxos.version.version + 1, servs := valueServs learn.value } }
        _ learn.id learn.value (-1)
      exact Or.inr ⟨learn.value, accept, same⟩

theorem refreshLoop_eq (layout : Layout) (entries : List PaxosAccept) (number : Nat)
    (paxos : SPaxos) :
    ∃ accept backup, refreshLoop layout paxos number entries =
      { paxos with accept := accept, backup := backup } := by
  induction entries generalizing paxos number with
  | nil => exact ⟨paxos.accept, paxos.backup, rfl⟩
  | cons entry rest inductionHypothesis => exact inductionHypothesis (number + 1) _

/-! ## Learning, as a relation between two states -/

/-- A relation that the steps of a learner stay within: a call of `ilearn`, a
learn reply counted, and a dump. -/
structure LearnerCalls (layout : Layout) (coreId : Nat) (R : SPaxos → SPaxos → Prop) : Prop where
  refl : ∀ paxos, R paxos paxos
  trans : ∀ {first second third}, R first second → R second third → R first third
  learn : ∀ paxos topic value id servId, R paxos (ilearn layout coreId paxos topic value id servId)
  count : ∀ paxos count, R paxos { paxos with learnReqCount := count }
  dump : ∀ paxos, R paxos (idumpLearn layout paxos).1

namespace LearnerCalls

variable {layout : Layout} {coreId : Nat} {R : SPaxos → SPaxos → Prop}

theorem ilearnList (closed : LearnerCalls layout coreId R) (servId : Nat) (topic : Topic)
    (accepts : List PaxosAccept) (paxos : SPaxos) :
    R paxos (ilearnList layout coreId servId topic paxos accepts) := by
  induction accepts generalizing paxos with
  | nil => exact closed.refl paxos
  | cons accept rest inductionHypothesis =>
      exact closed.trans (closed.learn paxos _ _ _ _) (inductionHypothesis _)

theorem ilearnTable (closed : LearnerCalls layout coreId R) (servId : Nat)
    (table : List (Topic × List PaxosAccept)) (paxos : SPaxos) :
    R paxos (ilearnTable layout coreId servId paxos table) := by
  induction table generalizing paxos with
  | nil => exact closed.refl paxos
  | cons row rest inductionHypothesis =>
      exact closed.trans (closed.ilearnList servId row.1 row.2 paxos) (inductionHypothesis _)

theorem learnLoop (closed : LearnerCalls layout coreId R) (servId : Nat) (version : Int)
    (entries : List PaxosAccept) (paxos : SPaxos) :
    R paxos (learnLoop layout coreId servId version paxos entries).1 := by
  induction entries generalizing paxos with
  | nil => exact closed.refl paxos
  | cons entry rest inductionHypothesis =>
      have learned := closed.learn paxos entry.topic entry.value entry.id servId
      rw [Paxos.learnLoop]
      split
      · exact learned
      · exact closed.trans learned (inductionHypothesis _)

theorem reportIfLast (closed : LearnerCalls layout coreId R) (paxos : SPaxos) :
    R paxos (reportIfLast layout paxos).1 := by
  unfold Paxos.reportIfLast
  split
  · exact closed.dump paxos
  · exact closed.refl paxos

theorem ireceiveLearn (closed : LearnerCalls layout coreId R) (servId : Nat) (paxos : SPaxos)
    (reply : Option LearnReply) : R paxos (ireceiveLearn layout coreId servId paxos reply).1 := by
  have counted := closed.count paxos (paxos.learnReqCount - 1)
  unfold Paxos.ireceiveLearn
  dsimp only
  cases reply with
  | none => exact closed.trans counted (closed.reportIfLast _)
  | some reply =>
      dsimp only
      split
      · exact counted
      · have learned := closed.learnLoop servId reply.version reply.entries
          { paxos with learnReqCount := paxos.learnReqCount - 1 }
        split
        next loop =>
          rw [loop] at learned
          exact closed.trans counted learned
        next loop =>
          rw [loop] at learned
          exact closed.trans (closed.trans counted learned) (closed.reportIfLast _)

theorem ireceiveResponseAdd {core : Core} (closed : LearnerCalls layout core.id R)
    (servFrom key : Nat) (p : PaxosProposal) (reply : Option PrepareReply) :
    R core.paxos (ireceiveResponseAdd layout core servFrom key p reply).paxos := by
  have answered : ∀ paxos (after : Core) p, after.paxos = paxos →
      R paxos (addAnswered layout after key p).paxos := by
    intro paxos after p given
    rcases addAnswered_paxos layout after key p with same | dumped
    · rw [same, given]
      exact closed.refl paxos
    · rw [dumped, given]
      exact closed.dump paxos
  unfold Paxos.ireceiveResponseAdd
  dsimp only
  split
  · rw [sPaxosProposalDrop_paxos]
    exact closed.refl _
  · exact answered _ _ _ rfl
  next report _ accepts =>
    exact closed.trans (closed.ilearnTable servFrom accepts core.paxos) (answered _ _ _ rfl)

theorem ireceiveResponseRm {core : Core} (closed : LearnerCalls layout core.id R)
    (servFrom key : Nat) (p : PaxosProposal) (reply : Option PrepareReply) :
    R core.paxos (ireceiveResponseRm layout core servFrom key p reply).paxos := by
  have answered : ∀ paxos (after : Core) p, after.paxos = paxos →
      R paxos (rmAnswered layout after key p).paxos := by
    intro paxos after p given
    rcases rmAnswered_paxos layout after key p with same | dumped
    · rw [same, given]
      exact closed.refl paxos
    · rw [dumped, given]
      exact closed.dump paxos
  unfold Paxos.ireceiveResponseRm
  dsimp only
  split
  · rw [sPaxosProposalDrop_paxos]
    exact closed.refl _
  · exact answered _ _ _ rfl
  next report backup accepts =>
    have fromBackup := fun servId => closed.ilearnTable servId
      (backup.map fun accept => (accept.topic, [accept])) core.paxos
    exact closed.trans (closed.trans (fromBackup _) (closed.ilearnTable servFrom accepts _))
      (answered _ _ _ rfl)

theorem ireceiveResponse {core : Core} (closed : LearnerCalls layout core.id R)
    (servFrom key : Nat) (reply : Option PrepareReply) :
    R core.paxos (ireceiveResponse layout core servFrom key reply).paxos := by
  unfold Paxos.ireceiveResponse
  split
  · exact closed.refl _
  next p found =>
    split
    · exact closed.ireceiveResponseAdd servFrom key p reply
    · exact closed.ireceiveResponseRm servFrom key p reply
    · split
      · rw [sPaxosProposalDrop_paxos]
        exact closed.refl _
      · rw [sPaxosProposalDrop_paxos]
        exact closed.refl _
      · rw [sPaxosProposalDrop_paxos, iresponse_paxos]
        exact closed.refl _

theorem runCallback {core : Core} (closed : LearnerCalls layout core.id R) (call : RpcCall)
    (reply : Option RpcReply) : R core.paxos (runCallback layout core call reply).paxos := by
  unfold Paxos.runCallback
  split
  · exact closed.ireceiveResponse call.peer _ none
  · exact closed.ireceiveResponse call.peer _ (some _)
  · exact closed.refl _
  · rw [iaddNewServOk_paxos]
    exact closed.refl _
  · rw [irefreshAcceptBack_paxos]
    exact closed.refl _
  · exact closed.ireceiveLearn call.peer core.paxos none
  · exact closed.ireceiveLearn call.peer core.paxos (some _)
  · exact closed.refl _

theorem finishCall {core : Core} (closed : LearnerCalls layout core.id R) (peer req : Nat)
    (reply : Option RpcReply) : R core.paxos (finishCall layout core peer req reply).paxos := by
  unfold Paxos.finishCall
  split
  · exact closed.refl _
  · have others : LearnerCalls layout
        { core with calls := core.calls.filter fun other => other.req != req }.id R := closed
    exact others.runCallback _ reply

end LearnerCalls

/-- A relation that writing the learn table and installing a version stay
within. -/
structure LearnerClosed (layout : Layout) (coreId : Nat) (R : SPaxos → SPaxos → Prop) : Prop where
  refl : ∀ paxos, R paxos paxos
  trans : ∀ {first second third}, R first second → R second third → R first third
  learn : ∀ paxos learn count, R paxos { paxos with learn := learn, learnReqCount := count }
  check : ∀ paxos, R paxos (icheckNewVersion layout coreId paxos)

theorem LearnerClosed.calls {layout : Layout} {coreId : Nat} {R : SPaxos → SPaxos → Prop}
    (closed : LearnerClosed layout coreId R) : LearnerCalls layout coreId R where
  refl := closed.refl
  trans := closed.trans
  learn := by
    intro paxos topic value id servId
    unfold ilearn
    dsimp only
    split
    · exact closed.learn paxos _ paxos.learnReqCount
    · exact closed.trans (closed.learn paxos _ paxos.learnReqCount) (closed.check _)
  count := fun paxos count => closed.learn paxos paxos.learn count
  dump := fun paxos => closed.learn paxos _ paxos.learnReqCount

/-! ## Acts -/

/-- What a step does to one server, seen from that server. -/
theorem act_core (world middle : PaxosWorld) (acting server : Nat) (handler : Core → Core)
    (cores : middle.cores = world.cores) :
    ((middle.act acting handler).cores server).paxos =
      if server = acting then (handler (world.cores server)).paxos
      else (world.cores server).paxos := by
  unfold PaxosWorld.act
  rw [cores]
  by_cases same : server = acting
  · subst same
    rw [if_pos rfl]
    show (Function.update world.cores server _ server).paxos = _
    rw [Function.update_self]
  · rw [if_neg same]
    show (Function.update world.cores acting _ server).paxos = _
    rw [Function.update_of_ne same]

/-! ## Accept lists -/

theorem accepts_insert (paxos : SPaxos) (topic other : Topic) (list : List PaxosAccept) :
    ({ paxos with accept := paxos.accept.insert topic list } : SPaxos).accepts other =
      if other = topic then list else paxos.accepts other := by
  unfold SPaxos.accepts
  by_cases same : other = topic
  · rw [same, AList.lookup_insert, if_pos rfl]
    rfl
  · rw [AList.lookup_insert_ne same, if_neg same]

/-- What `iaccept` writes into a list: old entries, and the one it was given. -/
theorem mem_acceptInto {topic : Topic} {id : SId} {value : Value} {list : List PaxosAccept}
    {entry : PaxosAccept} (member : entry ∈ acceptInto topic id value list) :
    entry ∈ list ∨ entry = { topic := topic, id := id, value := value } := by
  induction list with
  | nil => exact Or.inr (List.mem_singleton.mp member)
  | cons head tail inductionHypothesis =>
      rw [acceptInto] at member
      split at member
      next same =>
        rcases List.mem_cons.mp member with rfl | later
        · split
          · right
            rw [← same.1, ← same.2]
          · exact Or.inl List.mem_cons_self
        · exact Or.inl (List.mem_cons_of_mem head later)
      next =>
        rcases List.mem_cons.mp member with rfl | later
        · exact Or.inl List.mem_cons_self
        · rcases inductionHypothesis later with old | new
          · exact Or.inl (List.mem_cons_of_mem head old)
          · exact Or.inr new

/-- What `ireceive_refresh_accept` leaves in a list: old entries, and the one
listed. -/
theorem mem_refreshInto {listed entry : PaxosAccept} {list : List PaxosAccept}
    (member : entry ∈ refreshInto listed list) : entry ∈ list ∨ entry = listed := by
  unfold refreshInto at member
  split at member
  · exact Or.inr (List.mem_singleton.mp member)
  · exact Or.inl ((List.dropWhile_sublist _).subset member)

end SimpleDfs.Paxos
