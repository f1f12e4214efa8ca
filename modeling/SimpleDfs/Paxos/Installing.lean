import SimpleDfs.Paxos.GroupLearner
import SimpleDfs.Paxos.Membership

/-!
Contract: whose votes install a version.

Owns: the calls of `icheck_new_version` that a step makes, the members a learn
table has heard the new version from, and the law that they are a majority
wherever the counted list names members only.

`icheck_new_version` counts entries, not members.  The learn table outlives the
version it was filled in, and an ADD_ACCEPT may take a server back to an older
one, so an entry of a server outside can be counted.

Does not own: how a list comes to name others.
-/

set_option autoImplicit false

namespace SimpleDfs.Paxos

open SimpleDfs.Common
open SimpleDfs.Library

/-! ## The calls of `icheck_new_version` -/

/-- The state with which `ilearn` calls `icheck_new_version`: none if the server
has an entry for the value already. -/
def ilearnChecks (paxos : SPaxos) (topic : Topic) (value : Value) (id : SId) (servId : Nat) :
    List SPaxos :=
  let array := paxos.learns topic
  if array.any fun learn => learn.servId == servId && learn.value == value then []
  else
    let array := array ++ [{ value := value, servId := servId, id := id }]
    [{ paxos with learn := paxos.learn.insert topic array }]

def ilearnListChecks (layout : Layout) (coreId servId : Nat) (topic : Topic) :
    SPaxos → List PaxosAccept → List SPaxos
  | _, [] => []
  | paxos, accept :: rest =>
      ilearnChecks paxos topic accept.value accept.id servId ++
        ilearnListChecks layout coreId servId topic
          (ilearn layout coreId paxos topic accept.value accept.id servId) rest

def ilearnTableChecks (layout : Layout) (coreId servId : Nat) :
    SPaxos → List (Topic × List PaxosAccept) → List SPaxos
  | _, [] => []
  | paxos, (topic, accepts) :: rest =>
      ilearnListChecks layout coreId servId topic paxos accepts ++
        ilearnTableChecks layout coreId servId
          (ilearnList layout coreId servId topic paxos accepts) rest

def learnLoopChecks (layout : Layout) (coreId servId : Nat) (version : Int) :
    SPaxos → List PaxosAccept → List SPaxos
  | _, [] => []
  | paxos, entry :: rest =>
      let learned := ilearn layout coreId paxos entry.topic entry.value entry.id servId
      ilearnChecks paxos entry.topic entry.value entry.id servId ++
        if version ≠ learned.version.version then []
        else learnLoopChecks layout coreId servId version learned rest

def ireceiveLearnChecks (layout : Layout) (coreId servId : Nat) (paxos : SPaxos)
    (reply : LearnReply) : List SPaxos :=
  if reply.version ≠ paxos.version.version then []
  else
    learnLoopChecks layout coreId servId reply.version
      { paxos with learnReqCount := paxos.learnReqCount - 1 } reply.entries

/-- Only the answers to an ADD or RM request are learned from; an RM answer
begins with the backup of the server to be removed. -/
def ireceiveResponseChecks (layout : Layout) (core : Core) (servFrom key : Nat)
    (backup : List PaxosAccept) (accepts : List (Topic × List PaxosAccept)) : List SPaxos :=
  match core.proposals.lookup key with
  | none => []
  | some p =>
      match p.type with
      | .normal => []
      | .add => ilearnTableChecks layout core.id servFrom core.paxos accepts
      | .rm =>
          let table := backup.map fun accept => (accept.topic, [accept])
          ilearnTableChecks layout core.id p.theServ core.paxos table ++
            ilearnTableChecks layout core.id servFrom
              (ilearnTable layout core.id p.theServ core.paxos table) accepts

def runCallbackChecks (layout : Layout) (core : Core) (call : RpcCall) :
    Option RpcReply → List SPaxos
  | some (.prepare (.promise _ backup accepts)) =>
      match call.callback with
      | .receiveResponse key =>
          ireceiveResponseChecks layout core call.peer key backup accepts
      | _ => []
  | some (.learn reply) =>
      match call.callback with
      | .receiveLearn => ireceiveLearnChecks layout core.id call.peer core.paxos reply
      | _ => []
  | _ => []

def finishCallChecks (layout : Layout) (core : Core) (peer req : Nat)
    (reply : Option RpcReply) : List SPaxos :=
  match core.calls.find? fun call => call.req == req && call.peer == peer with
  | none => []
  | some call => runCallbackChecks layout core call reply

/-- A call of `icheck_new_version`. -/
structure VersionCheck where
  layout : Layout
  server : Nat
  paxos : SPaxos

/-- The calls of `icheck_new_version` in a step, in their order. -/
def PaxosWorld.checks (world : PaxosWorld) : PaxosEvent → List VersionCheck
  | .deliver index layout =>
      match Packet.takeAt world.net index with
      | none => []
      | some (packet, _) =>
          match packet.body with
          | .rpcBack req reply =>
              let core := world.cores packet.dst
              (finishCallChecks layout core packet.src req (some reply)).map fun paxos =>
                { layout := layout, server := core.id, paxos := paxos }
          | _ => []
  | _ => []

namespace VersionCheck

variable (check : VersionCheck)

/-- What the call leaves behind. -/
def after : SPaxos :=
  icheckNewVersion check.layout check.server check.paxos

/-- The number of the next version. -/
def next : Int :=
  check.paxos.version.version + 1

/-- The topic whose list the call counts. -/
def topic : Option Topic :=
  (check.layout.topics.arrange check.paxos.learn.keys).find? fun topic =>
    decide (igetNewVersion topic = check.next)

/-- The list is the one of the topic `version:N` of the next version, and names
members of the current one only. -/
def countsMembers : Bool :=
  match check.topic with
  | none => true
  | some topic =>
      topic == versionTopic check.next &&
        (check.paxos.learns topic).all fun learn => sPaxosIsIn check.paxos learn.servId

/-- The members of the current version whose entry for the next version and its
members the table holds. -/
def learnedFrom : Finset Nat :=
  check.paxos.version.servs.toFinset.filter fun serv =>
    ∃ learn ∈ check.paxos.learns (versionTopic check.next),
      learn.servId = serv ∧ learn.value = servsValue check.after.version.servs

/-- More than half of the members, or one of two at server 1. -/
def ByMajority : Prop :=
  check.paxos.version.servs.toFinset.card < 2 * check.learnedFrom.card ∨
    check.paxos.version.servs.toFinset.card = 2 ∧ check.server = 1 ∧ check.learnedFrom.Nonempty

instance : Decidable check.ByMajority :=
  inferInstanceAs (Decidable (_ ∨ _))

end VersionCheck

/-! ## Nothing else moves a version -/

section

variable {layout : Layout} {coreId servId : Nat}

/-- None of the calls moves the version. -/
def AllQuiet (layout : Layout) (coreId : Nat) (checks : List SPaxos) : Prop :=
  ∀ check ∈ checks, (icheckNewVersion layout coreId check).version = check.version

theorem AllQuiet.append {front back : List SPaxos}
    (quiet : AllQuiet layout coreId (front ++ back)) :
    AllQuiet layout coreId front ∧ AllQuiet layout coreId back :=
  ⟨fun check listed => quiet check (List.mem_append_left back listed),
    fun check listed => quiet check (List.mem_append_right front listed)⟩

theorem version_ilearn {paxos : SPaxos} {topic : Topic} {value : Value} {id : SId}
    (quiet : AllQuiet layout coreId (ilearnChecks paxos topic value id servId)) :
    (ilearn layout coreId paxos topic value id servId).version = paxos.version := by
  unfold ilearnChecks at quiet
  unfold ilearn
  dsimp only at quiet ⊢
  split
  · rfl
  next absent =>
    rw [if_neg absent] at quiet
    exact quiet _ List.mem_cons_self

theorem version_ilearnList {topic : Topic} (accepts : List PaxosAccept) {paxos : SPaxos}
    (quiet : AllQuiet layout coreId
      (ilearnListChecks layout coreId servId topic paxos accepts)) :
    (ilearnList layout coreId servId topic paxos accepts).version = paxos.version := by
  induction accepts generalizing paxos with
  | nil => rfl
  | cons accept rest inductionHypothesis =>
      obtain ⟨first, later⟩ := quiet.append
      exact (inductionHypothesis later).trans (version_ilearn first)

theorem version_ilearnTable (table : List (Topic × List PaxosAccept)) {paxos : SPaxos}
    (quiet : AllQuiet layout coreId (ilearnTableChecks layout coreId servId paxos table)) :
    (ilearnTable layout coreId servId paxos table).version = paxos.version := by
  induction table generalizing paxos with
  | nil => rfl
  | cons row rest inductionHypothesis =>
      obtain ⟨first, later⟩ := quiet.append
      exact (inductionHypothesis later).trans (version_ilearnList row.2 first)

theorem version_learnLoop {version : Int} (entries : List PaxosAccept) {paxos : SPaxos}
    (quiet : AllQuiet layout coreId
      (learnLoopChecks layout coreId servId version paxos entries)) :
    (learnLoop layout coreId servId version paxos entries).1.version = paxos.version := by
  induction entries generalizing paxos with
  | nil => rfl
  | cons entry rest inductionHypothesis =>
      rw [learnLoopChecks] at quiet
      obtain ⟨first, later⟩ := quiet.append
      have learned := version_ilearn first
      rw [learnLoop]
      split
      · exact learned
      next same =>
        rw [if_neg same] at later
        exact (inductionHypothesis later).trans learned

theorem version_reportIfLast (paxos : SPaxos) :
    (reportIfLast layout paxos).1.version = paxos.version := by
  unfold reportIfLast
  split <;> rfl

theorem version_ireceiveLearn {paxos : SPaxos} {reply : LearnReply}
    (quiet : AllQuiet layout coreId (ireceiveLearnChecks layout coreId servId paxos reply)) :
    (ireceiveLearn layout coreId servId paxos (some reply)).1.version = paxos.version := by
  unfold ireceiveLearnChecks at quiet
  unfold ireceiveLearn
  dsimp only
  split
  · rfl
  next current =>
    rw [if_neg current] at quiet
    have learned := version_learnLoop reply.entries quiet
    split
    next loop =>
      rw [loop] at learned
      exact learned
    next loop =>
      rw [loop] at learned
      exact (version_reportIfLast _).trans learned

theorem version_addAnswered (core : Core) (key : Nat) (p : PaxosProposal) :
    (addAnswered layout core key p).paxos.version = core.paxos.version := by
  rcases addAnswered_paxos layout core key p with same | dumped
  · rw [same]
  · rw [dumped]
    rfl

theorem version_rmAnswered (core : Core) (key : Nat) (p : PaxosProposal) :
    (rmAnswered layout core key p).paxos.version = core.paxos.version := by
  rcases rmAnswered_paxos layout core key p with same | dumped
  · rw [same]
  · rw [dumped]
    rfl

theorem noteReport_theServ (p : PaxosProposal) (report : Option (SId × Value)) :
    (p.noteReport report).theServ = p.theServ := by
  unfold PaxosProposal.noteReport
  split
  · rfl
  · split <;> rfl

/-- The response to a prepare request; `quiet` is about one that is a promise. -/
theorem version_ireceiveResponse {core : Core} {servFrom key : Nat} (reply : Option PrepareReply)
    (quiet : ∀ report backup accepts, reply = some (.promise report backup accepts) →
      AllQuiet layout core.id
        (ireceiveResponseChecks layout core servFrom key backup accepts)) :
    (ireceiveResponse layout core servFrom key reply).paxos.version = core.paxos.version := by
  unfold ireceiveResponse
  split
  · rfl
  next p found =>
    unfold ireceiveResponseChecks at quiet
    rw [found] at quiet
    dsimp only at quiet
    split
    next type =>
      unfold ireceiveResponseAdd
      dsimp only
      split
      · rw [sPaxosProposalDrop_paxos]
      · exact version_addAnswered _ _ _
      next report backup accepts =>
        have learned := quiet report backup accepts rfl
        rw [type] at learned
        exact (version_addAnswered _ _ _).trans (version_ilearnTable accepts learned)
    next type =>
      unfold ireceiveResponseRm
      dsimp only
      split
      · rw [sPaxosProposalDrop_paxos]
      · exact version_rmAnswered _ _ _
      next report backup accepts =>
        have learned := quiet report backup accepts rfl
        rw [type] at learned
        obtain ⟨first, later⟩ := learned.append
        rw [version_rmAnswered, noteReport_theServ]
        exact (version_ilearnTable accepts later).trans (version_ilearnTable _ first)
    next type =>
      split
      · rw [sPaxosProposalDrop_paxos]
      · rw [sPaxosProposalDrop_paxos]
      · rw [sPaxosProposalDrop_paxos, iresponse_paxos]

theorem version_finishCall {core : Core} {peer req : Nat} (reply : Option RpcReply)
    (quiet : AllQuiet layout core.id (finishCallChecks layout core peer req reply)) :
    (finishCall layout core peer req reply).paxos.version = core.paxos.version := by
  unfold finishCallChecks at quiet
  unfold finishCall
  split
  · rfl
  next call found =>
    rw [found] at quiet
    dsimp only at quiet
    unfold runCallback
    split
    · apply version_ireceiveResponse
      intro report backup accepts isPromise
      cases isPromise
    next key prepared callback =>
      apply version_ireceiveResponse
      intro report backup accepts isPromise
      rw [Option.some.inj isPromise, runCallbackChecks, callback] at quiet
      exact quiet
    · rfl
    · rw [iaddNewServOk_paxos]
    · rw [irefreshAcceptBack_paxos]
    · exact version_reportIfLast _
    next learned callback =>
      rw [runCallbackChecks, callback] at quiet
      exact version_ireceiveLearn quiet
    · rfl

end

/-- What a step does to the learner of one server: nothing but an emptied learn
table, the version of an ADD_ACCEPT, or the end of a call. -/
inductive LearnerTurn (world : PaxosWorld) (event : PaxosEvent) (server : Nat) (after : SPaxos) :
    Prop where
  | rest (learn : after.learn = (world.cores server).paxos.learn ∨ after.learn = ∅)
      (version : after.version = (world.cores server).paxos.version)
  | transfer (layout : Layout) (packet : PaxosPacket) (req : Nat) (dump : Dump)
      (delivers : Delivers world event layout packet) (body : packet.body = .addAccept req dump)
      (learn : after.learn = (world.cores server).paxos.learn)
  | finish (layout : Layout) (peer req : Nat) (reply : Option RpcReply)
      (listed : ∀ paxos ∈ finishCallChecks layout (world.cores server) peer req reply,
        { layout := layout, server := (world.cores server).id, paxos := paxos } ∈
          world.checks event)
      (same : after = (finishCall layout (world.cores server) peer req reply).paxos)

theorem finishCallChecks_none (layout : Layout) (core : Core) (peer req : Nat) :
    finishCallChecks layout core peer req none = [] := by
  unfold finishCallChecks
  split <;> rfl

/-- The learner after a packet. -/
theorem learnerTurn_packet {world : PaxosWorld} {event : PaxosEvent} {layout : Layout}
    {packet : PaxosPacket} (delivers : Delivers world event layout packet) :
    LearnerTurn world event packet.dst
      (dispatch layout (world.cores packet.dst) packet.src packet.body).paxos := by
  cases body : packet.body with
  | request req request =>
      have same := ireceiveRequest_tables layout (world.cores packet.dst).paxos request
      exact LearnerTurn.rest (Or.inl same.2.1) same.2.2
  | accept topic id value version =>
      obtain ⟨accept, same⟩ := iaccept_eq (world.cores packet.dst).paxos topic id value version
      apply LearnerTurn.rest
      · left
        show (iaccept (world.cores packet.dst).paxos topic id value version).learn = _
        rw [same]
      · show (iaccept (world.cores packet.dst).paxos topic id value version).version = _
        rw [same]
  | learnRequest req version => exact LearnerTurn.rest (Or.inl rfl) rfl
  | addMe =>
      obtain ⟨id, _, same⟩ := sPaxosStart_paxos (world.cores packet.dst)
        (versionTopic ((world.cores packet.dst).paxos.version.version + 1))
        (servsValue (world.cores packet.dst).paxos.version.servs ||| servBit packet.src) .add
        packet.src
      apply LearnerTurn.rest
      · left
        show (ireceiveAdd (world.cores packet.dst) packet.src).paxos.learn = _
        rw [ireceiveAdd, same]
      · show (ireceiveAdd (world.cores packet.dst) packet.src).paxos.version = _
        rw [ireceiveAdd, same]
  | addAccept req dump =>
      obtain ⟨accept, same⟩ := acceptLoop_eq dump.entries
        { (world.cores packet.dst).paxos with version := dump.version }
      refine LearnerTurn.transfer layout packet req dump delivers body ?_
      show (ireceiveAddAccept (world.cores packet.dst).paxos dump).learn = _
      rw [ireceiveAddAccept, same]
  | refreshAccept req dump =>
      have same : (ireceiveRefreshAccept layout (world.cores packet.dst).paxos dump).1.learn =
          (world.cores packet.dst).paxos.learn ∧
          (ireceiveRefreshAccept layout (world.cores packet.dst).paxos dump).1.version =
            (world.cores packet.dst).paxos.version := by
        unfold ireceiveRefreshAccept
        split
        · exact ⟨rfl, rfl⟩
        · obtain ⟨accept, backup, same⟩ := refreshLoop_eq layout dump.entries 0
            (world.cores packet.dst).paxos
          rw [same]
          exact ⟨rfl, rfl⟩
      apply LearnerTurn.rest
      · rw [dispatch_refreshAccept_paxos]
        exact Or.inl same.1
      · rw [dispatch_refreshAccept_paxos]
        exact same.2
  | rpcBack req reply =>
      refine LearnerTurn.finish layout packet.src req (some reply) ?_ rfl
      intro paxos entered
      obtain ⟨index, rest, caused, taken⟩ := delivers
      rw [caused]
      unfold PaxosWorld.checks
      dsimp only
      rw [taken]
      dsimp only
      rw [body]
      exact List.mem_map.mpr ⟨paxos, entered, rfl⟩

/-- **Turns of a learner.**  Every step is one for every server. -/
theorem learnerTurn_of_step {world after : PaxosWorld} {event : PaxosEvent}
    (stepped : world.step event = some after) (server : Nat) :
    LearnerTurn world event server (after.cores server).paxos := by
  have idle : LearnerTurn world event server (world.cores server).paxos :=
    LearnerTurn.rest (Or.inl rfl) rfl
  have acted : ∀ (middle : PaxosWorld) (acting : Nat) (handler : Core → Core),
      middle.cores = world.cores →
      (server = acting →
        LearnerTurn world event acting (handler (world.cores acting)).paxos) →
      LearnerTurn world event server ((middle.act acting handler).cores server).paxos := by
    intro middle acting handler cores turn
    rw [act_core world middle acting server handler cores]
    by_cases own : server = acting
    · subst own
      rw [if_pos rfl]
      exact turn rfl
    · rw [if_neg own]
      exact idle
  cases event with
  | start acting topic value =>
      cases stepped
      refine acted world acting _ rfl fun _ => ?_
      obtain ⟨id, _, same⟩ := sPaxosStart_paxos (world.cores acting) topic value .normal 0
      rw [same]
      exact LearnerTurn.rest (Or.inl rfl) rfl
  | askAdd acting target =>
      cases stepped
      exact acted world acting _ rfl fun _ => LearnerTurn.rest (Or.inl rfl) rfl
  | checkLeave acting =>
      cases stepped
      refine acted world acting _ rfl fun _ => ?_
      obtain ⟨id, _, same⟩ := sPaxosCheckLeave_paxos (world.cores acting)
      rw [same]
      exact LearnerTurn.rest (Or.inl rfl) rfl
  | learnAll acting =>
      cases stepped
      refine acted world acting _ rfl fun _ => ?_
      obtain ⟨count, same⟩ := sPaxosLearnAll_paxos (world.cores acting)
      rw [same]
      exact LearnerTurn.rest (Or.inr rfl) rfl
  | deliver index layout =>
      dsimp only [PaxosWorld.step] at stepped
      split at stepped
      next => cases stepped
      next packet rest taken =>
        cases stepped
        exact acted _ packet.dst _ rfl fun _ =>
          learnerTurn_packet ⟨index, rest, rfl, taken⟩
  | lose index =>
      dsimp only [PaxosWorld.step] at stepped
      split at stepped
      · cases stepped
      · split at stepped
        · cases stepped
        · cases stepped
          exact idle
  | timeout acting peer req layout =>
      cases stepped
      refine acted _ acting _ rfl fun _ => LearnerTurn.finish layout peer req none ?_ rfl
      intro paxos entered
      rw [finishCallChecks_none] at entered
      exact absurd entered List.not_mem_nil
  | connection acting peer established =>
      dsimp only [PaxosWorld.step] at stepped
      split at stepped
      · cases stepped
      · cases stepped
        exact acted _ acting _ rfl fun _ => LearnerTurn.rest (Or.inl rfl) rfl

/-- A server's version stays as it was but for an ADD_ACCEPT or a call of
`icheck_new_version` in the list. -/
theorem version_step_quiet {world after : PaxosWorld} {event : PaxosEvent}
    (stepped : world.step event = some after) (server : Nat)
    (noTransfer : ∀ layout packet, Delivers world event layout packet →
      ∀ req dump, packet.body ≠ .addAccept req dump)
    (quiet : ∀ check ∈ world.checks event, check.after.version = check.paxos.version) :
    (after.cores server).paxos.version = (world.cores server).paxos.version := by
  cases learnerTurn_of_step stepped server with
  | rest _ version => exact version
  | transfer layout packet req dump delivers body _ =>
      exact absurd body (noTransfer layout packet delivers req dump)
  | finish layout peer req reply listed same =>
      rw [same]
      exact version_finishCall reply fun paxos entered => quiet _ (listed paxos entered)

/-! ## What holds at each call -/

section

variable {layout : Layout} {coreId : Nat} {P : SPaxos → Prop}

/-- The learner keeps a property of its state, also where `ilearn` calls
`icheck_new_version`. -/
structure LearnerKeeps (layout : Layout) (coreId : Nat) (P : SPaxos → Prop) : Prop where
  calls : LearnerCalls layout coreId fun before after => P before → P after
  entered : ∀ paxos topic value id servId, P paxos →
    ∀ check ∈ ilearnChecks paxos topic value id servId, P check

namespace LearnerKeeps

theorem ilearnList (keeps : LearnerKeeps layout coreId P) {servId : Nat} {topic : Topic}
    (accepts : List PaxosAccept) {paxos : SPaxos} (holds : P paxos) :
    ∀ check ∈ ilearnListChecks layout coreId servId topic paxos accepts, P check := by
  induction accepts generalizing paxos with
  | nil => exact fun check listed => absurd listed List.not_mem_nil
  | cons accept rest inductionHypothesis =>
      intro check listed
      rcases List.mem_append.mp listed with first | later
      · exact keeps.entered paxos topic accept.value accept.id servId holds check first
      · exact inductionHypothesis (keeps.calls.learn _ _ _ _ _ holds) check later

theorem ilearnTable (keeps : LearnerKeeps layout coreId P) {servId : Nat}
    (table : List (Topic × List PaxosAccept)) {paxos : SPaxos} (holds : P paxos) :
    ∀ check ∈ ilearnTableChecks layout coreId servId paxos table, P check := by
  induction table generalizing paxos with
  | nil => exact fun check listed => absurd listed List.not_mem_nil
  | cons row rest inductionHypothesis =>
      intro check listed
      rcases List.mem_append.mp listed with first | later
      · exact keeps.ilearnList row.2 holds check first
      · exact inductionHypothesis (keeps.calls.ilearnList _ _ _ _ holds) check later

theorem learnLoop (keeps : LearnerKeeps layout coreId P) {servId : Nat} {version : Int}
    (entries : List PaxosAccept) {paxos : SPaxos} (holds : P paxos) :
    ∀ check ∈ learnLoopChecks layout coreId servId version paxos entries, P check := by
  induction entries generalizing paxos with
  | nil => exact fun check listed => absurd listed List.not_mem_nil
  | cons entry rest inductionHypothesis =>
      intro check listed
      rw [learnLoopChecks] at listed
      rcases List.mem_append.mp listed with first | later
      · exact keeps.entered paxos _ _ _ _ holds check first
      · split at later
        · exact absurd later List.not_mem_nil
        · exact inductionHypothesis (keeps.calls.learn _ _ _ _ _ holds) check later

theorem ireceiveResponse {core : Core} (keeps : LearnerKeeps layout core.id P)
    {servFrom key : Nat} {backup : List PaxosAccept} {accepts : List (Topic × List PaxosAccept)}
    (holds : P core.paxos) :
    ∀ check ∈ ireceiveResponseChecks layout core servFrom key backup accepts, P check := by
  intro check listed
  unfold ireceiveResponseChecks at listed
  split at listed
  · exact absurd listed List.not_mem_nil
  · split at listed
    · exact absurd listed List.not_mem_nil
    · exact keeps.ilearnTable accepts holds check listed
    · rcases List.mem_append.mp listed with first | later
      · exact keeps.ilearnTable _ holds check first
      · exact keeps.ilearnTable accepts (keeps.calls.ilearnTable _ _ _ holds) check later

theorem ireceiveLearn (keeps : LearnerKeeps layout coreId P) {servId : Nat} {paxos : SPaxos}
    {reply : LearnReply} (holds : P paxos) :
    ∀ check ∈ ireceiveLearnChecks layout coreId servId paxos reply, P check := by
  intro check listed
  unfold ireceiveLearnChecks at listed
  split at listed
  · exact absurd listed List.not_mem_nil
  · exact keeps.learnLoop reply.entries (keeps.calls.count _ _ holds) check listed

theorem finishCall {core : Core} (keeps : LearnerKeeps layout core.id P) {peer req : Nat}
    {reply : Option RpcReply} (holds : P core.paxos) :
    ∀ check ∈ finishCallChecks layout core peer req reply, P check := by
  intro check listed
  unfold finishCallChecks at listed
  split at listed
  · exact absurd listed List.not_mem_nil
  · unfold runCallbackChecks at listed
    split at listed
    · split at listed
      · exact keeps.ireceiveResponse holds check listed
      · exact absurd listed List.not_mem_nil
    · split at listed
      · exact keeps.ireceiveLearn holds check listed
      · exact absurd listed List.not_mem_nil
    · exact absurd listed List.not_mem_nil

end LearnerKeeps

end

/-- A call in the list is made by a server, at whose state a kept property
holds. -/
theorem holds_of_check {world : PaxosWorld} {event : PaxosEvent} {check : VersionCheck}
    {P : SPaxos → Prop} (listed : check ∈ world.checks event)
    (holds : ∀ server, P (world.cores server).paxos)
    (keeps : LearnerKeeps check.layout check.server P) : P check.paxos := by
  cases event with
  | deliver index layout =>
      unfold PaxosWorld.checks at listed
      dsimp only at listed
      split at listed
      · exact absurd listed List.not_mem_nil
      · split at listed
        · obtain ⟨paxos, entered, rfl⟩ := List.mem_map.mp listed
          exact keeps.finishCall (holds _) paxos entered
        · exact absurd listed List.not_mem_nil
  | start => exact absurd listed List.not_mem_nil
  | askAdd => exact absurd listed List.not_mem_nil
  | checkLeave => exact absurd listed List.not_mem_nil
  | learnAll => exact absurd listed List.not_mem_nil
  | lose => exact absurd listed List.not_mem_nil
  | timeout => exact absurd listed List.not_mem_nil
  | connection => exact absurd listed List.not_mem_nil

/-! ## One entry for each server and value -/

/-- A server has one entry for each topic and value. -/
def LearnsOnce (paxos : SPaxos) : Prop :=
  ∀ topic, ((paxos.learns topic).map PaxosLearn.source).Nodup

theorem learnsOnce_insert {paxos : SPaxos} {topic : Topic} {array : List PaxosLearn}
    (once : LearnsOnce paxos) (new : (array.map PaxosLearn.source).Nodup) :
    LearnsOnce { paxos with learn := paxos.learn.insert topic array } := by
  intro other
  unfold SPaxos.learns
  by_cases same : other = topic
  · rw [same, AList.lookup_insert]
    exact new
  · rw [AList.lookup_insert_ne same]
    exact once other

theorem learnsOnce_entered {paxos : SPaxos} {topic : Topic} {value : Value} {id : SId}
    {servId : Nat} (once : LearnsOnce paxos) :
    ∀ check ∈ ilearnChecks paxos topic value id servId, LearnsOnce check := by
  intro check listed
  have into := @learnInto_once servId value id _ (once topic)
  unfold ilearnChecks at listed
  unfold learnInto at into
  dsimp only at listed
  split at listed
  · exact absurd listed List.not_mem_nil
  next absent =>
    rw [if_neg absent] at into
    rw [List.mem_singleton.mp listed]
    exact learnsOnce_insert once into

theorem icheckNewVersion_learn (layout : Layout) (coreId : Nat) (paxos : SPaxos) :
    (icheckNewVersion layout coreId paxos).learn = paxos.learn := by
  rcases icheckNewVersion_eq layout coreId paxos with same | ⟨value, accept, same⟩
  · rw [same]
  · rw [same]

/-- `ilearn` enters into the list of the topic. -/
theorem learn_ilearn (layout : Layout) (coreId : Nat) (paxos : SPaxos) (topic : Topic)
    (value : Value) (id : SId) (servId : Nat) :
    (ilearn layout coreId paxos topic value id servId).learn =
      paxos.learn.insert topic (learnInto servId value id (paxos.learns topic)) := by
  unfold ilearn learnInto
  dsimp only
  split
  · rfl
  · rw [icheckNewVersion_learn]

theorem learnerKeeps_learnsOnce (layout : Layout) (coreId : Nat) :
    LearnerKeeps layout coreId LearnsOnce where
  calls :=
    { refl := fun _ once => once
      trans := fun early late once => late (early once)
      learn := by
        intro paxos topic value id servId once other
        have inserted := @learnsOnce_insert _ topic _ once
          (@learnInto_once servId value id _ (once topic)) other
        unfold SPaxos.learns at inserted ⊢
        rw [learn_ilearn]
        exact inserted
      count := fun _ _ once => once
      dump := by
        intro paxos once topic
        rw [learns_idumpLearn]
        exact (once topic).sublist (List.filter_sublist.map _) }
  entered := fun _ _ _ _ _ once => learnsOnce_entered once

/-- **One entry for each server, topic and value**, in every run. -/
theorem learnsOnce_of_reachable {admitted : PaxosWorld → PaxosEvent → Prop} {world : PaxosWorld}
    (reached : paxosSystem.ReachableVia admitted world) :
    ∀ server, LearnsOnce (world.cores server).paxos := by
  have empty : ∀ paxos : SPaxos, paxos.learn = ∅ → LearnsOnce paxos := by
    intro paxos none topic
    unfold SPaxos.learns
    rw [none]
    exact List.nodup_nil
  apply reached.invariant fun world => ∀ server, LearnsOnce (world.cores server).paxos
  · intro start initial server
    obtain ⟨connected, rfl⟩ := initial
    exact empty (sPaxosCreate server) rfl
  · intro before event after _ once _ stepped server
    cases learnerTurn_of_step stepped server with
    | rest learn _ =>
        rcases learn with same | none
        · unfold LearnsOnce SPaxos.learns
          rw [same]
          exact once server
        · exact empty _ none
    | transfer layout packet req dump _ _ same =>
        unfold LearnsOnce SPaxos.learns
        rw [same]
        exact once server
    | finish layout peer req reply _ same =>
        rw [same]
        exact (learnerKeeps_learnsOnce layout _).calls.finishCall peer req reply (once server)

/-! ## Majorities -/

theorem version_entered {paxos : SPaxos} {topic : Topic} {value : Value} {id : SId} {servId : Nat} :
    ∀ check ∈ ilearnChecks paxos topic value id servId, check.version = paxos.version := by
  intro check listed
  unfold ilearnChecks at listed
  dsimp only at listed
  split at listed
  · exact absurd listed List.not_mem_nil
  · rw [List.mem_singleton.mp listed]

theorem learnerKeeps_distinct (layout : Layout) (coreId : Nat) :
    LearnerKeeps layout coreId fun paxos => paxos.version.servs.Nodup where
  calls :=
    { refl := fun _ distinct => distinct
      trans := fun early late distinct => late (early distinct)
      learn := fun paxos topic value id servId =>
        ((learnerClosed_grows layout coreId).calls.learn paxos topic value id servId).members
      count := fun _ _ distinct => distinct
      dump := fun _ distinct => distinct }
  entered := by
    intro paxos topic value id servId distinct check listed
    show check.version.servs.Nodup
    rw [version_entered check listed]
    exact distinct

/-- A version is installed from an entry at which the count passes. -/
theorem installed_entry (check : VersionCheck)
    (installs : check.after.version.version = check.next) :
    ∃ topic learn, check.topic = some topic ∧
      learn ∈ majorityScan check.paxos.version.nserv
        (check.paxos.version.nserv == 2 && check.server == 1) [] (check.paxos.learns topic) ∧
      check.after.version.servs = valueServs learn.value := by
  have stays : check.paxos.version.version ≠ check.next := (Int.lt_succ _).ne
  unfold VersionCheck.after icheckNewVersion at installs ⊢
  unfold VersionCheck.topic VersionCheck.next at *
  dsimp only at installs ⊢
  cases found : (check.layout.topics.arrange check.paxos.learn.keys).find? fun topic =>
      decide (igetNewVersion topic = check.paxos.version.version + 1) with
  | none =>
      rw [found] at installs
      exact absurd installs stays
  | some topic =>
      rw [found] at installs
      dsimp only at installs ⊢
      cases scanned : (majorityScan check.paxos.version.nserv
          (check.paxos.version.nserv == 2 && check.server == 1) []
          (check.paxos.learns topic)).head? with
      | none =>
          rw [scanned] at installs
          exact absurd installs stays
      | some learn =>
          dsimp only
          obtain ⟨accept, same⟩ := iaccept_eq
            { check.paxos with
              version :=
                { version := check.paxos.version.version + 1, servs := valueServs learn.value } }
            topic learn.id learn.value (-1)
          rw [same]
          exact ⟨topic, learn, rfl, List.mem_of_head? scanned, rfl⟩

theorem servsValue_valueServs (value : Value) : servsValue (valueServs value) = value := by
  apply BitVec.eq_of_getLsbD_eq
  intro bit inWord
  rw [Bool.eq_iff_iff, getLsbD_servsValue]
  constructor
  · rintro ⟨serv, member, same⟩
    have set := (mem_valueServs value serv).mp member
    rw [Nat.mod_eq_of_lt (BitVec.lt_of_getLsbD set)] at same
    exact same ▸ set
  · intro set
    exact ⟨bit, (mem_valueServs value bit).mpr set, (Nat.mod_eq_of_lt inWord).symm⟩

/-- Where the list names members only, its entries for a value are members. -/
theorem count_le_learnedFrom {check : VersionCheck} (once : LearnsOnce check.paxos)
    (inside : ∀ learn ∈ check.paxos.learns (versionTopic check.next),
      sPaxosIsIn check.paxos learn.servId = true) :
    ((check.paxos.learns (versionTopic check.next)).map PaxosLearn.value).count
        (servsValue check.after.version.servs) ≤ check.learnedFrom.card := by
  obtain ⟨holders, distinct, length, hold⟩ :=
    count_holders (once (versionTopic check.next)) (servsValue check.after.version.servs)
  rw [← length, ← List.toFinset_card_of_nodup distinct]
  apply Finset.card_le_card
  intro server member
  obtain ⟨learn, listed, isServer, isValue⟩ := (hold server).mp (List.mem_toFinset.mp member)
  have isMember := inside learn listed
  rw [sPaxosIsIn, isServer, List.contains_iff_mem] at isMember
  exact Finset.mem_filter.mpr
    ⟨List.mem_toFinset.mpr isMember, learn, listed, isServer, isValue⟩

/-- **A version is installed by a majority of the current members**: in every run,
a call of `icheck_new_version` that moves a server to the next version has heard
its members from more than half of the current ones, if the list it counts names
no one else. -/
theorem installed_by_majority {admitted : PaxosWorld → PaxosEvent → Prop} {world : PaxosWorld}
    {event : PaxosEvent} {check : VersionCheck} (reached : paxosSystem.ReachableVia admitted world)
    (listed : check ∈ world.checks event) (members : check.countsMembers = true)
    (installs : check.after.version.version = check.next) : check.ByMajority := by
  have once : LearnsOnce check.paxos :=
    holds_of_check listed (learnsOnce_of_reachable reached) (learnerKeeps_learnsOnce _ _)
  have distinct : check.paxos.version.servs.Nodup :=
    holds_of_check listed (fun server => ((callsKept_of_reachable reached).servers server).distinct)
      (learnerKeeps_distinct _ _)
  obtain ⟨topic, learn, found, scanned, servs⟩ := installed_entry check installs
  unfold VersionCheck.countsMembers at members
  rw [found] at members
  dsimp only at members
  rw [Bool.and_eq_true, beq_iff_eq, List.all_eq_true] at members
  obtain ⟨isNext, inside⟩ := members
  subst isNext
  have isValue : learn.value = servsValue check.after.version.servs := by
    rw [servs, servsValue_valueServs]
  have size : check.paxos.version.servs.toFinset.card = check.paxos.version.nserv :=
    List.toFinset_card_of_nodup distinct
  obtain ⟨inList, passed⟩ := majorityScan_passes _ _ scanned
  rcases passed with short | past
  · right
    rw [Bool.and_eq_true, beq_iff_eq, beq_iff_eq] at short
    have isMember := inside learn inList
    rw [sPaxosIsIn, List.contains_iff_mem] at isMember
    refine ⟨size.trans short.1, short.2, learn.servId, ?_⟩
    exact Finset.mem_filter.mpr
      ⟨List.mem_toFinset.mpr isMember, learn, inList, rfl, isValue⟩
  · left
    have counted := count_le_learnedFrom once inside
    rw [List.count_nil, Nat.zero_add, isValue] at past
    rw [size]
    omega

/-- Server 1 has asked itself what it has accepted since server 2 asked to join. -/
def joinedWorld : PaxosWorld :=
  paxosSystem.outcome connectedWorld
    (.askAdd 2 1 :: delivered [0, 0, 0, 0, 0, 0] ++ .learnAll 1 :: delivered [0])

theorem checks_joinedWorld : joinedWorld.checks (.deliver 0 Layout.natural) ≠ [] := by
  decide +kernel

theorem installed_by_majority_alone :
    ((joinedWorld.checks (.deliver 0 Layout.natural)).head checks_joinedWorld).ByMajority := by
  have reached : paxosSystem.Reachable joinedWorld :=
    System.reachable_outcome init_connectedWorld _
  exact installed_by_majority reached (List.head_mem checks_joinedWorld) (by decide +kernel)
    (by decide +kernel)

/-- Server 3 joins through server 1, and server 2 is asked as well and prepares
another proposal to add it.  Server 3 learns version 3 and hears its own entry
for it; then the ADD_ACCEPT of server 2, which is at version 2, takes it back.
An answer of server 2 to a question of version 2 is next. -/
def takenBackWorld : PaxosWorld :=
  paxosSystem.outcome connectedWorld
    (pairRun ++
      .askAdd 3 1 :: .askAdd 3 2 :: delivered [0, 0, 0, 3, 0, 0, 1, 0, 0, 0, 1, 1, 1] ++
      .learnAll 3 :: .learnAll 3 :: delivered [1, 1, 3, 3, 0, 1] ++
      .learnAll 3 :: delivered [5, 5, 1])

theorem checks_takenBackWorld : takenBackWorld.checks (.deliver 1 Layout.natural) ≠ [] := by
  decide +kernel

/-- A version is installed on the word of one of two members, and of the server
itself, which is none. -/
theorem not_always_installed_by_majority :
    ¬ ∀ (world : PaxosWorld) (event : PaxosEvent) (check : VersionCheck),
        paxosSystem.Reachable world → check ∈ world.checks event →
        check.after.version.version = check.next → check.ByMajority := by
  intro always
  have reached : paxosSystem.Reachable takenBackWorld :=
    System.reachable_outcome init_connectedWorld _
  have minority := always takenBackWorld _ _ reached (List.head_mem checks_takenBackWorld)
    (by decide +kernel)
  revert minority
  decide +kernel

end SimpleDfs.Paxos
