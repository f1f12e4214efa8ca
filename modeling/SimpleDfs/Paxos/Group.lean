import SimpleDfs.Paxos.Network
import SimpleDfs.Paxos.Effects

/-!
Contract: servers that hold one membership version and propose values only.

Owns: the system of such servers, what every server and every packet of it
keeps, and what learning writes there.

Does not own: which values are accepted or reported.
-/

set_option autoImplicit false

namespace SimpleDfs.Paxos

open SimpleDfs.Common
open SimpleDfs.Library

/-- The state before any packet: each server holds the version of the group. -/
def groupWorld (group : PaxosVersion) (connected : Nat → Nat → Bool) : PaxosWorld :=
  let world := freshWorld connected
  { world with
    cores := fun server =>
      let core := world.cores server
      { core with paxos := { core.paxos with version := group } } }

/-- The event proposes a value that is not negative on a topic that is not the
next version, or it proposes nothing; nobody joins or leaves. -/
def proposesOnly (world : PaxosWorld) : PaxosEvent → Bool
  | .start server topic value =>
      igetNewVersion topic != (world.cores server).paxos.version.version + 1 &&
        decide (0 ≤ value.toInt)
  | .askAdd _ _ => false
  | .checkLeave _ => false
  | _ => true

/-- Runs of NORMAL proposals among servers that all hold one version. -/
def groupSystem (group : PaxosVersion) : System PaxosWorld PaxosEvent where
  init := fun world => group.servs.Nodup ∧ ∃ connected, world = groupWorld group connected
  step := fun world event => if proposesOnly world event then world.step event else none

/-! ## What a group keeps -/

/-- The topic does not read as the next version of the group. -/
def IsPlain (group : PaxosVersion) (topic : Topic) : Prop :=
  igetNewVersion topic ≠ group.version + 1

/-- The proposals of a group. -/
structure PlainProposal (group : PaxosVersion) (p : PaxosProposal) : Prop where
  type : p.type = .normal
  version : p.version = group
  topic : IsPlain group p.topic
  value : 0 ≤ p.value.toInt
  id : 0 < p.id.y

/-- The replies of a group. -/
def PlainReply (group : PaxosVersion) : RpcReply → Prop
  | .prepare (.promise report _ _) => ∀ id value, report = some (id, value) → 0 ≤ value.toInt
  | .learn reply => ∀ entry ∈ reply.entries, IsPlain group entry.topic
  | _ => True

/-- The packets of a group: nothing about members. -/
def PlainBody (group : PaxosVersion) : PaxosBody → Prop
  | .accept topic id value _ => IsPlain group topic ∧ 0 ≤ value.toInt ∧ 0 < id.y
  | .rpcBack _ reply => PlainReply group reply
  | .addMe => False
  | .addAccept _ _ => False
  | .refreshAccept _ _ => False
  | _ => True

/-- The calls of a group. -/
def Callback.IsPlain (callback : Callback) : Prop :=
  callback = .receiveLearn ∨ ∃ key, callback = .receiveResponse key

/-- What every server of a group keeps. -/
structure GroupCore (group : PaxosVersion) (core : Core) : Prop where
  version : core.paxos.version = group
  next : 0 < core.paxos.id
  accepts : ∀ topic, ∀ entry ∈ core.paxos.accepts topic,
    entry.topic = topic ∧ IsPlain group topic ∧ 0 ≤ entry.value.toInt ∧ 0 < entry.id.y
  learns : ∀ topic ∈ core.paxos.learn, IsPlain group topic
  proposals : ∀ key p, core.proposals.lookup key = some p → PlainProposal group p
  calls : ∀ call ∈ core.calls, call.callback.IsPlain
  out : ∀ packet ∈ core.out, PlainBody group packet.body

/-! ## Learning in a group -/

/-- The list of a topic after one entry is learned. -/
def learnInto (servId : Nat) (value : Value) (id : SId) (array : List PaxosLearn) :
    List PaxosLearn :=
  if array.any fun learn => learn.servId == servId && learn.value == value then
    raiseLearn servId value id array
  else
    array ++ [{ value := value, servId := servId, id := id }]

/-- The learn table after a list of entries is learned. -/
def learnEntries (servId : Nat) (learn : Table Topic (List PaxosLearn)) :
    List PaxosAccept → Table Topic (List PaxosLearn)
  | [] => learn
  | entry :: rest =>
      learnEntries servId
        (learn.insert entry.topic
          (learnInto servId entry.value entry.id ((learn.lookup entry.topic).getD []))) rest

section

variable {group : PaxosVersion} {paxos : SPaxos}

/-- No topic learned is the next version, so none is installed. -/
theorem icheckNewVersion_plain (layout : Layout) (coreId : Nat) (version : paxos.version = group)
    (plain : ∀ topic ∈ paxos.learn, IsPlain group topic) :
    icheckNewVersion layout coreId paxos = paxos := by
  unfold icheckNewVersion
  dsimp only
  have none : (layout.topics.arrange paxos.learn.keys).find?
      (fun topic => decide (igetNewVersion topic = paxos.version.version + 1)) = none := by
    rw [List.find?_eq_none]
    intro topic listed next
    have member := (layout.topics.mem_arrange _ topic).mp listed
    have same := of_decide_eq_true next
    rw [version] at same
    exact plain topic (AList.mem_keys.mpr member) same
  rw [none]

theorem plain_insert {learn : Table Topic (List PaxosLearn)} {topic : Topic}
    {list : List PaxosLearn} (plain : ∀ topic ∈ learn, IsPlain group topic)
    (new : IsPlain group topic) : ∀ other ∈ learn.insert topic list, IsPlain group other := by
  intro other member
  rcases (AList.mem_insert _).mp member with same | old
  · exact same ▸ new
  · exact plain other old

theorem ilearn_plain (layout : Layout) (coreId servId : Nat) {topic : Topic} (value : Value)
    (id : SId) (version : paxos.version = group)
    (plain : ∀ topic ∈ paxos.learn, IsPlain group topic) (new : IsPlain group topic) :
    ilearn layout coreId paxos topic value id servId =
      { paxos with
        learn := paxos.learn.insert topic (learnInto servId value id (paxos.learns topic)) } := by
  unfold ilearn learnInto
  dsimp only
  split
  · rfl
  · exact icheckNewVersion_plain layout coreId version (plain_insert plain new)

theorem plain_learnEntries (servId : Nat) (entries : List PaxosAccept)
    (learn : Table Topic (List PaxosLearn)) (plain : ∀ topic ∈ learn, IsPlain group topic)
    (new : ∀ entry ∈ entries, IsPlain group entry.topic) :
    ∀ topic ∈ learnEntries servId learn entries, IsPlain group topic := by
  induction entries generalizing learn with
  | nil => exact plain
  | cons entry rest inductionHypothesis =>
      apply inductionHypothesis
      · exact plain_insert plain (new entry List.mem_cons_self)
      · exact fun other member => new other (List.mem_cons_of_mem entry member)

theorem learnLoop_plain (layout : Layout) (coreId servId : Nat) (entries : List PaxosAccept)
    (version : paxos.version = group) (plain : ∀ topic ∈ paxos.learn, IsPlain group topic)
    (new : ∀ entry ∈ entries, IsPlain group entry.topic) :
    learnLoop layout coreId servId group.version paxos entries =
      ({ paxos with learn := learnEntries servId paxos.learn entries }, true) := by
  induction entries generalizing paxos with
  | nil => rfl
  | cons entry rest inductionHypothesis =>
      have newHead := new entry List.mem_cons_self
      rw [learnLoop, ilearn_plain layout coreId servId entry.value entry.id version plain newHead]
      dsimp only
      rw [if_neg (not_not_intro (congrArg PaxosVersion.version version).symm)]
      exact inductionHypothesis version (plain_insert plain newHead)
        (fun other member => new other (List.mem_cons_of_mem entry member))

/-- The learn table that the end of a call to `servId` leaves to be counted. -/
def learnReply (servId : Nat) (paxos : SPaxos) (reply : Option LearnReply) : SPaxos :=
  let paxos := { paxos with learnReqCount := paxos.learnReqCount - 1 }
  match reply with
  | none => paxos
  | some reply => { paxos with learn := learnEntries servId paxos.learn reply.entries }

/-- In a group, `ireceive_learn` learns the whole reply and then counts, or the
reply is of another version. -/
theorem ireceiveLearn_plain (layout : Layout) (coreId servId : Nat) (reply : Option LearnReply)
    (version : paxos.version = group) (plain : ∀ topic ∈ paxos.learn, IsPlain group topic)
    (new : ∀ given, reply = some given → ∀ entry ∈ given.entries, IsPlain group entry.topic) :
    ireceiveLearn layout coreId servId paxos reply =
        reportIfLast layout (learnReply servId paxos reply) ∨
      ireceiveLearn layout coreId servId paxos reply =
        ({ paxos with learnReqCount := paxos.learnReqCount - 1 }, []) := by
  cases reply with
  | none => exact Or.inl rfl
  | some reply =>
      unfold ireceiveLearn
      dsimp only
      split
      · exact Or.inr rfl
      next sameVersion =>
        left
        have given : reply.version = group.version := by
          rw [not_not.mp sameVersion, version]
        have learned : learnLoop layout coreId servId group.version (learnReply servId paxos none)
            reply.entries = (learnReply servId paxos (some reply), true) :=
          learnLoop_plain layout coreId servId reply.entries version plain (new reply rfl)
        rw [given]
        unfold learnReply at learned ⊢
        dsimp only at learned ⊢
        rw [learned]

/-- `idump_learn` takes entries out of the learn table and writes nothing
else. -/
theorem reportIfLast_learn (layout : Layout) (paxos : SPaxos) :
    (reportIfLast layout paxos).1 = paxos ∨ (reportIfLast layout paxos).1 =
      { paxos with
        learn := paxos.learn.mapValues fun array =>
          array.filter fun learn => sPaxosIsIn paxos learn.servId } := by
  unfold reportIfLast
  split
  · exact Or.inr rfl
  · exact Or.inl rfl

end

/-! ## Handlers in a group -/

namespace GroupCore

variable {group : PaxosVersion} {core : Core}

/-- Only the parts named matter. -/
theorem state (kept : GroupCore group core) (paxos : SPaxos)
    (version : paxos.version = core.paxos.version) (id : core.paxos.id ≤ paxos.id)
    (accept : paxos.accept = core.paxos.accept)
    (learn : ∀ topic ∈ paxos.learn, topic ∈ core.paxos.learn) :
    GroupCore group { core with paxos := paxos } where
  version := version.trans kept.version
  next := lt_of_lt_of_le kept.next id
  accepts := by
    intro topic entry member
    unfold SPaxos.accepts at member
    rw [accept] at member
    exact kept.accepts topic entry member
  learns := fun topic member => kept.learns topic (learn topic member)
  proposals := kept.proposals
  calls := kept.calls
  out := kept.out

theorem send (kept : GroupCore group core) (dst : Nat) {body : PaxosBody}
    (plain : PlainBody group body) : GroupCore group (core.send dst body) where
  version := kept.version
  next := kept.next
  accepts := kept.accepts
  learns := kept.learns
  proposals := kept.proposals
  calls := kept.calls
  out := by
    intro packet member
    rcases List.mem_append.mp member with old | new
    · exact kept.out packet old
    · rw [List.mem_singleton.mp new]
      exact plain

theorem rpcCall (kept : GroupCore group core) (dst : Nat) {body : Nat → PaxosBody}
    {callback : Callback} (plain : ∀ req, PlainBody group (body req))
    (plainCall : callback.IsPlain) : GroupCore group (core.rpcCall dst body callback) where
  version := kept.version
  next := kept.next
  accepts := kept.accepts
  learns := kept.learns
  proposals := kept.proposals
  calls := by
    intro call member
    rcases List.mem_append.mp member with old | new
    · exact kept.calls call old
    · rw [List.mem_singleton.mp new]
      exact plainCall
  out := by
    intro packet member
    rcases List.mem_append.mp member with old | new
    · exact kept.out packet old
    · rw [List.mem_singleton.mp new]
      exact plain core.reqId

/-- Write a proposal of the group. -/
theorem insert (kept : GroupCore group core) (key : Nat) {p : PaxosProposal}
    (plain : PlainProposal group p) :
    GroupCore group { core with proposals := core.proposals.insert key p } where
  version := kept.version
  next := kept.next
  accepts := kept.accepts
  learns := kept.learns
  proposals := by
    intro other q found
    by_cases same : other = key
    · rw [same] at found
      exact Option.some.inj ((AList.lookup_insert _).symm.trans found) ▸ plain
    · rw [AList.lookup_insert_ne same] at found
      exact kept.proposals other q found
  calls := kept.calls
  out := kept.out

theorem modify (kept : GroupCore group core) (key : Nat) {f : PaxosProposal → PaxosProposal}
    (plain : ∀ p, PlainProposal group p → PlainProposal group (f p)) :
    GroupCore group (core.modifyProposal key f) := by
  unfold Core.modifyProposal
  split
  · exact kept
  next p found => exact kept.insert key (plain p (kept.proposals key p found))

theorem drop (kept : GroupCore group core) (key : Nat) :
    GroupCore group (sPaxosProposalDrop core key) := by
  unfold sPaxosProposalDrop
  split
  · exact kept
  next p found =>
    split
    · have plain := kept.proposals key p found
      exact kept.insert key ⟨plain.type, plain.version, plain.topic, plain.value, plain.id⟩
    · exact ⟨kept.version, kept.next, kept.accepts, kept.learns, kept.proposals, kept.calls, kept.out⟩

theorem sendRequest (kept : GroupCore group core) (key : Nat) (request : PrepareRequest)
    (serv : Nat) : GroupCore group (sendRequest key request core serv) := by
  unfold Paxos.sendRequest
  dsimp only
  apply modify
  · apply rpcCall
    · exact kept.modify key fun p plain => ⟨plain.type, plain.version, plain.topic, plain.value, plain.id⟩
    · exact fun req => trivial
    · exact Or.inr ⟨key, rfl⟩
  · exact fun p plain => ⟨plain.type, plain.version, plain.topic, plain.value, plain.id⟩

theorem sPaxosStart (kept : GroupCore group core) {topic : Topic} {value : Value}
    (plain : IsPlain group topic) (nonneg : 0 ≤ value.toInt) :
    GroupCore group (sPaxosStart core topic value .normal 0) := by
  unfold Paxos.sPaxosStart
  split
  · exact kept
  · dsimp only [sPaxosProposalCreate]
    rw [if_neg (fun adding => nomatch adding.1)]
    apply drop
    apply Core.forMembers_keeps _ (GroupCore group)
    · exact fun after serv inner => inner.sendRequest _ _ serv
    · have numbered := kept.state { core.paxos with id := core.paxos.id + 1 } rfl (Nat.le_succ _) rfl
        fun topic member => member
      exact numbered.insert core.paxos.id ⟨rfl, kept.version, plain, nonneg, kept.next⟩

theorem sendAccept (kept : GroupCore group core) {p : PaxosProposal}
    (plain : PlainProposal group p) : GroupCore group (sendAccept core p) := by
  apply Core.forMembers_keeps _ (GroupCore group)
  · exact fun after serv inner => inner.send serv ⟨plain.topic, plain.value, plain.id⟩
  · exact kept

theorem sPaxosLearnAll (kept : GroupCore group core) :
    GroupCore group (sPaxosLearnAll core) := by
  unfold Paxos.sPaxosLearnAll
  dsimp only
  have cleared := kept.state { core.paxos with learn := ∅ } rfl le_rfl rfl
    fun topic member => absurd member (AList.notMem_empty topic)
  have asked : GroupCore group (Core.forMembers
      { core with paxos := { core.paxos with learn := ∅ } } fun after serv =>
        after.rpcCall serv (fun req => .learnRequest req core.paxos.version.version)
          .receiveLearn) := by
    apply Core.forMembers_keeps _ (GroupCore group)
    · exact fun after serv inner => inner.rpcCall serv (fun req => trivial) (Or.inl rfl)
    · exact cleared
  exact asked.state _ rfl le_rfl rfl fun topic member => member

/-! ### Prepare requests and responses -/

theorem ireceiveRequest (kept : GroupCore group core) (layout : Layout) (request : PrepareRequest) :
    GroupCore group { core with paxos := (ireceiveRequest layout core.paxos request).1 } := by
  unfold Paxos.ireceiveRequest
  dsimp only
  split
  · exact kept.state _ rfl (Nat.le_succ _) rfl fun topic member => member
  · exact kept.state _ rfl (Nat.le_succ _) rfl fun topic member => member

/-- A report is of a value that is not negative. -/
theorem report_nonneg (layout : Layout) (paxos : SPaxos) (request : PrepareRequest) :
    PlainReply group (.prepare (Paxos.ireceiveRequest layout paxos request).2) := by
  unfold Paxos.ireceiveRequest
  dsimp only
  split
  · trivial
  · intro id value report
    split at report
    · cases report
    next nonneg =>
      have same := Option.some.inj report
      rw [same] at nonneg
      exact not_lt.mp nonneg

theorem iresponse (kept : GroupCore group core) (key : Nat) {p : PaxosProposal}
    {report : Option (SId × Value)} (plain : PlainProposal group p)
    (nonneg : ∀ id value, report = some (id, value) → 0 ≤ value.toInt) :
    GroupCore group (iresponse core key p report) := by
  have counted : PlainProposal group (p.countResponse report) := by
    unfold PaxosProposal.countResponse
    split
    · exact ⟨plain.type, plain.version, plain.topic, plain.value, plain.id⟩
    next id value =>
      dsimp only
      split
      · exact ⟨plain.type, plain.version, plain.topic, nonneg id value rfl, plain.id⟩
      · exact ⟨plain.type, plain.version, plain.topic, plain.value, plain.id⟩
  unfold Paxos.iresponse
  dsimp only
  have written := kept.insert key counted
  split
  · exact written.sendAccept counted
  · exact written

theorem ireceiveResponse (kept : GroupCore group core) (layout : Layout) (servFrom key : Nat)
    {reply : Option PrepareReply}
    (nonneg : ∀ given, reply = some given → PlainReply group (.prepare given)) :
    GroupCore group (ireceiveResponse layout core servFrom key reply) := by
  unfold Paxos.ireceiveResponse
  split
  · exact kept
  next p found =>
    have plain := kept.proposals key p found
    rw [plain.type]
    dsimp only
    split
    · exact kept.drop key
    · exact kept.drop key
    next report backup accepts =>
      apply drop
      exact kept.iresponse key plain (nonneg _ rfl)

/-! ### Accepting and learning -/

theorem iaccept (kept : GroupCore group core) {topic : Topic} {id : SId} {value : Value}
    (version : Int) (plain : IsPlain group topic) (nonneg : 0 ≤ value.toInt) (named : 0 < id.y) :
    GroupCore group { core with paxos := iaccept core.paxos topic id value version } := by
  obtain ⟨accept, same⟩ := iaccept_eq core.paxos topic id value version
  have listed : ∀ other, ∀ entry ∈ (Paxos.iaccept core.paxos topic id value version).accepts other,
      entry.topic = other ∧ IsPlain group other ∧ 0 ≤ entry.value.toInt ∧ 0 < entry.id.y := by
    intro other entry member
    unfold Paxos.iaccept at member
    dsimp only at member
    split at member
    · exact kept.accepts other entry member
    · split at member
      · exact kept.accepts other entry member
      · split at member
        · exact kept.accepts other entry member
        · rw [accepts_insert] at member
          split at member
          next sameTopic =>
            rcases mem_acceptInto member with old | new
            · rw [sameTopic]
              exact kept.accepts topic entry old
            · rw [new, sameTopic]
              exact ⟨rfl, plain, nonneg, named⟩
          next => exact kept.accepts other entry member
  rw [same] at listed ⊢
  exact ⟨kept.version, kept.next, listed, kept.learns, kept.proposals, kept.calls, kept.out⟩

theorem ireceiveLearn (kept : GroupCore group core) (layout : Layout) (servId : Nat)
    (reply : Option LearnReply) (reported : List PaxosAccept)
    (plain : ∀ given, reply = some given → ∀ entry ∈ given.entries, IsPlain group entry.topic) :
    GroupCore group { core with
      paxos := (ireceiveLearn layout core.id servId core.paxos reply).1
      reported := reported } := by
  have unreported : ∀ after : Core, GroupCore group after →
      GroupCore group { after with reported := reported } :=
    fun after inner => ⟨inner.version, inner.next, inner.accepts, inner.learns, inner.proposals, inner.calls,
      inner.out⟩
  apply unreported { core with paxos := (Paxos.ireceiveLearn layout core.id servId core.paxos reply).1 }
  rcases ireceiveLearn_plain layout core.id servId reply kept.version kept.learns plain with
    whole | refused
  · rw [whole]
    have learned : GroupCore group { core with paxos := learnReply servId core.paxos reply } := by
      cases reply with
      | none => exact kept.state _ rfl le_rfl rfl fun topic member => member
      | some reply =>
          exact ⟨kept.version, kept.next, kept.accepts,
            plain_learnEntries servId reply.entries core.paxos.learn kept.learns (plain reply rfl),
            kept.proposals, kept.calls, kept.out⟩
    rcases reportIfLast_learn layout (learnReply servId core.paxos reply) with same | pruned
    · rw [same]
      exact learned
    · rw [pruned]
      exact learned.state _ rfl le_rfl rfl fun topic member => (Table.mem_mapValues _ _ topic).mp member
  · rw [refused]
    exact kept.state _ rfl le_rfl rfl fun topic member => member

/-! ### Packets and calls -/

/-- The answer to a learn request lists plain topics. -/
theorem learned_plain (kept : GroupCore group core) (layout : Layout) (version : Int) :
    PlainReply group (.learn (ireceiveLearnRequest layout core.paxos version)) := by
  intro entry member
  obtain ⟨topic, _, listed⟩ := List.mem_flatMap.mp member
  obtain ⟨same, plain, _⟩ := kept.accepts topic entry listed
  exact same ▸ plain

theorem endCall (kept : GroupCore group core) (req : Nat) :
    GroupCore group { core with calls := core.calls.filter fun other => other.req != req } where
  version := kept.version
  next := kept.next
  accepts := kept.accepts
  learns := kept.learns
  proposals := kept.proposals
  calls := fun other member => kept.calls other (List.mem_of_mem_filter member)
  out := kept.out

theorem finishCall (kept : GroupCore group core) (layout : Layout) (peer req : Nat)
    {reply : Option RpcReply} (plain : ∀ given, reply = some given → PlainReply group given) :
    GroupCore group (finishCall layout core peer req reply) := by
  unfold Paxos.finishCall
  split
  · exact kept
  next call search =>
    have plainCall := kept.calls call (List.mem_of_find?_eq_some search)
    have others := kept.endCall req
    unfold runCallback
    split
    · exact others.ireceiveResponse layout call.peer _ fun given impossible => nomatch impossible
    next response _ =>
      apply others.ireceiveResponse layout call.peer
      intro given same
      rw [← Option.some.inj same]
      exact plain (.prepare response) rfl
    · exact others
    next isOk =>
      unfold Callback.IsPlain at plainCall
      rw [isOk] at plainCall
      rcases plainCall with isLearn | ⟨_, isResponse⟩
      · cases isLearn
      · cases isResponse
    next isBack =>
      unfold Callback.IsPlain at plainCall
      rw [isBack] at plainCall
      rcases plainCall with isLearn | ⟨_, isResponse⟩
      · cases isLearn
      · cases isResponse
    · exact others.ireceiveLearn layout call.peer none
        (core.reported ++ (Paxos.ireceiveLearn layout core.id call.peer core.paxos none).2)
        fun given impossible => nomatch impossible
    next learned _ =>
      apply others.ireceiveLearn layout call.peer (some learned)
        (core.reported ++ (Paxos.ireceiveLearn layout core.id call.peer core.paxos (some learned)).2)
      intro given same
      rw [← Option.some.inj same]
      exact plain (.learn learned) rfl
    · exact others

theorem dispatch (kept : GroupCore group core) (layout : Layout) (src : Nat) {body : PaxosBody}
    (plain : PlainBody group body) : GroupCore group (dispatch layout core src body) := by
  cases body with
  | request req request =>
      exact (kept.ireceiveRequest layout request).send src
        (report_nonneg layout core.paxos request)
  | accept topic id value version => exact kept.iaccept version plain.1 plain.2.1 plain.2.2
  | learnRequest req version => exact kept.send src (kept.learned_plain layout version)
  | addMe => exact plain.elim
  | addAccept req dump => exact plain.elim
  | refreshAccept req dump => exact plain.elim
  | rpcBack req reply =>
      apply kept.finishCall layout src req
      intro given same
      rw [← Option.some.inj same]
      exact plain

end GroupCore

/-! ## Runs of a group -/

/-- Every server and every packet is plain. -/
structure GroupKept (group : PaxosVersion) (world : PaxosWorld) : Prop where
  cores : ∀ server, GroupCore group (world.cores server)
  sent : ∀ packet ∈ world.sent, PlainBody group packet.body
  net : ∀ packet ∈ world.net, PlainBody group packet.body

section

variable {group : PaxosVersion} {world : PaxosWorld}

theorem groupKept_start {connected : Nat → Nat → Bool} :
    GroupKept group (groupWorld group connected) where
  cores := fun _ => {
    version := rfl
    next := Nat.one_pos
    accepts := fun _ _ member => absurd member List.not_mem_nil
    learns := fun topic member => absurd member (AList.notMem_empty topic)
    proposals := fun _ _ found => nomatch found
    calls := fun _ member => absurd member List.not_mem_nil
    out := fun _ member => absurd member List.not_mem_nil }
  sent := fun _ member => absurd member List.not_mem_nil
  net := fun _ member => absurd member List.not_mem_nil

/-- A server that stays plain keeps the group plain. -/
theorem GroupKept.act (kept : GroupKept group world) (server : Nat) {handler : Core → Core}
    {net : List PaxosPacket} (fewer : ∀ packet ∈ net, packet ∈ world.net)
    (promises : List Promise) (heard : List Heard) (missed : List SId)
    (handled : GroupCore group (handler (world.cores server))) :
    GroupKept group
      (({ world with
          net := net
          promises := promises
          heard := heard
          missed := missed } : PaxosWorld).act server handler) where
  cores := by
    intro other
    show GroupCore group (Function.update world.cores server _ other)
    by_cases same : other = server
    · rw [same, Function.update_self]
      exact ⟨handled.version, handled.next, handled.accepts, handled.learns, handled.proposals, handled.calls,
        fun packet member => absurd member List.not_mem_nil⟩
    · rw [Function.update_of_ne same]
      exact kept.cores other
  sent := by
    intro packet member
    rcases List.mem_append.mp member with old | new
    · exact kept.sent packet old
    · exact handled.out packet new
  net := by
    intro packet member
    rcases List.mem_append.mp member with old | new
    · exact kept.net packet (fewer packet old)
    · exact handled.out packet new

theorem groupKept_step {after : PaxosWorld} {event : PaxosEvent} (kept : GroupKept group world)
    (stepped : (groupSystem group).step world event = some after) : GroupKept group after := by
  dsimp only [groupSystem] at stepped
  split at stepped
  next allowed =>
    have all : ∀ packet ∈ world.net, packet ∈ world.net := fun packet member => member
    cases event with
    | start server topic value =>
        cases stepped
        unfold proposesOnly at allowed
        simp only [Bool.and_eq_true, bne_iff_ne, decide_eq_true_eq] at allowed
        rw [(kept.cores server).version] at allowed
        exact kept.act server all _ _ _ ((kept.cores server).sPaxosStart allowed.1 allowed.2)
    | askAdd server target => cases allowed
    | checkLeave server => cases allowed
    | learnAll server =>
        cases stepped
        exact kept.act server all _ _ _ (kept.cores server).sPaxosLearnAll
    | deliver index layout =>
        dsimp only [PaxosWorld.step] at stepped
        split at stepped
        · cases stepped
        next packet rest taken =>
          cases stepped
          have plain := kept.net packet (Packet.mem_of_takeAt taken)
          exact kept.act packet.dst (fun other member => Packet.mem_rest_of_takeAt taken member)
            _ _ _ ((kept.cores packet.dst).dispatch layout packet.src plain)
    | lose index =>
        dsimp only [PaxosWorld.step] at stepped
        split at stepped
        · cases stepped
        · split at stepped
          · cases stepped
          · cases stepped
            exact ⟨kept.cores, kept.sent,
              fun packet member => kept.net packet (List.mem_of_mem_eraseIdx member)⟩
    | timeout server peer req layout =>
        cases stepped
        exact kept.act server all _ _ _
          ((kept.cores server).finishCall layout peer req fun given impossible =>
            nomatch impossible)
    | connection server peer established =>
        dsimp only [PaxosWorld.step] at stepped
        split at stepped
        · cases stepped
        · cases stepped
          have own := kept.cores server
          exact kept.act server all _ _ _
            ⟨own.version, own.next, own.accepts, own.learns, own.proposals, own.calls, own.out⟩
  next => cases stepped

end

end SimpleDfs.Paxos
