import SimpleDfs.Paxos.Answers

/-!
Contract: servers accept and learn only what somebody has proposed
(`core/s_core_paxos.c`).

Owns: runs with what their users proposed, and that every value of an ordinary
topic in any table, packet or report of any server is one of them.

Does not own: the values of version topics, which `s_paxos_start` computes;
agreement.
-/

set_option autoImplicit false

namespace SimpleDfs.Paxos

open SimpleDfs.Common
open SimpleDfs.Library

/-- A topic of no version. -/
def IsOrdinary (topic : Topic) : Prop :=
  versionPrefix.isPrefixOf topic = false

theorem not_isOrdinary_versionTopic (version : Int) : ¬ IsOrdinary (versionTopic version) := by
  intro ordinary
  have isPrefix : versionPrefix.isPrefixOf (versionTopic version) = true :=
    List.isPrefixOf_iff_prefix.mpr (List.prefix_append _ _)
  rw [IsOrdinary, isPrefix] at ordinary
  cases ordinary

/-- All servers, and what the users of members have proposed so far. -/
structure ProposedWorld where
  world : PaxosWorld
  proposed : List (Topic × Value)

/-- What the user proposes in an event. `s_paxos_start` turns down a server that is
no member. -/
def proposedBy (world : PaxosWorld) : PaxosEvent → List (Topic × Value)
  | .start server topic value =>
      if sPaxosIsIn (world.cores server).paxos (world.cores server).id then [(topic, value)] else []
  | _ => []

def ProposedWorld.step (state : ProposedWorld) (event : PaxosEvent) : Option ProposedWorld :=
  (state.world.step event).map fun world =>
    { world := world, proposed := state.proposed ++ proposedBy state.world event }

/-- Runs that record what is proposed. -/
def proposedSystem : System ProposedWorld PaxosEvent where
  init := fun state => paxosSystem.init state.world ∧ state.proposed = []
  step := ProposedWorld.step

/-- Every value of an ordinary topic was proposed on it. -/
structure ProposedWorld.Valid (state : ProposedWorld) : Prop where
  accepted : ∀ server topic, IsOrdinary topic →
    ∀ accept ∈ (state.world.cores server).paxos.accepts topic,
      (topic, accept.value) ∈ state.proposed
  learned : ∀ server topic, IsOrdinary topic →
    ∀ learn ∈ (state.world.cores server).paxos.learns topic, (topic, learn.value) ∈ state.proposed
  sent : ∀ packet ∈ state.world.sent, ∀ topic id value version,
    packet.body = .accept topic id value version → IsOrdinary topic →
      (topic, value) ∈ state.proposed
  reported : ∀ server, ∀ entry ∈ (state.world.cores server).reported, IsOrdinary entry.topic →
    (entry.topic, entry.value) ∈ state.proposed

/-! ## Tables -/

section

variable {P : Topic → Value → Prop} {paxos : SPaxos}

def EntriesValid (P : Topic → Value → Prop) (entries : List PaxosAccept) : Prop :=
  ∀ entry ∈ entries, P entry.topic entry.value

def RowsValid (P : Topic → Value → Prop) (rows : List (Topic × List PaxosAccept)) : Prop :=
  ∀ row ∈ rows, ∀ accept ∈ row.2, P row.1 accept.value

/-- Every value in the tables of a server is good for its topic. -/
structure TablesValid (P : Topic → Value → Prop) (paxos : SPaxos) : Prop where
  accepts : ∀ topic, ∀ accept ∈ paxos.accepts topic, accept.topic = topic ∧ P topic accept.value
  learns : ∀ topic, ∀ learn ∈ paxos.learns topic, P topic learn.value
  backup : ∀ serv list, paxos.backup.lookup serv = some list → EntriesValid P list

namespace TablesValid

theorem of_same {after : SPaxos} (valid : TablesValid P paxos)
    (accept : after.accept = paxos.accept) (learn : after.learn = paxos.learn)
    (backup : after.backup = paxos.backup) : TablesValid P after where
  accepts := by
    unfold SPaxos.accepts
    rw [accept]
    exact valid.accepts
  learns := by
    unfold SPaxos.learns
    rw [learn]
    exact valid.learns
  backup := by
    rw [backup]
    exact valid.backup

theorem create (servId : Nat) : TablesValid P (sPaxosCreate servId) where
  accepts := fun _ _ listed => absurd listed List.not_mem_nil
  learns := fun _ _ listed => absurd listed List.not_mem_nil
  backup := fun _ _ found => nomatch found

theorem insertAccepts (valid : TablesValid P paxos) {topic : Topic} {list : List PaxosAccept}
    (new : ∀ accept ∈ list, accept.topic = topic ∧ P topic accept.value) :
    TablesValid P { paxos with accept := paxos.accept.insert topic list } where
  accepts := by
    intro other accept listed
    rw [accepts_insert] at listed
    split at listed
    next same =>
      rw [same]
      exact new accept listed
    next => exact valid.accepts other accept listed
  learns := valid.learns
  backup := valid.backup

theorem insertLearns (valid : TablesValid P paxos) {topic : Topic} {list : List PaxosLearn}
    (new : ∀ learn ∈ list, P topic learn.value) :
    TablesValid P { paxos with learn := paxos.learn.insert topic list } where
  accepts := valid.accepts
  learns := by
    intro other learn listed
    unfold SPaxos.learns at listed
    dsimp only at listed
    by_cases same : other = topic
    · rw [same, AList.lookup_insert, Option.getD_some] at listed
      rw [same]
      exact new learn listed
    · rw [AList.lookup_insert_ne same] at listed
      exact valid.learns other learn listed
  backup := valid.backup

theorem iaccept (valid : TablesValid P paxos) {topic : Topic} {value : Value}
    (good : P topic value) (id : SId) (version : Int) :
    TablesValid P (iaccept paxos topic id value version) := by
  unfold Paxos.iaccept
  dsimp only
  split
  · exact valid
  · split
    · exact valid
    · split
      · exact valid
      · apply valid.insertAccepts
        intro accept listed
        rcases mem_acceptInto listed with old | rfl
        · exact valid.accepts topic accept old
        · exact ⟨rfl, good⟩

theorem acceptLoop (entries : List PaxosAccept) (valid : TablesValid P paxos)
    (good : EntriesValid P entries) : TablesValid P (acceptLoop paxos entries) := by
  induction entries generalizing paxos with
  | nil => exact valid
  | cons entry rest inductionHypothesis =>
      apply inductionHypothesis
      · exact valid.iaccept (good entry List.mem_cons_self) entry.id (-1)
      · exact fun other listed => good other (List.mem_cons_of_mem _ listed)

theorem ireceiveAddAccept (valid : TablesValid P paxos) {dump : Dump}
    (good : EntriesValid P dump.entries) : TablesValid P (ireceiveAddAccept paxos dump) :=
  acceptLoop dump.entries (valid.of_same rfl rfl rfl) good

theorem mem_majorityScan {nserv : Nat} {shortcut : Bool} {array : List PaxosLearn} :
    ∀ {counted : List Value} {learn : PaxosLearn},
      learn ∈ majorityScan nserv shortcut counted array → learn ∈ array := by
  induction array with
  | nil => exact fun listed => listed
  | cons head rest inductionHypothesis =>
      intro counted learn listed
      rw [majorityScan] at listed
      split at listed
      · rcases List.mem_cons.mp listed with rfl | later
        · exact List.mem_cons_self
        · exact List.mem_cons_of_mem _ (inductionHypothesis later)
      · exact List.mem_cons_of_mem _ (inductionHypothesis listed)

theorem icheckNewVersion (valid : TablesValid P paxos) (layout : Layout) (coreId : Nat) :
    TablesValid P (icheckNewVersion layout coreId paxos) := by
  unfold Paxos.icheckNewVersion
  dsimp only
  split
  · exact valid
  next topic found =>
    split
    · exact valid
    next learn first =>
      have versioned : ∀ version, TablesValid P { paxos with version := version } :=
        fun version => valid.of_same rfl rfl rfl
      apply (versioned _).iaccept
      exact valid.learns topic learn (mem_majorityScan (List.mem_of_mem_head? first))

/-- The entry that is raised keeps its value. -/
theorem mem_raiseLearn {servId : Nat} {value : Value} {id : SId} {array : List PaxosLearn} :
    ∀ {learn : PaxosLearn}, learn ∈ raiseLearn servId value id array →
      ∃ old ∈ array, old.value = learn.value := by
  induction array with
  | nil => exact fun listed => absurd listed List.not_mem_nil
  | cons head rest inductionHypothesis =>
      intro learn listed
      rw [raiseLearn] at listed
      split at listed
      · rcases List.mem_cons.mp listed with rfl | later
        · refine ⟨head, List.mem_cons_self, ?_⟩
          split <;> rfl
        · exact ⟨learn, List.mem_cons_of_mem _ later, rfl⟩
      · rcases List.mem_cons.mp listed with rfl | later
        · exact ⟨learn, List.mem_cons_self, rfl⟩
        · obtain ⟨old, inRest, same⟩ := inductionHypothesis later
          exact ⟨old, List.mem_cons_of_mem _ inRest, same⟩

theorem ilearn (valid : TablesValid P paxos) (layout : Layout) (coreId : Nat) {topic : Topic}
    {value : Value} (good : P topic value) (id : SId) (servId : Nat) :
    TablesValid P (ilearn layout coreId paxos topic value id servId) := by
  unfold Paxos.ilearn
  dsimp only
  split
  · apply valid.insertLearns
    intro learn listed
    obtain ⟨old, inArray, same⟩ := mem_raiseLearn listed
    rw [← same]
    exact valid.learns topic old inArray
  · apply TablesValid.icheckNewVersion
    apply valid.insertLearns
    intro learn listed
    rcases List.mem_append.mp listed with old | new
    · exact valid.learns topic learn old
    · rw [List.mem_singleton.mp new]
      exact good

theorem ilearnList (layout : Layout) (coreId servId : Nat) {topic : Topic}
    (accepts : List PaxosAccept) (valid : TablesValid P paxos)
    (good : ∀ accept ∈ accepts, P topic accept.value) :
    TablesValid P (ilearnList layout coreId servId topic paxos accepts) := by
  induction accepts generalizing paxos with
  | nil => exact valid
  | cons accept rest inductionHypothesis =>
      apply inductionHypothesis
      · exact valid.ilearn layout coreId (good accept List.mem_cons_self) accept.id servId
      · exact fun other listed => good other (List.mem_cons_of_mem _ listed)

theorem ilearnTable (layout : Layout) (coreId servId : Nat)
    (rows : List (Topic × List PaxosAccept)) (valid : TablesValid P paxos)
    (good : RowsValid P rows) : TablesValid P (ilearnTable layout coreId servId paxos rows) := by
  induction rows generalizing paxos with
  | nil => exact valid
  | cons row rest inductionHypothesis =>
      apply inductionHypothesis
      · exact valid.ilearnList layout coreId servId row.2 (good row List.mem_cons_self)
      · exact fun other listed => good other (List.mem_cons_of_mem _ listed)

theorem learnLoop (layout : Layout) (coreId servId : Nat) (version : Int)
    (entries : List PaxosAccept) (valid : TablesValid P paxos) (good : EntriesValid P entries) :
    TablesValid P (learnLoop layout coreId servId version paxos entries).1 := by
  induction entries generalizing paxos with
  | nil => exact valid
  | cons entry rest inductionHypothesis =>
      have learned := valid.ilearn layout coreId (good entry List.mem_cons_self) entry.id servId
      rw [Paxos.learnLoop]
      split
      · exact learned
      · exact inductionHypothesis learned fun other listed =>
          good other (List.mem_cons_of_mem _ listed)

theorem idumpLearn (valid : TablesValid P paxos) (layout : Layout) :
    TablesValid P (idumpLearn layout paxos).1 ∧
      EntriesValid P (idumpLearn layout paxos).2.entries := by
  have pruned : TablesValid P (Paxos.idumpLearn layout paxos).1 := by
    refine ⟨valid.accepts, ?_, valid.backup⟩
    intro topic learn listed
    unfold SPaxos.learns Paxos.idumpLearn at listed
    dsimp only at listed
    rw [Table.lookup_mapValues] at listed
    apply valid.learns topic learn
    unfold SPaxos.learns
    cases found : paxos.learn.lookup topic with
    | none =>
        rw [found] at listed
        exact listed
    | some array =>
        rw [found] at listed
        exact (List.mem_filter.mp listed).1
  refine ⟨pruned, ?_⟩
  intro entry dumped
  obtain ⟨topic, _, listed⟩ := List.mem_flatMap.mp dumped
  obtain ⟨learn, scanned, rfl⟩ := List.mem_map.mp listed
  exact pruned.learns topic learn (mem_majorityScan scanned)

theorem reportIfLast (valid : TablesValid P paxos) (layout : Layout) :
    TablesValid P (reportIfLast layout paxos).1 ∧ EntriesValid P (reportIfLast layout paxos).2 := by
  unfold Paxos.reportIfLast
  split
  · exact valid.idumpLearn layout
  · exact ⟨valid, fun _ listed => absurd listed List.not_mem_nil⟩

theorem ireceiveLearn (valid : TablesValid P paxos) (layout : Layout) (coreId servId : Nat)
    (reply : Option LearnReply) (good : ∀ given, reply = some given → EntriesValid P given.entries) :
    TablesValid P (ireceiveLearn layout coreId servId paxos reply).1 ∧
      EntriesValid P (ireceiveLearn layout coreId servId paxos reply).2 := by
  have counted : TablesValid P { paxos with learnReqCount := paxos.learnReqCount - 1 } :=
    valid.of_same rfl rfl rfl
  have nothing : EntriesValid P [] := fun _ listed => absurd listed List.not_mem_nil
  unfold Paxos.ireceiveLearn
  dsimp only
  cases reply with
  | none => exact counted.reportIfLast layout
  | some reply =>
      dsimp only
      split
      · exact ⟨counted, nothing⟩
      · have learned :=
          learnLoop layout coreId servId reply.version reply.entries counted (good reply rfl)
        split
        next loop =>
          rw [loop] at learned
          exact ⟨learned, nothing⟩
        next loop =>
          rw [loop] at learned
          exact learned.reportIfLast layout

/-- What `ireceive_learn_request` answers. -/
theorem ireceiveLearnRequest (valid : TablesValid P paxos) (layout : Layout) (version : Int) :
    EntriesValid P (ireceiveLearnRequest layout paxos version).entries := by
  intro entry listed
  obtain ⟨topic, _, inList⟩ := List.mem_flatMap.mp listed
  obtain ⟨same, good⟩ := valid.accepts topic entry inList
  rw [same]
  exact good

theorem refreshBackup (entry : PaxosAccept) (visited : List Nat)
    (backup : Table Nat (List PaxosAccept))
    (valid : ∀ serv list, backup.lookup serv = some list → EntriesValid P list) :
    ∀ serv list, (refreshBackup entry backup visited).lookup serv = some list →
      EntriesValid P list := by
  induction visited generalizing backup with
  | nil => exact valid
  | cons serv rest inductionHypothesis =>
      apply inductionHypothesis
      intro other list found
      by_cases same : other = serv
      · rw [same, AList.lookup_insert] at found
        cases found
        intro accept listed
        have inOld := (List.mem_filter.mp listed).1
        cases isOld : backup.lookup serv with
        | none =>
            rw [isOld] at inOld
            exact absurd inOld List.not_mem_nil
        | some old =>
            rw [isOld] at inOld
            exact valid serv old isOld accept inOld
      · rw [AList.lookup_insert_ne same] at found
        exact valid other list found

theorem refreshLoop (layout : Layout) (entries : List PaxosAccept) (number : Nat)
    (valid : TablesValid P paxos) (good : EntriesValid P entries) :
    TablesValid P (refreshLoop layout paxos number entries) := by
  induction entries generalizing paxos number with
  | nil => exact valid
  | cons entry rest inductionHypothesis =>
      apply inductionHypothesis
      · have written : TablesValid P { paxos with
            accept := paxos.accept.insert entry.topic
              (refreshInto entry (paxos.accepts entry.topic)) } := by
          apply valid.insertAccepts
          intro accept listed
          rcases mem_refreshInto listed with old | rfl
          · exact valid.accepts entry.topic accept old
          · exact ⟨rfl, good accept List.mem_cons_self⟩
        exact ⟨written.accepts, written.learns, refreshBackup entry _ paxos.backup valid.backup⟩
      · exact fun other listed => good other (List.mem_cons_of_mem _ listed)

theorem ireceiveRefreshAccept (valid : TablesValid P paxos) (layout : Layout) {dump : Dump}
    (good : EntriesValid P dump.entries) :
    TablesValid P (ireceiveRefreshAccept layout paxos dump).1 := by
  unfold Paxos.ireceiveRefreshAccept
  split
  · exact valid
  · exact refreshLoop layout dump.entries 0 valid good

/-- `ireceive_request` changes no table. -/
theorem ireceiveRequest (valid : TablesValid P paxos) (layout : Layout)
    (request : PrepareRequest) : TablesValid P (ireceiveRequest layout paxos request).1 := by
  unfold Paxos.ireceiveRequest
  dsimp only
  split <;> exact valid.of_same rfl rfl rfl

/-- What `ireceive_request` answers. -/
theorem answer (valid : TablesValid P paxos) {layout : Layout} {request : PrepareRequest}
    {report : Option (SId × Value)} {backup : List PaxosAccept}
    {accepts : List (Topic × List PaxosAccept)}
    (answered : (Paxos.ireceiveRequest layout paxos request).2 = .promise report backup accepts) :
    (∀ id value, report = some (id, value) → P request.topic value) ∧ EntriesValid P backup ∧
      RowsValid P accepts := by
  unfold Paxos.ireceiveRequest at answered
  dsimp only at answered
  split at answered
  · cases answered
  · obtain ⟨isReport, isBackup, isAccepts⟩ := PrepareReply.promise.inj answered
    refine ⟨?_, ?_, ?_⟩
    · intro id value isValue
      rw [isValue] at isReport
      split at isReport
      · cases isReport
      next nonneg =>
        obtain ⟨_, origin⟩ := prepareReport_first request.id (paxos.accepts request.topic)
        have best := Option.some.inj isReport
        rcases origin with nothing | ⟨_, _, accept, found, same⟩
        · exfalso
          apply nonneg
          show (prepareReport request.id (paxos.accepts request.topic)).2.toInt < 0
          rw [nothing]
          decide
        · have isSame : accept.value = value := congrArg Prod.snd (same.symm.trans best)
          rw [← isSame]
          exact (valid.accepts request.topic accept (List.mem_of_find?_eq_some found)).2
    · rw [← isBackup]
      split
      · intro accept listed
        cases found : paxos.backup.lookup request.theServ with
        | none =>
            rw [found] at listed
            exact absurd listed List.not_mem_nil
        | some list =>
            rw [found] at listed
            exact valid.backup _ list found accept listed
      · exact fun _ listed => absurd listed List.not_mem_nil
    · rw [← isAccepts]
      split
      · intro row listed accept inRow
        obtain ⟨topic, _, rfl⟩ := List.mem_map.mp listed
        exact (valid.accepts topic accept inRow).2
      · exact fun _ listed => absurd listed List.not_mem_nil

end TablesValid

end

/-! ## One server -/

/-- What a packet says of values is good; the report of an answer is about the topic
of its request, which is not in it. -/
def BodyValid (P : Topic → Value → Prop) : PaxosBody → Prop
  | .accept topic _ value _ => P topic value
  | .addAccept _ dump => EntriesValid P dump.entries
  | .refreshAccept _ dump => EntriesValid P dump.entries
  | .rpcBack _ (.prepare (.promise _ backup accepts)) =>
      EntriesValid P backup ∧ RowsValid P accepts
  | .rpcBack _ (.learn reply) => EntriesValid P reply.entries
  | _ => True

/-- Every value a server has is good for its topic. -/
structure CoreValid (P : Topic → Value → Prop) (core : Core) : Prop where
  tables : TablesValid P core.paxos
  proposals : ∀ key p, core.proposals.lookup key = some p → P p.topic p.value
  out : ∀ packet ∈ core.out, BodyValid P packet.body
  reported : EntriesValid P core.reported

theorem BodyValid.mono {P Q : Topic → Value → Prop} (weaker : ∀ topic value, P topic value →
    Q topic value) {body : PaxosBody} (valid : BodyValid P body) : BodyValid Q body := by
  unfold BodyValid at valid ⊢
  split
  · exact weaker _ _ valid
  · exact fun entry listed => weaker _ _ (valid entry listed)
  · exact fun entry listed => weaker _ _ (valid entry listed)
  · exact ⟨fun entry listed => weaker _ _ (valid.1 entry listed),
      fun row listed accept inRow => weaker _ _ (valid.2 row listed accept inRow)⟩
  · exact fun entry listed => weaker _ _ (valid entry listed)
  · trivial

namespace CoreValid

variable {P Q : Topic → Value → Prop} {core : Core}

theorem mono (weaker : ∀ topic value, P topic value → Q topic value) (valid : CoreValid P core) :
    CoreValid Q core where
  tables :=
    { accepts := fun topic accept listed =>
        ⟨(valid.tables.accepts topic accept listed).1,
          weaker _ _ (valid.tables.accepts topic accept listed).2⟩
      learns := fun topic learn listed => weaker _ _ (valid.tables.learns topic learn listed)
      backup := fun serv list found entry listed =>
        weaker _ _ (valid.tables.backup serv list found entry listed) }
  proposals := fun key p found => weaker _ _ (valid.proposals key p found)
  out := fun packet listed => (valid.out packet listed).mono weaker
  reported := fun entry listed => weaker _ _ (valid.reported entry listed)

/-- Other parts of a server do not matter. -/
theorem withPaxos (valid : CoreValid P core) {paxos : SPaxos} (tables : TablesValid P paxos) :
    CoreValid P { core with paxos := paxos } :=
  ⟨tables, valid.proposals, valid.out, valid.reported⟩

theorem insertProposal (valid : CoreValid P core) (key : Nat) {p : PaxosProposal}
    (good : P p.topic p.value) :
    CoreValid P { core with proposals := core.proposals.insert key p } where
  tables := valid.tables
  proposals := by
    intro other q found
    dsimp only at found
    by_cases same : other = key
    · rw [same, AList.lookup_insert] at found
      cases found
      exact good
    · rw [AList.lookup_insert_ne same] at found
      exact valid.proposals other q found
  out := valid.out
  reported := valid.reported

theorem send (valid : CoreValid P core) (dst : Nat) {body : PaxosBody} (good : BodyValid P body) :
    CoreValid P (core.send dst body) where
  tables := valid.tables
  proposals := valid.proposals
  out := by
    intro packet listed
    rcases List.mem_append.mp listed with old | new
    · exact valid.out packet old
    · rw [List.mem_singleton.mp new]
      exact good
  reported := valid.reported

theorem rpcCall (valid : CoreValid P core) (dst : Nat) (body : Nat → PaxosBody)
    (good : ∀ req, BodyValid P (body req)) (callback : Callback) :
    CoreValid P (core.rpcCall dst body callback) :=
  have sent : CoreValid P (core.send dst (body core.reqId)) := valid.send dst (good _)
  ⟨valid.tables, valid.proposals, sent.out, valid.reported⟩

/-- A change that keeps what a proposal proposes. -/
theorem changeProposal (valid : CoreValid P core) (key : Nat) (f : PaxosProposal → PaxosProposal)
    (same : ∀ p, (f p).topic = p.topic ∧ (f p).value = p.value) :
    CoreValid P (core.modifyProposal key f) := by
  unfold Core.modifyProposal
  split
  · exact valid
  next p found =>
    apply valid.insertProposal
    rw [(same p).1, (same p).2]
    exact valid.proposals key p found

theorem grab (valid : CoreValid P core) (key : Nat) : CoreValid P (sPaxosProposalGrab core key) :=
  valid.changeProposal key _ fun _ => ⟨rfl, rfl⟩

theorem drop (valid : CoreValid P core) (key : Nat) :
    CoreValid P (sPaxosProposalDrop core key) := by
  unfold sPaxosProposalDrop
  split
  · exact valid
  next p found =>
    split
    · exact valid.insertProposal key (valid.proposals key p found)
    · exact ⟨valid.tables, valid.proposals, valid.out, valid.reported⟩

theorem sendRequest (valid : CoreValid P core) (key : Nat) (request : PrepareRequest)
    (serv : Nat) : CoreValid P (sendRequest key request core serv) := by
  have asked := (valid.grab key).rpcCall serv (fun req => .request req request)
    (fun _ => trivial) (.receiveResponse key)
  exact asked.changeProposal key _ fun _ => ⟨rfl, rfl⟩

theorem sendRefresh (valid : CoreValid P core) (key : Nat) {dump : Dump}
    (good : EntriesValid P dump.entries) (serv : Nat) :
    CoreValid P (sendRefresh key dump core serv) :=
  (valid.grab key).rpcCall serv (fun req => .refreshAccept req dump) (fun _ => good) _

/-- `s_paxos_start`; the value of a NORMAL proposal is the user's. -/
theorem sPaxosStart (valid : CoreValid P core) {topic : Topic} {value : Value}
    {type : ProposalType} {theServ : Nat}
    (good : sPaxosIsIn core.paxos core.id = true →
      P topic value ∧ (type ≠ .normal → ∀ other, P topic other)) :
    CoreValid P (sPaxosStart core topic value type theServ) := by
  unfold Paxos.sPaxosStart
  split
  · exact valid
  next isMember =>
    obtain ⟨given, computed⟩ := good (by simpa using isMember)
    dsimp only [sPaxosProposalCreate]
    have numbered : CoreValid P { core with paxos := { core.paxos with id := core.paxos.id + 1 } } :=
      valid.withPaxos (valid.tables.of_same rfl rfl rfl)
    split
    · exact numbered.insertProposal _ given
    · apply drop
      apply Core.forMembers_keeps _ (CoreValid P)
      · exact fun _ serv sound => sound.sendRequest _ _ serv
      · apply numbered.insertProposal
        cases type with
        | normal => exact given
        | add => exact computed nofun _
        | rm => exact computed nofun _

theorem sPaxosLearnAll (valid : CoreValid P core) : CoreValid P (sPaxosLearnAll core) := by
  have cleared : CoreValid P { core with paxos := { core.paxos with learn := ∅ } } :=
    valid.withPaxos
      ⟨valid.tables.accepts, fun _ _ listed => absurd listed List.not_mem_nil, valid.tables.backup⟩
  have asked : CoreValid P
      (({ core with paxos := { core.paxos with learn := ∅ } } : Core).forMembers fun after serv =>
        after.rpcCall serv (fun req => .learnRequest req core.paxos.version.version)
          .receiveLearn) :=
    Core.forMembers_keeps _ (CoreValid P) _
      (fun _ serv sound => sound.rpcCall serv
        (fun req => .learnRequest req core.paxos.version.version) (fun _ => trivial) _) cleared
  unfold Paxos.sPaxosLearnAll
  refine asked.withPaxos ?_
  exact asked.tables.of_same rfl rfl rfl

theorem sendAccept (valid : CoreValid P core) {p : PaxosProposal} (good : P p.topic p.value) :
    CoreValid P (sendAccept core p) :=
  Core.forMembers_keeps _ (CoreValid P) _ (fun _ serv sound => sound.send serv good) valid

theorem addAnswered (valid : CoreValid P core) (layout : Layout) (key : Nat) (p : PaxosProposal) :
    CoreValid P (addAnswered layout core key p) := by
  obtain ⟨tables, dumped⟩ := valid.tables.idumpLearn layout
  unfold Paxos.addAnswered
  split
  · split
    · exact valid
    · split
      · apply drop
        exact ((valid.withPaxos tables).grab key).rpcCall p.theServ
          (fun req => .addAccept req (idumpLearn layout core.paxos).2) (fun _ => dumped) _
      · exact valid
  · exact valid.drop key

theorem rmAnswered (valid : CoreValid P core) (layout : Layout) (key : Nat) (p : PaxosProposal) :
    CoreValid P (rmAnswered layout core key p) := by
  obtain ⟨tables, dumped⟩ := valid.tables.idumpLearn layout
  unfold Paxos.rmAnswered
  split
  · split
    · exact valid
    · apply drop
      refine changeProposal ?_ key _ fun _ => ⟨rfl, rfl⟩
      exact Core.forMembers_keeps _ (CoreValid P) _
        (fun _ serv sound => sound.sendRefresh key dumped serv) (valid.withPaxos tables)
  · exact valid.drop key

theorem noteReport_topic (p : PaxosProposal) (report : Option (SId × Value)) :
    (p.noteReport report).topic = p.topic := by
  unfold PaxosProposal.noteReport
  split
  · rfl
  · split <;> rfl

/-- The lists of a prepare reply are good, and what it reports is good for the
topic. -/
structure ReplyValid (P : Topic → Value → Prop) (topic : Topic) (reply : Option PrepareReply) :
    Prop where
  report : ∀ id value backup accepts, reply = some (.promise (some (id, value)) backup accepts) →
    P topic value
  lists : ∀ report backup accepts, reply = some (.promise report backup accepts) →
    EntriesValid P backup ∧ RowsValid P accepts

theorem ireceiveResponseAdd (valid : CoreValid P core) (layout : Layout) (servFrom key : Nat)
    {p : PaxosProposal} (good : P p.topic p.value) {reply : Option PrepareReply}
    (replied : ReplyValid P p.topic reply) :
    CoreValid P (ireceiveResponseAdd layout core servFrom key p reply) := by
  unfold Paxos.ireceiveResponseAdd
  dsimp only
  split
  · exact valid.drop key
  · apply addAnswered
    apply valid.insertProposal
    exact good
  next report backup accepts =>
    apply addAnswered
    refine CoreValid.withPaxos (valid.insertProposal key ?_)
      (valid.tables.ilearnTable layout core.id servFrom accepts (replied.lists _ _ _ rfl).2)
    rw [noteReport_topic, noteReport_value]
    exact good

theorem ireceiveResponseRm (valid : CoreValid P core) (layout : Layout) (servFrom key : Nat)
    {p : PaxosProposal} (good : P p.topic p.value) {reply : Option PrepareReply}
    (replied : ReplyValid P p.topic reply) :
    CoreValid P (ireceiveResponseRm layout core servFrom key p reply) := by
  unfold Paxos.ireceiveResponseRm
  dsimp only
  split
  · exact valid.drop key
  · apply rmAnswered
    apply valid.insertProposal
    exact good
  next report backup accepts =>
    obtain ⟨goodBackup, goodRows⟩ := replied.lists _ _ _ rfl
    have rows : RowsValid P (backup.map fun accept => (accept.topic, [accept])) := by
      intro row listed accept inRow
      obtain ⟨entry, inBackup, rfl⟩ := List.mem_map.mp listed
      rw [List.mem_singleton.mp inRow]
      exact goodBackup entry inBackup
    have fromBackup := fun servId =>
      valid.tables.ilearnTable layout core.id servId _ rows
    apply rmAnswered
    refine CoreValid.withPaxos (valid.insertProposal key ?_)
      ((fromBackup _).ilearnTable layout core.id servFrom accepts goodRows)
    rw [noteReport_topic, noteReport_value]
    exact good

theorem iresponse (valid : CoreValid P core) (key : Nat) {p : PaxosProposal}
    (good : P p.topic p.value) {report : Option (SId × Value)}
    (reported : ∀ id value, report = some (id, value) → P p.topic value) :
    CoreValid P (iresponse core key p report) := by
  have counted : P (p.countResponse report).topic (p.countResponse report).value := by
    unfold PaxosProposal.countResponse
    dsimp only
    split
    · exact good
    next id value =>
      split
      · exact reported id value rfl
      · exact good
  unfold Paxos.iresponse
  dsimp only
  split
  · exact (valid.insertProposal key counted).sendAccept counted
  · exact valid.insertProposal key counted

theorem ireceiveResponse (valid : CoreValid P core) (layout : Layout) (servFrom key : Nat)
    {reply : Option PrepareReply}
    (replied : ∀ p, core.proposals.lookup key = some p → ReplyValid P p.topic reply) :
    CoreValid P (ireceiveResponse layout core servFrom key reply) := by
  unfold Paxos.ireceiveResponse
  split
  · exact valid
  next p found =>
    have good := valid.proposals key p found
    have replied := replied p found
    split
    · exact valid.ireceiveResponseAdd layout servFrom key good replied
    · exact valid.ireceiveResponseRm layout servFrom key good replied
    · split
      · exact valid.drop key
      · exact valid.drop key
      · apply drop
        apply valid.iresponse key good
        rintro id value rfl
        exact replied.report id value _ _ rfl

theorem iaddNewServOk (valid : CoreValid P core) (key : Nat) :
    CoreValid P (iaddNewServOk core key) := by
  unfold Paxos.iaddNewServOk
  split
  · exact valid
  next p found => exact valid.sendAccept (valid.proposals key p found)

theorem irefreshAcceptBack (valid : CoreValid P core) (key : Nat) :
    CoreValid P (irefreshAcceptBack core key) := by
  unfold Paxos.irefreshAcceptBack
  split
  · exact valid
  next p found =>
    have good := valid.proposals key p found
    dsimp only
    split
    · apply sendAccept
      · apply valid.insertProposal
        exact good
      · exact good
    · apply valid.insertProposal
      exact good

theorem runCallback (valid : CoreValid P core) (layout : Layout) (call : RpcCall)
    {reply : Option RpcReply}
    (prepare : ∀ key p, call.callback = .receiveResponse key →
      core.proposals.lookup key = some p → ∀ answer : Option PrepareReply,
        reply = answer.map .prepare → ReplyValid P p.topic answer)
    (learn : ∀ given, reply = some (.learn given) → EntriesValid P given.entries) :
    CoreValid P (runCallback layout core call reply) := by
  have learned : ∀ given : Option LearnReply,
      (∀ inner, given = some inner → EntriesValid P inner.entries) →
        CoreValid P { core with
          paxos := (ireceiveLearn layout core.id call.peer core.paxos given).1
          reported :=
            core.reported ++ (ireceiveLearn layout core.id call.peer core.paxos given).2 } := by
    intro given good
    obtain ⟨tables, entries⟩ :=
      valid.tables.ireceiveLearn layout core.id call.peer given good
    refine ⟨tables, valid.proposals, valid.out, ?_⟩
    intro entry listed
    rcases List.mem_append.mp listed with old | new
    · exact valid.reported entry old
    · exact entries entry new
  unfold Paxos.runCallback
  split
  next key isResponse =>
    exact valid.ireceiveResponse layout call.peer key fun p found =>
      prepare key p isResponse found none rfl
  next key answer isResponse =>
    exact valid.ireceiveResponse layout call.peer key fun p found =>
      prepare key p isResponse found (some answer) rfl
  · exact valid
  · exact valid.iaddNewServOk _
  · exact valid.irefreshAcceptBack _
  · exact learned none fun _ none => nomatch none
  next given _ =>
    apply learned (some given)
    intro inner same
    cases same
    exact learn given rfl
  · exact valid

theorem dispatch (valid : CoreValid P core) (layout : Layout) (src : Nat) {body : PaxosBody}
    (good : BodyValid P body) (versions : ∀ version value, P (versionTopic version) value)
    (noReply : ∀ req reply, body ≠ .rpcBack req reply) :
    CoreValid P (dispatch layout core src body) := by
  cases body with
  | request req request =>
      unfold Paxos.dispatch
      dsimp only
      refine (valid.withPaxos (valid.tables.ireceiveRequest layout request)).send src ?_
      cases answered : (Paxos.ireceiveRequest layout core.paxos request).2 with
      | badVersion => trivial
      | promise report backup accepts => exact (valid.tables.answer answered).2
  | accept topic id value version =>
      exact valid.withPaxos (valid.tables.iaccept good id version)
  | learnRequest req version =>
      exact valid.send src (valid.tables.ireceiveLearnRequest layout version)
  | addMe =>
      exact valid.sPaxosStart fun _ => ⟨versions _ _, fun _ => versions _⟩
  | addAccept req dump =>
      exact (valid.withPaxos (valid.tables.ireceiveAddAccept good)).send src trivial
  | refreshAccept req dump =>
      have refreshed := valid.tables.ireceiveRefreshAccept layout good
      unfold Paxos.dispatch
      dsimp only
      split
      · exact valid
      next paxos isAfter =>
        rw [isAfter] at refreshed
        exact (valid.withPaxos refreshed).send src trivial
  | rpcBack req reply => exact absurd rfl (noReply req reply)

end CoreValid

/-! ## Runs -/

/-- A report is good for its topic. -/
def ReportGood (P : Topic → Value → Prop) : AnswerFact :=
  fun _ topic _ report => ∀ id value, report = some (id, value) → P topic value

/-- Every value anywhere is good for its topic. -/
structure WorldValid (P : Topic → Value → Prop) (world : PaxosWorld) : Prop where
  cores : ∀ server, CoreValid P (world.cores server)
  sent : ∀ packet ∈ world.sent, BodyValid P packet.body
  answers : AnswersHold (ReportGood P) world

namespace WorldValid

variable {P Q : Topic → Value → Prop} {world after : PaxosWorld} {event : PaxosEvent}

/-- The end of a call, with a reply or without one. -/
theorem finishCall (valid : WorldValid P world) (kept : CallsKept world) {server peer req : Nat}
    {reply : Option RpcReply} (layout : Layout)
    (ends : EndsCall world event server peer req reply)
    (good : ∀ inner, reply = some inner → BodyValid P (.rpcBack req inner)) :
    CoreValid P (finishCall layout (world.cores server) peer req reply) := by
  have core := valid.cores server
  cases search : (world.cores server).callTo peer req with
  | none =>
      rw [finishCall_of_none layout reply search]
      exact core
  | some call =>
      obtain ⟨sameReq, samePeer⟩ := callTo_names search
      rw [finishCall_of_some layout reply search]
      have others : CoreValid P { world.cores server with
          calls := otherCalls (world.cores server).calls req } :=
        ⟨core.tables, core.proposals, core.out, core.reported⟩
      rw [← sameReq, ← samePeer] at search ends
      apply others.runCallback layout call
      · rintro key p isResponse found answer rfl
        constructor
        · rintro id value backup accepts rfl
          have heard : (⟨⟨server, key⟩, call.peer, some (id, value)⟩ : Heard) ∈
              endHeard server call (some (.prepare (.promise (some (id, value)) backup accepts))) := by
            unfold endHeard
            rw [isResponse]
            exact List.mem_singleton_self _
          obtain ⟨_, q, isProposal, known⟩ :=
            fact_endHeard kept valid.answers search ends _ heard
          have same := Option.some.inj (isProposal.symm.trans found)
          rw [← same]
          exact known id value rfl
        · rintro report backup accepts rfl
          exact good _ rfl
      · rintro given rfl
        exact good _ rfl

/-- What a handler makes of a server. -/
theorem act (valid : WorldValid P world) {middle : PaxosWorld} {server : Nat}
    {handler : Core → Core} (cores : middle.cores = world.cores) (sent : middle.sent = world.sent)
    (handled : CoreValid P (handler (world.cores server))) :
    (∀ other, CoreValid P ((middle.act server handler).cores other)) ∧
      ∀ packet ∈ (middle.act server handler).sent, BodyValid P packet.body := by
  unfold PaxosWorld.act
  rw [cores, sent]
  constructor
  · intro other
    dsimp only
    rw [Function.update_apply]
    split
    · exact ⟨handled.tables, handled.proposals, fun _ listed => absurd listed List.not_mem_nil,
        handled.reported⟩
    · exact valid.cores other
  · intro packet listed
    rcases List.mem_append.mp listed with old | new
    · exact valid.sent packet old
    · exact handled.out packet new

/-- What one event may propose is good for its topic. -/
def Allows (P : Topic → Value → Prop) (world : PaxosWorld) (event : PaxosEvent) : Prop :=
  ∀ proposal ∈ proposedBy world event, P proposal.1 proposal.2

theorem mono (weaker : ∀ topic value, P topic value → Q topic value) (valid : WorldValid P world) :
    WorldValid Q world where
  cores := fun server => (valid.cores server).mono weaker
  sent := fun packet listed => (valid.sent packet listed).mono weaker
  answers :=
    { replies := by
        intro packet listed req report backup accepts body
        obtain ⟨asked, inSent, src, request, isRequest, known⟩ :=
          valid.answers.replies packet listed req report backup accepts body
        exact ⟨asked, inSent, src, request, isRequest,
          fun id value isReport => weaker _ _ (known id value isReport)⟩
      heard := by
        intro entry listed
        obtain ⟨p, found, known⟩ := valid.answers.heard entry listed
        exact ⟨p, found, fun id value isReport => weaker _ _ (known id value isReport)⟩ }

/-- One step of the servers. -/
theorem step (valid : WorldValid P world) (kept : CallsKept world)
    (versions : ∀ version value, P (versionTopic version) value) (allows : Allows P world event)
    (stepped : world.step event = some after) : WorldValid P after := by
  have tables : (∀ other, CoreValid P (after.cores other)) ∧
      ∀ packet ∈ after.sent, BodyValid P packet.body := by
    cases event with
    | start server topic value =>
        cases stepped
        apply valid.act rfl rfl
        apply (valid.cores server).sPaxosStart
        intro isMember
        refine ⟨allows (topic, value) ?_, fun notNormal => absurd rfl notNormal⟩
        unfold proposedBy
        dsimp only
        rw [if_pos isMember]
        exact List.mem_singleton_self _
    | askAdd server target =>
        cases stepped
        exact valid.act rfl rfl ((valid.cores server).send target trivial)
    | checkLeave server =>
        cases stepped
        apply valid.act rfl rfl
        unfold sPaxosCheckLeave
        split
        · exact valid.cores server
        · exact (valid.cores server).sPaxosStart fun _ => ⟨versions _ _, fun _ => versions _⟩
    | learnAll server =>
        cases stepped
        exact valid.act rfl rfl (valid.cores server).sPaxosLearnAll
    | deliver index layout =>
        dsimp only [PaxosWorld.step] at stepped
        split at stepped
        · cases stepped
        next packet rest taken =>
          cases stepped
          have good := valid.sent packet (kept.inSent packet (Packet.mem_of_takeAt taken))
          refine valid.act ?_ ?_ ?_
          · rfl
          · rfl
          cases isReply : packet.body with
          | rpcBack req reply =>
              rw [isReply] at good
              have ends : EndsCall world (.deliver index layout) packet.dst packet.src req
                  (some reply) :=
                EndsCall.reply layout packet reply ⟨index, rest, rfl, taken⟩ rfl rfl isReply
              apply valid.finishCall kept layout ends
              intro inner same
              cases same
              exact good
          | _ =>
              rw [isReply] at good
              exact (valid.cores packet.dst).dispatch layout packet.src good versions nofun
    | lose index =>
        dsimp only [PaxosWorld.step] at stepped
        split at stepped
        · cases stepped
        · split at stepped
          · cases stepped
          · cases stepped
            exact ⟨valid.cores, valid.sent⟩
    | timeout server peer req layout =>
        cases stepped
        refine valid.act ?_ ?_ ?_
        · rfl
        · rfl
        exact valid.finishCall kept layout
          (EndsCall.timeout layout (rfl : PaxosEvent.timeout server peer req layout = _)) nofun
    | connection server peer established =>
        dsimp only [PaxosWorld.step] at stepped
        split at stepped
        · cases stepped
        · cases stepped
          have core := valid.cores server
          exact valid.act rfl rfl ⟨core.tables, core.proposals, core.out, core.reported⟩
  refine ⟨tables.1, tables.2, ?_⟩
  rcases acted_of_step kept stepped with ⟨net, rfl, _⟩ | acts
  · exact ⟨valid.answers.replies, valid.answers.heard⟩
  · apply answersHold_acted kept valid.answers acts (fun _ _ _ _ known => known)
    intro packet layout req request report backup accepts delivers body answered
    exact ((valid.cores packet.dst).tables.answer answered).1

end WorldValid

/-- What is proposed, on ordinary topics. -/
def IsProposed (proposed : List (Topic × Value)) (topic : Topic) (value : Value) : Prop :=
  IsOrdinary topic → (topic, value) ∈ proposed

/-- The servers of a run that records what is proposed, and what every run keeps. -/
theorem worldValid_of_reachable {state : ProposedWorld} (reached : proposedSystem.Reachable state) :
    paxosSystem.Reachable state.world ∧ WorldValid (IsProposed state.proposed) state.world := by
  refine reached.invariant (fun state => paxosSystem.Reachable state.world ∧
    WorldValid (IsProposed state.proposed) state.world) ?_ ?_
  · rintro start ⟨initial, _⟩
    refine ⟨System.ReachableVia.start initial, ?_⟩
    obtain ⟨connected, isFresh⟩ := initial
    rw [isFresh]
    refine ⟨?_, fun _ listed => absurd listed List.not_mem_nil, answersHold_start _ rfl rfl⟩
    intro server
    exact ⟨TablesValid.create server, (fun _ _ found => nomatch found),
      fun _ listed => absurd listed List.not_mem_nil,
      fun _ listed => absurd listed List.not_mem_nil⟩
  · rintro before event after _ ⟨reachedWorld, valid⟩ _ stepped
    obtain ⟨world, moved, rfl⟩ := Option.map_eq_some_iff.mp stepped
    refine ⟨reachedWorld.step event trivial moved, ?_⟩
    have more : ∀ topic value, IsProposed before.proposed topic value →
        IsProposed (before.proposed ++ proposedBy before.world event) topic value :=
      fun _ _ known ordinary => List.mem_append_left _ (known ordinary)
    apply (valid.mono more).step (callsKept_of_reachable reachedWorld) _ _ moved
    · exact fun version _ ordinary => absurd ordinary (not_isOrdinary_versionTopic version)
    · exact fun proposal listed _ => List.mem_append_right _ listed

/-- Server 2 joins, server 1 proposes 5, and server 2 learns it. -/
def learnedRun : List PaxosEvent :=
  pairRun ++ .start 1 [120] 5#32 :: delivered [0, 0, 0, 0, 0, 0] ++
    .learnAll 2 :: delivered [0, 0, 0, 0]

/-- Nothing is proposed yet. -/
def nothingProposed : ProposedWorld where
  world := connectedWorld
  proposed := []

theorem init_nothingProposed : proposedSystem.init nothingProposed :=
  ⟨init_connectedWorld, rfl⟩

end SimpleDfs.Paxos
