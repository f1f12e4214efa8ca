import SimpleDfs.Paxos.Promises

/-!
Contract: ordinary topics while a membership change is under way.

Owns: the time from the answer to an ADD or RM prepare request until the version
changes, the packets that can break the freeze, and the law that nothing else
writes to the accept list of an ordinary topic.

The freeze is one number: `response_version` is above the version, so `iaccept`
refuses an ACCEPT of this version whose topic reads as a smaller one.  An
ADD_ACCEPT does not ask.  A late proposal to add a server that is a member by
now sends it one of its own version.

Does not own: which proposals are started.
-/

set_option autoImplicit false

namespace SimpleDfs.Paxos

open SimpleDfs.Common
open SimpleDfs.Library

/-- The topic is none of the form `version:N` for an `int` N. -/
def isOrdinary (topic : Topic) : Bool :=
  topic != versionTopic (igetNewVersion topic)

theorem isOrdinary_versionTopic (version : Int) (nonneg : 0 ≤ version)
    (small : version < 2 ^ 31) : isOrdinary (versionTopic version) = false := by
  rw [isOrdinary, igetNewVersion_versionTopic version nonneg small, bne_self_eq_false]

/-- The acceptor has answered a membership request of its version. -/
def isFrozen (paxos : SPaxos) : Bool :=
  paxos.responseVersion == paxos.version.version + 1

/-! ## The packets of a membership change -/

/-- Membership requests are for the topic of the next version. -/
def properRequest : PaxosBody → Bool
  | .request _ request =>
      request.type == .normal || request.topic == versionTopic (request.version.version + 1)
  | _ => true

/-- The topic reads as a version later than `version`, like `version:9x`. -/
def readsAhead (topic : Topic) (version : Int) : Bool :=
  versionPrefix.isPrefixOf topic && decide (version < igetNewVersion topic)

/-- The packet leaves the freeze alone: an ACCEPT for an ordinary topic is one
that the checks of `iaccept` apply to, an ADD_ACCEPT of the acceptor's own
version lists no ordinary topic, and the next version is an `int`. -/
def keepsFrozen (paxos : SPaxos) : PaxosBody → Bool
  | .request _ request =>
      request.type == .normal ||
        (decide (0 ≤ request.version.version) && decide (request.version.version + 1 < 2 ^ 31))
  | .accept topic _ _ version =>
      !(isFrozen paxos && isOrdinary topic) ||
        (decide (0 < version) && !readsAhead topic paxos.version.version)
  | .addAccept _ dump =>
      !(isFrozen paxos && decide (dump.version.version = paxos.version.version)) ||
        dump.entries.all fun entry => !isOrdinary entry.topic
  | _ => true

/-- A test of the packet an event delivers, with the state of its receiver. -/
def testDelivered (test : SPaxos → PaxosBody → Bool) (world : PaxosWorld) : PaxosEvent → Bool
  | .deliver index _ =>
      match Packet.takeAt world.net index with
      | some (packet, _) => test (world.cores packet.dst).paxos packet.body
      | none => true
  | _ => true

/-- ADD and RM proposals use the topic of the next version. -/
def usesNextVersion (world : PaxosWorld) (event : PaxosEvent) : Bool :=
  testDelivered (fun _ body => properRequest body) world event

/-- Besides, no packet reaches a frozen acceptor that passes the freeze by. -/
def keepsFreeze (world : PaxosWorld) (event : PaxosEvent) : Bool :=
  usesNextVersion world event && testDelivered keepsFrozen world event

/-- The event hands `server` a prepare request for ADD or RM of its version. -/
def answersMembership (server : Nat) (world : PaxosWorld) : PaxosEvent → Bool
  | .deliver index _ =>
      match Packet.takeAt world.net index with
      | some (packet, _) =>
          match packet.body with
          | .request _ request =>
              packet.dst == server && request.type != .normal &&
                decide ((world.cores server).paxos.version.version = request.version.version)
          | _ => false
      | none => false
  | _ => false

/-- The event hands `server` a REFRESH_ACCEPT. -/
def refreshes (server : Nat) (world : PaxosWorld) : PaxosEvent → Bool
  | .deliver index _ =>
      match Packet.takeAt world.net index with
      | some (packet, _) =>
          match packet.body with
          | .refreshAccept _ _ => packet.dst == server
          | _ => false
      | none => false
  | _ => false

/-- The version number of a server. -/
def PaxosWorld.versionOf (world : PaxosWorld) (server : Nat) : Int :=
  (world.cores server).paxos.version.version

/-- In a run of admitted steps `server` has answered an ADD or RM prepare request
at this version, and its version has not changed since. -/
inductive FrozenSince (admitted : PaxosWorld → PaxosEvent → Prop) (server : Nat) (version : Int) :
    PaxosWorld → Prop where
  | answered (before : PaxosWorld) (event : PaxosEvent) (after : PaxosWorld)
      (reached : paxosSystem.ReachableVia admitted before) (allowed : admitted before event)
      (answers : answersMembership server before event = true)
      (current : before.versionOf server = version) (stepped : before.step event = some after) :
      FrozenSince admitted server version after
  | later (before : PaxosWorld) (event : PaxosEvent) (after : PaxosWorld)
      (since : FrozenSince admitted server version before) (allowed : admitted before event)
      (stepped : before.step event = some after) (same : after.versionOf server = version) :
      FrozenSince admitted server version after

/-! ## Handlers -/

/-- What a handler does to an acceptor that stays at its version: the freeze
stays, and so do the lists of ordinary topics. -/
structure KeepsOrdinary (before after : SPaxos) : Prop where
  response : after.responseVersion = before.responseVersion
  lists : ∀ topic, isOrdinary topic = true →
    after.accept.lookup topic = before.accept.lookup topic

theorem KeepsOrdinary.refl (paxos : SPaxos) : KeepsOrdinary paxos paxos :=
  ⟨rfl, fun _ _ => rfl⟩

theorem KeepsOrdinary.of_same {before after : SPaxos}
    (response : after.responseVersion = before.responseVersion)
    (accept : after.accept = before.accept) : KeepsOrdinary before after :=
  ⟨response, fun _ _ => by rw [accept]⟩

/-- The version goes up, or nothing the freeze protects is written. -/
def UpOrKeeps (before after : SPaxos) : Prop :=
  before.version.version < after.version.version ∨
    after.version.version = before.version.version ∧ KeepsOrdinary before after

theorem UpOrKeeps.trans {first second third : SPaxos} (early : UpOrKeeps first second)
    (late : UpOrKeeps second third) : UpOrKeeps first third := by
  rcases early with up | ⟨same, keeps⟩
  · rcases late with upAgain | ⟨same', _⟩
    · exact Or.inl (up.trans upAgain)
    · exact Or.inl (same' ▸ up)
  · rcases late with up | ⟨same', keeps'⟩
    · exact Or.inl (same ▸ up)
    · refine Or.inr ⟨same'.trans same, keeps'.response.trans keeps.response, ?_⟩
      intro topic ordinary
      rw [keeps'.lists topic ordinary, keeps.lists topic ordinary]

theorem learnerClosed_upOrKeeps (layout : Layout) (coreId : Nat) :
    LearnerClosed layout coreId UpOrKeeps where
  refl := fun paxos => Or.inr ⟨rfl, KeepsOrdinary.refl paxos⟩
  trans := UpOrKeeps.trans
  learn := fun _ _ _ => Or.inr ⟨rfl, KeepsOrdinary.of_same rfl rfl⟩
  check := by
    intro paxos
    rcases icheckNewVersion_eq layout coreId paxos with same | ⟨value, accept, same⟩
    · rw [same]
      exact Or.inr ⟨rfl, KeepsOrdinary.refl paxos⟩
    · rw [same]
      exact Or.inl (Int.lt_succ paxos.version.version)

/-- An entry for one topic leaves the lists of all others. -/
theorem iaccept_lookup_ne (paxos : SPaxos) {topic other : Topic} (id : SId) (value : Value)
    (version : Int) (different : other ≠ topic) :
    (iaccept paxos topic id value version).accept.lookup other = paxos.accept.lookup other := by
  unfold iaccept
  dsimp only
  split
  · rfl
  · split
    · rfl
    · split
      · rfl
      · exact AList.lookup_insert_ne different

/-- A frozen acceptor refuses an ordinary topic. -/
theorem iaccept_frozen {paxos : SPaxos} {topic : Topic} {version : Int} (id : SId) (value : Value)
    (frozen : isFrozen paxos = true) (checked : 0 < version)
    (behind : readsAhead topic paxos.version.version = false) :
    iaccept paxos topic id value version = paxos := by
  rw [isFrozen, beq_iff_eq] at frozen
  unfold iaccept
  dsimp only
  split
  next => rfl
  next current =>
    have same : version = paxos.version.version := by
      by_contra different
      exact current ⟨checked, different⟩
    have reads : igetNewVersion topic < paxos.responseVersion := by
      rw [frozen]
      by_cases named : versionPrefix.isPrefixOf topic = true
      · rw [readsAhead, named, Bool.true_and, decide_eq_false_iff_not] at behind
        omega
      · rw [igetNewVersion, if_neg named]
        omega
    rw [if_pos ⟨checked, by omega, reads⟩]

theorem acceptLoop_lookup_ne {topic : Topic} :
    ∀ (entries : List PaxosAccept) (paxos : SPaxos), (∀ entry ∈ entries, topic ≠ entry.topic) →
      (acceptLoop paxos entries).accept.lookup topic = paxos.accept.lookup topic
  | [], _, _ => rfl
  | entry :: rest, paxos, others => by
      rw [acceptLoop, acceptLoop_lookup_ne rest _ fun later member =>
        others later (List.mem_cons_of_mem _ member)]
      exact iaccept_lookup_ne paxos entry.id entry.value (-1) (others entry List.mem_cons_self)

/-- A proper membership request writes the number of the next version. -/
theorem responseVersion_ireceiveRequest (layout : Layout) {paxos : SPaxos} {req : Nat}
    {request : PrepareRequest} (membership : request.type ≠ .normal)
    (current : paxos.version.version = request.version.version)
    (proper : properRequest (.request req request) = true)
    (fits : keepsFrozen paxos (.request req request) = true) :
    (ireceiveRequest layout paxos request).1.responseVersion = paxos.version.version + 1 := by
  have notNormal : (request.type == ProposalType.normal) = false := beq_eq_false_iff_ne.mpr membership
  rw [properRequest, notNormal, Bool.false_or, beq_iff_eq] at proper
  rw [keepsFrozen, notNormal, Bool.false_or, Bool.and_eq_true, decide_eq_true_eq,
    decide_eq_true_eq] at fits
  unfold ireceiveRequest
  dsimp only
  rw [if_neg (not_not.mpr current), if_pos membership, proper,
    igetNewVersion_versionTopic _ (by omega) fits.2, current]

/-- **One packet.**  A frozen acceptor that stays at its version keeps the lists
of all ordinary topics, but for a refresh. -/
theorem keepsOrdinary_dispatch (layout : Layout) (core : Core) (src : Nat) {body : PaxosBody}
    (frozen : isFrozen core.paxos = true) (proper : properRequest body = true)
    (keeps : keepsFrozen core.paxos body = true)
    (noRefresh : ∀ req dump, body ≠ .refreshAccept req dump)
    (same : (dispatch layout core src body).paxos.version.version = core.paxos.version.version) :
    KeepsOrdinary core.paxos (dispatch layout core src body).paxos := by
  cases body with
  | request req request =>
      show KeepsOrdinary core.paxos (ireceiveRequest layout core.paxos request).1
      have accept := (ireceiveRequest_tables layout core.paxos request).1
      refine KeepsOrdinary.of_same ?_ accept
      by_cases membership : request.type = .normal
      · unfold ireceiveRequest
        dsimp only
        split
        · rfl
        · rw [if_neg (not_not.mpr membership)]
      · by_cases current : core.paxos.version.version = request.version.version
        · rw [responseVersion_ireceiveRequest layout membership current proper keeps]
          rw [isFrozen, beq_iff_eq] at frozen
          exact frozen.symm
        · unfold ireceiveRequest
          dsimp only
          rw [if_pos current]
  | accept topic id value version =>
      show KeepsOrdinary core.paxos (iaccept core.paxos topic id value version)
      rw [keepsFrozen, frozen, Bool.true_and] at keeps
      obtain ⟨accept, written⟩ := iaccept_eq core.paxos topic id value version
      refine ⟨by rw [written], ?_⟩
      intro other ordinary
      by_cases own : other = topic
      · rw [own] at ordinary ⊢
        rw [ordinary, Bool.not_true, Bool.false_or, Bool.and_eq_true, decide_eq_true_eq,
          Bool.not_eq_true'] at keeps
        rw [iaccept_frozen id value frozen keeps.1 keeps.2]
      · exact iaccept_lookup_ne core.paxos id value version own
  | learnRequest req version => exact KeepsOrdinary.refl core.paxos
  | addMe =>
      obtain ⟨number, _, written⟩ := sPaxosStart_paxos core
        (versionTopic (core.paxos.version.version + 1))
        (servsValue core.paxos.version.servs ||| servBit src) .add src
      show KeepsOrdinary core.paxos (ireceiveAdd core src).paxos
      rw [ireceiveAdd, written]
      exact KeepsOrdinary.of_same rfl rfl
  | addAccept req dump =>
      have joined : (ireceiveAddAccept core.paxos dump).version.version =
          core.paxos.version.version := same
      obtain ⟨accept, written⟩ :=
        acceptLoop_eq dump.entries { core.paxos with version := dump.version }
      have version : dump.version.version = core.paxos.version.version := by
        rw [ireceiveAddAccept, written] at joined
        exact joined
      rw [keepsFrozen, frozen, version, decide_eq_true rfl, Bool.and_self, Bool.not_true,
        Bool.false_or, List.all_eq_true] at keeps
      show KeepsOrdinary core.paxos (ireceiveAddAccept core.paxos dump)
      refine ⟨by rw [ireceiveAddAccept, written], ?_⟩
      intro topic ordinary
      rw [ireceiveAddAccept]
      apply acceptLoop_lookup_ne
      rintro entry member rfl
      have listed := keeps entry member
      rw [ordinary] at listed
      cases listed
  | refreshAccept req dump => exact absurd rfl (noRefresh req dump)
  | rpcBack req reply =>
      have closed := (learnerClosed_upOrKeeps layout core.id).calls.finishCall src req (some reply)
      rcases closed with up | ⟨_, kept⟩
      · exact absurd same up.ne'
      · exact kept

/-- A refresh leaves the freeze itself. -/
theorem isFrozen_refresh (layout : Layout) (core : Core) (src req : Nat) (dump : Dump) :
    isFrozen (dispatch layout core src (.refreshAccept req dump)).paxos = isFrozen core.paxos := by
  rw [dispatch_refreshAccept_paxos]
  unfold ireceiveRefreshAccept
  split
  · rfl
  · obtain ⟨accept, backup, written⟩ := refreshLoop_eq layout dump.entries 0 core.paxos
    rw [written]
    rfl

/-! ## Steps -/

section

variable {world after : PaxosWorld} {event : PaxosEvent} {server : Nat}

/-- An act of any server that keeps the ordinary lists of the acting one, should
its version stay. -/
theorem keepsOrdinary_act {world middle : PaxosWorld} {acting : Nat} {handler : Core → Core}
    (same : (middle.act acting handler).versionOf server = world.versionOf server)
    (cores : middle.cores = world.cores)
    (keeps : server = acting →
      (handler (world.cores server)).paxos.version.version = world.versionOf server →
      KeepsOrdinary (world.cores server).paxos (handler (world.cores server)).paxos) :
    KeepsOrdinary (world.cores server).paxos ((middle.act acting handler).cores server).paxos := by
  unfold PaxosWorld.versionOf at same
  rw [act_core world middle acting server handler cores] at same ⊢
  by_cases own : server = acting
  · rw [if_pos own] at same ⊢
    exact keeps own same
  · rw [if_neg own]
    exact KeepsOrdinary.refl _

/-- **One step.**  While a frozen acceptor stays at its version, a step keeps the
lists of its ordinary topics, but for a refresh. -/
theorem keepsOrdinary_step (frozen : isFrozen (world.cores server).paxos = true)
    (keeps : keepsFreeze world event = true) (noRefresh : refreshes server world event = false)
    (stepped : world.step event = some after)
    (same : after.versionOf server = world.versionOf server) :
    KeepsOrdinary (world.cores server).paxos (after.cores server).paxos := by
  cases event with
  | start acting topic value =>
      cases stepped
      apply keepsOrdinary_act same rfl
      rintro rfl _
      obtain ⟨id, _, written⟩ := sPaxosStart_paxos (world.cores server) topic value .normal 0
      rw [written]
      exact KeepsOrdinary.of_same rfl rfl
  | askAdd acting target =>
      cases stepped
      exact keepsOrdinary_act same rfl fun _ _ => KeepsOrdinary.refl _
  | checkLeave acting =>
      cases stepped
      apply keepsOrdinary_act same rfl
      rintro rfl _
      obtain ⟨id, _, written⟩ := sPaxosCheckLeave_paxos (world.cores server)
      rw [written]
      exact KeepsOrdinary.of_same rfl rfl
  | learnAll acting =>
      cases stepped
      apply keepsOrdinary_act same rfl
      rintro rfl _
      obtain ⟨count, written⟩ := sPaxosLearnAll_paxos (world.cores server)
      rw [written]
      exact KeepsOrdinary.of_same rfl rfl
  | deliver index layout =>
      dsimp only [PaxosWorld.step] at stepped
      split at stepped
      next => cases stepped
      next packet rest taken =>
        cases stepped
        rw [keepsFreeze, usesNextVersion, Bool.and_eq_true] at keeps
        unfold testDelivered at keeps
        dsimp only at keeps
        rw [taken] at keeps
        unfold refreshes at noRefresh
        dsimp only at noRefresh
        rw [taken] at noRefresh
        dsimp only at noRefresh
        apply keepsOrdinary_act same rfl
        rintro rfl version
        apply keepsOrdinary_dispatch layout _ packet.src frozen keeps.1 keeps.2 _ version
        intro req dump isRefresh
        rw [isRefresh] at noRefresh
        simp at noRefresh
  | lose index =>
      dsimp only [PaxosWorld.step] at stepped
      split at stepped
      · cases stepped
      · split at stepped
        · cases stepped
        · cases stepped
          exact KeepsOrdinary.refl _
  | timeout acting peer req layout =>
      cases stepped
      apply keepsOrdinary_act same rfl
      rintro rfl version
      have closed :=
        (learnerClosed_upOrKeeps layout (world.cores server).id).calls.finishCall peer req none
      rcases closed with up | ⟨_, kept⟩
      · exact absurd version up.ne'
      · exact kept
  | connection acting peer established =>
      dsimp only [PaxosWorld.step] at stepped
      split at stepped
      · cases stepped
      · cases stepped
        exact keepsOrdinary_act same rfl fun _ _ => KeepsOrdinary.refl _

/-- A frozen acceptor that stays at its version stays frozen. -/
theorem isFrozen_step (frozen : isFrozen (world.cores server).paxos = true)
    (keeps : keepsFreeze world event = true) (stepped : world.step event = some after)
    (same : after.versionOf server = world.versionOf server) :
    isFrozen (after.cores server).paxos = true := by
  cases refresh : refreshes server world event with
  | false =>
      have kept := keepsOrdinary_step frozen keeps refresh stepped same
      unfold PaxosWorld.versionOf at same
      rw [isFrozen, kept.response, same]
      exact frozen
  | true =>
      cases event with
      | deliver index layout =>
          dsimp only [PaxosWorld.step] at stepped
          unfold refreshes at refresh
          dsimp only at refresh
          split at stepped
          next => cases stepped
          next packet rest taken =>
            cases stepped
            rw [taken] at refresh
            dsimp only at refresh
            split at refresh
            next req dump body =>
              rw [beq_iff_eq] at refresh
              subst refresh
              rw [act_core world]
              · rw [if_pos rfl, body, isFrozen_refresh]
                exact frozen
              · rfl
            next => cases refresh
      | start => cases refresh
      | askAdd => cases refresh
      | checkLeave => cases refresh
      | learnAll => cases refresh
      | lose => cases refresh
      | timeout => cases refresh
      | connection => cases refresh

/-- The answer to a membership request freezes the acceptor. -/
theorem isFrozen_answered (answers : answersMembership server world event = true)
    (keeps : keepsFreeze world event = true) (stepped : world.step event = some after) :
    isFrozen (after.cores server).paxos = true ∧
      after.versionOf server = world.versionOf server := by
  cases event with
  | deliver index layout =>
      dsimp only [PaxosWorld.step] at stepped
      unfold answersMembership at answers
      dsimp only at answers
      rw [keepsFreeze, usesNextVersion, Bool.and_eq_true] at keeps
      unfold testDelivered at keeps
      dsimp only at keeps
      split at stepped
      next => cases stepped
      next packet rest taken =>
        cases stepped
        rw [taken] at answers keeps
        dsimp only at answers keeps
        split at answers
        next req request body =>
          rw [Bool.and_eq_true, Bool.and_eq_true, beq_iff_eq, bne_iff_ne, decide_eq_true_eq]
            at answers
          obtain ⟨⟨toServer, membership⟩, current⟩ := answers
          subst toServer
          rw [body] at keeps
          have written := responseVersion_ireceiveRequest layout membership current keeps.1 keeps.2
          have version :=
            (ireceiveRequest_tables layout (world.cores packet.dst).paxos request).2.2
          have paxos : ∀ middle : PaxosWorld, middle.cores = world.cores →
              ((middle.act packet.dst fun core =>
                dispatch layout core packet.src packet.body).cores packet.dst).paxos =
                (ireceiveRequest layout (world.cores packet.dst).paxos request).1 := by
            intro middle cores
            rw [act_core world middle packet.dst packet.dst _ cores, if_pos rfl, body]
            rfl
          constructor
          · rw [paxos, isFrozen, written, version, beq_self_eq_true]
            rfl
          · rw [PaxosWorld.versionOf, paxos, version]
            · rfl
            · rfl
        next => cases answers
  | start => cases answers
  | askAdd => cases answers
  | checkLeave => cases answers
  | learnAll => cases answers
  | lose => cases answers
  | timeout => cases answers
  | connection => cases answers

end

/-! ## Runs -/

theorem FrozenSince.isFrozen {server : Nat} {version : Int} {world : PaxosWorld}
    (since : FrozenSince (fun world event => keepsFreeze world event = true) server version world) :
    isFrozen (world.cores server).paxos = true ∧ world.versionOf server = version := by
  induction since with
  | answered before event after _ allowed answers current stepped =>
      obtain ⟨frozen, same⟩ := isFrozen_answered answers allowed stepped
      exact ⟨frozen, same.trans current⟩
  | later before event after _ allowed stepped same inductionHypothesis =>
      obtain ⟨frozen, current⟩ := inductionHypothesis
      exact ⟨isFrozen_step frozen allowed stepped (same.trans current.symm), same⟩

/-- **An acceptor freezes ordinary topics during a membership change**: from its
answer until its version changes only a refresh writes to their accept lists, in
every run in which no packet passes the freeze by. -/
theorem ordinary_topics_frozen {server : Nat} {version : Int} {world after : PaxosWorld}
    {event : PaxosEvent}
    (since : FrozenSince (fun world event => keepsFreeze world event = true) server version world)
    (keeps : keepsFreeze world event = true) (stepped : world.step event = some after)
    (same : after.versionOf server = version) (noRefresh : refreshes server world event = false)
    {topic : Topic} (ordinary : isOrdinary topic = true) :
    (after.cores server).paxos.accept.lookup topic =
      (world.cores server).paxos.accept.lookup topic := by
  obtain ⟨frozen, current⟩ := since.isFrozen
  exact (keepsOrdinary_step frozen keeps noRefresh stepped (same.trans current.symm)).lists topic
    ordinary

theorem step_delivered (world : PaxosWorld) (index : Nat)
    (enabled : (world.step (.deliver index Layout.natural)).isSome = true) :
    world.step (.deliver index Layout.natural) =
      some (paxosSystem.outcome world (delivered [index])) :=
  @System.step_outcome _ _ paxosSystem world (.deliver index Layout.natural) enabled

/-- Server 1 proposes a value for the topic "a" and server 2 asks it to join; the
prepare request of the ADD proposal is next, the ACCEPT for "a" behind it. -/
def joiningWorld : PaxosWorld :=
  paxosSystem.outcome connectedWorld
    (.start 1 [97] 5 :: .askAdd 2 1 :: delivered [0, 0, 0])

/-- Server 1 has answered the ADD request. -/
def joiningAnswered : PaxosWorld :=
  paxosSystem.outcome joiningWorld (delivered [0])

/-- It has handled the ACCEPT. -/
def joiningRefused : PaxosWorld :=
  paxosSystem.outcome joiningAnswered (delivered [0])

theorem ordinary_topics_frozen_joining :
    answersMembership 1 joiningWorld (.deliver 0 Layout.natural) = true ∧
      (joiningAnswered.net.map Packet.body).head? = some (.accept [97] ⟨1, 1⟩ 5 1) ∧
      (joiningRefused.cores 1).paxos.accept.lookup [97] =
        (joiningAnswered.cores 1).paxos.accept.lookup [97] := by
  have reached : paxosSystem.ReachableVia (fun world event => keepsFreeze world event = true)
      joiningWorld := System.reachableVia_outcome init_connectedWorld _ (by decide +kernel)
  have answered : joiningWorld.step (.deliver 0 Layout.natural) = some joiningAnswered :=
    step_delivered joiningWorld 0 (by decide +kernel)
  have handled : joiningAnswered.step (.deliver 0 Layout.natural) = some joiningRefused :=
    step_delivered joiningAnswered 0 (by decide +kernel)
  have answers : answersMembership 1 joiningWorld (.deliver 0 Layout.natural) = true := by
    decide +kernel
  have version : joiningWorld.versionOf 1 = 1 := by decide +kernel
  have since : FrozenSince (fun world event => keepsFreeze world event = true) 1 1
      joiningAnswered :=
    FrozenSince.answered joiningWorld _ _ reached (by decide +kernel) answers version answered
  exact ⟨answers, by decide +kernel,
    ordinary_topics_frozen since (by decide +kernel) handled (by decide +kernel)
      (by decide +kernel) (by decide +kernel)⟩

/-- Servers 1 and 2 have a value for the topic "a".  Server 3 joins through
server 1, which asks for it a second time once the ACCEPT of the first proposal
is sent.  All three install version 3, and server 4 asks to join; the answer of
server 2 to the second proposal is still on its way. -/
def secondAddWorld : PaxosWorld :=
  paxosSystem.outcome connectedWorld
    (pairRun ++ .start 1 [97] 5 :: delivered [0, 0, 0, 0, 0, 0] ++
      .askAdd 3 1 :: delivered [0, 0, 1] ++ .learnAll 1 :: delivered [0, 2, 2, 2] ++
      .askAdd 3 1 :: delivered [4, 0, 1, 2, 3, 3, 0, 0, 0] ++
      .learnAll 3 :: delivered [2, 2, 2, 2] ++ .askAdd 4 1 :: delivered [2])

/-- Server 3 has answered the request to add server 4. -/
def secondAddAnswered : PaxosWorld :=
  paxosSystem.outcome secondAddWorld (delivered [4])

/-- Server 1 has handled the first of two packets before it sends the ADD_ACCEPT. -/
def secondAddVoted : PaxosWorld :=
  paxosSystem.outcome secondAddAnswered (delivered [0])

/-- Server 1, at version 3, has sent server 3 an ADD_ACCEPT of this version. -/
def secondAddSent : PaxosWorld :=
  paxosSystem.outcome secondAddVoted (delivered [0])

/-- Server 3 has accepted its entries. -/
def secondAddTaken : PaxosWorld :=
  paxosSystem.outcome secondAddSent (delivered [3])

/-- A server that has answered a membership request is handed an ADD_ACCEPT of its
own version, and accepts a value for an ordinary topic. -/
theorem not_always_ordinary_topics_frozen :
    ¬ ∀ (server : Nat) (version : Int) (world after : PaxosWorld) (event : PaxosEvent),
        FrozenSince (fun world event => usesNextVersion world event = true) server version world →
        usesNextVersion world event = true → world.step event = some after →
        after.versionOf server = version → refreshes server world event = false →
        ∀ topic, isOrdinary topic = true →
          (after.cores server).paxos.accept.lookup topic =
            (world.cores server).paxos.accept.lookup topic := by
  intro always
  have reached : paxosSystem.ReachableVia (fun world event => usesNextVersion world event = true)
      secondAddWorld := System.reachableVia_outcome init_connectedWorld _ (by decide +kernel)
  have answered : secondAddWorld.step (.deliver 4 Layout.natural) = some secondAddAnswered :=
    step_delivered secondAddWorld 4 (by decide +kernel)
  have since : FrozenSince (fun world event => usesNextVersion world event = true) 3 3
      secondAddAnswered :=
    FrozenSince.answered secondAddWorld _ _ reached (by decide +kernel) (by decide +kernel)
      (by decide +kernel) answered
  have voted : secondAddAnswered.step (.deliver 0 Layout.natural) = some secondAddVoted :=
    step_delivered secondAddAnswered 0 (by decide +kernel)
  have sent : secondAddVoted.step (.deliver 0 Layout.natural) = some secondAddSent :=
    step_delivered secondAddVoted 0 (by decide +kernel)
  have taken : secondAddSent.step (.deliver 3 Layout.natural) = some secondAddTaken :=
    step_delivered secondAddSent 3 (by decide +kernel)
  have sinceVoted := FrozenSince.later _ _ _ since (by decide +kernel) voted (by decide +kernel)
  have sinceSent := FrozenSince.later _ _ _ sinceVoted (by decide +kernel) sent (by decide +kernel)
  have kept := always 3 3 secondAddSent secondAddTaken _ sinceSent (by decide +kernel) taken
    (by decide +kernel) (by decide +kernel) [97] (by decide +kernel)
  have none_before : (secondAddSent.cores 3).paxos.accept.lookup [97] = none := by decide +kernel
  have some_after : ((secondAddTaken.cores 3).paxos.accept.lookup [97]).isSome = true := by
    decide +kernel
  rw [kept, none_before] at some_after
  cases some_after

end SimpleDfs.Paxos
