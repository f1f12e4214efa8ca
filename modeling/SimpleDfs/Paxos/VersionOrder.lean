import SimpleDfs.Paxos.Promises

/-!
Contract: the membership version of a server over time.

Owns: the one handler that can lower a version, the condition under which it
does not, and that versions only grow in the runs that meet it.

Does not own: which members a version has.
-/

set_option autoImplicit false

namespace SimpleDfs.Paxos

open SimpleDfs.Common
open SimpleDfs.Library

/-- The number of the version has not gone down. -/
def VersionGrows (before after : SPaxos) : Prop :=
  before.version.version ≤ after.version.version

theorem VersionGrows.of_same {before after : SPaxos} (version : after.version = before.version) :
    VersionGrows before after := by
  unfold VersionGrows
  rw [version]

/-- Learning installs a version only if it is the next one. -/
theorem learnerClosed_versionGrows (layout : Layout) (coreId : Nat) :
    LearnerClosed layout coreId VersionGrows where
  refl := fun _ => VersionGrows.of_same rfl
  trans := fun early late => le_trans early late
  learn := fun _ _ _ => VersionGrows.of_same rfl
  check := by
    intro paxos
    rcases icheckNewVersion_eq layout coreId paxos with same | ⟨value, accept, same⟩
    · rw [same]
      exact VersionGrows.of_same rfl
    · rw [same]
      show paxos.version.version ≤ paxos.version.version + 1
      omega

/-! ## Handlers -/

theorem versionGrows_sPaxosStart (core : Core) (topic : Topic) (value : Value)
    (type : ProposalType) (theServ : Nat) :
    VersionGrows core.paxos (sPaxosStart core topic value type theServ).paxos := by
  obtain ⟨id, _, same⟩ := sPaxosStart_paxos core topic value type theServ
  rw [same]
  exact VersionGrows.of_same rfl

/-- The version after an ADD_ACCEPT is that of the packet. -/
theorem ireceiveAddAccept_version (paxos : SPaxos) (dump : Dump) :
    (ireceiveAddAccept paxos dump).version = dump.version := by
  obtain ⟨accept, same⟩ := acceptLoop_eq dump.entries { paxos with version := dump.version }
  unfold ireceiveAddAccept
  rw [same]

/-- Every packet but an ADD_ACCEPT leaves the version or installs the next. -/
theorem versionGrows_dispatch (layout : Layout) (core : Core) (src : Nat) (body : PaxosBody)
    (notAddAccept : ∀ req dump, body ≠ .addAccept req dump) :
    VersionGrows core.paxos (dispatch layout core src body).paxos := by
  cases body with
  | request req request =>
      unfold dispatch ireceiveRequest
      dsimp only
      split
      · exact VersionGrows.of_same rfl
      · exact VersionGrows.of_same rfl
  | accept topic id value version =>
      obtain ⟨accept, same⟩ := iaccept_eq core.paxos topic id value version
      apply VersionGrows.of_same
      show (iaccept core.paxos topic id value version).version = core.paxos.version
      rw [same]
  | learnRequest req version => exact VersionGrows.of_same rfl
  | addMe => exact versionGrows_sPaxosStart core _ _ _ _
  | addAccept req dump => exact absurd rfl (notAddAccept req dump)
  | refreshAccept req dump =>
      rw [dispatch_refreshAccept_paxos]
      apply VersionGrows.of_same
      unfold ireceiveRefreshAccept
      split
      · rfl
      · obtain ⟨accept, backup, same⟩ := refreshLoop_eq layout dump.entries 0 core.paxos
        rw [same]
  | rpcBack req reply =>
      exact (learnerClosed_versionGrows layout core.id).calls.finishCall src req (some reply)

/-! ## Steps -/

/-- The packet is no ADD_ACCEPT of an older version than the server's own. -/
def versionKept (core : Core) (packet : PaxosPacket) : Bool :=
  match packet.body with
  | .addAccept _ dump => decide (core.paxos.version.version ≤ dump.version.version)
  | _ => true

/-- No event hands a server an ADD_ACCEPT of an older version than its own. -/
def keepsVersion (world : PaxosWorld) : PaxosEvent → Bool
  | .deliver index _ =>
      match Packet.takeAt world.net index with
      | some (packet, _) => versionKept (world.cores packet.dst) packet
      | none => true
  | _ => true

theorem versionGrows_packet (layout : Layout) (core : Core) (packet : PaxosPacket) :
    VersionGrows core.paxos (dispatch layout core packet.src packet.body).paxos ↔
      versionKept core packet = true := by
  have other := versionGrows_dispatch layout core packet.src packet.body
  unfold versionKept
  cases body : packet.body with
  | addAccept req dump =>
      have version : (dispatch layout core packet.src (.addAccept req dump)).paxos.version =
          dump.version :=
        ireceiveAddAccept_version core.paxos dump
      unfold VersionGrows
      rw [version, decide_eq_true_iff]
  | request req request =>
      rw [body] at other
      exact iff_of_true (other fun _ _ impossible => nomatch impossible) rfl
  | accept topic id value version =>
      rw [body] at other
      exact iff_of_true (other fun _ _ impossible => nomatch impossible) rfl
  | learnRequest req version =>
      rw [body] at other
      exact iff_of_true (other fun _ _ impossible => nomatch impossible) rfl
  | addMe =>
      rw [body] at other
      exact iff_of_true (other fun _ _ impossible => nomatch impossible) rfl
  | refreshAccept req dump =>
      rw [body] at other
      exact iff_of_true (other fun _ _ impossible => nomatch impossible) rfl
  | rpcBack req reply =>
      rw [body] at other
      exact iff_of_true (other fun _ _ impossible => nomatch impossible) rfl

/-- The versions of all servers have not gone down. -/
def VersionsGrow (before after : PaxosWorld) : Prop :=
  ∀ server, VersionGrows (before.cores server).paxos (after.cores server).paxos

theorem VersionsGrow.refl (world : PaxosWorld) : VersionsGrow world world :=
  fun _ => VersionGrows.of_same rfl

theorem VersionsGrow.trans {first second third : PaxosWorld} (early : VersionsGrow first second)
    (late : VersionsGrow second third) : VersionsGrow first third :=
  fun server => le_trans (early server) (late server)

/-- Only the version of the acting server can change. -/
theorem versionsGrow_act (world middle : PaxosWorld) (server : Nat) (handler : Core → Core)
    (cores : middle.cores = world.cores) :
    VersionsGrow world (middle.act server handler) ↔
      VersionGrows (world.cores server).paxos (handler (world.cores server)).paxos := by
  have changed : (middle.act server handler).cores =
      Function.update world.cores server { handler (world.cores server) with out := [] } := by
    unfold PaxosWorld.act
    rw [cores]
  unfold VersionsGrow
  rw [changed]
  constructor
  · intro grow
    have own := grow server
    rw [Function.update_self] at own
    exact own
  · intro grows other
    by_cases same : other = server
    · rw [same, Function.update_self]
      exact grows
    · rw [Function.update_of_ne same]
      exact VersionGrows.of_same rfl

/-- **One step.**  No version goes down exactly if the step is not an ADD_ACCEPT
of an older version. -/
theorem versionsGrow_step {world after : PaxosWorld} {event : PaxosEvent}
    (stepped : world.step event = some after) :
    VersionsGrow world after ↔ keepsVersion world event = true := by
  cases event with
  | start server topic value =>
      cases stepped
      have grows := versionGrows_sPaxosStart (world.cores server) topic value .normal 0
      exact iff_of_true ((versionsGrow_act world world server _ rfl).mpr grows) rfl
  | askAdd server target =>
      cases stepped
      exact iff_of_true ((versionsGrow_act world world server _ rfl).mpr (VersionGrows.of_same rfl)) rfl
  | checkLeave server =>
      cases stepped
      have grows : VersionGrows (world.cores server).paxos
          (sPaxosCheckLeave (world.cores server)).paxos := by
        obtain ⟨id, _, same⟩ := sPaxosCheckLeave_paxos (world.cores server)
        rw [same]
        exact VersionGrows.of_same rfl
      exact iff_of_true ((versionsGrow_act world world server _ rfl).mpr grows) rfl
  | learnAll server =>
      cases stepped
      have grows : VersionGrows (world.cores server).paxos
          (sPaxosLearnAll (world.cores server)).paxos := by
        obtain ⟨count, same⟩ := sPaxosLearnAll_paxos (world.cores server)
        rw [same]
        exact VersionGrows.of_same rfl
      exact iff_of_true ((versionsGrow_act world world server _ rfl).mpr grows) rfl
  | deliver index layout =>
      dsimp only [PaxosWorld.step] at stepped
      split at stepped
      next => cases stepped
      next packet rest taken =>
        cases stepped
        have keeps : keepsVersion world (.deliver index layout) =
            versionKept (world.cores packet.dst) packet := by
          unfold keepsVersion
          dsimp only
          rw [taken]
        rw [keeps, ← versionGrows_packet layout]
        exact versionsGrow_act world _ packet.dst
          (fun core => dispatch layout core packet.src packet.body) rfl
  | lose index =>
      dsimp only [PaxosWorld.step] at stepped
      split at stepped
      · cases stepped
      · split at stepped
        · cases stepped
        · cases stepped
          exact iff_of_true (VersionsGrow.refl world) rfl
  | timeout server peer req layout =>
      cases stepped
      have grows :=
        (learnerClosed_versionGrows layout (world.cores server).id).calls.finishCall peer req none
      have acts := versionsGrow_act world
        { world with missed := world.missed ++ awaiting (world.cores server) peer req } server
        (fun core => finishCall layout core peer req none) rfl
      exact iff_of_true (acts.mpr grows) rfl
  | connection server peer established =>
      dsimp only [PaxosWorld.step] at stepped
      split at stepped
      · cases stepped
      · cases stepped
        exact iff_of_true
          ((versionsGrow_act world world server _ rfl).mpr (VersionGrows.of_same rfl)) rfl

/-! ## Runs -/

/-- **Versions never go backwards** between two states of a run in which no
server is handed an ADD_ACCEPT of an older version than its own. -/
theorem version_nondecreasing {before after : PaxosWorld}
    (steps : paxosSystem.Steps (fun world event => keepsVersion world event = true) before after)
    (server : Nat) :
    (before.cores server).paxos.version.version ≤ (after.cores server).paxos.version.version := by
  have grow : VersionsGrow before after := by
    induction steps with
    | refl => exact VersionsGrow.refl before
    | tail _ next inductionHypothesis =>
        obtain ⟨event, keeps, stepped⟩ := next
        exact inductionHypothesis.trans ((versionsGrow_step stepped).mpr keeps)
  exact grow server

/-- Two servers join server 1 one after the other. -/
theorem version_nondecreasing_trio :
    (connectedWorld.cores 1).paxos.version.version ≤
      ((paxosSystem.outcome connectedWorld trioRun).cores 1).paxos.version.version :=
  version_nondecreasing (System.steps_outcome connectedWorld trioRun (by decide +kernel)) 1

/-- Server 4 asks servers 1 and 3 to let it join.  Server 1 does and server 4
learns version 4, while the ADD_ACCEPT of server 3 is still on its way. -/
def twiceAddedRun : List PaxosEvent :=
  trioRun ++ .askAdd 4 1 :: .askAdd 4 3 :: delivered (List.replicate 16 0 ++ [1, 1, 1, 1]) ++
    .learnAll 4 :: delivered [1, 1, 1, 1, 1]

/-- A late ADD_ACCEPT takes a version back. -/
theorem not_always_version_nondecreasing :
    ¬ ∀ before after event, paxosSystem.Reachable before →
      paxosSystem.step before event = some after → ∀ server,
        (before.cores server).paxos.version.version ≤
          (after.cores server).paxos.version.version := by
  intro always
  have reached := System.reachable_outcome init_connectedWorld twiceAddedRun
  have enabled : (paxosSystem.step (paxosSystem.outcome connectedWorld twiceAddedRun)
      (.deliver 0 Layout.natural)).isSome = true := by decide +kernel
  obtain ⟨after, stepped⟩ := Option.isSome_iff_exists.mp enabled
  have grows := always _ after _ reached stepped 4
  have first : ((paxosSystem.outcome connectedWorld twiceAddedRun).cores 4).paxos.version.version =
      4 := by decide +kernel
  have last : ((paxosSystem.step (paxosSystem.outcome connectedWorld twiceAddedRun)
      (.deliver 0 Layout.natural)).map fun world => (world.cores 4).paxos.version.version) =
      some 3 := by decide +kernel
  rw [stepped] at last
  have now : (after.cores 4).paxos.version.version = 3 := Option.some.inj last
  omega

end SimpleDfs.Paxos
