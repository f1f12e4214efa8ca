import SimpleDfs.ServerGroup.CallSteps
import SimpleDfs.ServerGroup.ListLaw

/-!
Contract: the callback of a call runs at most once, and only for its own call.

Owns: `CallLaw`; that a group starts with every call accounted for; the runs in
which the law holds throughout and a pending call is only taken out of its table
by its own reply, its own timeout or the close of its connection; a run in which a
callback runs twice.

`iwhen_conn_closed` calls back and frees the calls of a table, but leaves them on
the timeout list.  The next round of `s_servg_poll` reads them there, calls them
back again when they expire, and then deletes by their request id, which a call
on the next connection may have.

Does not own: the servers and their connections.
-/

set_option autoImplicit false

namespace SimpleDfs.ServerGroup

open SimpleDfs.Common
open SimpleDfs.Library

namespace ServGroup

/-- No callback has run twice, and each has run for its own call. -/
structure CallLaw (servg : ServGroup) : Prop where
  once : (servg.invoked.map Invocation.param).Nodup
  owned : ∀ invocation ∈ servg.invoked,
    invocation.param < servg.nparams ∧ servg.Owned invocation

theorem Accounted.callLaw {servg : ServGroup} (accounted : servg.Accounted) : servg.CallLaw :=
  ⟨accounted.once, accounted.owned⟩

/-! ## The start -/

section Start

variable {servg : ServGroup} {lists : WaitList → List ServAddr} {serv : ServAddr}

/-- A group without connections or calls. -/
theorem Sound.accounted (sound : servg.Sound)
    (closed : ∀ conn, (servg.conns conn).opened = false)
    (known : ∀ own hash, servg.Own own → (servg.entries own).rpcHash = some hash →
      hash < servg.nhashes)
    (hashes : ∀ hash, servg.hashes hash = ∅) (list : servg.rpcTimeoutList = [])
    (frame : servg.frame = none) (invoked : servg.invoked = []) : servg.Accounted := by
  obtain ⟨lists, ordered, _⟩ := sound.order
  obtain ⟨own, mine⟩ := sound.own
  have only : ∀ serv hash, servg.Live serv hash → serv = own := by
    intro serv hash live
    by_contra different
    have other : servg.myself ≠ some serv := by
      rw [mine.myself]
      exact fun same => different (Option.some.inj same).symm
    have connected := (ordered.established serv live.entry (by simp) live.established other).1
    obtain ⟨conn, atConn⟩ := Option.ne_none_iff_exists'.mp connected
    have opened := (ordered.held serv conn live.entry (by simp) atConn).1
    rw [closed conn] at opened
    cases opened
  have empty : ∀ hash (req : BitVec 32) param,
      (servg.hashes hash).lookup req ≠ some param := by
    intro hash req param found
    rw [hashes, AList.lookup_empty] at found
    cases found
  have idle := callFrame_of_none frame
  constructor
  case placed => exact fun serv hash req param _ found => absurd found (empty hash req param)
  case apart =>
    exact fun serv other hash live again =>
      (only serv hash live).trans (only other hash again).symm
  case known =>
    intro serv hash live
    have same := only serv hash live
    subst same
    exact known _ hash mine live.table
  case timed =>
    intro param member
    rw [list] at member
    cases member
  case listed => exact list ▸ List.nodup_nil
  case once =>
    rw [invoked]
    exact List.nodup_nil
  case owned =>
    intro invocation member
    rw [invoked] at member
    cases member
  case retired =>
    intro invocation member
    rw [invoked] at member
    cases member
  case replying =>
    intro at_serv param req atFrame
    rw [idle] at atFrame
    cases atFrame
  case expiring =>
    intro param rest now atFrame
    rw [idle] at atFrame
    cases atFrame

/-- Reading the configuration makes no calls. -/
theorem Starting.callPart_initRegions (regions : List Region) : ∀ {servg : ServGroup}
    {lists : WaitList → List ServAddr}, servg.Starting lists → OrderlyRegions servg regions →
      (regions.foldl ServGroup.initRegion servg).callPart = servg.callPart := by
  induction regions with
  | nil => exact fun _ _ => rfl
  | cons region rest inductionHypothesis =>
      intro servg lists starting orderly
      obtain ⟨next, after⟩ := starting.initRegion orderly.1
      have keeps := (starting.ordered.iinitServ region.valid orderly.1).1.keeps
      have created : (servg.iinitServ region.type region.id).callPart = servg.callPart := by
        rw [keeps.same]
        rfl
      rw [List.foldl_cons, inductionHypothesis after orderly.2, ← created, ServGroup.initRegion]
      dsimp only [noteMyself]
      split_ifs <;> rfl

theorem initMyself_accounted (sound : (servg.initMyself serv).Sound)
    (closed : ∀ conn, (servg.conns conn).opened = false) (frame : servg.frame = none)
    {junk : ServAddr → SServer} {config : GroupConfig}
    (part : servg.callPart = (sServgCreate junk config).callPart) :
    (servg.initMyself serv).Accounted := by
  apply sound.accounted closed
  · intro own hash mine table
    have isOwn : own = serv := (Option.some.inj mine.myself).symm
    subst isOwn
    simp [ServGroup.initMyself, ServGroup.listInit, ServGroup.createHash] at table
    change hash < servg.nhashes + 1
    omega
  · intro hash
    have hashes : servg.hashes = fun _ => ∅ := congrArg CallPart.hashes part
    simp [ServGroup.initMyself, ServGroup.listInit, ServGroup.createHash, ServGroup.modify, hashes]
  · exact congrArg CallPart.rpcTimeoutList part
  · exact frame
  · exact congrArg CallPart.invoked part

/-- **A group starts with every call accounted for.** -/
theorem accounted_sServgInitConfig {junk : ServAddr → SServer} {config : GroupConfig}
    {start : ServGroup} (orderly : OrderlyConfig junk config)
    (initial : sServgInitConfig junk config = some start) : start.Accounted := by
  have sound := sound_sServgInitConfig orderly initial
  obtain ⟨lists, starting, last⟩ :=
    (starting_sServgCreate junk config).initRegions config.regions orderly
  have part := (starting_sServgCreate junk config).callPart_initRegions config.regions orderly
  rw [sServgInitConfig] at initial
  split at initial
  next serv myself =>
    cases initial
    exact initMyself_accounted sound starting.closed starting.frame part
  next noOwn =>
    split at initial
    · cases initial
    next created serv creation =>
      cases initial
      have entry := starting.ordered.sServgCreateServ
        (last noOwn (validType_of_created creation)) creation
      have keeps := entry.pushed.keeps
      apply initMyself_accounted sound (keeps.conns ▸ starting.closed)
        (keeps.frame.trans starting.frame)
      exact entry.callsKept.part.trans part

end Start

end ServGroup

/-- Every state that orderly steps reach from an orderly configuration is sound,
and every call is accounted for. -/
theorem accounted_of_orderly {junk : ServAddr → SServer} {config : GroupConfig}
    {servg : ServGroup} (start : ServGroup.OrderlyConfig junk config)
    (reached : (groupSystem junk config).ReachableVia
      (fun group event => group.Orderly event ∧ group.CallOrderly event) servg) :
    servg.Sound ∧ servg.Accounted := by
  refine reached.invariant (fun group => group.Sound ∧ group.Accounted) ?_ ?_
  · exact fun group initial => ⟨ServGroup.sound_sServgInitConfig start initial,
      ServGroup.accounted_sServgInitConfig start initial⟩
  · rintro before event after _ ⟨sound, accounted⟩ ⟨orderly, callOrderly⟩ stepped
    exact ⟨sound.step orderly stepped,
      (accounted.step sound orderly callOrderly stepped).accounted⟩

/-- **When callbacks run once and for their own calls.**  In every state of a run
from an orderly configuration whose steps are all orderly, for the servers and
for the calls, no callback has run twice and each has run for its own call; and
the next orderly step takes a pending call out of its table only if its own reply
or timeout has been called back or its connection is closed. -/
theorem callLaw_of_orderly {junk : ServAddr → SServer} {config : GroupConfig}
    {servg : ServGroup} (start : ServGroup.OrderlyConfig junk config)
    (reached : (groupSystem junk config).ReachableVia
      (fun group event => group.Orderly event ∧ group.CallOrderly event) servg) :
    servg.CallLaw ∧ ∀ event after, servg.Orderly event → servg.CallOrderly event →
      servg.step event = some after → ∀ param, servg.Pending param →
        after.Pending param ∨ ServGroup.Settled servg after event param := by
  obtain ⟨sound, accounted⟩ := accounted_of_orderly start reached
  refine ⟨accounted.callLaw, ?_⟩
  intro event after orderly callOrderly stepped
  exact (accounted.step sound orderly callOrderly stepped).pending

/-! ## Runs of one group -/

section Sample

open ServGroup Sample

/-- A call. -/
def ask : GroupPacket := { fn := 20, req := 0, words := [] }

/-- The reply to a call. -/
def replyTo (req : BitVec 32) : GroupPacket := { fn := sPktTypeRpcBack, req := req, words := [] }

/-- Server 1 answers a call, lets one expire and closes during a third; on the
next connection a fourth call has the request id of the first. -/
theorem callLaw_of_orderly_sample :
    ((groupSystem blank config).outcome start
      [.checkList, .attempt (.connected 0 calm), .attempt .early, .receive 0 (answer 1) calm,
        .call ⟨1, 0, 1⟩ ask 0 0 0 ⟨0, 0⟩ calm, .receive 0 (replyTo 1) calm, .returned,
        .call ⟨1, 0, 1⟩ ask 0 0 50 ⟨0, 0⟩ calm, .timeouts ⟨1, 0⟩, .returned,
        .call ⟨1, 0, 1⟩ ask 0 0 0 ⟨1, 0⟩ calm, .closed 0,
        .checkList, .attempt .refused, .attempt (.connected 1 calm), .attempt .early,
        .receive 1 (answer 1) calm, .call ⟨1, 0, 1⟩ ask 0 0 50 ⟨2, 0⟩ calm]).CallLaw :=
  (callLaw_of_orderly (by decide +kernel)
    ((System.reachableVia_outcome initial _ (by decide +kernel)).mono
      fun _ _ passed => of_decide_eq_true passed)).1

/-- A call with a timeout is pending when its connection is closed: it gets a null
packet then and a second one when it expires. -/
theorem not_always_callLaw :
    ¬ ∀ servg, (groupSystem blank config).Reachable servg → servg.CallLaw := by
  intro always
  have law := always _ (System.reachable_outcome initial
    [.checkList, .attempt (.connected 0 calm), .attempt .early, .receive 0 (answer 1) calm,
      .call ⟨1, 0, 1⟩ ask 0 0 50 ⟨0, 0⟩ calm, .closed 0, .timeouts ⟨1, 0⟩])
  have once := law.once
  revert once
  decide +kernel

end Sample

end SimpleDfs.ServerGroup
