import SimpleDfs.ServerGroup.CallbackOnce

/-!
Contract: calls with a timeout are called back (`serv_group/s_server_group.c`).

Owns: the order of `rpc_timeout_list`; that every call with a timeout is on the
list or has been called back; and that a round of `s_servg_poll` calls back every
call that has expired, in every run.

Does not own: how often a callback runs.
-/

set_option autoImplicit false

namespace SimpleDfs.ServerGroup

open SimpleDfs.Common
open SimpleDfs.Library

namespace ServGroup

/-! ## Statements -/

/-- The callback of the call has run. -/
def CalledBack (servg : ServGroup) (param : Nat) : Prop :=
  ∃ invocation ∈ servg.invoked, invocation.param = param

/-- The second call does not expire before the first. -/
def NotBefore (servg : ServGroup) (first second : Nat) : Prop :=
  (servg.params second).tvTimeout.atLeast (servg.params first).tvTimeout = true

/-- The timeout list. -/
structure Punctual (servg : ServGroup) : Prop where
  made : ∀ param ∈ servg.rpcTimeoutList, param < servg.nparams
  sorted : servg.rpcTimeoutList.Pairwise servg.NotBefore
  listed : ∀ param < servg.nparams, 0 < (servg.params param).msecTimeout →
    param ∈ servg.rpcTimeoutList ∨ servg.CalledBack param
  calling : ∀ param, servg.calling = some param → servg.CalledBack param
  rest : ∀ param rest now, servg.callFrame = some (.timeout param rest now) →
    (∀ other ∈ param :: rest, other < servg.nparams) ∧ (param :: rest).Pairwise servg.NotBefore

/-- The calls, their timeout list and the running callback stay. -/
structure TimersKept (before after : ServGroup) : Prop where
  params : after.params = before.params
  nparams : after.nparams = before.nparams
  list : after.rpcTimeoutList = before.rpcTimeoutList
  invoked : before.invoked ⊆ after.invoked
  frame : after.callFrame = before.callFrame

theorem TimersKept.trans {first second third : ServGroup} (early : TimersKept first second)
    (late : TimersKept second third) : TimersKept first third :=
  ⟨late.params.trans early.params, late.nparams.trans early.nparams, late.list.trans early.list,
    fun _ member => late.invoked (early.invoked member), late.frame.trans early.frame⟩

variable {servg after : ServGroup} {serv : ServAddr} {conn : Nat}

theorem TimersKept.refl (servg : ServGroup) : TimersKept servg servg :=
  ⟨rfl, rfl, rfl, List.Subset.refl _, rfl⟩

/-! ## Operations that leave the calls alone -/

theorem timersKept_resetUnconnected (servg : ServGroup) (serv : ServAddr) :
    TimersKept servg (servg.resetUnconnected serv) := by
  unfold resetUnconnected
  dsimp only
  split
  · exact ⟨rfl, rfl, rfl, List.Subset.refl _, rfl⟩
  · split <;> exact ⟨rfl, rfl, rfl, List.Subset.refl _, rfl⟩

theorem timersKept_sNetClose (closed : servg.sNetClose conn = some after) :
    TimersKept servg after := by
  rw [sNetClose, Option.map_eq_some_iff] at closed
  obtain ⟨middle, closing, rfl⟩ := closed
  have kept : TimersKept servg middle := by
    rw [iwhenConnClosed] at closing
    split at closing
    · cases closing
      exact TimersKept.refl servg
    · rename_i serv _
      dsimp only at closing
      split at closing
      · split at closing
        · cases closing
        · rw [← Option.some.inj closing]
          refine TimersKept.trans ?_ (timersKept_resetUnconnected _ serv)
          exact ⟨rfl, rfl, rfl, List.subset_append_left _ _, rfl⟩
      · rw [← Option.some.inj closing]
        refine TimersKept.trans ?_ (timersKept_resetUnconnected _ serv)
        exact ⟨rfl, rfl, rfl, List.Subset.refl _, rfl⟩
  exact kept.trans ⟨rfl, rfl, rfl, List.Subset.refl _, rfl⟩

theorem timersKept_sNetSend {pkt : GroupPacket} {env : Env}
    (sent : servg.sNetSend conn pkt env = some after) : TimersKept servg after := by
  have queued : TimersKept servg { servg with sent := servg.sent ++ [(conn, pkt)] } :=
    ⟨rfl, rfl, rfl, List.Subset.refl _, rfl⟩
  rw [sNetSend] at sent
  split at sent
  · exact queued.trans (timersKept_sNetClose sent)
  · cases sent
    exact ⟨rfl, rfl, rfl, List.Subset.refl _, rfl⟩

theorem timersKept_sServgResetServ (reset : servg.sServgResetServ serv = some after) :
    TimersKept servg after := by
  rw [sServgResetServ] at reset
  split at reset
  · rw [← Option.some.inj reset]
    exact timersKept_resetUnconnected servg serv
  · rw [Option.map_eq_some_iff] at reset
    obtain ⟨middle, closed, rfl⟩ := reset
    refine (timersKept_sNetClose closed).trans (TimersKept.trans ?_
      (timersKept_resetUnconnected _ serv))
    exact ⟨rfl, rfl, rfl, List.Subset.refl _, rfl⟩

theorem timersKept_isend {pkt : GroupPacket} {env : Env}
    (sent : servg.isend serv pkt env = some after) : TimersKept servg after := by
  rw [isend] at sent
  split at sent
  · cases sent
    exact ⟨rfl, rfl, rfl, List.Subset.refl _, rfl⟩
  · split at sent
    · cases sent
    · exact timersKept_sNetSend sent

theorem timersKept_sArrayPush (servg : ServGroup) (type : Int) :
    TimersKept servg (servg.sArrayPush type).1 := by
  unfold sArrayPush
  dsimp only
  split <;> exact ⟨rfl, rfl, rfl, List.Subset.refl _, rfl⟩

theorem timersKept_pushUnused (type : Int) (count : Nat) :
    ∀ servg : ServGroup, TimersKept servg (servg.pushUnused type count) := by
  induction count with
  | zero => exact TimersKept.refl
  | succ count inductionHypothesis =>
      intro servg
      rw [pushUnused]
      refine (timersKept_sArrayPush servg type).trans (TimersKept.trans ?_ (inductionHypothesis _))
      exact ⟨rfl, rfl, rfl, List.Subset.refl _, rfl⟩

theorem timersKept_iinitServ (servg : ServGroup) (type : Int) (id : Nat) :
    TimersKept servg (servg.iinitServ type id) := by
  unfold iinitServ
  dsimp only
  split
  · exact ⟨rfl, rfl, rfl, List.Subset.refl _, rfl⟩
  · have filled := timersKept_pushUnused type (id - (servg.servs type).nelem) servg
    refine (filled.trans (timersKept_sArrayPush _ type)).trans ?_
    exact ⟨rfl, rfl, rfl, List.Subset.refl _, rfl⟩

theorem timersKept_sServgCreateServ {type id : Int}
    (created : servg.sServgCreateServ type id = some (after, serv)) : TimersKept servg after := by
  rw [sServgCreateServ] at created
  split at created
  · split at created
    · have isAfter : _ = after := congrArg Prod.fst (Option.some.inj created)
      rw [← isAfter]
      refine (timersKept_iinitServ servg type id.toNat).trans ?_
      exact ⟨rfl, rfl, rfl, List.Subset.refl _, rfl⟩
    · have isAfter : _ = after := congrArg Prod.fst (Option.some.inj created)
      rw [← isAfter]
      refine (timersKept_sArrayPush servg type).trans ?_
      exact ⟨rfl, rfl, rfl, List.Subset.refl _, rfl⟩
  · cases created

theorem timersKept_sServgConnect {type id : Int} {ip : String} {port : Int} {chosen : Option Nat}
    {env : Env} (connected : servg.sServgConnect type id ip port chosen env = some after) :
    TimersKept servg after := by
  rw [sServgConnect] at connected
  split at connected
  · cases connected
    exact TimersKept.refl servg
  · split at connected
    · cases connected
      exact TimersKept.refl servg
    · split at connected
      · cases connected
        exact TimersKept.refl servg
      next middle serv created =>
        split at connected
        · cases connected
        · refine (timersKept_sServgCreateServ created).trans (TimersKept.trans ?_
            (timersKept_sNetSend connected))
          exact ⟨rfl, rfl, rfl, List.Subset.refl _, rfl⟩

theorem timersKept_establish {mem : BitVec 32} {env : Env}
    (established : servg.establish conn serv mem env = some after) : TimersKept servg after := by
  have modified : ∀ (group : ServGroup) (f : SServer → SServer),
      TimersKept group (group.modify serv f) :=
    fun _ _ => ⟨rfl, rfl, rfl, List.Subset.refl _, rfl⟩
  have bound : ∀ group : ServGroup, TimersKept group (group.setUdata conn serv) :=
    fun _ => ⟨rfl, rfl, rfl, List.Subset.refl _, rfl⟩
  have listed : ∀ group : ServGroup, TimersKept group
      ((group.createHash.listDel serv).listInsertTail .waitForPing serv) :=
    fun _ => ⟨rfl, rfl, rfl, List.Subset.refl _, rfl⟩
  rw [establish] at established
  exact ((((modified servg _).trans (bound _)).trans (modified _ _)).trans (listed _)).trans
    (timersKept_sNetSend established)

theorem timersKept_ihandleIdentify {pkt : GroupPacket} {env : Env}
    (handled : servg.ihandleIdentify conn pkt env = some after) : TimersKept servg after := by
  rw [ihandleIdentify] at handled
  split at handled
  · exact timersKept_sNetClose handled
  · split at handled
    · exact timersKept_sNetClose handled
    · split at handled
      · exact timersKept_sNetSend handled
      · split at handled
        · split at handled
          · split at handled
            · exact timersKept_sNetSend handled
            · exact timersKept_establish handled
          · split at handled
            · exact timersKept_sNetSend handled
            next created =>
              have kept := timersKept_sServgCreateServ created
              split at handled
              · exact kept.trans (timersKept_sNetSend handled)
              · exact kept.trans (timersKept_establish handled)
        · exact timersKept_sNetClose handled

theorem timersKept_ihandleIdentifyBack {pkt : GroupPacket}
    (handled : servg.ihandleIdentifyBack serv pkt = some after) : TimersKept servg after := by
  rw [ihandleIdentifyBack] at handled
  split at handled
  · split at handled
    · rw [← Option.some.inj handled]
      exact ⟨rfl, rfl, rfl, List.Subset.refl _, rfl⟩
    · exact timersKept_sServgResetServ handled
  · exact timersKept_sServgResetServ handled

theorem timersKept_ihandlePing {pkt : GroupPacket} {env : Env}
    (handled : servg.ihandlePing serv pkt env = some after) : TimersKept servg after := by
  rw [ihandlePing] at handled
  dsimp only at handled
  split at handled
  · cases handled
  · refine TimersKept.trans ?_ (timersKept_sNetSend handled)
    split <;> exact ⟨rfl, rfl, rfl, List.Subset.refl _, rfl⟩

theorem timersKept_ihandlePong (servg : ServGroup) (serv : ServAddr) (pkt : GroupPacket)
    (env : Env) : TimersKept servg (servg.ihandlePong serv pkt env) := by
  unfold ihandlePong
  split
  · exact ⟨rfl, rfl, rfl, List.Subset.refl _, rfl⟩
  · exact TimersKept.refl servg

theorem timersKept_checkListStep {attempt : Attempt}
    (stepped : servg.checkListStep attempt = some after) : TimersKept servg after := by
  rw [checkListStep] at stepped
  split at stepped
  next p tmp frame =>
    have free : servg.callFrame = none := by rw [callFrame, frame]
    have moves : ∀ middle : ServGroup, TimersKept servg middle →
        TimersKept servg (middle.nextCheckList tmp) :=
      fun middle kept => ⟨kept.params, kept.nparams, kept.list, kept.invoked, free.symm⟩
    split at stepped
    · cases stepped
      exact ⟨rfl, rfl, rfl, List.Subset.refl _, free.symm⟩
    · dsimp only at stepped
      split at stepped
      · split at stepped
        · cases stepped
          exact ⟨rfl, rfl, rfl, List.Subset.refl _, free.symm⟩
        · cases stepped
          exact moves servg (TimersKept.refl servg)
        · cases stepped
        · rw [Option.map_eq_some_iff] at stepped
          obtain ⟨middle, sent, rfl⟩ := stepped
          refine moves middle (TimersKept.trans ?_ (timersKept_sNetSend sent))
          exact ⟨rfl, rfl, rfl, List.Subset.refl _, rfl⟩
      · cases stepped
  · cases stepped

/-! ## What a step does to the timeout list -/

/-- The call whose callback has returned leaves the list. -/
structure TimerErased (before after : ServGroup) (param : Nat) : Prop where
  params : after.params = before.params
  nparams : after.nparams = before.nparams
  list : after.rpcTimeoutList = before.rpcTimeoutList.erase param
  invoked : after.invoked = before.invoked
  frame : after.callFrame = none

inductive TimerStep (before : ServGroup) : ServGroup → Prop where
  | kept {after : ServGroup} (kept : TimersKept before after) : TimerStep before after
  | called {after : ServGroup} (call : RpcParam)
      (params : after.params = Function.update before.params before.nparams call)
      (nparams : after.nparams = before.nparams + 1)
      (list : after.rpcTimeoutList =
        if 0 < call.msecTimeout then
          insertTimeout after.params before.nparams before.rpcTimeoutList
        else before.rpcTimeoutList)
      (invoked : before.invoked ⊆ after.invoked) (frame : after.callFrame = before.callFrame) :
      TimerStep before after
  | replied {after : ServGroup} (serv : ServAddr) (param : Nat) (req : BitVec 32)
      (free : before.callFrame = none) (params : after.params = before.params)
      (nparams : after.nparams = before.nparams)
      (list : after.rpcTimeoutList = before.rpcTimeoutList)
      (invoked : before.invoked ⊆ after.invoked) (called : after.CalledBack param)
      (frame : after.callFrame = some (.rpcBack serv param req)) : TimerStep before after
  | polled (now : Timeval) (free : before.callFrame = none) :
      TimerStep before (before.checkTimeouts now before.rpcTimeoutList)
  | returned {after : ServGroup} (serv : ServAddr) (param : Nat) (req : BitVec 32)
      (frame : before.callFrame = some (.rpcBack serv param req))
      (erased : TimerErased before after param) : TimerStep before after
  | expired {middle : ServGroup} (param : Nat) (rest : List Nat) (now : Timeval)
      (frame : before.callFrame = some (.timeout param rest now))
      (erased : TimerErased before middle param) :
      TimerStep before (middle.checkTimeouts now rest)

theorem callFrame_eq_of_ne {frame : Frame} (atFrame : servg.frame = some frame)
    (running : ∀ p tmp, frame ≠ .checking p tmp) : servg.callFrame = some frame := by
  rw [callFrame, atFrame]
  split
  next p tmp same => exact absurd (Option.some.inj same) (running p tmp)
  next => rfl

theorem timerStep_dispatch {before : ServGroup} {opening : Nat} {pkt : GroupPacket} {env : Env}
    (kept : TimersKept before servg) (free : before.callFrame = none)
    (handled : servg.dispatch serv opening pkt env = some after) : TimerStep before after := by
  rw [dispatch] at handled
  split at handled
  · rw [ihandleRpcBack] at handled
    split at handled
    · cases handled
    · split at handled
      · cases handled
        exact .kept kept
      next param _ =>
        rw [← Option.some.inj handled]
        refine .replied serv param pkt.req free kept.params kept.nparams kept.list ?_ ?_ rfl
        · exact fun _ member => List.mem_append_left _ (kept.invoked member)
        · exact ⟨_, List.mem_append_right _ (List.mem_singleton_self _), rfl⟩
  · split at handled
    · exact .kept (kept.trans (timersKept_ihandleIdentifyBack handled))
    · split at handled
      · exact .kept (kept.trans (timersKept_ihandlePing handled))
      · split at handled
        · rw [← Option.some.inj handled]
          exact .kept (kept.trans (timersKept_ihandlePong servg serv pkt env))
        · cases handled
          exact .kept kept

theorem timerStep_sServgRpcCall {pkt : GroupPacket} {ud callback : Nat} {msecTimeout : Int}
    {now : Timeval} {env : Env}
    (called : servg.sServgRpcCall serv pkt ud callback msecTimeout now env = some after) :
    TimerStep servg after := by
  rw [sServgRpcCall] at called
  split at called
  · cases called
  · have sent := timersKept_isend called
    refine .called
      { reqId := (servg.entries serv).reqId
        ud := ud
        callback := callback
        msecTimeout := msecTimeout
        tvTimeout := timeoutAt now msecTimeout
        serv := serv
        sentOn := (servg.countCall serv).openingOf serv }
      sent.params sent.nparams ?_ sent.invoked sent.frame
    rw [sent.params]
    exact sent.list

theorem TimerErased.of_forgetCall {param : Nat} {req : BitVec 32} {frame : Option Frame}
    {middle : ServGroup}
    (forgot : ({ servg with
      rpcTimeoutList := servg.rpcTimeoutList.erase param
      frame := frame } : ServGroup).forgetCall serv req = some middle) :
    TimerErased servg { middle with frame := none } param := by
  rw [forgetCall] at forgot
  split at forgot
  · cases forgot
  · rw [← Option.some.inj forgot]
    exact ⟨rfl, rfl, rfl, rfl, rfl⟩

theorem timerStep_afterCallback (returned : servg.afterCallback = some after) :
    TimerStep servg after := by
  rw [afterCallback] at returned
  split at returned
  next serv param req frame =>
    have running : servg.callFrame = some (.rpcBack serv param req) :=
      callFrame_eq_of_ne frame (by simp)
    have erased := TimerErased.of_forgetCall returned
    have same : { after with frame := none } = after := by
      rw [forgetCall] at returned
      split at returned
      · cases returned
      · rw [← Option.some.inj returned]
    rw [same] at erased
    exact .returned serv param req running erased
  next param rest now frame =>
    have running : servg.callFrame = some (.timeout param rest now) :=
      callFrame_eq_of_ne frame (by simp)
    dsimp only at returned
    split at returned
    · cases returned
    next middle forgot =>
      have erased := @TimerErased.of_forgetCall servg (servg.params param).serv param
        (servg.params param).reqId servg.frame middle forgot
      have same : ({ middle with frame := none } : ServGroup).checkTimeouts now rest =
          middle.checkTimeouts now rest := checkTimeouts_frame none now rest
      rw [← Option.some.inj returned, ← same]
      exact .expired param rest now running erased
  · cases returned

/-- **What a step can do** to the calls with a timeout. -/
theorem timerStep_of_step {event : Event} (stepped : servg.step event = some after) :
    TimerStep servg after := by
  cases event with
  | accept conn ip port =>
      rw [ServGroup.step] at stepped
      split at stepped
      · cases stepped
        exact .kept ⟨rfl, rfl, rfl, List.Subset.refl _, rfl⟩
      · cases stepped
  | checkList =>
      rw [ServGroup.step] at stepped
      split at stepped
      next frame =>
        cases stepped
        refine .kept ⟨rfl, rfl, rfl, List.Subset.refl _, ?_⟩
        rw [callFrame, callFrame, frame]
        rfl
      next => cases stepped
  | attempt attempt => exact .kept (timersKept_checkListStep stepped)
  | own env =>
      rw [ServGroup.step] at stepped
      split at stepped
      next frame =>
        rw [pollMyself] at stepped
        split at stepped
        next pkt rest serv _ _ =>
          have taken : TimersKept servg { servg with myselfQ := rest } :=
            ⟨rfl, rfl, rfl, List.Subset.refl _, rfl⟩
          exact timerStep_dispatch taken (by rw [callFrame, frame]) stepped
        next => cases stepped
      next => cases stepped
  | timeouts now =>
      rw [ServGroup.step] at stepped
      split at stepped
      next frame =>
        cases stepped
        exact .polled now (by rw [callFrame, frame])
      next => cases stepped
  | receive conn pkt env =>
      rw [ServGroup.step] at stepped
      split at stepped
      next ready =>
        rw [sServgDoEvent] at stepped
        split at stepped
        · exact .kept (timersKept_ihandleIdentify stepped)
        · exact timerStep_dispatch (TimersKept.refl servg) (by rw [callFrame, ready.1]) stepped
      next => cases stepped
  | closed conn =>
      rw [ServGroup.step] at stepped
      split at stepped
      · exact .kept (timersKept_sNetClose stepped)
      · cases stepped
  | returned => exact timerStep_afterCallback stepped
  | connect type id ip port conn env =>
      rw [ServGroup.step] at stepped
      split at stepped
      · cases stepped
      · exact .kept (timersKept_sServgConnect stepped)
  | call serv pkt ud callback msecTimeout now env =>
      rw [ServGroup.step] at stepped
      split at stepped
      · cases stepped
      · exact timerStep_sServgRpcCall stepped
  | send serv pkt env =>
      rw [ServGroup.step] at stepped
      split at stepped
      · cases stepped
      · exact .kept (timersKept_isend stepped)
  | ret serv reqId pkt env =>
      rw [ServGroup.step] at stepped
      split at stepped
      · cases stepped
      · exact .kept (timersKept_isend stepped)

/-! ## The order of expiry -/

theorem Timeval.atLeast_trans {first second third : Timeval}
    (late : third.atLeast second = true) (early : second.atLeast first = true) :
    third.atLeast first = true := by
  unfold Timeval.atLeast at *
  split at late <;> split at early <;> split <;>
    simp only [decide_eq_true_eq] at late early ⊢ <;> omega

theorem Timeval.atLeast_total {left right : Timeval} (behind : left.atLeast right = false) :
    right.atLeast left = true := by
  unfold Timeval.atLeast at *
  split at behind <;> split <;>
    simp only [decide_eq_true_eq, decide_eq_false_iff_not] at behind ⊢ <;> omega

/-- A call goes before the first that does not expire earlier. -/
theorem insertTimeout_sorted (params : Nat → RpcParam) (new : Nat) {list : List Nat}
    (sorted : list.Pairwise fun first second =>
      (params second).tvTimeout.atLeast (params first).tvTimeout = true) :
    (insertTimeout params new list).Pairwise fun first second =>
      (params second).tvTimeout.atLeast (params first).tvTimeout = true := by
  induction list with
  | nil => exact List.pairwise_singleton _ _
  | cons param rest inductionHypothesis =>
      obtain ⟨head, tail⟩ := List.pairwise_cons.mp sorted
      rw [insertTimeout]
      split
      next later =>
        refine List.pairwise_cons.mpr ⟨?_, sorted⟩
        intro other member
        rcases List.mem_cons.mp member with rfl | member
        · exact later
        · exact Timeval.atLeast_trans (head other member) later
      next sooner =>
        refine List.pairwise_cons.mpr ⟨?_, inductionHypothesis tail⟩
        intro other member
        rcases List.mem_cons.mp ((insertTimeout_perm params new rest).mem_iff.mp member)
          with rfl | member
        · exact Timeval.atLeast_total (Bool.eq_false_iff.mpr sooner)
        · exact head other member

/-! ## The timeout loop -/

/-- The loop over the calls still to be looked at stops at the first that has
expired. -/
inductive Checked (servg : ServGroup) (now : Timeval) (rest : List Nat) (after : ServGroup) :
    Prop where
  | idle (early : ∀ param ∈ rest, now.atLeast (servg.params param).tvTimeout = false)
      (same : after = { servg with frame := none })
  | due (front back : List Nat) (param : Nat) (cut : rest = front ++ param :: back)
      (early : ∀ other ∈ front, now.atLeast (servg.params other).tvTimeout = false)
      (same : after =
        { servg with
          invoked := servg.invoked ++ [{ param := param, cause := .timeout }]
          frame := some (.timeout param back now) })

theorem checked_checkTimeouts (servg : ServGroup) (now : Timeval) (rest : List Nat) :
    Checked servg now rest (servg.checkTimeouts now rest) := by
  have none : ∀ param ∈ ([] : List Nat),
      now.atLeast (servg.params param).tvTimeout = false :=
    fun _ member => absurd member List.not_mem_nil
  induction rest with
  | nil => exact .idle none rfl
  | cons param rest inductionHypothesis =>
      rw [checkTimeouts]
      split
      next expired => exact .due [] rest param rfl none rfl
      next late =>
        have first := Bool.eq_false_iff.mpr late
        cases inductionHypothesis with
        | idle early same => exact .idle (List.forall_mem_cons.mpr ⟨first, early⟩) same
        | due front back found cut early same =>
            refine .due (param :: front) back found ?_ (List.forall_mem_cons.mpr ⟨first, early⟩) same
            rw [cut, List.cons_append]

/-! ## Every call with a timeout is listed or called back -/

theorem CalledBack.mono {param : Nat} (called : servg.CalledBack param)
    (grows : servg.invoked ⊆ after.invoked) : after.CalledBack param := by
  obtain ⟨invocation, member, same⟩ := called
  exact ⟨invocation, grows member, same⟩

theorem calling_of_frame (frame : after.callFrame = servg.callFrame) :
    after.calling = servg.calling := by
  rw [calling, calling, frame]

theorem Punctual.kept (punctual : servg.Punctual) (kept : TimersKept servg after) :
    after.Punctual where
  made := by
    rw [kept.list, kept.nparams]
    exact punctual.made
  sorted := by
    rw [kept.list]
    unfold NotBefore
    rw [kept.params]
    exact punctual.sorted
  listed := by
    intro param made timed
    rw [kept.nparams] at made
    rw [kept.params] at timed
    rw [kept.list]
    exact (punctual.listed param made timed).imp_right fun called => called.mono kept.invoked
  calling := by
    intro param running
    rw [calling_of_frame kept.frame] at running
    exact (punctual.calling param running).mono kept.invoked
  rest := by
    intro param rest now frame
    rw [kept.frame] at frame
    unfold NotBefore
    rw [kept.nparams, kept.params]
    exact punctual.rest param rest now frame

/-- The calls made so far keep their times when another is made. -/
theorem pairwise_update {list : List Nat} {params : Nat → RpcParam} {count : Nat}
    (made : ∀ param ∈ list, param < count) (call : RpcParam)
    (sorted : list.Pairwise fun first second =>
      (params second).tvTimeout.atLeast (params first).tvTimeout = true) :
    list.Pairwise fun first second =>
      (Function.update params count call second).tvTimeout.atLeast
        (Function.update params count call first).tvTimeout = true := by
  refine sorted.imp_of_mem ?_
  intro first second firstIn secondIn ordered
  rw [Function.update_of_ne (Nat.ne_of_lt (made first firstIn)),
    Function.update_of_ne (Nat.ne_of_lt (made second secondIn))]
  exact ordered

theorem Punctual.called (punctual : servg.Punctual) (call : RpcParam)
    (params : after.params = Function.update servg.params servg.nparams call)
    (nparams : after.nparams = servg.nparams + 1)
    (list : after.rpcTimeoutList =
      if 0 < call.msecTimeout then insertTimeout after.params servg.nparams servg.rpcTimeoutList
      else servg.rpcTimeoutList)
    (invoked : servg.invoked ⊆ after.invoked) (frame : after.callFrame = servg.callFrame) :
    after.Punctual := by
  have members : ∀ param, param ∈ after.rpcTimeoutList ↔
      param ∈ servg.rpcTimeoutList ∨ 0 < call.msecTimeout ∧ param = servg.nparams := by
    intro param
    rw [list]
    split
    next timed =>
      rw [(insertTimeout_perm _ _ _).mem_iff, List.mem_cons, or_comm]
      exact or_congr_right (and_iff_right timed).symm
    next untimed => exact (or_iff_left fun both => untimed both.1).symm
  have older := pairwise_update punctual.made call punctual.sorted
  constructor
  case made =>
    intro param member
    rw [nparams]
    rcases (members param).mp member with old | ⟨_, rfl⟩
    · exact Nat.lt_succ_of_lt (punctual.made param old)
    · exact Nat.lt_succ_self _
  case sorted =>
    unfold NotBefore
    rw [list, params]
    split
    · exact insertTimeout_sorted _ _ older
    · exact older
  case listed =>
    intro param made timed
    rw [nparams] at made
    rw [params] at timed
    rcases Nat.lt_succ_iff_lt_or_eq.mp made with old | rfl
    · rw [Function.update_of_ne (Nat.ne_of_lt old)] at timed
      rcases punctual.listed param old timed with member | called
      · exact Or.inl ((members param).mpr (Or.inl member))
      · exact Or.inr (called.mono invoked)
    · rw [Function.update_self] at timed
      exact Or.inl ((members _).mpr (Or.inr ⟨timed, rfl⟩))
  case calling =>
    intro param running
    rw [calling_of_frame frame] at running
    exact (punctual.calling param running).mono invoked
  case rest =>
    intro param rest now atFrame
    rw [frame] at atFrame
    obtain ⟨made, sorted⟩ := punctual.rest param rest now atFrame
    unfold NotBefore
    rw [nparams, params]
    exact ⟨fun other member => Nat.lt_succ_of_lt (made other member),
      pairwise_update made call sorted⟩

/-- The call that leaves the list has been called back. -/
theorem Punctual.erased (punctual : servg.Punctual) {param : Nat}
    (erased : TimerErased servg after param) (called : servg.CalledBack param) :
    after.Punctual := by
  have stays : ∀ other ∈ after.rpcTimeoutList, other ∈ servg.rpcTimeoutList := by
    rw [erased.list]
    exact fun other member => List.mem_of_mem_erase member
  have grows : ∀ other, servg.CalledBack other → after.CalledBack other :=
    fun other done => done.mono (erased.invoked ▸ List.Subset.refl _)
  constructor
  case made =>
    intro other member
    rw [erased.nparams]
    exact punctual.made other (stays other member)
  case sorted =>
    unfold NotBefore
    rw [erased.list, erased.params]
    exact punctual.sorted.sublist List.erase_sublist
  case listed =>
    intro other made timed
    rw [erased.nparams] at made
    rw [erased.params] at timed
    by_cases same : other = param
    · rw [same]
      exact Or.inr (grows param called)
    · rw [erased.list, List.mem_erase_of_ne same]
      exact (punctual.listed other made timed).imp_right (grows other)
  case calling =>
    intro other running
    rw [ServGroup.calling, erased.frame] at running
    cases running
  case rest =>
    intro other rest now frame
    rw [erased.frame] at frame
    cases frame

/-- The loop goes on over calls that have been made, in the order of expiry. -/
theorem Punctual.checkTimeouts (punctual : servg.Punctual) (now : Timeval) {rest : List Nat}
    (made : ∀ param ∈ rest, param < servg.nparams) (sorted : rest.Pairwise servg.NotBefore) :
    (servg.checkTimeouts now rest).Punctual := by
  rcases checked_checkTimeouts servg now rest with ⟨_, same⟩ | ⟨front, back, param, cut, _, same⟩
  · rw [same]
    refine ⟨punctual.made, punctual.sorted, punctual.listed, ?_, ?_⟩
    · exact fun _ running => absurd running.symm (Option.some_ne_none _)
    · exact fun _ _ _ frame => absurd frame.symm (Option.some_ne_none _)
  · have part : (param :: back).Sublist rest := cut ▸ List.sublist_append_right front _
    have grows : servg.invoked ⊆ servg.invoked ++ [{ param := param, cause := .timeout }] :=
      List.subset_append_left _ _
    rw [same]
    refine ⟨punctual.made, punctual.sorted, ?_, ?_, ?_⟩
    · exact fun other made timed => (punctual.listed other made timed).imp_right
        fun done => done.mono grows
    · intro other running
      cases running
      exact ⟨_, List.mem_append_right _ (List.mem_singleton_self _), rfl⟩
    · intro other rest later frame
      cases frame
      exact ⟨fun other member => made other (part.subset member), sorted.sublist part⟩

/-- **Every step keeps the timeout list.** -/
theorem Punctual.step (punctual : servg.Punctual) (stepped : TimerStep servg after) :
    after.Punctual := by
  cases stepped with
  | kept kept => exact punctual.kept kept
  | called call params nparams list invoked frame =>
      exact punctual.called call params nparams list invoked frame
  | replied serv param req free params nparams list invoked called frame =>
      have running : after.calling = some param := by rw [ServGroup.calling, frame]
      constructor
      case made =>
        rw [list, nparams]
        exact punctual.made
      case sorted =>
        unfold NotBefore
        rw [list, params]
        exact punctual.sorted
      case listed =>
        intro other made timed
        rw [nparams] at made
        rw [params] at timed
        rw [list]
        exact (punctual.listed other made timed).imp_right fun done => done.mono invoked
      case calling =>
        intro other same
        rw [running] at same
        cases same
        exact called
      case rest =>
        intro other rest now atFrame
        rw [frame] at atFrame
        cases atFrame
  | polled now free => exact punctual.checkTimeouts now punctual.made punctual.sorted
  | returned serv param req frame erased =>
      exact punctual.erased erased (punctual.calling param (by rw [ServGroup.calling, frame]))
  | expired param rest now frame erased =>
      have called := punctual.calling param (by rw [ServGroup.calling, frame])
      obtain ⟨made, sorted⟩ := punctual.rest param rest now frame
      refine (punctual.erased erased called).checkTimeouts now ?_ ?_
      · rw [erased.nparams]
        exact (List.forall_mem_cons.mp made).2
      · unfold NotBefore
        rw [erased.params]
        exact (List.pairwise_cons.mp sorted).2

/-! ## The start -/

theorem timersKept_initRegion (servg : ServGroup) (region : Region) :
    TimersKept servg (servg.initRegion region) := by
  refine (timersKept_iinitServ servg region.type region.id).trans ?_
  unfold initRegion noteMyself
  dsimp only
  split_ifs <;> exact ⟨rfl, rfl, rfl, List.Subset.refl _, rfl⟩

theorem timersKept_initRegions (regions : List Region) :
    ∀ servg : ServGroup, TimersKept servg (regions.foldl initRegion servg) := by
  induction regions with
  | nil => exact TimersKept.refl
  | cons region rest inductionHypothesis =>
      exact fun servg => (timersKept_initRegion servg region).trans (inductionHypothesis _)

theorem punctual_sServgCreate (junk : ServAddr → SServer) (config : GroupConfig) :
    (sServgCreate junk config).Punctual :=
  ⟨fun _ member => absurd member List.not_mem_nil, List.Pairwise.nil,
    fun _ made => absurd made (Nat.not_lt_zero _),
    fun _ running => absurd running.symm (Option.some_ne_none _),
    fun _ _ _ frame => absurd frame.symm (Option.some_ne_none _)⟩

theorem punctual_sServgInitConfig {junk : ServAddr → SServer} {config : GroupConfig}
    (initial : sServgInitConfig junk config = some servg) : servg.Punctual := by
  have read := timersKept_initRegions config.regions (sServgCreate junk config)
  have started := (punctual_sServgCreate junk config).kept read
  have mine : ∀ (group : ServGroup) (serv : ServAddr), TimersKept group (group.initMyself serv) :=
    fun _ _ => ⟨rfl, rfl, rfl, List.Subset.refl _, rfl⟩
  rw [sServgInitConfig] at initial
  split at initial
  next serv myself =>
    cases initial
    exact started.kept (mine _ serv)
  next =>
    split at initial
    · cases initial
    next created serv creation =>
      cases initial
      exact started.kept ((timersKept_sServgCreateServ creation).trans (mine created serv))

/-! ## A round -/

/-- A round of the timeout loop: the calls of the list that have expired have been
called back, or the loop comes to them yet. -/
structure InRound (start : ServGroup) (now : Timeval) (servg : ServGroup) : Prop where
  params : ∀ param < start.nparams, param < servg.nparams ∧
    servg.params param = start.params param
  called : ∀ param, start.CalledBack param → servg.CalledBack param
  turn : servg.frame = none ∨ ∃ param rest, servg.callFrame = some (.timeout param rest now)
  owed : ∀ param ∈ start.rpcTimeoutList, now.atLeast (start.params param).tvTimeout = true →
    servg.CalledBack param ∨
      ∃ running rest, servg.callFrame = some (.timeout running rest now) ∧ param ∈ rest

variable {start : ServGroup} {now : Timeval}

/-- The loop leaves nothing out. -/
theorem inRound_checkTimeouts (made : ∀ param ∈ start.rpcTimeoutList, param < start.nparams)
    (params : ∀ param < start.nparams, param < servg.nparams ∧
      servg.params param = start.params param)
    (called : ∀ param, start.CalledBack param → servg.CalledBack param) {rest : List Nat}
    (owed : ∀ param ∈ start.rpcTimeoutList, now.atLeast (start.params param).tvTimeout = true →
      servg.CalledBack param ∨ param ∈ rest) :
    InRound start now (servg.checkTimeouts now rest) := by
  have late : ∀ param ∈ start.rpcTimeoutList, now.atLeast (start.params param).tvTimeout = true →
      now.atLeast (servg.params param).tvTimeout ≠ false := by
    intro param member due early
    rw [(params param (made param member)).2, due] at early
    cases early
  rcases checked_checkTimeouts servg now rest with ⟨early, same⟩ | ⟨front, back, param, cut, early, same⟩
  · rw [same]
    refine ⟨params, called, Or.inl rfl, ?_⟩
    intro param member due
    rcases owed param member due with done | ahead
    · exact Or.inl done
    · exact absurd (early param ahead) (late param member due)
  · have grows : servg.invoked ⊆ servg.invoked ++ [{ param := param, cause := .timeout }] :=
      List.subset_append_left _ _
    rw [same]
    refine ⟨params, fun other done => (called other done).mono grows, Or.inr ⟨param, back, rfl⟩, ?_⟩
    intro other member due
    rcases owed other member due with done | ahead
    · exact Or.inl (done.mono grows)
    · rw [cut, List.mem_append, List.mem_cons] at ahead
      rcases ahead with passed | rfl | ahead
      · exact absurd (early other passed) (late other member due)
      · exact Or.inl ⟨_, List.mem_append_right _ (List.mem_singleton_self _), rfl⟩
      · exact Or.inr ⟨param, back, rfl, ahead⟩

theorem frame_of_callFrame {frame : Frame} (running : servg.callFrame = some frame) :
    servg.frame = some frame := by
  rw [callFrame] at running
  split at running
  · cases running
  · exact running

/-- What a step of the users leaves of the round. -/
theorem InRound.kept (round : InRound start now servg)
    (params : ∀ param < servg.nparams, param < after.nparams ∧
      after.params param = servg.params param)
    (invoked : servg.invoked ⊆ after.invoked) (frame : after.callFrame = servg.callFrame)
    (busy : servg.frame ≠ none) : InRound start now after := by
  constructor
  case params =>
    intro param made
    obtain ⟨still, same⟩ := round.params param made
    obtain ⟨more, unchanged⟩ := params param still
    exact ⟨more, unchanged.trans same⟩
  case called => exact fun param done => (round.called param done).mono invoked
  case turn =>
    rw [frame]
    exact Or.inr (round.turn.resolve_left busy)
  case owed =>
    intro param member due
    rw [frame]
    exact (round.owed param member due).imp_left fun done => done.mono invoked

/-- **A step of a round** gets nowhere but to the next call that has expired. -/
theorem InRound.step (round : InRound start now servg)
    (made : ∀ param ∈ start.rpcTimeoutList, param < start.nparams) (busy : servg.frame ≠ none)
    (stepped : TimerStep servg after) : InRound start now after := by
  obtain ⟨turn, left, running⟩ := round.turn.resolve_left busy
  cases stepped with
  | kept kept =>
      refine round.kept ?_ kept.invoked kept.frame busy
      rw [kept.nparams, kept.params]
      exact fun _ still => ⟨still, rfl⟩
  | called call params nparams list invoked frame =>
      refine round.kept ?_ invoked frame busy
      rw [nparams, params]
      exact fun _ still =>
        ⟨Nat.lt_succ_of_lt still, Function.update_of_ne (Nat.ne_of_lt still) _ _⟩
  | replied serv param req free =>
      rw [running] at free
      cases free
  | polled later free =>
      rw [running] at free
      cases free
  | returned serv param req frame =>
      rw [running] at frame
      cases frame
  | @expired middle param rest later frame erased =>
      rw [running] at frame
      cases frame
      have grows : ∀ other, servg.CalledBack other → middle.CalledBack other :=
        fun other done => done.mono (erased.invoked ▸ List.Subset.refl _)
      refine inRound_checkTimeouts made ?_ ?_ ?_
      · rw [erased.nparams, erased.params]
        exact round.params
      · exact fun other done => grows other (round.called other done)
      · intro other member due
        rcases round.owed other member due with done | ⟨_, _, same, ahead⟩
        · exact Or.inl (grows other done)
        · rw [running] at same
          cases same
          exact Or.inr ahead

end ServGroup

section Runs

open ServGroup

variable {junk : ServAddr → SServer} {config : GroupConfig} {servg : ServGroup}

theorem punctual_of_reachable (reached : (groupSystem junk config).Reachable servg) :
    servg.Punctual := by
  refine reached.invariant ServGroup.Punctual ?_ ?_
  · exact fun start initial => punctual_sServgInitConfig initial
  · exact fun before event after _ punctual _ stepped =>
      punctual.step (timerStep_of_step stepped)

/-- The round from its first step to any later one. -/
theorem inRound_of_steps {now : Timeval} {middle after : ServGroup} (punctual : servg.Punctual)
    (polled : servg.step (.timeouts now) = some middle)
    (steps : (groupSystem junk config).Steps (fun group _ => group.frame ≠ none) middle after) :
    InRound servg now after := by
  induction steps with
  | refl =>
      rw [ServGroup.step] at polled
      split at polled
      · cases polled
        exact inRound_checkTimeouts punctual.made (fun _ made => ⟨made, rfl⟩) (fun _ done => done)
          fun _ member _ => Or.inr member
      · cases polled
  | tail _ next inductionHypothesis =>
      obtain ⟨event, busy, stepped⟩ := next
      exact inductionHypothesis.step punctual.made busy (timerStep_of_step stepped)

end Runs

section Sample

open ServGroup Sample

/-- Two calls to server 1, and a round that calls both back; a third call is made
from the first callback. -/
def twoWait : ServGroup :=
  (groupSystem blank config).outcome start
    [.checkList, .attempt (.connected 0 calm), .attempt .early, .receive 0 (answer 1) calm,
      .call ⟨1, 0, 1⟩ ask 0 0 80 ⟨0, 0⟩ calm, .call ⟨1, 0, 1⟩ ask 0 0 50 ⟨0, 0⟩ calm]

def expiring : ServGroup := (groupSystem blank config).outcome twoWait [.timeouts ⟨1, 0⟩]

def expired : ServGroup :=
  (groupSystem blank config).outcome expiring
    [.call ⟨1, 0, 1⟩ ask 0 0 50 ⟨1, 0⟩ calm, .returned, .returned]

theorem steps_expired :
    (groupSystem blank config).Steps (fun group _ => group.frame ≠ none) expiring expired := by
  have checked := @System.steps_outcome _ _ (groupSystem blank config)
    (fun group _ => group.frame.isSome) expiring
    [.call ⟨1, 0, 1⟩ ask 0 0 50 ⟨1, 0⟩ calm, .returned, .returned] (by decide +kernel)
  refine Relation.ReflTransGen.mono ?_ _ _ checked
  rintro before after ⟨event, busy, stepped⟩
  exact ⟨event, Option.isSome_iff_ne_none.mp busy, stepped⟩

end Sample

end SimpleDfs.ServerGroup
