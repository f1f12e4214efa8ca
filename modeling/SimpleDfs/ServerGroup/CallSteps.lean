import SimpleDfs.ServerGroup.CallMoves

/-!
Contract: the steps that account for every call of a server group.

Owns: `CallOrderly`, the condition on a step; `Settled`, what may take a pending
call out of its table; that orderly steps account for every call and only settle
those.

A step is not orderly for the calls where it closes the connection of a server
while a call to it is on the timeout list or has its callback running, takes a
reply for a server that is not established, replaces the table of one that is, or
calls a server that has used up its request ids.

Does not own: the start; what holds over whole runs.
-/

set_option autoImplicit false

namespace SimpleDfs.ServerGroup

open SimpleDfs.Common
open SimpleDfs.Library

namespace ServGroup

/-! ## The condition on a step -/

/-- The write to the server fails; a packet to this server itself is not
written. -/
def Fails (servg : ServGroup) (serv : ServAddr) (env : Env) : Prop :=
  env.writeFails = true ∧ servg.myself ≠ some serv

instance (servg : ServGroup) (serv : ServAddr) (env : Env) : Decidable (servg.Fails serv env) :=
  inferInstanceAs (Decidable (_ ∧ _))

/-- The packet may be handled: a reply for an established server, a yes to the
identification as one that is not, and for a quiet server what closes its
connection. -/
def MayHandle (servg : ServGroup) (serv : ServAddr) (pkt : GroupPacket) (env : Env) : Prop :=
  (pkt.fn = sPktTypeRpcBack → (servg.entries serv).flags.established = true) ∧
  (pkt.fn = sPktTypeIdentifyBack → accepts pkt = true →
    (servg.entries serv).flags.established = false) ∧
  (pkt.fn = sPktTypeIdentifyBack → accepts pkt = false → servg.Quiet serv) ∧
  (pkt.fn = sPktTypePing → env.writeFails = true → servg.Quiet serv)

instance (servg : ServGroup) (serv : ServAddr) (pkt : GroupPacket) (env : Env) :
    Decidable (servg.MayHandle serv pkt env) :=
  inferInstanceAs (Decidable ((_ → _) ∧ (_ → _ → _) ∧ (_ → _ → _) ∧ (_ → _ → _)))

/-- The step accounts for every call. -/
def CallOrderly (servg : ServGroup) : Event → Prop
  | .receive conn pkt env => ∀ serv ∈ (servg.conns conn).udata, servg.MayHandle serv pkt env
  | .closed conn => ∀ serv ∈ (servg.conns conn).udata, servg.Quiet serv
  | .call serv _ _ _ msecTimeout _ env =>
      (servg.entries serv).flags.established = true ∧ (servg.entries serv).reqId ≠ 0 ∧
        (servg.Fails serv env → servg.Quiet serv ∧ msecTimeout ≤ 0)
  | .send serv _ env => servg.Fails serv env → servg.Quiet serv
  | .ret serv _ _ env => servg.Fails serv env → servg.Quiet serv
  | _ => True

instance (servg : ServGroup) : (event : Event) → Decidable (servg.CallOrderly event)
  | .receive conn pkt env =>
      inferInstanceAs (Decidable (∀ serv ∈ (servg.conns conn).udata, servg.MayHandle serv pkt env))
  | .closed conn =>
      inferInstanceAs (Decidable (∀ serv ∈ (servg.conns conn).udata, servg.Quiet serv))
  | .call serv _ _ _ _ _ env =>
      inferInstanceAs (Decidable (_ ∧ _ ∧ (servg.Fails serv env → servg.Quiet serv ∧ _)))
  | .send serv _ env => inferInstanceAs (Decidable (servg.Fails serv env → servg.Quiet serv))
  | .ret serv _ _ env => inferInstanceAs (Decidable (servg.Fails serv env → servg.Quiet serv))
  | .accept _ _ _ => inferInstanceAs (Decidable True)
  | .checkList => inferInstanceAs (Decidable True)
  | .attempt _ => inferInstanceAs (Decidable True)
  | .own _ => inferInstanceAs (Decidable True)
  | .timeouts _ => inferInstanceAs (Decidable True)
  | .returned => inferInstanceAs (Decidable True)
  | .connect _ _ _ _ _ _ => inferInstanceAs (Decidable True)

/-- What may take a pending call out of its table: the callback of its own reply
or timeout returns, or its connection is closed. -/
inductive Settled (before after : ServGroup) : Event → Nat → Prop where
  | replied {serv : ServAddr} {param : Nat} {req : BitVec 32} {opening : Nat}
      (frame : before.frame = some (.rpcBack serv param req))
      (own : { param := param, cause := .reply opening req } ∈ before.invoked) :
      Settled before after .returned param
  | expired {param : Nat} {rest : List Nat} {now : Timeval}
      (frame : before.frame = some (.timeout param rest now))
      (due : now.atLeast (before.params param).tvTimeout = true)
      (own : { param := param, cause := .timeout } ∈ before.invoked) :
      Settled before after .returned param
  | closed {event : Event} {param : Nat} (cutOff : CutOff before after param) :
      Settled before after event param

/-- Every call stays accounted for, and a pending one stays pending unless it is
settled. -/
structure Settles (before after : ServGroup) (event : Event) : Prop where
  accounted : after.Accounted
  pending : ∀ param, before.Pending param →
    after.Pending param ∨ Settled before after event param

theorem Proceeds.settles {before after : ServGroup} (proceeds : Proceeds before after)
    (event : Event) : Settles before after event := by
  refine ⟨proceeds.accounted, ?_⟩
  intro param pending
  rcases proceeds.pending param pending with still | cutOff
  · exact Or.inl still
  · exact Or.inr (.closed cutOff)

variable {servg after : ServGroup} {lists : WaitList → List ServAddr} {serv : ServAddr} {conn : Nat}

/-! ## Calls and sending -/

theorem callFrame_of_none (frame : servg.frame = none) : servg.callFrame = none := by
  rw [callFrame, frame]

theorem calling_of_none (frame : servg.callFrame = none) : servg.calling = none := by
  rw [calling, frame]

theorem Accounted.isend (accounted : servg.Accounted)
    (bound : ∀ conn, (servg.entries serv).conn = some conn → servg.Bound conn serv)
    {pkt : GroupPacket} {env : Env} (quiet : servg.Fails serv env → servg.Quiet serv)
    (sent : servg.isend serv pkt env = some after) : Proceeds servg after := by
  rw [ServGroup.isend] at sent
  split at sent
  · cases sent
    exact Proceeds.of_kept accounted (CallsKept.of_same rfl rfl (fun _ => rfl) rfl)
  · rename_i other
    split at sent
    · cases sent
    · rename_i conn atConn
      apply accounted.sNetSend (bound conn atConn).of_udata _ sent
      intro fails at_conn udata
      rw [(bound conn atConn).udata] at udata
      rw [← Option.some.inj udata]
      exact quiet ⟨fails, other⟩

theorem Ordered.bound_of_conn (ordered : servg.Ordered lists none)
    (entry : IsEntry servg.servs serv) (conn : Nat)
    (atConn : (servg.entries serv).conn = some conn) : servg.Bound conn serv := by
  have held := ordered.held serv conn entry (by simp) atConn
  exact ⟨held.1, held.2, entry, atConn⟩

theorem Accounted.quiet_called (accounted : servg.Accounted) {hash ud callback : Nat}
    {msecTimeout : Int} {now : Timeval} (untimed : msecTimeout ≤ 0) {other : ServAddr}
    (quiet : servg.Quiet other) :
    (servg.called serv hash ud callback msecTimeout now).Quiet other := by
  constructor
  · intro param member
    rcases mem_called.mp member with old | ⟨timed, _⟩
    · rw [params_called (accounted.made (accounted.timed param old).1)]
      exact quiet.1 param old
    · omega
  · intro param running
    rw [params_called (accounted.made (accounted.pending_of_calling running))]
    exact quiet.2 param running

theorem Accounted.sServgRpcCall (accounted : servg.Accounted) (ordered : servg.Ordered lists none)
    (entry : IsEntry servg.servs serv) {pkt : GroupPacket} {ud callback : Nat}
    {msecTimeout : Int} {now : Timeval} {env : Env}
    (orderly : servg.CallOrderly (.call serv pkt ud callback msecTimeout now env))
    (called : servg.sServgRpcCall serv pkt ud callback msecTimeout now env = some after) :
    Proceeds servg after := by
  obtain ⟨up, counts, safe⟩ := orderly
  rw [ServGroup.sServgRpcCall] at called
  split at called
  · cases called
  next hash table =>
    have atServ : (servg.entries serv).rpcHash = some hash := by
      rw [← table]
      exact ((@called_entries servg serv hash ud callback msecTimeout now serv).2.2).symm
    have live : servg.Live serv hash := ⟨entry, up, atServ⟩
    have first : Proceeds servg (servg.called serv hash ud callback msecTimeout now) :=
      accounted.called live counts
    apply first.trans accounted
    refine first.accounted.isend ?_ ?_ called
    · intro conn atConn
      have same := @called_entries servg serv hash ud callback msecTimeout now serv
      have bound := ordered.bound_of_conn entry conn (same.1 ▸ atConn)
      exact ⟨bound.opened, bound.udata, bound.entry, atConn⟩
    · intro fails
      have facts := safe fails
      exact accounted.quiet_called facts.2 facts.1

/-! ## Callbacks -/

theorem Accounted.ihandleRpcBack (accounted : servg.Accounted) (frame : servg.frame = none)
    (entry : IsEntry servg.servs serv) (up : (servg.entries serv).flags.established = true)
    {opening : Nat} (arrives : servg.openingOf serv = opening) {pkt : GroupPacket}
    (handled : servg.ihandleRpcBack serv opening pkt = some after) : Proceeds servg after := by
  rw [ServGroup.ihandleRpcBack] at handled
  split at handled
  · cases handled
  next hash table =>
    have live : servg.Live serv hash := ⟨entry, up, table⟩
    split at handled
    · cases handled
      exact Proceeds.refl accounted
    next param found =>
      have placed := accounted.placed serv hash pkt.req param live found
      have free := calling_of_none (callFrame_of_none frame)
      have started : servg.invoke { param := param, cause := .reply opening pkt.req }
          (.rpcBack serv param pkt.req) = after := Option.some.inj handled
      rw [← started]
      refine accounted.invoke free ?_ ?_ rfl ?_ ?_
      · exact ⟨serv, hash, pkt.req, live, found⟩
      · exact ⟨placed.reqId, placed.sentOn.trans arrives⟩
      · intro other again req same
        cases same
        exact ⟨⟨hash, live, found⟩, opening, rfl⟩
      · intro again rest now same
        cases same

/-- **The timeout loop accounts for every call**, up to the next callback. -/
theorem Accounted.checkTimeouts (accounted : servg.Accounted) (free : servg.callFrame = none)
    (now : Timeval) {rest : List Nat} (apart : rest.Nodup)
    (inside : ∀ param ∈ rest, param ∈ servg.rpcTimeoutList) :
    Proceeds servg (servg.checkTimeouts now rest) := by
  induction rest with
  | nil =>
      apply Proceeds.of_kept accounted
      refine CallsKept.of_same rfl rfl (fun _ => rfl) ?_
      rw [ServGroup.checkTimeouts, callPart, callPart, free]
      rfl
  | cons param rest inductionHypothesis =>
      rw [ServGroup.checkTimeouts]
      split
      · rename_i due
        have timed := accounted.timed param (inside param List.mem_cons_self)
        change Proceeds servg (servg.invoke { param := param, cause := .timeout }
          (.timeout param rest now))
        refine accounted.invoke (calling_of_none free) timed.1 timed.2 rfl ?_ ?_
        · intro other again req same
          cases same
        · intro again others time same
          cases same
          exact ⟨timed.1, rfl, due, apart,
            fun other member => inside other (List.mem_cons_of_mem _ member)⟩
      · exact inductionHypothesis (List.nodup_cons.mp apart).2
          fun other member => inside other (List.mem_cons_of_mem _ member)

/-- The loop does not look at the frame it is in. -/
theorem checkTimeouts_frame (frame : Option Frame) (now : Timeval) (rest : List Nat) :
    ({ servg with frame := frame } : ServGroup).checkTimeouts now rest =
      servg.checkTimeouts now rest := by
  induction rest with
  | nil => rfl
  | cons param rest inductionHypothesis =>
      rw [ServGroup.checkTimeouts, ServGroup.checkTimeouts, inductionHypothesis]

theorem Accounted.afterCallback (accounted : servg.Accounted)
    (returned : servg.afterCallback = some after) : Settles servg after .returned := by
  rw [ServGroup.afterCallback] at returned
  split at returned
  next at_serv param req frame =>
    have callFrame : servg.callFrame = some (.rpcBack at_serv param req) := by
      rw [ServGroup.callFrame, frame]
    obtain ⟨⟨hash, live, found⟩, opening, own⟩ := accounted.replying _ _ _ callFrame
    have calling : servg.calling = some param := by rw [ServGroup.calling, callFrame]
    obtain ⟨forgotten, others⟩ := accounted.forget live found calling
    have done : some (servg.forget hash req param) = some after := by
      rw [← returned, forgetCall]
      dsimp only
      rw [live.table]
      rfl
    rw [← Option.some.inj done]
    refine ⟨forgotten, ?_⟩
    intro other pending
    rcases others other pending with still | rfl
    · exact Or.inl still
    · exact Or.inr (.replied frame own)
  next param rest now frame =>
    have callFrame : servg.callFrame = some (.timeout param rest now) := by
      rw [ServGroup.callFrame, frame]
    obtain ⟨pending, own, due, apart, inside⟩ := accounted.expiring _ _ _ callFrame
    have calling : servg.calling = some param := by rw [ServGroup.calling, callFrame]
    obtain ⟨hash, live, found⟩ := accounted.place pending
    obtain ⟨forgotten, others⟩ := accounted.forget live found calling
    have done : some ((servg.forget hash (servg.params param).reqId param).checkTimeouts now rest) =
        some after := by
      dsimp only at returned
      rw [← returned, forgetCall]
      dsimp only
      rw [live.table]
      exact congrArg some (@checkTimeouts_frame
        (servg.forget hash (servg.params param).reqId param) servg.frame now rest).symm
    rw [← Option.some.inj done]
    have next := forgotten.checkTimeouts rfl now (List.nodup_cons.mp apart).2 (by
      intro other member
      have different : other ≠ param := by
        rintro rfl
        exact (List.nodup_cons.mp apart).1 member
      exact (List.mem_erase_of_ne different).mpr (inside other member))
    refine ⟨next.accounted, ?_⟩
    intro other still
    rcases others other still with kept | rfl
    · rcases next.pending other kept with lasting | cutOff
      · exact Or.inl lasting
      · exact Or.inr (.closed cutOff)
    · exact Or.inr (.expired frame due own)
  · cases returned

/-! ## Steps -/

/-- A packet for the server of an open connection. -/
theorem Accounted.dispatch_bound (accounted : servg.Accounted) (ordered : servg.Ordered lists none)
    (frame : servg.frame = none) (bound : servg.Bound conn serv) {pkt : GroupPacket} {env : Env}
    (may : servg.MayHandle serv pkt env)
    (handled : servg.dispatch serv (servg.conns conn).opening pkt env = some after) :
    Proceeds servg after := by
  obtain ⟨reply, yes, no, ping⟩ := may
  have opening : servg.openingOf serv = (servg.conns conn).opening := by
    rw [openingOf, bound.conn]
  rw [dispatch] at handled
  split at handled
  · rename_i function
    exact accounted.ihandleRpcBack frame bound.entry (reply function) opening handled
  · split at handled
    · rename_i function
      exact accounted.ihandleIdentifyBack ordered bound (yes function) (no function) handled
    · split at handled
      · rename_i function
        exact accounted.ihandlePing bound (ping function) handled
      · split at handled
        · cases handled
          exact Proceeds.of_kept accounted (callsKept_ihandlePong pkt env)
        · cases handled
          exact Proceeds.refl accounted

/-- The next packet this server has sent to itself. -/
theorem Accounted.pollMyself (accounted : servg.Accounted) {own : ServAddr} (mine : servg.Own own)
    (frame : servg.frame = none) {env : Env}
    (harmless : ∀ pkt ∈ servg.myselfQ.head?,
      pkt.fn ≠ sPktTypeIdentifyBack ∧ pkt.fn ≠ sPktTypePong)
    (handled : servg.pollMyself env = some after) : Proceeds servg after := by
  rw [ServGroup.pollMyself] at handled
  split at handled
  next pkt rest serv queue myself =>
    obtain ⟨notBack, notPong⟩ := harmless pkt (by rw [queue]; rfl)
    have isOwn : serv = own := Option.some.inj (myself.symm.trans mine.myself)
    subst isOwn
    have popped : CallsKept servg { servg with myselfQ := rest } :=
      CallsKept.of_same rfl rfl (fun _ => rfl) rfl
    have first := Proceeds.of_kept accounted popped
    have opening : servg.openingOf serv = 0 := by rw [openingOf, mine.conn]
    apply first.trans accounted
    rw [dispatch, if_neg notBack, if_neg notPong] at handled
    split at handled
    · have up : (servg.entries serv).flags.established = true := by rw [mine.flags]
      exact first.accounted.ihandleRpcBack frame mine.entry up opening handled
    · split at handled
      · rw [ServGroup.ihandlePing] at handled
        dsimp only at handled
        split at handled
        · cases handled
        next conn atConn =>
          exfalso
          revert atConn
          generalize (if 2 ≤ pkt.words.length then pkt.words.drop 2 else pkt.words) = words
          cases words with
          | nil => simp [mine.conn]
          | cons mem others => simp [mine.conn]
      · cases handled
        exact Proceeds.refl first.accounted
  · cases handled

/-- The server under the cursor of `s_servg_check_list` is down. -/
theorem Ordered.vacant_of_waiting (ordered : servg.Ordered lists none)
    (waits : serv ∈ lists .waitForConn) : servg.Vacant lists serv := by
  have waiting := ordered.waiting serv waits (by simp)
  exact ordered.vacant (ordered.listed _ serv waits) waiting.1 (by rw [waiting.2])
    (by rw [waiting.2])

theorem callsKept_frame {frame : Option Frame}
    (same : ({ servg with frame := frame } : ServGroup).callFrame = servg.callFrame) :
    CallsKept servg { servg with frame := frame } := by
  refine CallsKept.of_same rfl rfl (fun _ => rfl) ?_
  rw [callPart, callPart, same]

theorem Accounted.checkListStep (accounted : servg.Accounted) (ordered : servg.Ordered lists none)
    (cursor : servg.Cursor lists) {attempt : Attempt}
    (orderly : servg.Orderly (.attempt attempt))
    (stepped : servg.checkListStep attempt = some after) : Proceeds servg after := by
  rw [ServGroup.checkListStep] at stepped
  split at stepped
  next p tmp frame =>
    have idle : servg.callFrame = none := by rw [callFrame, frame]
    have ended : CallsKept servg { servg with frame := none } := callsKept_frame idle.symm
    split at stepped
    · cases stepped
      exact Proceeds.of_kept accounted ended
    next serv =>
      have waits := Links.node_mem_ring.mp (cursor _ _ frame).1
      dsimp only at stepped
      split at stepped
      · split at stepped
        · cases stepped
          exact Proceeds.of_kept accounted ended
        · cases stepped
          exact Proceeds.of_kept accounted (callsKept_frame idle.symm)
        · cases stepped
        next conn env ip atIp =>
          rw [Option.map_eq_some_iff] at stepped
          obtain ⟨last, sent, rfl⟩ := stepped
          have vacant := ordered.vacant_of_waiting waits
          have first := vacant.proceeds accounted orderly sent
          obtain ⟨rest, result, _⟩ := vacant.connects orderly sent
          have still : last.callFrame = none := by rw [callFrame, result.frame, frame]
          apply first.trans accounted
          exact Proceeds.of_kept first.accounted (callsKept_frame still.symm)
      · cases stepped
  · cases stepped

/-- **Orderly steps account for every call.** -/
theorem Accounted.step (accounted : servg.Accounted) (sound : servg.Sound) {event : Event}
    (orderly : servg.Orderly event) (callOrderly : servg.CallOrderly event)
    (stepped : servg.step event = some after) : Settles servg after event := by
  obtain ⟨lists, ordered, cursor⟩ := sound.order
  obtain ⟨own, mine⟩ := sound.own
  cases event with
  | accept conn ip port =>
      rw [ServGroup.step] at stepped
      split at stepped
      · cases stepped
        have kept := ordered.callsKept_openConn (by simp) ip port orderly
        exact (Proceeds.of_kept accounted kept).settles _
      · cases stepped
  | checkList =>
      rw [ServGroup.step] at stepped
      split at stepped
      · rename_i frame
        cases stepped
        have kept : CallsKept servg servg.startCheckList :=
          callsKept_frame (callFrame_of_none frame).symm
        exact (Proceeds.of_kept accounted kept).settles _
      · cases stepped
  | attempt attempt =>
      exact (accounted.checkListStep ordered cursor orderly stepped).settles _
  | own env =>
      rw [ServGroup.step] at stepped
      split at stepped
      · rename_i frame
        exact (accounted.pollMyself mine frame orderly stepped).settles _
      · cases stepped
  | timeouts now =>
      rw [ServGroup.step] at stepped
      split at stepped
      · rename_i frame
        cases stepped
        have checked := accounted.checkTimeouts (callFrame_of_none frame) now accounted.listed
          fun param member => member
        exact checked.settles _
      · cases stepped
  | receive conn pkt env =>
      rw [ServGroup.step] at stepped
      split at stepped
      · rename_i ready
        rw [ServGroup.sServgDoEvent] at stepped
        split at stepped
        next udata =>
          have handled := accounted.ihandleIdentify ordered orderly.1 udata (orderly.2 udata) stepped
          exact handled.settles _
        next serv udata =>
          have bound := ordered.bound_of_open orderly.1 udata
          have handled := accounted.dispatch_bound ordered ready.1 bound (callOrderly serv udata)
            stepped
          exact handled.settles _
      · cases stepped
  | closed conn =>
      rw [ServGroup.step] at stepped
      split at stepped
      · have closed := accounted.sNetClose (fun serv udata => ordered.bound_of_open orderly udata)
          callOrderly stepped
        exact closed.settles _
      · cases stepped
  | returned => exact accounted.afterCallback stepped
  | connect type id ip port conn env =>
      rw [ServGroup.step] at stepped
      split at stepped
      · cases stepped
      · exact (accounted.sServgConnect ordered orderly stepped).settles _
  | call serv pkt ud callback msecTimeout now env =>
      rw [ServGroup.step] at stepped
      split at stepped
      · cases stepped
      · exact (accounted.sServgRpcCall ordered orderly callOrderly stepped).settles _
  | send serv pkt env =>
      rw [ServGroup.step] at stepped
      split at stepped
      · cases stepped
      · exact (accounted.isend (ordered.bound_of_conn orderly) callOrderly stepped).settles _
  | ret serv reqId pkt env =>
      rw [ServGroup.step] at stepped
      split at stepped
      · cases stepped
      · exact (accounted.isend (ordered.bound_of_conn orderly) callOrderly stepped).settles _

end ServGroup

end SimpleDfs.ServerGroup
