import SimpleDfs.ServerGroup.Moves

/-!
Contract: the steps that keep a server group in order.

Owns: `Orderly`, the condition on a step; `Sound`, the order together with the
group's own entry and the cursors of `s_servg_check_list`; that orderly steps
from a sound group lead to sound groups.

A step is not orderly where it creates an entry in use a second time, moves
entries in use, gives a server that is connecting another connection, takes a
packet from a closed connection, or is handed a connection that is open.

Does not own: what a sound group means to its users; the start.
-/

set_option autoImplicit false

namespace SimpleDfs.ServerGroup

open SimpleDfs.Common
open SimpleDfs.Library

namespace ServGroup

/-! ## The condition on a step -/

/-- The type and id of an identification that can be read and has the right
password. -/
def identifyRequest (servg : ServGroup) (pkt : GroupPacket) : Option (Int × Int) :=
  if pkt.fn = sPktTypeIdentify then
    match pkt.words with
    | pwd :: type :: id :: _ :: _ =>
        if pwd = servg.ipcPwd then some (type.toInt, id.toInt) else none
    | _ => none
  else none

/-- `s_servg_create_serv` may be called. -/
def MayCall (servg : ServGroup) (type id : Int) : Prop :=
  validType type = true → servg.MayCreate type (servg.createIndex type id)

instance (servg : ServGroup) (type id : Int) : Decidable (servg.MayCall type id) :=
  inferInstanceAs (Decidable (_ → _))

/-- A server may identify itself: one of the configuration unless it is
connecting, another one if its entry may be created. -/
def MayIdentify (servg : ServGroup) (type id : Int) : Prop :=
  (∀ serv ∈ servg.sServgGetServInConfig type id,
    (servg.entries serv).flags.established = true ∨ (servg.entries serv).conn = none) ∧
  (servg.sServgGetServInConfig type id = none → servg.MayCall type id)

instance (servg : ServGroup) (type id : Int) : Decidable (servg.MayIdentify type id) :=
  inferInstanceAs (Decidable (_ ∧ (_ → _)))

/-- The step keeps the group in order. -/
def Orderly (servg : ServGroup) : Event → Prop
  | .accept conn _ _ => (servg.conns conn).opened = false
  | .attempt (.connected conn _) => (servg.conns conn).opened = false
  | .own _ => ∀ pkt ∈ servg.myselfQ.head?, pkt.fn ≠ sPktTypeIdentifyBack ∧ pkt.fn ≠ sPktTypePong
  | .receive conn pkt _ =>
      (servg.conns conn).opened = true ∧
        ((servg.conns conn).udata = none →
          ∀ request ∈ servg.identifyRequest pkt, servg.MayIdentify request.1 request.2)
  | .closed conn => (servg.conns conn).opened = true
  | .connect type id _ _ conn _ =>
      servg.sServgGetServInConfig type id = none → servg.sServgGetActiveServ type id = none →
        servg.MayCall type id ∧ ∀ new ∈ conn, (servg.conns new).opened = false
  | .call serv _ _ _ _ _ _ => IsEntry servg.servs serv
  | .send serv _ _ => IsEntry servg.servs serv
  | .ret serv _ _ _ => IsEntry servg.servs serv
  | _ => True

instance (servg : ServGroup) : (event : Event) → Decidable (servg.Orderly event)
  | .accept _ _ _ => inferInstanceAs (Decidable (_ = _))
  | .attempt (.connected _ _) => inferInstanceAs (Decidable (_ = _))
  | .attempt .early => inferInstanceAs (Decidable True)
  | .attempt .refused => inferInstanceAs (Decidable True)
  | .own _ => inferInstanceAs (Decidable (∀ pkt ∈ servg.myselfQ.head?, _ ∧ _))
  | .receive _ pkt _ =>
      inferInstanceAs (Decidable (_ ∧ (_ → ∀ request ∈ servg.identifyRequest pkt,
        servg.MayIdentify request.1 request.2)))
  | .closed _ => inferInstanceAs (Decidable (_ = _))
  | .connect _ _ _ _ conn _ =>
      inferInstanceAs (Decidable (_ → _ → _ ∧ ∀ new ∈ conn, (servg.conns new).opened = false))
  | .call serv _ _ _ _ _ _ => inferInstanceAs (Decidable (IsEntry servg.servs serv))
  | .send serv _ _ => inferInstanceAs (Decidable (IsEntry servg.servs serv))
  | .ret serv _ _ _ => inferInstanceAs (Decidable (IsEntry servg.servs serv))
  | .checkList => inferInstanceAs (Decidable True)
  | .timeouts _ => inferInstanceAs (Decidable True)
  | .returned => inferInstanceAs (Decidable True)

/-! ## Sound groups -/

/-- In the round of `s_servg_check_list` the first cursor is in the list, and the
second comes behind it. -/
def Cursor (servg : ServGroup) (lists : WaitList → List ServAddr) : Prop :=
  ∀ p tmp, servg.frame = some (.checking p tmp) →
    p ∈ LinkRef.head WaitList.waitForConn :: (lists .waitForConn).map .node ∧
      tmp = servg.links.next p

/-- The group is in order, and so are its own entry and its cursors. -/
structure Sound (servg : ServGroup) : Prop where
  order : ∃ lists, servg.Ordered lists none ∧ servg.Cursor lists
  own : ∃ own, servg.Own own

variable {servg : ServGroup} {lists : WaitList → List ServAddr} {serv : ServAddr}

theorem cursor_of_not_checking (idle : ∀ p tmp, servg.frame ≠ some (.checking p tmp)) :
    servg.Cursor lists :=
  fun p tmp atFrame => absurd atFrame (idle p tmp)

/-- What an operation outside `s_servg_check_list` leaves. -/
theorem Result.sound {after : ServGroup} {rest : WaitList → List ServAddr} {own : ServAddr}
    (result : Result servg after rest) (mine : servg.Own own)
    (idle : ∀ p tmp, servg.frame ≠ some (.checking p tmp)) : after.Sound where
  order := by
    refine ⟨rest, result.ordered, cursor_of_not_checking ?_⟩
    rw [result.frame]
    exact idle
  own := ⟨own, result.own own mine⟩

theorem idle_of_none (frame : servg.frame = none) (p tmp : ServRef) :
    servg.frame ≠ some (.checking p tmp) := by
  rw [frame]
  simp

theorem idle_of_checks (checks : servg.checks = false) (p tmp : ServRef) :
    servg.frame ≠ some (.checking p tmp) := by
  intro frame
  rw [ServGroup.checks, frame] at checks
  cases checks

/-! ## Operations of the users -/

theorem Ordered.isend (ordered : servg.Ordered lists none) {pkt : GroupPacket} {env : Env}
    {after : ServGroup} (entry : IsEntry servg.servs serv)
    (sent : servg.isend serv pkt env = some after) : ∃ rest, Result servg after rest := by
  rw [ServGroup.isend] at sent
  split at sent
  · cases sent
    exact ⟨lists, ordered.congr rfl rfl rfl rfl fun _ _ => ⟨rfl, rfl, rfl⟩,
      fun own mine => ⟨mine.myself, mine.entry, mine.flags, mine.conn, mine.rpcHash⟩, rfl⟩
  · split at sent
    · cases sent
    · rename_i conn atConn
      have bound := ordered.held serv conn entry (by simp) atConn
      obtain ⟨rest, result, _⟩ := ordered.sNetSend bound.1 sent
      exact ⟨rest, result⟩

/-- The part of the group that calls and their timeouts change. -/
theorem Ordered.result_of_same (ordered : servg.Ordered lists none) {after : ServGroup}
    (servs : after.servs = servg.servs) (entries : after.entries = servg.entries)
    (links : after.links = servg.links) (conns : after.conns = servg.conns)
    (myself : after.myself = servg.myself) (frame : after.frame = servg.frame) :
    Result servg after lists := by
  refine ⟨ordered.congr servs links conns myself ?_, ?_, frame⟩
  · intro other _
    rw [entries]
    exact ⟨rfl, rfl, rfl⟩
  · intro own mine
    exact ⟨myself.trans mine.myself, servs ▸ mine.entry, entries ▸ mine.flags,
      entries ▸ mine.conn, entries ▸ mine.rpcHash⟩

theorem Ordered.sServgRpcCall (ordered : servg.Ordered lists none) {pkt : GroupPacket}
    {ud callback : Nat} {msecTimeout : Int} {now : Timeval} {env : Env} {after : ServGroup}
    (entry : IsEntry servg.servs serv)
    (called : servg.sServgRpcCall serv pkt ud callback msecTimeout now env = some after) :
    ∃ rest, Result servg after rest := by
  rw [ServGroup.sServgRpcCall] at called
  split at called
  · cases called
  next hash _ =>
    let listed := (servg.countCall serv).createParam serv (servg.entries serv).reqId ud callback
      msecTimeout now
    have counted : Result servg (servg.countCall serv) lists :=
      ordered.result_quiet serv fun _ => ⟨rfl, rfl, rfl⟩
    have put : Result (servg.countCall serv)
        (listed.putCall hash (servg.entries serv).reqId servg.nparams) lists :=
      counted.ordered.result_of_same rfl rfl rfl rfl rfl rfl
    obtain ⟨rest, sent⟩ := put.ordered.isend entry called
    exact ⟨rest, (counted.trans put).trans sent⟩

theorem igetServ_isEntry {type id : Int} (found : servg.igetServ type id = some serv) :
    IsEntry servg.servs serv := by
  rw [igetServ] at found
  split at found
  · rename_i valid
    rw [arrayAt] at found
    split at found
    · cases found
    · rename_i inside
      cases found
      refine ⟨valid, rfl, ?_⟩
      simp only
      omega
  · cases found

theorem Ordered.sServgConnect (ordered : servg.Ordered lists none) {type id : Int} {ip : String}
    {port : Int} {conn : Option Nat} {env : Env} {after : ServGroup}
    (orderly : servg.Orderly (.connect type id ip port conn env))
    (connected : servg.sServgConnect type id ip port conn env = some after) :
    ∃ rest, Result servg after rest := by
  rw [ServGroup.sServgConnect] at connected
  split at connected
  · cases connected
    exact ⟨lists, ordered.result⟩
  · rename_i notInConfig
    split at connected
    · cases connected
      exact ⟨lists, ordered.result⟩
    · rename_i notActive
      have facts := orderly (Option.not_isSome_iff_eq_none.mp notInConfig)
        (Option.not_isSome_iff_eq_none.mp notActive)
      split at connected
      · cases connected
        exact ⟨lists, ordered.result⟩
      next middle serv created =>
        cases conn with
        | none => cases connected
        | some conn =>
            have entry := ordered.sServgCreateServ (facts.1 (validType_of_created created)) created
            have closed : (middle.conns conn).opened = false := by
              rw [entry.pushed.keeps.conns]
              exact facts.2 conn rfl
            obtain ⟨rest, result⟩ := entry.connects closed connected
            refine ⟨rest, result.ordered, ?_, result.frame.trans entry.pushed.keeps.frame⟩
            intro own mine
            exact result.own own (mine.keeps entry.pushed.keeps)

/-! ## Packets -/

theorem Ordered.refuse (ordered : servg.Ordered lists none) {conn : Nat} {env : Env}
    {after : ServGroup} (opened : (servg.conns conn).opened = true)
    (refused : servg.refuse conn env = some after) : ∃ rest, Result servg after rest := by
  obtain ⟨rest, result, _⟩ := ordered.sNetSend opened refused
  exact ⟨rest, result⟩

theorem Ordered.close (ordered : servg.Ordered lists none) {conn : Nat} {after : ServGroup}
    (opened : (servg.conns conn).opened = true) (closed : servg.sNetClose conn = some after) :
    ∃ rest, Result servg after rest := by
  obtain ⟨rest, closing⟩ := ordered.sNetClose opened closed
  exact ⟨rest, closing.result ordered opened⟩

theorem inConfig_of_found {type id : Int}
    (found : servg.sServgGetServInConfig type id = some serv) :
    IsEntry servg.servs serv ∧ (servg.entries serv).flags.inConfig = true := by
  rw [sServgGetServInConfig, Option.filter_eq_some_iff] at found
  exact ⟨igetServ_isEntry found.1, found.2⟩

theorem Ordered.ihandleIdentify (ordered : servg.Ordered lists none) {conn : Nat}
    {pkt : GroupPacket} {env : Env} {after : ServGroup}
    (opened : (servg.conns conn).opened = true) (free : (servg.conns conn).udata = none)
    (may : ∀ request ∈ servg.identifyRequest pkt, servg.MayIdentify request.1 request.2)
    (handled : servg.ihandleIdentify conn pkt env = some after) :
    ∃ rest, Result servg after rest := by
  rw [ServGroup.ihandleIdentify] at handled
  split at handled
  · exact ordered.close opened handled
  · rename_i function
    split at handled
    · exact ordered.close opened handled
    next pwd rest shape =>
      split at handled
      · exact ordered.refuse opened handled
      · rename_i password
        split at handled
        next type id mem others =>
          have request : (type.toInt, id.toInt) ∈ servg.identifyRequest pkt := by
            rw [not_not] at function password
            rw [identifyRequest, if_pos function, shape]
            simp [password]
          have asked := may _ request
          split at handled
          next serv found =>
            have facts := inConfig_of_found found
            split at handled
            · exact ordered.refuse opened handled
            · rename_i quiet
              have conn := (asked.1 serv found).resolve_left quiet
              have vacant := ordered.vacant facts.1 conn facts.2 (Bool.eq_false_iff.mpr quiet)
              exact vacant.establish opened free handled
          next missing =>
            split at handled
            · exact ordered.refuse opened handled
            next middle serv created =>
              have entry := ordered.sServgCreateServ
                (asked.2 missing (validType_of_created created)) created
              have keeps := entry.pushed.keeps
              rw [if_neg (by rw [entry.flags]; simp)] at handled
              obtain ⟨rest, result⟩ := entry.vacant.establish (by rw [keeps.conns]; exact opened)
                (by rw [keeps.conns]; exact free) handled
              refine ⟨rest, result.ordered, ?_, result.frame.trans keeps.frame⟩
              intro own mine
              exact result.own own (mine.keeps keeps)
        next => exact ordered.close opened handled

/-- The calls and the frame may change, unless the frame is the round of
`s_servg_check_list`. -/
structure Apart (before after : ServGroup) : Prop where
  servs : after.servs = before.servs
  entries : after.entries = before.entries
  links : after.links = before.links
  conns : after.conns = before.conns
  myself : after.myself = before.myself
  idle : ∀ p tmp, after.frame ≠ some (.checking p tmp)

theorem Apart.sound {after : ServGroup} (apart : Apart servg after) (sound : servg.Sound) :
    after.Sound where
  order := by
    obtain ⟨lists, ordered, _⟩ := sound.order
    refine ⟨lists, ordered.congr apart.servs apart.links apart.conns apart.myself ?_,
      cursor_of_not_checking apart.idle⟩
    intro other _
    rw [apart.entries]
    exact ⟨rfl, rfl, rfl⟩
  own := by
    obtain ⟨own, mine⟩ := sound.own
    exact ⟨own, apart.myself.trans mine.myself, apart.servs ▸ mine.entry,
      apart.entries ▸ mine.flags, apart.entries ▸ mine.conn, apart.entries ▸ mine.rpcHash⟩

theorem apart_ihandleRpcBack {opening : Nat} {pkt : GroupPacket} {after : ServGroup}
    (frame : servg.frame = none)
    (handled : servg.ihandleRpcBack serv opening pkt = some after) : Apart servg after := by
  rw [ihandleRpcBack] at handled
  split at handled
  · cases handled
  · split at handled
    · cases handled
      exact ⟨rfl, rfl, rfl, rfl, rfl, idle_of_none frame⟩
    · cases handled
      exact ⟨rfl, rfl, rfl, rfl, rfl, by simp⟩

theorem apart_checkTimeouts (now : Timeval) (rest : List Nat) :
    Apart servg (servg.checkTimeouts now rest) := by
  induction rest with
  | nil => exact ⟨rfl, rfl, rfl, rfl, rfl, by simp [checkTimeouts]⟩
  | cons param rest inductionHypothesis =>
      rw [checkTimeouts]
      split
      · exact ⟨rfl, rfl, rfl, rfl, rfl, by simp⟩
      · exact inductionHypothesis

theorem Apart.trans {first second third : ServGroup} (early : Apart first second)
    (late : Apart second third) : Apart first third :=
  ⟨late.servs.trans early.servs, late.entries.trans early.entries, late.links.trans early.links,
    late.conns.trans early.conns, late.myself.trans early.myself, late.idle⟩

theorem apart_forgetCall {reqId : BitVec 32} {after : ServGroup}
    (idle : ∀ p tmp, servg.frame ≠ some (.checking p tmp))
    (forgotten : servg.forgetCall serv reqId = some after) : Apart servg after := by
  rw [forgetCall] at forgotten
  split at forgotten
  · cases forgotten
  · cases forgotten
    exact ⟨rfl, rfl, rfl, rfl, rfl, idle⟩

theorem apart_afterCallback {after : ServGroup} (returned : servg.afterCallback = some after) :
    Apart servg after := by
  rw [afterCallback] at returned
  split at returned
  next serv param req frame =>
    have taken : Apart servg
        { servg with rpcTimeoutList := servg.rpcTimeoutList.erase param, frame := none } :=
      ⟨rfl, rfl, rfl, rfl, rfl, by simp⟩
    exact taken.trans (apart_forgetCall taken.idle returned)
  next param rest now frame =>
    have taken : Apart servg
        { servg with rpcTimeoutList := servg.rpcTimeoutList.erase param } :=
      ⟨rfl, rfl, rfl, rfl, rfl, by simp [frame]⟩
    dsimp only at returned
    split at returned
    · cases returned
    next middle forgotten =>
      cases returned
      exact (taken.trans (apart_forgetCall taken.idle forgotten)).trans
        (apart_checkTimeouts now rest)
  · cases returned

/-- A packet for the server at the other end of an open connection. -/
theorem Sound.dispatch_bound (sound : servg.Sound) (frame : servg.frame = none) {conn opening : Nat}
    {pkt : GroupPacket} {env : Env} {after : ServGroup}
    (opened : (servg.conns conn).opened = true) (udata : (servg.conns conn).udata = some serv)
    (handled : servg.dispatch serv opening pkt env = some after) : after.Sound := by
  obtain ⟨lists, ordered, _⟩ := sound.order
  obtain ⟨own, mine⟩ := sound.own
  have bound := ordered.bound_of_open opened udata
  rw [dispatch] at handled
  split at handled
  · exact (apart_ihandleRpcBack frame handled).sound sound
  · split at handled
    · obtain ⟨rest, result⟩ := ordered.ihandleIdentifyBack bound handled
      exact result.sound mine (idle_of_none frame)
    · split at handled
      · obtain ⟨rest, result⟩ := ordered.ihandlePing bound handled
        exact result.sound mine (idle_of_none frame)
      · split at handled
        · cases handled
          obtain ⟨rest, result⟩ := ordered.ihandlePong pkt env mine bound
          exact result.sound mine (idle_of_none frame)
        · cases handled
          exact sound

/-- A packet this server has sent to itself. -/
theorem Sound.pollMyself (sound : servg.Sound) (frame : servg.frame = none) {env : Env}
    {after : ServGroup}
    (harmless : ∀ pkt ∈ servg.myselfQ.head?,
      pkt.fn ≠ sPktTypeIdentifyBack ∧ pkt.fn ≠ sPktTypePong)
    (handled : servg.pollMyself env = some after) : after.Sound := by
  obtain ⟨lists, ordered, cursor⟩ := sound.order
  obtain ⟨own, mine⟩ := sound.own
  rw [ServGroup.pollMyself] at handled
  split at handled
  next pkt rest serv queue myself =>
    obtain ⟨notBack, notPong⟩ := harmless pkt (by rw [queue]; rfl)
    have isOwn : serv = own := Option.some.inj (myself.symm.trans mine.myself)
    have popped : Apart servg { servg with myselfQ := rest } :=
      ⟨rfl, rfl, rfl, rfl, rfl, idle_of_none frame⟩
    rw [dispatch, if_neg notBack, if_neg notPong] at handled
    split at handled
    · exact (popped.trans (apart_ihandleRpcBack (by exact frame) handled)).sound sound
    · split at handled
      · rw [isOwn, ServGroup.ihandlePing] at handled
        dsimp only at handled
        split at handled
        · cases handled
        next conn atConn =>
          exfalso
          revert atConn
          generalize (if 2 ≤ pkt.words.length then pkt.words.drop 2 else pkt.words) = words
          cases words with
          | nil => simp [mine.conn]
          | cons mem others => simp [mine.conn]
      · cases handled
        exact popped.sound sound
  · cases handled

theorem Sound.sServgDoEvent (sound : servg.Sound) (frame : servg.frame = none) {conn : Nat}
    {pkt : GroupPacket} {env : Env} {after : ServGroup}
    (orderly : servg.Orderly (.receive conn pkt env))
    (handled : servg.sServgDoEvent conn pkt env = some after) : after.Sound := by
  obtain ⟨lists, ordered, _⟩ := sound.order
  obtain ⟨own, mine⟩ := sound.own
  rw [ServGroup.sServgDoEvent] at handled
  split at handled
  next udata =>
    obtain ⟨rest, result⟩ := ordered.ihandleIdentify orderly.1 udata (orderly.2 udata) handled
    exact result.sound mine (idle_of_none frame)
  next serv udata => exact sound.dispatch_bound frame orderly.1 udata handled

/-! ## The round of `s_servg_check_list` -/

theorem Sound.startCheckList (sound : servg.Sound) : servg.startCheckList.Sound := by
  obtain ⟨lists, ordered, _⟩ := sound.order
  obtain ⟨own, mine⟩ := sound.own
  have same : servg.startCheckList.Ordered lists none :=
    ordered.congr rfl rfl rfl rfl fun _ _ => ⟨rfl, rfl, rfl⟩
  refine ⟨⟨lists, same, ?_⟩, own, mine.myself, mine.entry, mine.flags, mine.conn, mine.rpcHash⟩
  intro p tmp frame
  simp only [ServGroup.startCheckList, Option.some.injEq, Frame.checking.injEq] at frame
  obtain ⟨rfl, rfl⟩ := frame
  exact ⟨(ordered.family.ring _).path.next_mem _ List.mem_cons_self, rfl⟩

/-- The cursors move on to a place of the list. -/
theorem sound_nextCheckList (ordered : servg.Ordered lists none) {own : ServAddr}
    (mine : servg.Own own) {tmp : ServRef}
    (inside : tmp ∈ LinkRef.head WaitList.waitForConn :: (lists .waitForConn).map .node) :
    (servg.nextCheckList tmp).Sound := by
  have same : (servg.nextCheckList tmp).Ordered lists none :=
    ordered.congr rfl rfl rfl rfl fun _ _ => ⟨rfl, rfl, rfl⟩
  refine ⟨⟨lists, same, ?_⟩, own, mine.myself, mine.entry, mine.flags, mine.conn, mine.rpcHash⟩
  intro p place frame
  simp only [nextCheckList, Option.some.injEq, Frame.checking.injEq] at frame
  obtain ⟨rfl, rfl⟩ := frame
  exact ⟨inside, rfl⟩

theorem Sound.checkListStep (sound : servg.Sound) {attempt : Attempt} {after : ServGroup}
    (orderly : servg.Orderly (.attempt attempt))
    (stepped : servg.checkListStep attempt = some after) : after.Sound := by
  obtain ⟨lists, ordered, cursor⟩ := sound.order
  obtain ⟨own, mine⟩ := sound.own
  have ended : ({ servg with frame := none } : ServGroup).Sound :=
    (⟨rfl, rfl, rfl, rfl, rfl, by simp⟩ : Apart servg { servg with frame := none }).sound sound
  rw [ServGroup.checkListStep] at stepped
  split at stepped
  next p tmp frame =>
    obtain ⟨atList, behind⟩ := cursor p tmp frame
    split at stepped
    · cases stepped
      exact ended
    next serv =>
      have waits := Links.node_mem_ring.mp atList
      have waiting := ordered.waiting serv waits (by simp)
      have tmpIn : tmp ∈ LinkRef.head WaitList.waitForConn :: (lists .waitForConn).map .node := by
        rw [behind]
        exact (ordered.family.ring _).path.next_mem _ atList
      dsimp only at stepped
      split at stepped
      · split at stepped
        · cases stepped
          exact ended
        · cases stepped
          exact sound_nextCheckList ordered mine tmpIn
        · cases stepped
        next conn env ip atIp =>
          rw [Option.map_eq_some_iff] at stepped
          obtain ⟨last, sent, rfl⟩ := stepped
          have vacant := ordered.vacant (ordered.listed _ serv waits) waiting.1
            (by rw [waiting.2]) (by rw [waiting.2])
          obtain ⟨rest, result, stays⟩ := vacant.connects orderly sent
          apply sound_nextCheckList result.ordered (result.own own mine)
          rcases List.mem_cons.mp tmpIn with atHead | listed
          · rw [atHead]
            exact List.mem_cons_self
          · obtain ⟨other, member, rfl⟩ := List.mem_map.mp listed
            apply Links.node_mem_ring.mpr
            apply stays _ other member
            rintro rfl
            apply (ordered.family.ring .waitForConn).next_ne listed
            exact behind.symm
      · cases stepped
  · cases stepped

/-! ## Steps -/

/-- **Orderly steps keep a group sound.** -/
theorem Sound.step (sound : servg.Sound) {event : Event} {after : ServGroup}
    (orderly : servg.Orderly event) (stepped : servg.step event = some after) : after.Sound := by
  obtain ⟨lists, ordered, cursor⟩ := sound.order
  obtain ⟨own, mine⟩ := sound.own
  cases event with
  | accept conn ip port =>
      rw [ServGroup.step] at stepped
      split at stepped
      · rename_i frame
        cases stepped
        refine ⟨⟨lists, ordered.openConn ip port orderly,
          cursor_of_not_checking (idle_of_none frame)⟩, own, mine.myself, mine.entry, mine.flags,
          mine.conn, mine.rpcHash⟩
      · cases stepped
  | checkList =>
      rw [ServGroup.step] at stepped
      split at stepped
      · cases stepped
        exact sound.startCheckList
      · cases stepped
  | attempt attempt => exact sound.checkListStep orderly stepped
  | own env =>
      rw [ServGroup.step] at stepped
      split at stepped
      · rename_i frame
        exact sound.pollMyself frame orderly stepped
      · cases stepped
  | timeouts now =>
      rw [ServGroup.step] at stepped
      split at stepped
      · cases stepped
        exact (apart_checkTimeouts now _).sound sound
      · cases stepped
  | receive conn pkt env =>
      rw [ServGroup.step] at stepped
      split at stepped
      · rename_i ready
        exact sound.sServgDoEvent ready.1 orderly stepped
      · cases stepped
  | closed conn =>
      rw [ServGroup.step] at stepped
      split at stepped
      · rename_i ready
        obtain ⟨rest, result⟩ := ordered.close orderly stepped
        exact result.sound mine (idle_of_none ready.1)
      · cases stepped
  | returned => exact (apart_afterCallback stepped).sound sound
  | connect type id ip port conn env =>
      rw [ServGroup.step] at stepped
      split at stepped
      · cases stepped
      · rename_i outside
        obtain ⟨rest, result⟩ := ordered.sServgConnect orderly stepped
        exact result.sound mine (idle_of_checks (Bool.eq_false_iff.mpr outside))
  | call serv pkt ud callback msecTimeout now env =>
      rw [ServGroup.step] at stepped
      split at stepped
      · cases stepped
      · rename_i outside
        obtain ⟨rest, result⟩ := ordered.sServgRpcCall orderly stepped
        exact result.sound mine (idle_of_checks (Bool.eq_false_iff.mpr outside))
  | send serv pkt env =>
      rw [ServGroup.step] at stepped
      split at stepped
      · cases stepped
      · rename_i outside
        obtain ⟨rest, result⟩ := ordered.isend orderly stepped
        exact result.sound mine (idle_of_checks (Bool.eq_false_iff.mpr outside))
  | ret serv reqId pkt env =>
      rw [ServGroup.step] at stepped
      split at stepped
      · cases stepped
      · rename_i outside
        obtain ⟨rest, result⟩ := ordered.isend orderly stepped
        exact result.sound mine (idle_of_checks (Bool.eq_false_iff.mpr outside))

end ServGroup

end SimpleDfs.ServerGroup
