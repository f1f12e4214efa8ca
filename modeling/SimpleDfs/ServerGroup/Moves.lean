import SimpleDfs.ServerGroup.Closing

/-!
Contract: the operations of a server group on a group in order.

Owns: what `s_servg_reset_serv`, `s_net_send`, `s_servg_connect`, `establish`,
`ihandle_identify`, `ihandle_identify_back`, `ihandle_ping` and `ihandle_pong`
leave of the order, each under the condition it needs.

Does not own: the steps these operations are part of.
-/

set_option autoImplicit false

namespace SimpleDfs.ServerGroup

open SimpleDfs.Common
open SimpleDfs.Library

namespace ServGroup

/-- An operation has kept the group in order, its own entry and its frame. -/
structure Result (before after : ServGroup) (rest : WaitList → List ServAddr) : Prop where
  ordered : after.Ordered rest none
  own : ∀ own, before.Own own → after.Own own
  frame : after.frame = before.frame

theorem Result.trans {first second third : ServGroup} {middle rest : WaitList → List ServAddr}
    (early : Result first second middle) (late : Result second third rest) :
    Result first third rest :=
  ⟨late.ordered, fun own mine => late.own own (early.own own mine), late.frame.trans early.frame⟩

variable {servg : ServGroup} {lists : WaitList → List ServAddr} {serv : ServAddr}

theorem Ordered.result (ordered : servg.Ordered lists none) : Result servg servg lists :=
  ⟨ordered, fun _ mine => mine, rfl⟩

/-- The group's own entry is none of the others. -/
theorem Own.elsewhere {own : ServAddr} {after : ServGroup} (mine : servg.Own own)
    (servs : after.servs = servg.servs) (myself : after.myself = servg.myself)
    (entries : ∀ other, other ≠ serv → after.entries other = servg.entries other)
    (different : own ≠ serv) : after.Own own := by
  have same := entries own different
  exact ⟨myself.trans mine.myself, servs ▸ mine.entry, same ▸ mine.flags, same ▸ mine.conn,
    same ▸ mine.rpcHash⟩

theorem modify_entries_other (f : SServer → SServer) {other : ServAddr}
    (different : other ≠ serv) : (servg.modify serv f).entries other = servg.entries other := by
  rw [modify_entries, if_neg different]

/-! ## Reset and send -/

theorem ClosedConn.result {after : ServGroup} {rest : WaitList → List ServAddr} {conn : Nat}
    (ordered : servg.Ordered lists none) (opened : (servg.conns conn).opened = true)
    (closed : servg.ClosedConn after lists rest conn) : Result servg after rest :=
  ⟨closed.ordered, fun _ mine => mine.closed ordered opened closed, closed.frame⟩

theorem Ordered.sNetSend (ordered : servg.Ordered lists none) {conn : Nat} {pkt : GroupPacket}
    {env : Env} {after : ServGroup} (opened : (servg.conns conn).opened = true)
    (sent : servg.sNetSend conn pkt env = some after) :
    ∃ rest, Result servg after rest ∧ ∀ list other, other ∈ lists list →
      (servg.conns conn).udata ≠ some other → other ∈ rest list := by
  have queued : ({ servg with sent := servg.sent ++ [(conn, pkt)] } : ServGroup).Ordered
      lists none := ordered.congr rfl rfl rfl rfl fun _ _ => ⟨rfl, rfl, rfl⟩
  rw [ServGroup.sNetSend] at sent
  split at sent
  · obtain ⟨rest, closed⟩ := queued.sNetClose opened sent
    refine ⟨rest, ⟨closed.ordered, ?_, closed.frame⟩, closed.lists⟩
    intro own mine
    have again : ({ servg with sent := servg.sent ++ [(conn, pkt)] } : ServGroup).Own own :=
      ⟨mine.myself, mine.entry, mine.flags, mine.conn, mine.rpcHash⟩
    exact again.closed queued opened closed
  · cases sent
    exact ⟨lists, ⟨queued, fun own mine => ⟨mine.myself, mine.entry, mine.flags, mine.conn,
      mine.rpcHash⟩, rfl⟩, fun _ _ member _ => member⟩

/-- The second reset of a server finds it detached. -/
theorem Detached.resetAgain (detached : servg.Detached lists serv)
    (ordered : servg.Ordered lists none) (entry : IsEntry servg.servs serv) :
    ∃ rest, ((servg.modify serv fun entry =>
      { entry with conn := none }).resetUnconnected serv).Ordered rest none := by
  have hole := (ordered.except serv).modify fun entry => { entry with conn := none }
  obtain ⟨rest, after, again, _⟩ := hole.resetUnconnected entry detached.place (by simp)
  refine ⟨rest, again.fill after ?_⟩
  intro conn opened udata
  rw [resetUnconnected_conns] at opened udata
  have atConn := (ordered.bound conn serv opened udata (by simp)).2
  rw [detached.conn] at atConn
  cases atConn

theorem Ordered.sServgResetServ (ordered : servg.Ordered lists none) {conn : Nat}
    {after : ServGroup} (entry : IsEntry servg.servs serv)
    (atConn : (servg.entries serv).conn = some conn)
    (reset : servg.sServgResetServ serv = some after) : ∃ rest, Result servg after rest := by
  have bound := ordered.held serv conn entry (by simp) atConn
  rw [ServGroup.sServgResetServ, atConn] at reset
  dsimp only at reset
  rw [Option.map_eq_some_iff] at reset
  obtain ⟨middle, closing, rfl⟩ := reset
  obtain ⟨rest, closed⟩ := ordered.sNetClose bound.1 closing
  obtain ⟨last, done⟩ := (closed.detached serv bound.2).resetAgain closed.ordered
    (closed.servs ▸ entry)
  refine ⟨last, done, ?_, resetUnconnected_frame.trans closed.frame⟩
  intro own mine
  have different : own ≠ serv := by
    rintro rfl
    rw [mine.conn] at atConn
    cases atConn
  have kept := mine.closed ordered bound.1 closed
  apply kept.elsewhere
  · exact resetUnconnected_servs
  · exact resetUnconnected_myself
  · intro other elsewhere
    rw [resetUnconnected_entries, modify_entries_other _ elsewhere,
      modify_entries_other _ elsewhere]
  · exact different

/-! ## Into a list of connected servers -/

/-- Move a server with a connection into a list of connected servers. -/
theorem Ordered.relist (ordered : servg.Ordered lists (some serv)) {conn : Nat}
    (entry : IsEntry servg.servs serv)
    (place : (∃ list, serv ∈ lists list) ∨ servg.links.Alone serv)
    (atConn : (servg.entries serv).conn = some conn) (opened : (servg.conns conn).opened = true)
    (udata : (servg.conns conn).udata = some serv)
    (only : ∀ other, (servg.conns other).opened = true → (servg.conns other).udata = some serv →
      other = conn)
    {list : WaitList} (notWaiting : list ≠ .waitForConn)
    (table : (servg.entries serv).flags.established = true → (servg.entries serv).rpcHash ≠ none) :
    ((servg.listDel serv).listInsertTail list serv).Ordered
      (Links.withLast (Links.without lists serv) list serv) none := by
  obtain ⟨deleted, _⟩ := ordered.listDel place
  have outside : ∀ list, serv ∉ Links.without lists serv list :=
    fun list member => (ordered.family.mem_without.mp member).1 rfl
  have inserted := deleted.listInsertTail entry list outside
  exact inserted.fill_connected entry atConn opened udata only list notWaiting
    (Links.mem_withLast.mpr (Or.inr ⟨rfl, rfl⟩)) table

/-- The server a packet on an open connection belongs to. -/
structure Bound (servg : ServGroup) (conn : Nat) (serv : ServAddr) : Prop where
  opened : (servg.conns conn).opened = true
  udata : (servg.conns conn).udata = some serv
  entry : IsEntry servg.servs serv
  conn : (servg.entries serv).conn = some conn

theorem Ordered.bound_of_open (ordered : servg.Ordered lists none) {conn : Nat}
    (opened : (servg.conns conn).opened = true) (udata : (servg.conns conn).udata = some serv) :
    servg.Bound conn serv :=
  have facts := ordered.bound conn serv opened udata (by simp)
  ⟨opened, udata, facts.1, facts.2⟩

theorem Bound.only {conn : Nat} (bound : servg.Bound conn serv)
    (ordered : servg.Ordered lists none) (other : Nat)
    (opened : (servg.conns other).opened = true) (udata : (servg.conns other).udata = some serv) :
    other = conn := by
  have again := (ordered.bound other serv opened udata (by simp)).2
  rw [bound.conn] at again
  exact (Option.some.inj again).symm

theorem Bound.place {conn : Nat} (bound : servg.Bound conn serv)
    (ordered : servg.Ordered lists none) : (∃ list, serv ∈ lists list) ∨ servg.links.Alone serv :=
  ordered.place bound.entry (by simp) (Or.inl (by simp [bound.conn]))

theorem Bound.not_own {conn : Nat} {own : ServAddr} (bound : servg.Bound conn serv)
    (mine : servg.Own own) : own ≠ serv := by
  rintro rfl
  have none := mine.conn
  rw [bound.conn] at none
  cases none

theorem Own.not_of_flags {own : ServAddr} (mine : servg.Own own)
    (flags : (servg.entries serv).flags.established = false) : own ≠ serv := by
  rintro rfl
  rw [mine.flags] at flags
  cases flags

/-! ## `ihandle_identify_back` and `ihandle_pong` -/

theorem Ordered.createHash (ordered : servg.Ordered lists (some serv)) :
    servg.createHash.Ordered lists (some serv) :=
  ordered.congr rfl rfl rfl rfl fun _ _ => ⟨rfl, rfl, rfl⟩

/-- A connected server that is written to and moved to the end of a list. -/
theorem Bound.relisted {conn : Nat} {after : ServGroup} (bound : servg.Bound conn serv)
    (ordered : servg.Ordered lists none) {middle : ServGroup} {list : WaitList}
    (notWaiting : list ≠ .waitForConn) (servs : middle.servs = servg.servs)
    (links : middle.links = servg.links) (conns : middle.conns = servg.conns)
    (myself : middle.myself = servg.myself) (frame : middle.frame = servg.frame)
    (entries : ∀ other, other ≠ serv → middle.entries other = servg.entries other)
    (atConn : (middle.entries serv).conn = some conn)
    (table : (middle.entries serv).flags.established = true →
      (middle.entries serv).rpcHash ≠ none)
    (moved : after = (middle.listDel serv).listInsertTail list serv) :
    ∃ rest, Result servg after rest := by
  subst moved
  have hole : middle.Ordered lists (some serv) := by
    refine (ordered.except serv).congr servs links conns myself ?_
    intro other inside
    rw [entries other fun same => inside (same ▸ rfl)]
    exact ⟨rfl, rfl, rfl⟩
  refine ⟨_, hole.relist (servs ▸ bound.entry) (links ▸ bound.place ordered) atConn
    (conns ▸ bound.opened) (conns ▸ bound.udata) ?_ notWaiting table, ?_, frame⟩
  · rw [conns]
    exact bound.only ordered
  · intro own mine
    exact mine.elsewhere servs myself entries (bound.not_own mine)

theorem Ordered.ihandleIdentifyBack (ordered : servg.Ordered lists none) {conn : Nat}
    {pkt : GroupPacket} {after : ServGroup} (bound : servg.Bound conn serv)
    (handled : servg.ihandleIdentifyBack serv pkt = some after) :
    ∃ rest, Result servg after rest := by
  rw [ServGroup.ihandleIdentifyBack] at handled
  split at handled
  next ret mem rest shape =>
    split at handled
    · let middle := ((servg.modify serv fun entry =>
        { entry with mem := mem, reqId := 1, rpcHash := some servg.nhashes }).createHash).modify
          serv fun entry => { entry with flags := { entry.flags with established := true } }
      have entries : ∀ other, other ≠ serv → middle.entries other = servg.entries other := by
        intro other different
        simp [middle, ServGroup.createHash, modify_entries, different]
      have atConn : (middle.entries serv).conn = some conn := by
        simp [middle, ServGroup.createHash, bound.conn]
      have table : (middle.entries serv).rpcHash ≠ none := by
        simp [middle, ServGroup.createHash]
      have moved : (middle.listDel serv).listInsertTail .waitForPing serv = after :=
        Option.some.inj handled
      exact @Bound.relisted _ _ _ _ _ bound ordered middle .waitForPing (by simp) rfl rfl rfl rfl
        rfl entries atConn (fun _ => table) moved.symm
    · exact ordered.sServgResetServ bound.entry bound.conn handled
  · exact ordered.sServgResetServ bound.entry bound.conn handled

theorem Ordered.ihandlePong (ordered : servg.Ordered lists none) {conn : Nat}
    (pkt : GroupPacket) (env : Env) {own : ServAddr} (mine : servg.Own own)
    (bound : servg.Bound conn serv) : ∃ rest, Result servg (servg.ihandlePong serv pkt env) rest := by
  unfold ServGroup.ihandlePong
  split
  next mem _ _ =>
    let middle :=
      (servg.modify serv fun entry => { entry with mem := mem }).noteDelay serv env.lowerDelay
    have entries : ∀ other, other ≠ serv → middle.entries other = servg.entries other := by
      intro other different
      simp [middle, noteDelay, modify_entries, different]
    have atSelf : middle.entries serv = { servg.entries serv with mem := mem } := by
      simp [middle, noteDelay]
    have table : (middle.entries serv).flags.established = true →
        (middle.entries serv).rpcHash ≠ none := by
      rw [atSelf]
      intro established
      refine (ordered.established serv bound.entry (by simp) established ?_).2
      rw [mine.myself]
      exact fun same => bound.not_own mine (Option.some.inj same)
    exact @Bound.relisted _ _ _ _ _ bound ordered middle .waitForPing (by simp) rfl rfl rfl rfl rfl
      entries (by rw [atSelf]; exact bound.conn) table rfl
  · exact ⟨lists, ordered.result⟩

/-- An entry that is only written to where the order does not look. -/
theorem Own.modify_quiet {own : ServAddr} (mine : servg.Own own) (serv : ServAddr)
    {f : SServer → SServer} (quiet : ∀ entry, (f entry).conn = entry.conn ∧
      (f entry).flags = entry.flags ∧ (f entry).rpcHash = entry.rpcHash) :
    (servg.modify serv f).Own own := by
  have same : ((servg.modify serv f).entries own).conn = (servg.entries own).conn ∧
      ((servg.modify serv f).entries own).flags = (servg.entries own).flags ∧
      ((servg.modify serv f).entries own).rpcHash = (servg.entries own).rpcHash := by
    rw [modify_entries]
    split
    · rename_i at_serv
      rw [at_serv]
      exact quiet _
    · exact ⟨rfl, rfl, rfl⟩
  exact ⟨mine.myself, mine.entry, same.2.1.trans mine.flags, same.1.trans mine.conn,
    same.2.2.symm ▸ mine.rpcHash⟩

theorem Ordered.result_quiet (ordered : servg.Ordered lists none) (serv : ServAddr)
    {f : SServer → SServer} (quiet : ∀ entry, (f entry).conn = entry.conn ∧
      (f entry).flags = entry.flags ∧ (f entry).rpcHash = entry.rpcHash) :
    Result servg (servg.modify serv f) lists :=
  ⟨ordered.modify_quiet serv quiet, fun _ mine => mine.modify_quiet serv quiet, rfl⟩

theorem Ordered.ihandlePing (ordered : servg.Ordered lists none) {conn : Nat} {pkt : GroupPacket}
    {env : Env} {after : ServGroup} (bound : servg.Bound conn serv)
    (handled : servg.ihandlePing serv pkt env = some after) :
    ∃ rest, Result servg after rest := by
  rw [ServGroup.ihandlePing] at handled
  dsimp only at handled
  generalize (if 2 ≤ pkt.words.length then pkt.words.drop 2 else pkt.words) = words at handled
  cases words with
  | nil =>
      dsimp only at handled
      rw [bound.conn] at handled
      obtain ⟨rest, result, _⟩ := ordered.sNetSend bound.opened handled
      exact ⟨rest, result⟩
  | cons mem others =>
      have noted : Result servg (servg.modify serv fun entry => { entry with mem := mem }) lists :=
        ordered.result_quiet serv fun _ => ⟨rfl, rfl, rfl⟩
      dsimp only at handled
      rw [modify_entries_self] at handled
      dsimp only at handled
      rw [bound.conn] at handled
      obtain ⟨rest, result, _⟩ := noted.ordered.sNetSend bound.opened handled
      exact ⟨rest, noted.trans result⟩

/-! ## A server takes a connection -/

/-- A server without a connection, left out of the order. -/
structure Vacant (servg : ServGroup) (lists : WaitList → List ServAddr) (serv : ServAddr) :
    Prop where
  ordered : servg.Ordered lists (some serv)
  entry : IsEntry servg.servs serv
  place : (∃ list, serv ∈ lists list) ∨ servg.links.Alone serv
  unbound : ∀ conn, (servg.conns conn).opened = true → (servg.conns conn).udata ≠ some serv
  quiet : (servg.entries serv).flags.established = false

theorem Created.vacant {after : ServGroup} (created : servg.Created after lists serv) :
    after.Vacant lists serv :=
  ⟨created.pushed.ordered, created.pushed.fresh.entry, Or.inr created.alone,
    created.pushed.fresh.unbound, by rw [created.flags]⟩

/-- A server of the configuration that has no connection. -/
theorem Ordered.vacant (ordered : servg.Ordered lists none) (entry : IsEntry servg.servs serv)
    (conn : (servg.entries serv).conn = none)
    (inConfig : (servg.entries serv).flags.inConfig = true)
    (quiet : (servg.entries serv).flags.established = false) : servg.Vacant lists serv := by
  refine ⟨ordered.except serv, entry, ordered.place entry (by simp) (Or.inr inConfig), ?_, quiet⟩
  intro place opened udata
  have atConn := (ordered.bound place serv opened udata (by simp)).2
  rw [conn] at atConn
  cases atConn

/-- The server takes a connection that has none and moves to the end of a
list. -/
theorem Vacant.takes (vacant : servg.Vacant lists serv) {middle : ServGroup} {conn : Nat}
    {list : WaitList} (notWaiting : list ≠ .waitForConn)
    (opened : (servg.conns conn).opened = true) (free : (servg.conns conn).udata = none)
    (servs : middle.servs = servg.servs) (links : middle.links = servg.links)
    (myself : middle.myself = servg.myself) (frame : middle.frame = servg.frame)
    (conns : middle.conns = (servg.setUdata conn serv).conns)
    (entries : ∀ other, other ≠ serv → middle.entries other = servg.entries other)
    (atConn : (middle.entries serv).conn = some conn)
    (table : (middle.entries serv).flags.established = true →
      (middle.entries serv).rpcHash ≠ none) :
    Result servg ((middle.listDel serv).listInsertTail list serv)
      (Links.withLast (Links.without lists serv) list serv) := by
  have hole : middle.Ordered lists (some serv) := by
    refine (vacant.ordered.setUdata (Or.inl free)).congr servs links conns myself ?_
    intro other inside
    rw [entries other fun same => inside (same ▸ rfl)]
    exact ⟨rfl, rfl, rfl⟩
  refine ⟨hole.relist (servs ▸ vacant.entry) (links ▸ vacant.place) atConn ?_ ?_ ?_ notWaiting
    table, ?_, frame⟩
  · rw [conns]
    simp [ServGroup.setUdata, opened]
  · rw [conns]
    simp [ServGroup.setUdata]
  · intro other otherOpened otherUdata
    by_contra different
    rw [conns] at otherOpened otherUdata
    simp only [ServGroup.setUdata, Function.update_of_ne different] at otherOpened otherUdata
    exact vacant.unbound other otherOpened otherUdata
  · intro own mine
    exact mine.elsewhere servs myself entries (mine.not_of_flags vacant.quiet)

/-- The end of `ihandle_identify`. -/
theorem Vacant.establish (vacant : servg.Vacant lists serv) {conn : Nat} {mem : BitVec 32}
    {env : Env} {after : ServGroup} (opened : (servg.conns conn).opened = true)
    (free : (servg.conns conn).udata = none)
    (established : servg.establish conn serv mem env = some after) :
    ∃ rest, Result servg after rest := by
  rw [ServGroup.establish] at established
  let noted := (servg.modify serv fun entry => { entry with mem := mem }).setUdata conn serv
  let middle := (noted.modify serv fun entry =>
    { entry with
      conn := some conn
      ip := some (noted.conns conn).ip
      port := (noted.conns conn).port
      flags := { entry.flags with established := true }
      reqId := 1
      rpcHash := some noted.nhashes }).createHash
  have entries : ∀ other, other ≠ serv → middle.entries other = servg.entries other := by
    intro other different
    simp [middle, noted, ServGroup.createHash, ServGroup.setUdata, modify_entries, different]
  have atConn : (middle.entries serv).conn = some conn := by
    simp [middle, ServGroup.createHash]
  have table : (middle.entries serv).rpcHash ≠ none := by
    simp [middle, ServGroup.createHash]
  have taken := @Vacant.takes _ _ _ vacant middle conn .waitForPing (by simp) opened free rfl rfl
    rfl rfl rfl entries atConn fun _ => table
  have open_ : (middle.conns conn).opened = true := by
    simp [middle, noted, ServGroup.createHash, ServGroup.modify, ServGroup.setUdata, opened]
  obtain ⟨rest, sent, _⟩ := taken.ordered.sNetSend open_ established
  exact ⟨rest, taken.trans sent⟩

/-- A connection is opened and given to the server, which waits for the answer
to its identification. -/
theorem Vacant.connects (vacant : servg.Vacant lists serv) {conn : Nat} {ip : String} {port : Int}
    {pkt : GroupPacket} {env : Env} {after : ServGroup}
    (closed : (servg.conns conn).opened = false)
    (sent : ((((((servg.openConn conn ip port).modify serv fun entry =>
      { entry with conn := some conn }).setUdata conn serv).listDel serv).listInsertTail
        .waitForIdentify serv).sNetSend conn pkt env) = some after) :
    ∃ rest, Result servg after rest ∧ ListsStay lists rest serv := by
  let opening := servg.openConn conn ip port
  have opened : (opening.conns conn).opened = true := by
    simp [opening, ServGroup.openConn]
  have fresh : (opening.conns conn).udata = none := by
    simp [opening, ServGroup.openConn]
  have still : opening.Vacant lists serv := by
    refine ⟨vacant.ordered.openConn ip port closed, vacant.entry, vacant.place, ?_, vacant.quiet⟩
    intro other otherOpened udata
    by_cases same : other = conn
    · subst same
      rw [fresh] at udata
      cases udata
    · simp only [opening, ServGroup.openConn, Function.update_of_ne same] at otherOpened udata
      exact vacant.unbound other otherOpened udata
  let middle := (opening.modify serv fun entry => { entry with conn := some conn }).setUdata conn serv
  have entries : ∀ other, other ≠ serv → middle.entries other = opening.entries other := by
    intro other different
    simp [middle, ServGroup.setUdata, modify_entries, different]
  have atSelf : middle.entries serv = { servg.entries serv with conn := some conn } := by
    simp [middle, opening, ServGroup.setUdata, ServGroup.openConn]
  have table : (middle.entries serv).flags.established = true →
      (middle.entries serv).rpcHash ≠ none := by
    rw [atSelf]
    intro established
    rw [vacant.quiet] at established
    cases established
  have taken := @Vacant.takes _ _ _ still middle conn .waitForIdentify (by simp) opened fresh rfl
    rfl rfl rfl rfl entries (by rw [atSelf]) table
  have open_ : (middle.conns conn).opened = true := by
    simp [middle, ServGroup.modify, ServGroup.setUdata, opened]
  have udata : (middle.conns conn).udata = some serv := by
    simp [middle, ServGroup.setUdata]
  obtain ⟨rest, last, stays⟩ := taken.ordered.sNetSend open_ sent
  refine ⟨rest, ⟨last.ordered, ?_, last.frame⟩, ?_⟩
  · intro own mine
    exact last.own own (taken.own own ⟨mine.myself, mine.entry, mine.flags, mine.conn,
      mine.rpcHash⟩)
  · intro list other member different
    apply stays list other
    · exact Links.mem_withLast.mpr (Or.inl (List.mem_erase_of_ne different |>.mpr member))
    · change (middle.conns conn).udata ≠ some other
      rw [udata]
      exact fun same => different (Option.some.inj same).symm

/-- A server on its own need not be taken out of a list. -/
theorem listDel_of_alone (alone : servg.links.Alone serv) : servg.listDel serv = servg := by
  rw [ServGroup.listDel, sListDel_of_alone alone, sListInit,
    Links.loop_of_loop alone.path.1 alone.path.2]

/-- A created server connects without leaving a list. -/
theorem Created.connects {after last : ServGroup} {conn : Nat} {ip : String} {port : Int}
    {pkt : GroupPacket} {env : Env} (created : servg.Created after lists serv)
    (closed : (after.conns conn).opened = false)
    (sent : (((((after.openConn conn ip port).modify serv fun entry =>
      { entry with conn := some conn }).setUdata conn serv).listInsertTail
        .waitForIdentify serv).sNetSend conn pkt env) = some last) :
    ∃ rest, Result after last rest := by
  have alone : (((after.openConn conn ip port).modify serv fun entry =>
      { entry with conn := some conn }).setUdata conn serv).links.Alone serv := created.alone
  rw [← listDel_of_alone alone] at sent
  obtain ⟨rest, result, _⟩ := created.vacant.connects closed sent
  exact ⟨rest, result⟩

end ServGroup

end SimpleDfs.ServerGroup
