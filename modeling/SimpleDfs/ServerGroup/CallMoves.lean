import SimpleDfs.ServerGroup.CallEffects

/-!
Contract: the calls of a server group under the operations of the group.

Owns: what closing a connection, resetting, sending, connecting, establishing
and creating a server do to the calls; which of these need a quiet server.

Does not own: the steps these operations are part of.
-/

set_option autoImplicit false

namespace SimpleDfs.ServerGroup

open SimpleDfs.Common
open SimpleDfs.Library

namespace ServGroup

variable {servg after : ServGroup} {lists : WaitList → List ServAddr} {serv : ServAddr} {conn : Nat}

/-! ## Writes that leave the calls alone -/

/-- Write to fields of an entry that the calls do not depend on. -/
theorem callsKept_modify (serv : ServAddr) {f : SServer → SServer}
    (quiet : ∀ entry, (f entry).conn = entry.conn ∧ (f entry).flags = entry.flags ∧
      (f entry).rpcHash = entry.rpcHash ∧ (f entry).reqId = entry.reqId) :
    CallsKept servg (servg.modify serv f) := by
  have same : ∀ other, ((servg.modify serv f).entries other).conn = (servg.entries other).conn ∧
      ((servg.modify serv f).entries other).flags = (servg.entries other).flags ∧
      ((servg.modify serv f).entries other).rpcHash = (servg.entries other).rpcHash ∧
      ((servg.modify serv f).entries other).reqId = (servg.entries other).reqId := by
    intro other
    rw [modify_entries]
    split
    · rename_i atServ
      rw [atServ]
      exact quiet _
    · exact ⟨rfl, rfl, rfl, rfl⟩
  apply CallsKept.of_entries
  · rfl
  · exact fun other => by rw [(same other).2.1]
  · exact fun other _ => (same other).2.2
  · exact fun other _ _ => openingOf_congr (same other).1 fun _ _ => rfl
  · rfl

/-- Write to a server that is down and stays down. -/
theorem callsKept_modify_down {f : SServer → SServer}
    (down : (servg.entries serv).flags.established = false)
    (still : (f (servg.entries serv)).flags.established = false) :
    CallsKept servg (servg.modify serv f) := by
  have elsewhere : ∀ other, (servg.entries other).flags.established = true → other ≠ serv := by
    rintro other up rfl
    rw [down] at up
    cases up
  apply CallsKept.of_entries
  · rfl
  · intro other
    rw [modify_entries]
    split
    · rename_i atServ
      rw [still, atServ, down]
    · rfl
  · intro other up
    rw [modify_entries_other _ (elsewhere other up)]
    exact ⟨rfl, rfl⟩
  · intro other hash live
    apply openingOf_congr
    · rw [modify_entries_other _ (elsewhere other live.established)]
    · exact fun _ _ => rfl
  · rfl

theorem callsKept_links (links : Links ServRef) : CallsKept servg { servg with links := links } :=
  CallsKept.of_same rfl rfl (fun _ => rfl) rfl

theorem opening_setUdata (place : Nat) :
    ((servg.setUdata conn serv).conns place).opening = (servg.conns place).opening := by
  change (Function.update servg.conns conn _ place).opening = _
  rw [Function.update_apply]
  split
  · rename_i same
    rw [same]
  · rfl

theorem opening_putConn (place : Nat) :
    ((servg.putConn conn).conns place).opening = (servg.conns place).opening := by
  change (Function.update servg.conns conn _ place).opening = _
  rw [Function.update_apply]
  split
  · rename_i same
    rw [same]
  · rfl

theorem callsKept_setUdata : CallsKept servg (servg.setUdata conn serv) :=
  CallsKept.of_same rfl rfl (fun _ => openingOf_congr rfl fun place _ => opening_setUdata place) rfl

theorem callsKept_putConn : CallsKept servg (servg.putConn conn) :=
  CallsKept.of_same rfl rfl (fun _ => openingOf_congr rfl fun place _ => opening_putConn place) rfl

/-- A connection is opened that no established server has. -/
theorem Ordered.callsKept_openConn {hole : Option ServAddr} (ordered : servg.Ordered lists hole)
    (down : ∀ serv ∈ hole, (servg.entries serv).flags.established = false)
    (ip : String) (port : Int) (closed : (servg.conns conn).opened = false) :
    CallsKept servg (servg.openConn conn ip port) := by
  apply CallsKept.of_entries
  · rfl
  · exact fun _ => rfl
  · exact fun _ _ => ⟨rfl, rfl⟩
  · intro other hash live
    refine openingOf_congr rfl fun place atPlace => ?_
    have inside : hole ≠ some other := by
      rintro rfl
      have quiet := down other rfl
      rw [live.established] at quiet
      cases quiet
    have held := ordered.held other place live.entry inside atPlace
    have different : place ≠ conn := by
      rintro rfl
      rw [held.1] at closed
      cases closed
    rw [ServGroup.openConn]
    dsimp only
    rw [Function.update_of_ne different]
  · rfl

theorem resetUnconnected_part : (servg.resetUnconnected serv).callPart = servg.callPart := by
  unfold resetUnconnected
  dsimp only
  split_ifs <;> rfl

theorem openingOf_resetUnconnected (other : ServAddr) :
    (servg.resetUnconnected serv).openingOf other = servg.openingOf other := by
  apply openingOf_congr
  · rw [resetUnconnected_entries, modify_entries]
    split
    · rename_i same
      rw [same]
    · rfl
  · exact fun place _ => by rw [resetUnconnected_conns]

/-- A server that is down is reset. -/
theorem callsKept_resetUnconnected (down : (servg.entries serv).flags.established = false) :
    CallsKept servg (servg.resetUnconnected serv) := by
  have still : CallsKept servg (servg.modify serv fun entry =>
      { entry with flags := { inConfig := entry.flags.inConfig } }) :=
    callsKept_modify_down down rfl
  have live : ∀ other hash, (servg.resetUnconnected serv).Live other hash ↔
      (servg.modify serv fun entry =>
        { entry with flags := { inConfig := entry.flags.inConfig } }).Live other hash :=
    fun _ _ => live_congr resetUnconnected_servs resetUnconnected_entries
  refine ⟨?_, fun other _ _ => openingOf_resetUnconnected other, ?_, resetUnconnected_part⟩
  · intro other hash
    exact (live other hash).trans (still.live other hash)
  · intro other hash live
    rw [resetUnconnected_entries]
    exact still.counter other hash live

/-! ## Closing -/

/-- The table of an established server is released when its connection is
closed. -/
theorem Bound.released {hash : Nat} (bound : servg.Bound conn serv)
    (table : (servg.entries serv).rpcHash = some hash) :
    Released servg
      ((((servg.modify serv fun entry => { entry with conn := none }).releaseCalls hash
        (servg.conns conn).opening).resetUnconnected serv).putConn conn) serv hash := by
  let middle := (servg.modify serv fun entry => { entry with conn := none }).releaseCalls hash
    (servg.conns conn).opening
  have atServ : (middle.resetUnconnected serv).entries serv =
      { servg.entries serv with
        conn := none
        flags := { inConfig := (servg.entries serv).flags.inConfig } } := by
    rw [resetUnconnected_entries, modify_entries_self]
    simp [middle, releaseCalls]
  have elsewhere : ∀ other, other ≠ serv →
      (middle.resetUnconnected serv).entries other = servg.entries other := by
    intro other different
    rw [resetUnconnected_entries, modify_entries_other _ different]
    simp [middle, releaseCalls, modify_entries_other _ different]
  have servs : (middle.resetUnconnected serv).servs = servg.servs := resetUnconnected_servs
  have conns : (middle.resetUnconnected serv).conns = servg.conns := resetUnconnected_conns
  have put : CallsKept (middle.resetUnconnected serv)
      ((middle.resetUnconnected serv).putConn conn) := callsKept_putConn
  refine ⟨?_, ?_, ?_, ?_⟩
  · intro other table
    rw [put.live]
    constructor
    · intro live
      have different : other ≠ serv := by
        rintro rfl
        have up := live.established
        rw [atServ] at up
        cases up
      have same := elsewhere other different
      exact ⟨⟨servs ▸ live.entry, same ▸ live.established, same ▸ live.table⟩, different⟩
    · rintro ⟨live, different⟩
      have same := elsewhere other different
      exact ⟨servs ▸ live.entry, same ▸ live.established, same ▸ live.table⟩
  · intro other table _ different
    apply openingOf_congr
    · exact congrArg SServer.conn (elsewhere other different)
    · intro place _
      refine (opening_putConn place).trans ?_
      rw [resetUnconnected_conns]
      rfl
  · exact fun other table _ different => congrArg SServer.reqId (elsewhere other different)
  · have opening : servg.openingOf serv = (servg.conns conn).opening := by
      rw [openingOf, bound.conn]
    rw [opening]
    exact resetUnconnected_part

/-- **Closing a connection accounts for every call** if the server is quiet. -/
theorem Accounted.sNetClose (accounted : servg.Accounted)
    (bound : ∀ serv, (servg.conns conn).udata = some serv → servg.Bound conn serv)
    (quiet : ∀ serv, (servg.conns conn).udata = some serv → servg.Quiet serv)
    (closed : servg.sNetClose conn = some after) : Proceeds servg after := by
  rw [ServGroup.sNetClose, Option.map_eq_some_iff] at closed
  obtain ⟨middle, handled, rfl⟩ := closed
  rw [iwhenConnClosed] at handled
  split at handled
  · cases handled
    exact Proceeds.of_kept accounted callsKept_putConn
  next serv udata =>
    have server := bound serv udata
    dsimp only at handled
    rw [modify_entries_self] at handled
    dsimp only at handled
    split at handled
    · rename_i up
      split at handled
      · cases handled
      · rename_i hash table
        cases handled
        exact (server.released table).proceeds accounted ⟨server.entry, up, table⟩
          (quiet serv udata)
    · rename_i down
      cases handled
      have isDown := Bool.eq_false_iff.mpr down
      have cleared : CallsKept servg (servg.modify serv fun entry =>
          { entry with conn := none }) := callsKept_modify_down isDown isDown
      have reset := @callsKept_resetUnconnected
        (servg.modify serv fun entry => { entry with conn := none }) serv
        (by rw [modify_entries_self]; exact isDown)
      exact Proceeds.of_kept accounted ((cleared.trans reset).trans callsKept_putConn)

theorem Accounted.sNetSend (accounted : servg.Accounted) {pkt : GroupPacket} {env : Env}
    (bound : ∀ serv, (servg.conns conn).udata = some serv → servg.Bound conn serv)
    (quiet : env.writeFails = true → ∀ serv, (servg.conns conn).udata = some serv →
      servg.Quiet serv)
    (sent : servg.sNetSend conn pkt env = some after) : Proceeds servg after := by
  have queued : CallsKept servg { servg with sent := servg.sent ++ [(conn, pkt)] } :=
    CallsKept.of_same rfl rfl (fun _ => rfl) rfl
  have first := Proceeds.of_kept accounted queued
  rw [ServGroup.sNetSend] at sent
  split at sent
  · rename_i fails
    apply first.trans accounted
    refine first.accounted.sNetClose ?_ (quiet fails) sent
    intro serv udata
    have server := bound serv udata
    exact ⟨server.opened, server.udata, server.entry, server.conn⟩
  · cases sent
    exact first

/-- What is sent to a server that is down may fail. -/
theorem Accounted.sNetSend_down (accounted : servg.Accounted) {pkt : GroupPacket} {env : Env}
    (bound : ∀ serv, (servg.conns conn).udata = some serv → servg.Bound conn serv)
    (down : ∀ serv, (servg.conns conn).udata = some serv →
      (servg.entries serv).flags.established = false)
    (sent : servg.sNetSend conn pkt env = some after) : Proceeds servg after :=
  accounted.sNetSend bound (fun _ serv udata => accounted.quiet (down serv udata)) sent

/-- The server of a connection, if it has one, is bound to it. -/
theorem Bound.of_udata (bound : servg.Bound conn serv) (other : ServAddr)
    (udata : (servg.conns conn).udata = some other) : servg.Bound conn other := by
  rw [bound.udata] at udata
  exact Option.some.inj udata ▸ bound

theorem Accounted.sServgResetServ (accounted : servg.Accounted)
    (ordered : servg.Ordered lists none) (bound : servg.Bound conn serv)
    (quiet : servg.Quiet serv) (reset : servg.sServgResetServ serv = some after) :
    Proceeds servg after := by
  rw [ServGroup.sServgResetServ, bound.conn] at reset
  dsimp only at reset
  rw [Option.map_eq_some_iff] at reset
  obtain ⟨middle, closing, rfl⟩ := reset
  have first : Proceeds servg middle := by
    refine accounted.sNetClose bound.of_udata ?_ closing
    intro other udata
    rw [bound.udata] at udata
    exact Option.some.inj udata ▸ quiet
  obtain ⟨rest, closed⟩ := ordered.sNetClose bound.opened closing
  have down := (closed.detached serv bound.udata).established
  have cleared : CallsKept middle (middle.modify serv fun entry => { entry with conn := none }) :=
    callsKept_modify_down down down
  have again := @callsKept_resetUnconnected
    (middle.modify serv fun entry => { entry with conn := none }) serv
    (by rw [modify_entries_self]; exact down)
  exact first.trans accounted (Proceeds.of_kept first.accounted (cleared.trans again))

/-! ## Establishing -/

/-- Only the server that is established changes. -/
theorem Tabled.of_entries {before : ServGroup}
    (down : (before.entries serv).flags.established = false) (entry : IsEntry before.servs serv)
    (servs : after.servs = before.servs)
    (others : ∀ other, other ≠ serv → after.entries other = before.entries other)
    (up : (after.entries serv).flags.established = true)
    (table : (after.entries serv).rpcHash = some before.nhashes)
    (opening : ∀ conn, (after.conns conn).opening = (before.conns conn).opening)
    (part : after.callPart = before.createHash.callPart) : Tabled before after serv := by
  have elsewhere : ∀ other hash, before.Live other hash → other ≠ serv := by
    rintro other hash live rfl
    have isUp := live.established
    rw [down] at isUp
    cases isUp
  refine ⟨?_, down, ?_, ?_, part⟩
  · intro other hash
    constructor
    · intro live
      by_cases same : other = serv
      · subst same
        exact Or.inr ⟨rfl, Option.some.inj (live.table.symm.trans table)⟩
      · have stays := others other same
        exact Or.inl ⟨servs ▸ live.entry, stays ▸ live.established, stays ▸ live.table⟩
    · rintro (live | ⟨rfl, rfl⟩)
      · have stays := others other (elsewhere other hash live)
        exact ⟨servs ▸ live.entry, stays ▸ live.established, stays ▸ live.table⟩
      · exact ⟨servs ▸ entry, up, table⟩
  · intro other hash live
    exact openingOf_congr (congrArg SServer.conn (others other (elsewhere other hash live)))
      fun place _ => opening place
  · exact fun other hash live =>
      congrArg SServer.reqId (others other (elsewhere other hash live))

/-- An answer to an identification that can be read and is yes. -/
def accepts (pkt : GroupPacket) : Bool :=
  match pkt.words with
  | ret :: _ :: _ => decide (ret.toInt = 1)
  | _ => false

/-- A yes needs a server that is down, any other answer a quiet one. -/
theorem Accounted.ihandleIdentifyBack (accounted : servg.Accounted)
    (ordered : servg.Ordered lists none) (bound : servg.Bound conn serv) {pkt : GroupPacket}
    (yes : accepts pkt = true → (servg.entries serv).flags.established = false)
    (no : accepts pkt = false → servg.Quiet serv)
    (handled : servg.ihandleIdentifyBack serv pkt = some after) : Proceeds servg after := by
  rw [ServGroup.ihandleIdentifyBack] at handled
  split at handled
  next ret mem rest shape =>
    rw [accepts, shape] at yes no
    dsimp only at yes no
    split at handled
    · rename_i isYes
      cases handled
      refine Tabled.proceeds (Tabled.of_entries (yes (by simpa using isYes)) bound.entry rfl ?_ ?_
        ?_ (fun _ => rfl) rfl) accounted
      · intro other different
        simp [ServGroup.listInsertTail, ServGroup.listDel, ServGroup.createHash, modify_entries,
          different]
      · simp
      · simp [ServGroup.listInsertTail, ServGroup.listDel, ServGroup.createHash]
    · rename_i isNo
      exact accounted.sServgResetServ ordered bound (no (by simpa using isNo)) handled
  · rename_i unreadable
    apply accounted.sServgResetServ ordered bound (no _) handled
    rw [accepts]
    split
    · rename_i shape
      exact absurd shape (unreadable _ _ _)
    · rfl

theorem Accounted.ihandlePing (accounted : servg.Accounted) (bound : servg.Bound conn serv)
    {pkt : GroupPacket} {env : Env} (quiet : env.writeFails = true → servg.Quiet serv)
    (handled : servg.ihandlePing serv pkt env = some after) : Proceeds servg after := by
  rw [ServGroup.ihandlePing] at handled
  dsimp only at handled
  generalize (if 2 ≤ pkt.words.length then pkt.words.drop 2 else pkt.words) = words at handled
  have only : ∀ other, (servg.conns conn).udata = some other → other = serv := by
    intro other udata
    rw [bound.udata] at udata
    exact (Option.some.inj udata).symm
  cases words with
  | nil =>
      dsimp only at handled
      rw [bound.conn] at handled
      apply accounted.sNetSend bound.of_udata _ handled
      exact fun fails other udata => only other udata ▸ quiet fails
  | cons mem others =>
      have noted : CallsKept servg (servg.modify serv fun entry => { entry with mem := mem }) :=
        callsKept_modify serv fun _ => ⟨rfl, rfl, rfl, rfl⟩
      have first := Proceeds.of_kept accounted noted
      dsimp only at handled
      rw [modify_entries_self] at handled
      dsimp only at handled
      rw [bound.conn] at handled
      apply first.trans accounted
      refine first.accounted.sNetSend ?_ ?_ handled
      · intro other udata
        rw [only other udata]
        refine ⟨bound.opened, bound.udata, bound.entry, ?_⟩
        rw [modify_entries_self]
        exact bound.conn
      · intro fails other udata
        rw [only other udata]
        exact quiet fails

theorem callsKept_ihandlePong (pkt : GroupPacket) (env : Env) :
    CallsKept servg (servg.ihandlePong serv pkt env) := by
  unfold ServGroup.ihandlePong
  split
  next mem _ _ =>
    have noted : CallsKept servg (servg.modify serv fun entry => { entry with mem := mem }) :=
      callsKept_modify serv fun _ => ⟨rfl, rfl, rfl, rfl⟩
    exact noted.trans (CallsKept.of_same rfl rfl (fun _ => rfl) rfl)
  · exact CallsKept.refl servg

/-- The group after `ihandle_identify` has bound the server to the connection. -/
def tied (servg : ServGroup) (conn : Nat) (serv : ServAddr) (mem : BitVec 32) : ServGroup :=
  let noted := (servg.modify serv fun entry => { entry with mem := mem }).setUdata conn serv
  (noted.modify serv fun entry =>
    { entry with
      conn := some conn
      ip := some (noted.conns conn).ip
      port := (noted.conns conn).port
      flags := { entry.flags with established := true }
      reqId := 1
      rpcHash := some noted.nhashes }).createHash

theorem establish_eq (mem : BitVec 32) (env : Env) :
    servg.establish conn serv mem env =
      (((servg.tied conn serv mem).listDel serv).listInsertTail .waitForPing serv).sNetSend conn
        (pktIdentifyBack 1 env) env :=
  rfl

theorem tabled_tied (down : (servg.entries serv).flags.established = false)
    (entry : IsEntry servg.servs serv) (mem : BitVec 32) :
    Tabled servg (servg.tied conn serv mem) serv := by
  refine Tabled.of_entries down entry rfl ?_ ?_ ?_ (fun place => opening_setUdata place) rfl
  · intro other different
    simp [tied, ServGroup.createHash, ServGroup.setUdata, modify_entries, different]
  · simp [tied, ServGroup.createHash]
  · simp [tied, ServGroup.createHash, ServGroup.setUdata, ServGroup.modify]

theorem bound_tied (entry : IsEntry servg.servs serv) (opened : (servg.conns conn).opened = true)
    (mem : BitVec 32) : (servg.tied conn serv mem).Bound conn serv := by
  refine ⟨?_, ?_, entry, ?_⟩
  · simp [tied, ServGroup.createHash, ServGroup.modify, ServGroup.setUdata, opened]
  · simp [tied, ServGroup.createHash, ServGroup.modify, ServGroup.setUdata]
  · simp [tied, ServGroup.createHash]

/-- The end of `ihandle_identify`, for a server that is down. -/
theorem Accounted.establish (accounted : servg.Accounted)
    (down : (servg.entries serv).flags.established = false) (entry : IsEntry servg.servs serv)
    (opened : (servg.conns conn).opened = true) {mem : BitVec 32} {env : Env}
    (established : servg.establish conn serv mem env = some after) : Proceeds servg after := by
  rw [establish_eq] at established
  have tabled : Tabled servg (servg.tied conn serv mem) serv := tabled_tied down entry mem
  have made := tabled.proceeds accounted
  have listed : CallsKept (servg.tied conn serv mem)
      (((servg.tied conn serv mem).listDel serv).listInsertTail .waitForPing serv) :=
    callsKept_links _
  have first := made.trans accounted (Proceeds.of_kept made.accounted listed)
  have tied := bound_tied entry opened mem
  have bound : (((servg.tied conn serv mem).listDel serv).listInsertTail .waitForPing
      serv).Bound conn serv := ⟨tied.opened, tied.udata, tied.entry, tied.conn⟩
  apply first.trans accounted
  refine first.accounted.sNetSend bound.of_udata ?_ established
  -- the server has no calls yet if the answer fails
  intro _ other udata
  rw [bound.udata] at udata
  rw [← Option.some.inj udata]
  exact listed.quiet.mpr ((tabled.quiet serv).mpr (accounted.quiet down))

/-! ## Creating and connecting -/

/-- A created server is down, and the established ones stay where they are. -/
theorem Created.callsKept (created : servg.Created after lists serv) : CallsKept servg after := by
  have keeps := created.pushed.keeps
  have used : ∀ other hash, servg.Live other hash → ¬ servg.Unused other := by
    intro other hash live unused
    have up := live.established
    rw [unused.1] at up
    cases up
  have same : ∀ other hash, servg.Live other hash → after.entries other = servg.entries other :=
    fun other hash live => keeps.used other live.entry (used other hash live)
  refine ⟨?_, ?_, ?_, ?_⟩
  · intro other hash
    constructor
    · intro live
      have different : some serv ≠ some other := by
        intro isServ
        have up := live.established
        rw [← Option.some.inj isServ, created.flags] at up
        cases up
      have source := created.pushed.source other live.entry different live.established
      exact ⟨source.1, source.2 ▸ live.established, source.2 ▸ live.table⟩
    · intro live
      have stays := same other hash live
      exact ⟨keeps.entry other live.entry (used other hash live), stays ▸ live.established,
        stays ▸ live.table⟩
  · intro other hash live
    exact openingOf_congr (congrArg SServer.conn (same other hash live))
      fun place _ => by rw [keeps.conns]
  · exact fun other hash live => congrArg SServer.reqId (same other hash live)
  · rw [keeps.same]
    rfl

/-- A connection is opened for a server that is down, and its identification is
sent. -/
theorem Vacant.proceeds (vacant : servg.Vacant lists serv) (accounted : servg.Accounted)
    (closed : (servg.conns conn).opened = false) {ip : String} {port : Int}
    {links : Links ServRef} {pkt : GroupPacket} {env : Env}
    (sent : ({ ((servg.openConn conn ip port).modify serv fun entry =>
      { entry with conn := some conn }).setUdata conn serv with links := links } :
        ServGroup).sNetSend conn pkt env = some after) : Proceeds servg after := by
  have opened : CallsKept servg (servg.openConn conn ip port) :=
    vacant.ordered.callsKept_openConn (fun other same => Option.some.inj same ▸ vacant.quiet) ip port
      closed
  have bound : CallsKept (servg.openConn conn ip port) ((servg.openConn conn ip port).modify serv
      fun entry => { entry with conn := some conn }) :=
    callsKept_modify_down vacant.quiet vacant.quiet
  have kept := ((opened.trans bound).trans (@callsKept_setUdata _ serv conn)).trans
    (callsKept_links links)
  have first := Proceeds.of_kept accounted kept
  have entries : (((servg.openConn conn ip port).modify serv fun entry =>
      { entry with conn := some conn }).setUdata conn serv).entries serv =
      { servg.entries serv with conn := some conn } := by
    change ((servg.openConn conn ip port).modify serv fun entry =>
      { entry with conn := some conn }).entries serv = _
    rw [modify_entries_self]
    rfl
  apply first.trans accounted
  have only : ∀ other, ((((servg.openConn conn ip port).modify serv fun entry =>
      { entry with conn := some conn }).setUdata conn serv).conns conn).udata = some other →
      other = serv := by
    intro other udata
    simp only [ServGroup.setUdata, Function.update_self] at udata
    exact (Option.some.inj udata).symm
  refine first.accounted.sNetSend_down ?_ ?_ sent
  · intro other udata
    rw [only other udata]
    refine ⟨?_, ?_, vacant.entry, congrArg SServer.conn entries⟩
    · simp [ServGroup.setUdata, ServGroup.modify, ServGroup.openConn]
    · simp [ServGroup.setUdata]
  · intro other udata
    rw [only other udata]
    exact (congrArg (fun entry => entry.flags.established) entries).trans vacant.quiet

theorem Accounted.sServgConnect (accounted : servg.Accounted) (ordered : servg.Ordered lists none)
    {type id : Int} {ip : String} {port : Int} {chosen : Option Nat} {env : Env}
    (orderly : servg.Orderly (.connect type id ip port chosen env))
    (connected : servg.sServgConnect type id ip port chosen env = some after) :
    Proceeds servg after := by
  rw [ServGroup.sServgConnect] at connected
  split at connected
  · cases connected
    exact Proceeds.refl accounted
  · rename_i notInConfig
    split at connected
    · cases connected
      exact Proceeds.refl accounted
    · rename_i notActive
      have facts := orderly (Option.not_isSome_iff_eq_none.mp notInConfig)
        (Option.not_isSome_iff_eq_none.mp notActive)
      split at connected
      · cases connected
        exact Proceeds.refl accounted
      next middle serv created =>
        cases chosen with
        | none => cases connected
        | some conn =>
            have entry := ordered.sServgCreateServ (facts.1 (validType_of_created created)) created
            have first := Proceeds.of_kept accounted entry.callsKept
            have closed : (middle.conns conn).opened = false := by
              rw [entry.pushed.keeps.conns]
              exact facts.2 conn rfl
            exact first.trans accounted (entry.vacant.proceeds first.accounted closed connected)

/-! ## Identification -/

/-- A connection without a server is closed or answered. -/
theorem Accounted.sNetClose_free (accounted : servg.Accounted)
    (free : (servg.conns conn).udata = none) (closed : servg.sNetClose conn = some after) :
    Proceeds servg after := by
  apply accounted.sNetClose _ _ closed
  · exact fun serv udata => nomatch free.symm.trans udata
  · exact fun serv udata => nomatch free.symm.trans udata

theorem Accounted.refuse (accounted : servg.Accounted) (free : (servg.conns conn).udata = none)
    {env : Env} (refused : servg.refuse conn env = some after) : Proceeds servg after := by
  apply accounted.sNetSend _ _ refused
  · exact fun serv udata => nomatch free.symm.trans udata
  · exact fun _ serv udata => nomatch free.symm.trans udata

theorem Accounted.ihandleIdentify (accounted : servg.Accounted)
    (ordered : servg.Ordered lists none) {pkt : GroupPacket} {env : Env}
    (opened : (servg.conns conn).opened = true) (free : (servg.conns conn).udata = none)
    (may : ∀ request ∈ servg.identifyRequest pkt, servg.MayIdentify request.1 request.2)
    (handled : servg.ihandleIdentify conn pkt env = some after) : Proceeds servg after := by
  rw [ServGroup.ihandleIdentify] at handled
  split at handled
  · exact accounted.sNetClose_free free handled
  · rename_i function
    split at handled
    · exact accounted.sNetClose_free free handled
    next pwd rest shape =>
      split at handled
      · exact accounted.refuse free handled
      · rename_i password
        split at handled
        next type id mem others =>
          have request : (type.toInt, id.toInt) ∈ servg.identifyRequest pkt := by
            rw [not_not] at function password
            rw [identifyRequest, if_pos function, shape]
            simp [password]
          have asked := may _ request
          split at handled
          next serv found =>
            split at handled
            · exact accounted.refuse free handled
            · rename_i quiet
              exact accounted.establish (Bool.eq_false_iff.mpr quiet)
                (inConfig_of_found found).1 opened handled
          next missing =>
            split at handled
            · exact accounted.refuse free handled
            next middle serv created =>
              have entry := ordered.sServgCreateServ
                (asked.2 missing (validType_of_created created)) created
              have keeps := entry.pushed.keeps
              have first := Proceeds.of_kept accounted entry.callsKept
              rw [if_neg (by rw [entry.flags]; simp)] at handled
              apply first.trans accounted
              apply first.accounted.establish _ entry.pushed.fresh.entry _ handled
              · rw [entry.flags]
              · rw [keeps.conns]
                exact opened
        next => exact accounted.sNetClose_free free handled

end ServGroup

end SimpleDfs.ServerGroup
