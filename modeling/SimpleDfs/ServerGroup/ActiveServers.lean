import SimpleDfs.ServerGroup.Names

/-!
Contract: the servers that `s_servg_next_active_serv` goes through
(`serv_group/s_server_group.c`).

Owns: the scan of an array; the loop its callers write around it, with the rule for such
a loop; the packet that a loop of `s_servg_send` sends to the active servers.

A write that fails resets the server it was for in the middle of the loop.  `*id` is
behind that server by then, so the loop goes on with the next one.

Does not own: what the callers do with the servers besides sending.
-/

set_option autoImplicit false

namespace SimpleDfs.ServerGroup

open SimpleDfs.Library

namespace ServGroup

/-! ## The scan -/

/-- The server is in the configuration and established. -/
def active (servg : ServGroup) (serv : ServAddr) : Bool :=
  (servg.entries serv).flags.inConfig && (servg.entries serv).flags.established

/-- The loop of `s_servg_next_active_serv` over the `count` entries from `i` on; with
the server comes what is written to `*id`. -/
def scanActive (servg : ServGroup) (type : Int) (i : Nat) : Nat → Option (ServAddr × Int)
  | 0 => none
  | count + 1 =>
      if servg.active (servg.entryAt type i) then some (servg.entryAt type i, i + 1)
      else scanActive servg type (i + 1) count

/-- `s_servg_next_active_serv`. -/
def sServgNextActiveServ (servg : ServGroup) (type id : Int) : Option (ServAddr × Int) :=
  if validType type then
    let i := (max 0 id).toNat
    servg.scanActive type i ((servg.servs type).nelem - i)
  else none

/-- `while(serv)` around `s_servg_next_active_serv`; `none` is a fault in the body, or
that the turns were too few. -/
def eachActive (body : ServGroup → ServAddr → Option ServGroup) (type : Int) :
    Nat → ServGroup → Int → Option ServGroup
  | 0, _, _ => none
  | turns + 1, servg, id =>
      match servg.sServgNextActiveServ type id with
      | none => some servg
      | some (serv, id) =>
          match body servg serv with
          | none => none
          | some servg => eachActive body type turns servg id

/-- The loop that sends a packet to every active server of a type, as the one of
`icreate_fmmd` does. -/
def sendToActive (servg : ServGroup) (type : Int) (pkt : GroupPacket) (env : ServAddr → Env)
    (turns : Nat) : Option ServGroup :=
  eachActive (fun servg serv => servg.isend serv pkt (env serv)) type turns servg (-1)

/-! ## Active servers -/

/-- The active servers of a type from an index on. -/
def activeFrom (servg : ServGroup) (type : Int) (i : Nat) : List ServAddr :=
  ((List.range' i ((servg.servs type).nelem - i)).map (servg.entryAt type)).filter servg.active

/-- The connections of servers. -/
def connsOf (servg : ServGroup) (servs : List ServAddr) : List Nat :=
  servs.filterMap fun serv => (servg.entries serv).conn

variable {servg : ServGroup} {type : Int} {i : Nat} {serv : ServAddr}

theorem activeFrom_of_le (behind : (servg.servs type).nelem ≤ i) :
    servg.activeFrom type i = [] := by
  rw [activeFrom, Nat.sub_eq_zero_of_le behind]
  rfl

theorem activeFrom_of_lt (inside : i < (servg.servs type).nelem) :
    servg.activeFrom type i =
      if servg.active (servg.entryAt type i) then
        servg.entryAt type i :: servg.activeFrom type (i + 1)
      else servg.activeFrom type (i + 1) := by
  have count : (servg.servs type).nelem - i = (servg.servs type).nelem - (i + 1) + 1 := by omega
  rw [activeFrom, count, List.range'_succ, List.map_cons, List.filter_cons]
  rfl

theorem mem_activeFrom :
    serv ∈ servg.activeFrom type i ↔
      ∃ j, i ≤ j ∧ j < (servg.servs type).nelem ∧ serv = servg.entryAt type j ∧
        servg.active serv = true := by
  rw [activeFrom, List.mem_filter, List.mem_map]
  constructor
  · rintro ⟨⟨j, member, rfl⟩, active⟩
    rw [List.mem_range'_1] at member
    exact ⟨j, member.1, by omega, rfl, active⟩
  · rintro ⟨j, from_, below, rfl, active⟩
    exact ⟨⟨j, List.mem_range'_1.mpr ⟨from_, by omega⟩, rfl⟩, active⟩

theorem nodup_activeFrom : (servg.activeFrom type i).Nodup := by
  apply List.Nodup.filter
  apply List.Nodup.map _ List.nodup_range'
  intro j k same
  exact congrArg ServAddr.index same

theorem length_activeFrom_le : (servg.activeFrom type i).length ≤ (servg.servs type).nelem := by
  calc (servg.activeFrom type i).length
    _ ≤ ((List.range' i ((servg.servs type).nelem - i)).map (servg.entryAt type)).length :=
      List.length_filter_le _ _
    _ = (servg.servs type).nelem - i := by rw [List.length_map, List.length_range']
    _ ≤ (servg.servs type).nelem := Nat.sub_le _ _

/-- The scan finds the first active server, and the others come behind it. -/
theorem scanActive_spec (count : Nat) : ∀ {i : Nat}, (servg.servs type).nelem - i = count →
    (servg.scanActive type i count = none ∧ servg.activeFrom type i = []) ∨
      ∃ j : Nat, servg.scanActive type i count = some (servg.entryAt type j, (j : Int) + 1) ∧
        servg.activeFrom type i = servg.entryAt type j :: servg.activeFrom type (j + 1) := by
  induction count with
  | zero =>
      intro i counted
      exact Or.inl ⟨rfl, activeFrom_of_le (Nat.sub_eq_zero_iff_le.mp counted)⟩
  | succ count inductionHypothesis =>
      intro i counted
      rw [scanActive, activeFrom_of_lt (by omega)]
      by_cases found : servg.active (servg.entryAt type i) = true
      · rw [if_pos found, if_pos found]
        exact Or.inr ⟨i, rfl, rfl⟩
      · rw [if_neg found, if_neg found]
        exact inductionHypothesis (by omega)

theorem sServgNextActiveServ_spec (valid : validType type = true) (id : Int) :
    (servg.sServgNextActiveServ type id = none ∧
        servg.activeFrom type (max 0 id).toNat = []) ∨
      ∃ j : Nat, servg.sServgNextActiveServ type id =
            some (servg.entryAt type j, (j : Int) + 1) ∧
        servg.activeFrom type (max 0 id).toNat =
          servg.entryAt type j :: servg.activeFrom type (j + 1) := by
  rw [sServgNextActiveServ, if_pos valid]
  exact scanActive_spec _ rfl

/-! ## The rule for the loop -/

/-- An operation works on one server. -/
structure OnServer (before after : ServGroup) (serv : ServAddr) : Prop where
  servs : after.servs = before.servs
  entries : ∀ other, other ≠ serv → after.entries other = before.entries other

/-- Work on a server leaves the active servers behind it. -/
theorem OnServer.activeFrom {after : ServGroup}
    (works : OnServer servg after (servg.entryAt type i)) :
    after.activeFrom type (i + 1) = servg.activeFrom type (i + 1) := by
  have entryAt : after.entryAt type = servg.entryAt type := by
    funext j
    rw [ServGroup.entryAt, ServGroup.entryAt, works.servs]
  rw [ServGroup.activeFrom, ServGroup.activeFrom, entryAt, works.servs]
  apply List.filter_congr
  intro other member
  obtain ⟨j, inside, rfl⟩ := List.mem_map.mp member
  have behind := (List.mem_range'_1.mp inside).1
  have different : servg.entryAt type j ≠ servg.entryAt type i := by
    intro same
    have index : j = i := congrArg ServAddr.index same
    omega
  rw [active, works.entries _ different, active]

/-- **The rule for the loop.**  The invariant is about the servers still to come: the
active ones at the start, whatever the body does to the servers it works on. -/
theorem eachActive_of_invariant {body : ServGroup → ServAddr → Option ServGroup}
    (valid : validType type = true) (Holds : List ServAddr → ServGroup → Prop)
    (turn : ∀ group serv rest i, Holds (serv :: rest) group →
      group.activeFrom type i = serv :: rest →
      ∃ after, body group serv = some after ∧ OnServer group after serv ∧ Holds rest after)
    (turns : Nat) : ∀ {servg : ServGroup} {id : Int},
      (servg.activeFrom type (max 0 id).toNat).length < turns →
      Holds (servg.activeFrom type (max 0 id).toNat) servg →
      ∃ after, eachActive body type turns servg id = some after ∧ Holds [] after := by
  induction turns with
  | zero => exact fun few _ => absurd few (Nat.not_lt_zero _)
  | succ turns inductionHypothesis =>
      intro servg id few holds
      rcases @sServgNextActiveServ_spec servg type valid id with ⟨none, empty⟩ |
        ⟨j, found, servers⟩
      · rw [empty] at holds
        refine ⟨servg, ?_, holds⟩
        rw [eachActive, none]
      · rw [servers] at holds few
        obtain ⟨middle, worked, works, next⟩ := turn servg _ _ _ holds servers
        have cursor : (max 0 ((j : Int) + 1)).toNat = j + 1 := by omega
        have same := works.activeFrom
        obtain ⟨after, rest, done⟩ := @inductionHypothesis middle (j + 1)
          (by
            rw [cursor, same]
            exact Nat.lt_of_succ_lt_succ few)
          (by
            rw [cursor, same]
            exact next)
        refine ⟨after, ?_, done⟩
        rw [eachActive, found]
        dsimp only
        rw [worked]
        exact rest

/-! ## Sending -/

theorem isEntry_entryAt (valid : validType type = true) (inside : i < (servg.servs type).nelem) :
    IsEntry servg.servs (servg.entryAt type i) :=
  ⟨valid, rfl, inside⟩

/-- A group does not count itself among its active servers. -/
theorem Own.ne_of_active {own : ServAddr} (mine : servg.Own own)
    (active : servg.active serv = true) : serv ≠ own := by
  rintro rfl
  rw [ServGroup.active, mine.flags] at active
  cases active

theorem resetUnconnected_sent : (servg.resetUnconnected serv).sent = servg.sent := by
  unfold resetUnconnected
  dsimp only
  split_ifs <;> rfl

theorem sent_of_sNetClose {conn : Nat} {after : ServGroup}
    (closed : servg.sNetClose conn = some after) : after.sent = servg.sent := by
  rw [ServGroup.sNetClose, Option.map_eq_some_iff] at closed
  obtain ⟨middle, handled, rfl⟩ := closed
  change middle.sent = servg.sent
  rw [iwhenConnClosed] at handled
  split at handled
  · cases handled
    rfl
  · dsimp only at handled
    split at handled
    · split at handled
      · cases handled
      · cases handled
        exact resetUnconnected_sent
    · cases handled
      exact resetUnconnected_sent

/-- The connection of a server with a table of calls can be closed. -/
theorem sNetClose_of_table {conn : Nat} (udata : (servg.conns conn).udata = some serv)
    (table : (servg.entries serv).rpcHash ≠ none) :
    ∃ after, servg.sNetClose conn = some after := by
  obtain ⟨hash, isHash⟩ := Option.ne_none_iff_exists'.mp table
  rw [ServGroup.sNetClose, iwhenConnClosed, udata]
  simp only [modify_entries_self, isHash]
  split
  · exact ⟨_, rfl⟩
  · exact ⟨_, rfl⟩

/-- An active server has an open connection and a table of calls. -/
theorem Sound.bound_of_active (sound : servg.Sound) (entry : IsEntry servg.servs serv)
    (active : servg.active serv = true) :
    servg.myself ≠ some serv ∧ (servg.entries serv).rpcHash ≠ none ∧
      ∃ conn, servg.Bound conn serv := by
  obtain ⟨lists, ordered, _⟩ := sound.order
  obtain ⟨own, mine⟩ := sound.own
  have notMine : servg.myself ≠ some serv := by
    intro myself
    rw [mine.myself] at myself
    exact mine.ne_of_active active (Option.some.inj myself).symm
  have established : (servg.entries serv).flags.established = true :=
    (Bool.and_eq_true_iff.mp active).2
  obtain ⟨connected, table⟩ := ordered.established serv entry (by simp) established notMine
  obtain ⟨conn, atConn⟩ := Option.ne_none_iff_exists'.mp connected
  obtain ⟨opened, udata⟩ := ordered.held serv conn entry (by simp) atConn
  exact ⟨notMine, table, conn, opened, udata, entry, atConn⟩

/-- Sending to an active server writes to its connection and works on that server,
whether the write fails or not. -/
theorem Sound.isend_active (sound : servg.Sound) (entry : IsEntry servg.servs serv)
    (active : servg.active serv = true) (pkt : GroupPacket) (env : Env) :
    ∃ conn after, (servg.entries serv).conn = some conn ∧ servg.isend serv pkt env = some after ∧
      after.sent = servg.sent ++ [(conn, pkt)] ∧ OnServer servg after serv ∧
      after.frame = servg.frame := by
  obtain ⟨lists, ordered, _⟩ := sound.order
  obtain ⟨notMine, table, conn, bound⟩ := sound.bound_of_active entry active
  let queued : ServGroup := { servg with sent := servg.sent ++ [(conn, pkt)] }
  have isend : servg.isend serv pkt env =
      if env.writeFails then queued.sNetClose conn else some queued := by
    rw [ServGroup.isend, if_neg notMine, bound.conn]
    rfl
  rw [isend]
  by_cases fails : env.writeFails = true
  · rw [if_pos fails]
    have inOrder : queued.Ordered lists none :=
      ordered.congr rfl rfl rfl rfl fun _ _ => ⟨rfl, rfl, rfl⟩
    obtain ⟨after, closed⟩ := @sNetClose_of_table queued serv conn bound.udata table
    obtain ⟨_, facts⟩ := inOrder.sNetClose bound.opened closed
    refine ⟨conn, after, bound.conn, closed, sent_of_sNetClose closed, ⟨facts.servs, ?_⟩, facts.frame⟩
    intro other different
    apply facts.entries other
    change (servg.conns conn).udata ≠ some other
    rw [bound.udata]
    exact fun same => different (Option.some.inj same).symm
  · rw [if_neg fails]
    exact ⟨conn, queued, bound.conn, rfl, rfl, ⟨rfl, fun _ _ => rfl⟩, rfl⟩

theorem connsOf_congr {after : ServGroup} {servs : List ServAddr}
    (same : ∀ serv ∈ servs, after.entries serv = servg.entries serv) :
    after.connsOf servs = servg.connsOf servs := by
  apply List.filterMap_congr
  intro serv member
  rw [same serv member]

/-- Two servers do not have the same connection. -/
theorem Sound.nodup_connsOf (sound : servg.Sound) (valid : validType type = true) :
    (servg.connsOf (servg.activeFrom type i)).Nodup := by
  obtain ⟨lists, ordered, _⟩ := sound.order
  have entries : ∀ serv ∈ servg.activeFrom type i, IsEntry servg.servs serv := by
    intro serv member
    obtain ⟨j, _, inside, rfl, _⟩ := mem_activeFrom.mp member
    exact isEntry_entryAt valid inside
  rw [connsOf, List.Nodup, List.pairwise_filterMap]
  apply List.Pairwise.imp_of_mem _ nodup_activeFrom
  rintro first second isFirst isSecond different conn atFirst other atSecond rfl
  have held := (ordered.held first conn (entries first isFirst) (by simp) atFirst).2
  rw [(ordered.held second conn (entries second isSecond) (by simp) atSecond).2] at held
  exact different (Option.some.inj held).symm

/-- The connections of the active servers are the open ones that have an active server
as user data. -/
theorem Sound.mem_connsOf (sound : servg.Sound) (valid : validType type = true) (conn : Nat) :
    conn ∈ servg.connsOf (servg.activeFrom type 0) ↔
      (servg.conns conn).opened = true ∧ ∃ serv, (servg.conns conn).udata = some serv ∧
        serv.type = type ∧ servg.active serv = true := by
  obtain ⟨lists, ordered, _⟩ := sound.order
  rw [connsOf, List.mem_filterMap]
  constructor
  · rintro ⟨serv, member, atConn⟩
    obtain ⟨j, _, inside, rfl, active⟩ := mem_activeFrom.mp member
    have held := ordered.held _ conn (isEntry_entryAt valid inside) (by simp) atConn
    exact ⟨held.1, _, held.2, rfl, active⟩
  · rintro ⟨opened, serv, udata, isType, active⟩
    obtain ⟨entry, atConn⟩ := ordered.bound conn serv opened udata (by simp)
    subst isType
    have place := eq_entryAt rfl entry.block rfl
    exact ⟨serv, mem_activeFrom.mpr ⟨serv.index, Nat.zero_le _, entry.index, place, active⟩, atConn⟩

end ServGroup

/-! ## In every run -/

/-- **A server is found under the type and id it gives.**  In every state of an orderly
run `s_servg_get_active_serv` returns a server of the type and id asked for, and an active
server is returned for its own; none of them gives the type and id of the group. -/
theorem active_names_of_orderly {junk : ServAddr → SServer} {config : GroupConfig}
    {servg : ServGroup} (start : ServGroup.OrderlyConfig junk config)
    (reached : (groupSystem junk config).ReachableVia ServGroup.Orderly servg) :
    (∀ type id serv, servg.sServgGetActiveServ type id = some serv →
      (servg.entries serv).type = type ∧ (servg.entries serv).id = id) ∧
    ∀ type serv, ServGroup.validType type = true → serv ∈ servg.activeFrom type 0 →
      (servg.entries serv).type = type ∧
        servg.sServgGetActiveServ type (servg.entries serv).id = some serv ∧
        (type = config.type → 0 < config.id → (servg.entries serv).id ≠ config.id) := by
  have named := allNamed_of_orderly start reached
  have isNamed : ∀ serv, ServGroup.IsEntry servg.servs serv →
      (servg.entries serv).flags.established = true → servg.Named serv := by
    intro serv entry established
    apply named.names serv entry (by simp)
    intro unused
    rw [unused.1] at established
    cases established
  constructor
  · intro type id serv found
    rw [ServGroup.sServgGetActiveServ, Option.filter_eq_some_iff] at found
    obtain ⟨isType, isId⟩ := isNamed serv (ServGroup.igetServ_isEntry found.1) found.2
    obtain ⟨atType, atId⟩ := ServGroup.place_of_igetServ found.1
    exact ⟨isType.trans atType, isId.trans atId⟩
  · intro type serv valid member
    obtain ⟨j, _, inside, rfl, active⟩ := ServGroup.mem_activeFrom.mp member
    have entry := ServGroup.isEntry_entryAt valid inside
    have established : (servg.entries (servg.entryAt type j)).flags.established = true :=
      (Bool.and_eq_true_iff.mp active).2
    obtain ⟨isType, isId⟩ := isNamed _ entry established
    refine ⟨isType, ?_, ?_⟩
    · rw [ServGroup.sServgGetActiveServ, isId, Option.filter_eq_some_iff]
      exact ⟨ServGroup.igetServ_of_isEntry entry, established⟩
    · intro sameType positive sameId
      obtain ⟨own, mine⟩ := (sound_of_orderly start reached).own
      obtain ⟨ownType, ownIndex⟩ := named.own own mine.myself
      apply mine.ne_of_active active
      -- both are entries of one array at one index
      have atIndex : own.index = j := by
        have isIndex : ((servg.entryAt type j).index : Int) = j := rfl
        have index := ownIndex positive
        omega
      have atType : own.type = type := ownType.trans sameType.symm
      exact (ServGroup.eq_entryAt atType (atType ▸ mine.entry.block) atIndex).symm

section Sample

open ServGroup Sample

/-- Servers 1 and 2 are established. -/
def bothActive : List Event :=
  [.checkList, .attempt (.connected 0 calm), .attempt (.connected 1 calm), .attempt .early,
    .receive 0 (answer 1) calm, .receive 1 (answer 1) calm]

theorem active_names_of_orderly_sample :
    let servg := (groupSystem blank config).outcome start bothActive
    (∀ type id serv, servg.sServgGetActiveServ type id = some serv →
      (servg.entries serv).type = type ∧ (servg.entries serv).id = id) ∧
    ∀ type serv, ServGroup.validType type = true → serv ∈ servg.activeFrom type 0 →
      (servg.entries serv).type = type ∧
        servg.sServgGetActiveServ type (servg.entries serv).id = some serv ∧
        (type = config.type → 0 < config.id → (servg.entries serv).id ≠ config.id) :=
  active_names_of_orderly (by decide +kernel)
    ((System.reachableVia_outcome initial _ (by decide +kernel)).mono
      fun _ _ passed => of_decide_eq_true passed)

/-- Both get the packet. -/
example :
    let servg := (groupSystem blank config).outcome start bothActive
    servg.connsOf (servg.activeFrom 1 0) = [0, 1] := by
  decide +kernel

end Sample

end SimpleDfs.ServerGroup
