import SimpleDfs.ServerGroup.ListLaw

/-!
Contract: which connection a server of a group is identified with.

Owns: `OneConnection`; the refusal of an identification as an established
server; the runs in which both hold throughout; a run in which two connections
are one server.

`ihandle_identify` only finds the servers of the configuration.  Any other
server is created again, which clears the flag the refusal looks at.

Does not own: the wait lists.
-/

set_option autoImplicit false

namespace SimpleDfs.ServerGroup

open SimpleDfs.Common
open SimpleDfs.Library

namespace ServGroup

/-- An open connection that has a server as user data is the connection of that
server, so at most one has. -/
def OneConnection (servg : ServGroup) : Prop :=
  ∀ conn serv, (servg.conns conn).opened = true → (servg.conns conn).udata = some serv →
    (servg.entries serv).conn = some conn

theorem OneConnection.unique {servg : ServGroup} (one : servg.OneConnection) {conn other : Nat}
    {serv : ServAddr} (opened : (servg.conns conn).opened = true)
    (udata : (servg.conns conn).udata = some serv)
    (otherOpened : (servg.conns other).opened = true)
    (otherUdata : (servg.conns other).udata = some serv) : conn = other := by
  have first := one conn serv opened udata
  rw [one other serv otherOpened otherUdata] at first
  exact (Option.some.inj first).symm

theorem Sound.oneConnection {servg : ServGroup} (sound : servg.Sound) : servg.OneConnection := by
  obtain ⟨lists, ordered, _⟩ := sound.order
  exact fun conn serv opened udata => (ordered.bound conn serv opened udata (by simp)).2

/-- The identification is answered with failure; the entries, the lists and the
other connections stay. -/
structure Refused (before after : ServGroup) (conn : Nat) (env : Env) : Prop where
  answered : after.sent = before.sent ++ [(conn, pktIdentifyBack 0 env)]
  entries : after.entries = before.entries
  links : after.links = before.links
  conns : ∀ other, other ≠ conn → after.conns other = before.conns other

variable {servg after : ServGroup} {conn : Nat} {env : Env}

theorem sNetClose_free (free : (servg.conns conn).udata = none) :
    servg.sNetClose conn = some (servg.putConn conn) := by
  rw [ServGroup.sNetClose, iwhenConnClosed, free]
  rfl

theorem refused_refuse (free : (servg.conns conn).udata = none)
    (refused : servg.refuse conn env = some after) : Refused servg after conn env := by
  rw [refuse, ServGroup.sNetSend] at refused
  split at refused
  · rw [sNetClose_free (by exact free)] at refused
    cases refused
    refine ⟨rfl, rfl, rfl, ?_⟩
    intro other different
    simp [ServGroup.putConn, different]
  · cases refused
    exact ⟨rfl, rfl, rfl, fun _ _ => rfl⟩

/-- An active server that may identify itself again is in the configuration. -/
theorem inConfig_of_active {type id : Int} {serv : ServAddr} (positive : 0 < id)
    (active : servg.sServgGetActiveServ type id = some serv) (may : servg.MayIdentify type id) :
    servg.sServgGetServInConfig type id = some serv := by
  rw [sServgGetActiveServ, Option.filter_eq_some_iff] at active
  obtain ⟨found, established⟩ := active
  by_contra outside
  have missing : servg.sServgGetServInConfig type id = none := by
    rw [sServgGetServInConfig, found, Option.filter_some] at outside ⊢
    split
    · rename_i inConfig
      exact absurd (if_pos inConfig) outside
    · rfl
  have entry := igetServ_isEntry found
  rw [igetServ] at found
  split at found
  · rename_i valid
    have create := (may.2 missing valid).1
    rw [createIndex, if_pos positive] at create
    rw [arrayAt] at found
    split at found
    · cases found
    · cases found
      have unused := (create entry.index).1
      rw [unused] at established
      cases established
  · cases found

/-- **An established server is not identified again.** -/
theorem refused_of_active {pkt : GroupPacket} {type id : Int} {serv : ServAddr}
    (orderly : servg.Orderly (.receive conn pkt env))
    (request : servg.identifyRequest pkt = some (type, id)) (positive : 0 < id)
    (active : servg.sServgGetActiveServ type id = some serv)
    (handled : servg.sServgDoEvent conn pkt env = some after) :
    (servg.conns conn).udata = none → Refused servg after conn env := by
  intro free
  have found := inConfig_of_active positive active (orderly.2 free (type, id) request)
  have established : (servg.entries serv).flags.established = true := by
    rw [sServgGetActiveServ, Option.filter_eq_some_iff] at active
    exact active.2
  rw [sServgDoEvent, free] at handled
  dsimp only at handled
  rw [identifyRequest] at request
  split at request
  · rename_i function
    split at request
    · rename_i pwd typeWord idWord mem rest shape
      split at request
      · rename_i password
        cases request
        rw [ServGroup.ihandleIdentify, if_neg (by simpa using function), shape] at handled
        dsimp only at handled
        rw [if_neg (by simpa using password), found] at handled
        dsimp only at handled
        rw [if_pos established] at handled
        exact refused_refuse free handled
      · cases request
    · cases request
  · cases request

/-- An identification on a connection that has a server is ignored. -/
theorem ignored_of_bound {pkt : GroupPacket} {request : Int × Int}
    (identifies : servg.identifyRequest pkt = some request)
    (bound : (servg.conns conn).udata ≠ none)
    (handled : servg.sServgDoEvent conn pkt env = some after) : after = servg := by
  obtain ⟨serv, udata⟩ := Option.ne_none_iff_exists'.mp bound
  have function : pkt.fn = sPktTypeIdentify := by
    by_contra different
    rw [identifyRequest, if_neg different] at identifies
    cases identifies
  rw [sServgDoEvent, udata] at handled
  dsimp only at handled
  simp only [dispatch, function, sPktTypeIdentify, sPktTypeRpcBack, sPktTypeIdentifyBack,
    sPktTypePing, sPktTypePong] at handled
  simpa using handled.symm

/-- An identification as an established server: refused on a connection without
a server, ignored on one that has a server. -/
def KeepsEstablished (servg : ServGroup) : Prop :=
  ∀ conn pkt env type id serv after, servg.Orderly (.receive conn pkt env) →
    servg.identifyRequest pkt = some (type, id) → 0 < id →
    servg.sServgGetActiveServ type id = some serv →
    servg.step (.receive conn pkt env) = some after →
    ((servg.conns conn).udata = none → Refused servg after conn env) ∧
      ((servg.conns conn).udata ≠ none → after = servg)

theorem keepsEstablished (servg : ServGroup) : servg.KeepsEstablished := by
  intro conn pkt env type id serv after orderly request positive active stepped
  rw [ServGroup.step] at stepped
  split at stepped
  · exact ⟨refused_of_active orderly request positive active stepped,
      fun bound => ignored_of_bound request bound stepped⟩
  · cases stepped

end ServGroup

/-- **When a server is bound to one connection.**  In every state of a run from
an orderly configuration whose steps are all orderly, the connection of a server
is the only one that has the server as user data, and an orderly identification
as an established server is refused or ignored. -/
theorem oneConnection_of_orderly {junk : ServAddr → SServer} {config : GroupConfig}
    {servg : ServGroup} (start : ServGroup.OrderlyConfig junk config)
    (reached : (groupSystem junk config).ReachableVia ServGroup.Orderly servg) :
    servg.OneConnection ∧ servg.KeepsEstablished :=
  ⟨(sound_of_orderly start reached).oneConnection, servg.keepsEstablished⟩

section Sample

open ServGroup Sample

/-- Server 1 is established, and a second identification in its name arrives on
another connection. -/
theorem oneConnection_of_orderly_sample :
    ((groupSystem blank config).outcome start
      [.checkList, .attempt (.connected 0 calm), .attempt .early, .receive 0 (answer 1) calm,
        .accept 1 "10.0.0.9" 700, .receive 1 (identify 1 1) calm]).OneConnection ∧
    ((groupSystem blank config).outcome start
      [.checkList, .attempt (.connected 0 calm), .attempt .early, .receive 0 (answer 1) calm,
        .accept 1 "10.0.0.9" 700, .receive 1 (identify 1 1) calm]).KeepsEstablished :=
  oneConnection_of_orderly (by decide +kernel)
    ((System.reachableVia_outcome initial _ (by decide +kernel)).mono
      fun _ _ passed => of_decide_eq_true passed)

/-- Data server 5, which is not in the configuration, identifies itself on two
connections: both get it as user data. -/
theorem not_always_oneConnection :
    ¬ ∀ servg, (groupSystem blank config).Reachable servg → servg.OneConnection := by
  intro always
  have one := always _ (System.reachable_outcome initial
    [.accept 0 "10.0.0.9" 700, .receive 0 (identify 2 5) calm, .accept 1 "10.0.0.8" 701,
      .receive 1 (identify 2 5) calm])
  have first := one 0 ⟨2, 0, 5⟩ (by decide +kernel) (by decide +kernel)
  revert first
  decide +kernel

end Sample

end SimpleDfs.ServerGroup
