import SimpleDfs.Common.SList
import SimpleDfs.Library.LinkFamily
import SimpleDfs.Library.Run
import SimpleDfs.Library.Table

/-!
Contract: the servers of a server group, their connections and their wait lists
(`serv_group/s_server_group.c`).

Owns: `SServer`, `ServGroup`, the array of entries of each server type, opening
and closing connections, `iwhen_conn_closed`, `s_servg_reset_serv`,
`s_servg_create_serv` and `s_servg_connect`.

An operation is `none` where the source follows a null pointer or fails an
assertion.  What the callbacks of the group do is not part of an operation: it
follows as further steps.

Does not own: calls and their timeouts; which packet leads to which operation;
the pool the connections come from.
-/

set_option autoImplicit false

namespace SimpleDfs.ServerGroup

open SimpleDfs.Common
open SimpleDfs.Library

/-! ## Data -/

/-- `S_SERV_TYPE_MAX`; the types are `S_SERV_TYPE_M` to `S_SERV_TYPE_C`. -/
def sServTypeMax : Int := 4

/-- The four lists a server can wait in. -/
inductive WaitList where
  | waitForConn
  | waitForIdentify
  | waitForPing
  | waitForPong
  deriving DecidableEq, Repr

/-- The address of an entry of `servg->servs[type]`.  An array that grows moves
to another block. -/
structure ServAddr where
  type : Int
  block : Nat
  index : Nat
  deriving DecidableEq, Repr

/-- Where the links of the wait lists point. -/
abbrev ServRef := LinkRef WaitList ServAddr

/-- `flags`: `S_SERV_FLAG_ESTABLISHED` and `S_SERV_FLAG_IN_CONFIG`. -/
structure ServFlags where
  established : Bool := false
  inConfig : Bool := false
  deriving DecidableEq, Repr

/-- `struct s_server` without its links, which are in `ServGroup.links`. -/
structure SServer where
  conn : Option Nat
  id : Int
  type : Int
  flags : ServFlags
  ip : Option String
  port : Int
  mem : BitVec 32
  rpcHash : Option Nat
  reqId : BitVec 32
  deriving DecidableEq, Repr

/-- `struct s_array`: the block that holds its elements, how many there are and
how many fit. -/
structure SArray where
  block : Nat
  nelem : Nat
  total : Nat
  deriving DecidableEq, Repr

/-- What the group knows of a connection.  `opening` counts the connections
opened so far: an address is used again after a close. -/
structure GroupConn where
  opened : Bool
  opening : Nat
  ip : String
  port : Int
  udata : Option ServAddr
  deriving DecidableEq, Repr

/-- A packet: its function, its request id and its body in words. -/
structure GroupPacket where
  fn : Nat
  req : BitVec 32
  words : List (BitVec 32)
  deriving DecidableEq, Repr

/-- `struct timeval`. -/
structure Timeval where
  sec : Int
  usec : Int
  deriving DecidableEq, Repr

/-- `struct s_servg_rpc_param`; `sentOn` is the opening of the connection the
call is sent on, 0 for a call to this server itself. -/
structure RpcParam where
  reqId : BitVec 32
  ud : Nat
  callback : Nat
  msecTimeout : Int
  tvTimeout : Timeval
  serv : ServAddr
  sentOn : Nat
  deriving DecidableEq, Repr

/-- Why a callback runs: with a reply, or with a null packet. -/
inductive Cause where
  | reply (opening : Nat) (req : BitVec 32)
  | timeout
  | closed (opening : Nat)
  deriving DecidableEq, Repr

/-- One run of the callback of a call. -/
structure Invocation where
  param : Nat
  cause : Cause
  deriving DecidableEq, Repr

/-- What the group is in the middle of: a round of `s_servg_check_list` with its
two cursors, or code that has called the callback of a call. -/
inductive Frame where
  | checking (p tmp : ServRef)
  | rpcBack (serv : ServAddr) (param : Nat) (req : BitVec 32)
  | timeout (param : Nat) (rest : List Nat) (now : Timeval)
  deriving DecidableEq

/-- `struct s_server_group` with the memory it works on.  `params` is indexed by
the order of the calls, `hashes` by the order in which the tables are created;
freed memory keeps what it held.  `sent` and `invoked` record what has been sent
and which callbacks have run. -/
structure ServGroup where
  id : Int
  type : Int
  ipcPwd : BitVec 32
  servs : Int → SArray
  entries : ServAddr → SServer
  links : Links ServRef
  minDelayServ : Int → Option ServAddr
  myself : Option ServAddr
  myselfQ : List GroupPacket
  conns : Nat → GroupConn
  openings : Nat
  params : Nat → RpcParam
  nparams : Nat
  hashes : Nat → Table (BitVec 32) Nat
  nhashes : Nat
  rpcTimeoutList : List Nat
  frame : Option Frame
  sent : List (Nat × GroupPacket)
  invoked : List Invocation

/-- What the world contributes to a step: whether a write fails and closes its
connection, what `s_mem_used` returns and how two delays compare. -/
structure Env where
  writeFails : Bool
  memUsed : BitVec 32
  lowerDelay : Bool
  deriving DecidableEq, Repr

/-- `s_do_i_conn_him`. -/
def sDoIConnHim (myType myId hisType hisId : Int) : Bool :=
  decide (hisType < myType ∨ myType = hisType ∧ hisId < myId)

namespace ServGroup

/-- Write to an entry. -/
def modify (servg : ServGroup) (serv : ServAddr) (f : SServer → SServer) : ServGroup :=
  { servg with entries := Function.update servg.entries serv (f (servg.entries serv)) }

/-- `s_list_init` of the links of an entry. -/
def listInit (servg : ServGroup) (serv : ServAddr) : ServGroup :=
  { servg with links := sListInit servg.links (.node serv) }

/-- `s_list_del` of an entry. -/
def listDel (servg : ServGroup) (serv : ServAddr) : ServGroup :=
  { servg with links := sListDel servg.links (.node serv) }

/-- `s_list_insert_tail` of an entry. -/
def listInsertTail (servg : ServGroup) (list : WaitList) (serv : ServAddr) : ServGroup :=
  { servg with links := sListInsertTail servg.links (.head list) (.node serv) }

/-- `s_array_at`. -/
def arrayAt (servg : ServGroup) (type index : Int) : Option ServAddr :=
  if index < 0 ∨ ((servg.servs type).nelem : Int) ≤ index then none
  else some { type := type, block := (servg.servs type).block, index := index.toNat }

/-- Whether `servs[type]` exists. -/
def validType (type : Int) : Bool :=
  decide (0 ≤ type ∧ type < sServTypeMax)

/-- `iget_serv`. -/
def igetServ (servg : ServGroup) (type id : Int) : Option ServAddr :=
  if validType type then servg.arrayAt type id else none

/-- `s_servg_get_serv_in_config`. -/
def sServgGetServInConfig (servg : ServGroup) (type id : Int) : Option ServAddr :=
  (servg.igetServ type id).filter fun serv => (servg.entries serv).flags.inConfig

/-- `s_servg_get_active_serv`. -/
def sServgGetActiveServ (servg : ServGroup) (type id : Int) : Option ServAddr :=
  (servg.igetServ type id).filter fun serv => (servg.entries serv).flags.established

/-! ## The arrays of entries -/

/-- The block an array moves to when it grows: a copy of the elements, links
included. -/
def expand (servg : ServGroup) (type : Int) : ServGroup :=
  let array := servg.servs type
  let old : ServAddr → ServAddr := fun serv =>
    if serv.type = type ∧ serv.block = array.block + 1 ∧ serv.index < array.nelem then
      { serv with block := array.block }
    else serv
  let copy : ServRef → ServRef := fun place =>
    match place with
    | .head list => .head list
    | .node serv => .node (old serv)
  { servg with
    servs := Function.update servg.servs type
      { block := array.block + 1, nelem := array.nelem, total := array.total * 2 }
    entries := fun serv => servg.entries (old serv)
    links :=
      { prev := fun place => servg.links.prev (copy place)
        next := fun place => servg.links.next (copy place) } }

/-- `s_array_push`: the new element holds whatever its memory held. -/
def sArrayPush (servg : ServGroup) (type : Int) : ServGroup × ServAddr :=
  let servg :=
    if (servg.servs type).total ≤ (servg.servs type).nelem then servg.expand type else servg
  let array := servg.servs type
  ({ servg with
      servs := Function.update servg.servs type { array with nelem := array.nelem + 1 } },
    { type := type, block := array.block, index := array.nelem })

/-- The loop of `iinit_serv` that fills the array up with unused entries. -/
def pushUnused (servg : ServGroup) (type : Int) : Nat → ServGroup
  | 0 => servg
  | count + 1 =>
      let (servg, serv) := servg.sArrayPush type
      pushUnused (servg.modify serv fun entry => { entry with flags := {}, conn := none })
        type count

/-- `iinit_serv`. -/
def iinitServ (servg : ServGroup) (type : Int) (id : Nat) : ServGroup :=
  let array := servg.servs type
  if id < array.nelem then
    servg.modify { type := type, block := array.block, index := id } fun entry =>
      { entry with flags := { inConfig := true } }
  else
    let (servg, serv) := (servg.pushUnused type (id - array.nelem)).sArrayPush type
    servg.modify serv fun entry => { entry with flags := { inConfig := true } }

/-- An entry after `memset`. -/
def zeroServer : SServer where
  conn := none
  id := 0
  type := 0
  flags := {}
  ip := none
  port := 0
  mem := 0
  rpcHash := none
  reqId := 0

/-- `s_servg_create_serv`; `none` is the null pointer. -/
def sServgCreateServ (servg : ServGroup) (type id : Int) : Option (ServGroup × ServAddr) :=
  if validType type then
    if 0 < id then
      let servg := servg.iinitServ type id.toNat
      let serv : ServAddr :=
        { type := type, block := (servg.servs type).block, index := id.toNat }
      some
        ((servg.modify serv fun entry =>
          { entry with flags := {}, id := id, type := type }).listInit serv, serv)
    else
      -- the loop finds a free entry but assigns it to a variable of its own
      let len := (servg.servs type).nelem
      let (servg, serv) := servg.sArrayPush type
      some
        ((servg.modify serv fun _ => { zeroServer with id := len, type := type }).listInit serv,
          serv)
  else none

/-! ## Connections -/

/-- `iget_conn` and the address of the other end. -/
def openConn (servg : ServGroup) (conn : Nat) (ip : String) (port : Int) : ServGroup :=
  { servg with
    openings := servg.openings + 1
    conns := Function.update servg.conns conn
      { opened := true, opening := servg.openings + 1, ip := ip, port := port, udata := none } }

/-- `s_net_set_udata`. -/
def setUdata (servg : ServGroup) (conn : Nat) (serv : ServAddr) : ServGroup :=
  { servg with
    conns := Function.update servg.conns conn { servg.conns conn with udata := some serv } }

/-- `irm_conn` and `iput_conn`: the connection is closed and keeps its user
data. -/
def putConn (servg : ServGroup) (conn : Nat) : ServGroup :=
  { servg with
    conns := Function.update servg.conns conn { servg.conns conn with opened := false } }

/-- Every call in the table gets a null packet, and the table is destroyed.  The
calls stay on the timeout list. -/
def releaseCalls (servg : ServGroup) (hash opening : Nat) : ServGroup :=
  { servg with
    invoked := servg.invoked ++ (servg.hashes hash).entries.map fun entry =>
      { param := entry.2, cause := .closed opening }
    hashes := Function.update servg.hashes hash ∅ }

/-- A server that is reset is not the one with the lowest delay any more. -/
def clearMinDelay (servg : ServGroup) (type : Int) (serv : ServAddr) : ServGroup :=
  { servg with
    minDelayServ :=
      if servg.minDelayServ type = some serv then
        Function.update servg.minDelayServ type none
      else servg.minDelayServ }

/-- `s_servg_reset_serv` of a server without a connection. -/
def resetUnconnected (servg : ServGroup) (serv : ServAddr) : ServGroup :=
  let entry := servg.entries serv
  let reset := (servg.listDel serv).clearMinDelay entry.type serv
  if !entry.flags.inConfig then
    reset.modify serv fun entry => { entry with flags := {} }
  else
    let reset := reset.modify serv fun entry => { entry with flags := { inConfig := true } }
    if entry.ip.isSome && decide (0 < entry.port) &&
        sDoIConnHim servg.type servg.id entry.type entry.id then
      reset.listInsertTail .waitForConn serv
    else reset

/-- `iwhen_conn_closed`: its server has no connection any more when it is
reset. -/
def iwhenConnClosed (servg : ServGroup) (conn : Nat) : Option ServGroup :=
  match (servg.conns conn).udata with
  | none => some servg
  | some serv =>
      let servg := servg.modify serv fun entry => { entry with conn := none }
      if (servg.entries serv).flags.established then
        match (servg.entries serv).rpcHash with
        | none => none
        | some hash =>
            some ((servg.releaseCalls hash (servg.conns conn).opening).resetUnconnected serv)
      else some (servg.resetUnconnected serv)

/-- `s_net_close` and `iclose_conn_positive`. -/
def sNetClose (servg : ServGroup) (conn : Nat) : Option ServGroup :=
  (servg.iwhenConnClosed conn).map fun servg => servg.putConn conn

/-- `s_servg_reset_serv`. -/
def sServgResetServ (servg : ServGroup) (serv : ServAddr) : Option ServGroup :=
  match (servg.entries serv).conn with
  | none => some (servg.resetUnconnected serv)
  | some conn =>
      (servg.sNetClose conn).map fun servg =>
        (servg.modify serv fun entry => { entry with conn := none }).resetUnconnected serv

/-- `s_net_send`; a write that fails closes the connection. -/
def sNetSend (servg : ServGroup) (conn : Nat) (pkt : GroupPacket) (env : Env) :
    Option ServGroup :=
  let servg := { servg with sent := servg.sent ++ [(conn, pkt)] }
  if env.writeFails then servg.sNetClose conn else some servg

/-- `S_PKT_TYPE_RPC_BACK_` to `S_PKT_TYPE_PONG`. -/
def sPktTypeRpcBack : Nat := 1

def sPktTypeIdentify : Nat := 2

def sPktTypeIdentifyBack : Nat := 3

def sPktTypePing : Nat := 4

def sPktTypePong : Nat := 5

/-- `s_servg_pkt_identify`. -/
def pktIdentify (servg : ServGroup) (env : Env) : GroupPacket where
  fn := sPktTypeIdentify
  req := 0
  words := [servg.ipcPwd, BitVec.ofInt 32 servg.type, BitVec.ofInt 32 servg.id, env.memUsed]

/-- `s_servg_pkt_identify_back`. -/
def pktIdentifyBack (ret : BitVec 32) (env : Env) : GroupPacket where
  fn := sPktTypeIdentifyBack
  req := 0
  words := [ret, env.memUsed]

/-- `s_servg_connect`; `conn` is what `s_net_connect` returns.  The null pointer
is not noticed. -/
def sServgConnect (servg : ServGroup) (type id : Int) (ip : String) (port : Int)
    (conn : Option Nat) (env : Env) : Option ServGroup :=
  if (servg.sServgGetServInConfig type id).isSome then some servg
  else if (servg.sServgGetActiveServ type id).isSome then some servg
  else
    match servg.sServgCreateServ type id with
    | none => some servg
    | some (servg, serv) =>
        match conn with
        | none => none
        | some conn =>
            let servg := servg.openConn conn ip port
            let servg := servg.modify serv fun entry => { entry with conn := some conn }
            let servg := servg.setUdata conn serv
            let servg := servg.listInsertTail .waitForIdentify serv
            servg.sNetSend conn (servg.pktIdentify env) env

end ServGroup

end SimpleDfs.ServerGroup
