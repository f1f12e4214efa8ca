import SimpleDfs.ServerGroup.Group

/-!
Contract: what a server group does with packets, calls and the clock
(`serv_group/s_servg_do_event.c`, `serv_group/s_servg_check_list.c`, and the
calls of `serv_group/s_server_group.c`).

Owns: `s_servg_rpc_call`, the timeouts of `s_servg_poll`, `s_servg_do_event`
with its handlers, the round of `s_servg_check_list`, `s_servg_init_config`,
and the runs of a group from its configuration.

A callback of a call runs in the middle of the code that calls it: the group
stays in that frame, and `returned` is the return of the callback.

Does not own: the bytes of a packet; the handlers and callbacks of the users of
a group.
-/

set_option autoImplicit false

namespace SimpleDfs.ServerGroup

open SimpleDfs.Common
open SimpleDfs.Library

/-- `timercmp(left, right, >=)`. -/
def Timeval.atLeast (left right : Timeval) : Bool :=
  if left.sec = right.sec then decide (right.usec ≤ left.usec)
  else decide (right.sec ≤ left.sec)

/-- The time a call expires: `msec_timeout` from now, seconds carried over while
there are more than a million microseconds. -/
def timeoutAt (now : Timeval) (msecTimeout : Int) : Timeval :=
  let usec := now.usec + msecTimeout * 1000
  let carried := if 1000000 < usec then (usec - 1) / 1000000 else 0
  { sec := now.sec + carried, usec := usec - carried * 1000000 }

namespace ServGroup

/-! ## Calls -/

/-- `isend`. -/
def isend (servg : ServGroup) (serv : ServAddr) (pkt : GroupPacket) (env : Env) :
    Option ServGroup :=
  if servg.myself = some serv then
    some { servg with myselfQ := servg.myselfQ ++ [pkt] }
  else
    match (servg.entries serv).conn with
    | none => none
    | some conn => servg.sNetSend conn pkt env

/-- Insert a call on the timeout list before the first that does not expire
earlier. -/
def insertTimeout (params : Nat → RpcParam) (new : Nat) : List Nat → List Nat
  | [] => [new]
  | param :: rest =>
      if (params param).tvTimeout.atLeast (params new).tvTimeout then new :: param :: rest
      else param :: insertTimeout params new rest

/-- The opening of the connection of a server, 0 without one. -/
def openingOf (servg : ServGroup) (serv : ServAddr) : Nat :=
  match (servg.entries serv).conn with
  | none => 0
  | some conn => (servg.conns conn).opening

/-- `serv->req_id++`. -/
def countCall (servg : ServGroup) (serv : ServAddr) : ServGroup :=
  servg.modify serv fun entry => { entry with reqId := entry.reqId + 1 }

/-- The new `s_servg_rpc_param`, on the timeout list if it has a timeout. -/
def createParam (servg : ServGroup) (serv : ServAddr) (reqId : BitVec 32) (ud callback : Nat)
    (msecTimeout : Int) (now : Timeval) : ServGroup :=
  let params := Function.update servg.params servg.nparams
    { reqId := reqId
      ud := ud
      callback := callback
      msecTimeout := msecTimeout
      tvTimeout := timeoutAt now msecTimeout
      serv := serv
      sentOn := servg.openingOf serv }
  { servg with
    params := params
    nparams := servg.nparams + 1
    rpcTimeoutList :=
      if 0 < msecTimeout then insertTimeout params servg.nparams servg.rpcTimeoutList
      else servg.rpcTimeoutList }

/-- `s_hash_set_num` on a table of calls. -/
def putCall (servg : ServGroup) (hash : Nat) (reqId : BitVec 32) (param : Nat) : ServGroup :=
  { servg with
    hashes := Function.update servg.hashes hash ((servg.hashes hash).insert reqId param) }

/-- `s_servg_rpc_call` with a callback. -/
def sServgRpcCall (servg : ServGroup) (serv : ServAddr) (pkt : GroupPacket) (ud callback : Nat)
    (msecTimeout : Int) (now : Timeval) (env : Env) : Option ServGroup :=
  let reqId := (servg.entries serv).reqId
  let listed := (servg.countCall serv).createParam serv reqId ud callback msecTimeout now
  match (listed.entries serv).rpcHash with
  | none => none
  | some hash =>
      (listed.putCall hash reqId servg.nparams).isend serv { pkt with req := reqId } env

/-- `s_servg_rpc_ret`. -/
def sServgRpcRet (servg : ServGroup) (serv : ServAddr) (reqId : BitVec 32) (pkt : GroupPacket)
    (env : Env) : Option ServGroup :=
  servg.isend serv { pkt with fn := sPktTypeRpcBack, req := reqId } env

/-- `s_hash_del_num` on the table of a server. -/
def forgetCall (servg : ServGroup) (serv : ServAddr) (reqId : BitVec 32) : Option ServGroup :=
  match (servg.entries serv).rpcHash with
  | none => none
  | some hash =>
      some
        { servg with
          hashes := Function.update servg.hashes hash ((servg.hashes hash).erase reqId) }

/-- The timeout loop of `s_servg_poll` over the calls still to be looked at, up
to the next callback.  A call made meanwhile has not expired. -/
def checkTimeouts (servg : ServGroup) (now : Timeval) : List Nat → ServGroup
  | [] => { servg with frame := none }
  | param :: rest =>
      if now.atLeast (servg.params param).tvTimeout then
        { servg with
          invoked := servg.invoked ++ [{ param := param, cause := .timeout }]
          frame := some (.timeout param rest now) }
      else checkTimeouts servg now rest

/-- What follows a callback: the call leaves the timeout list and its table. -/
def afterCallback (servg : ServGroup) : Option ServGroup :=
  match servg.frame with
  | some (.rpcBack serv param req) =>
      { servg with
        rpcTimeoutList := servg.rpcTimeoutList.erase param
        frame := none }.forgetCall serv req
  | some (.timeout param rest now) =>
      let call := servg.params param
      let servg := { servg with rpcTimeoutList := servg.rpcTimeoutList.erase param }
      match servg.forgetCall call.serv call.reqId with
      | none => none
      | some servg => some (servg.checkTimeouts now rest)
  | _ => none

/-! ## Packets -/

/-- `s_hash_create`: the new table is the one at `nhashes`. -/
def createHash (servg : ServGroup) : ServGroup :=
  { servg with
    nhashes := servg.nhashes + 1
    hashes := Function.update servg.hashes servg.nhashes ∅ }

/-- The end of `ihandle_identify`: the server is established on the
connection. -/
def establish (servg : ServGroup) (conn : Nat) (serv : ServAddr) (mem : BitVec 32) (env : Env) :
    Option ServGroup :=
  let servg := servg.modify serv fun entry => { entry with mem := mem }
  let servg := servg.setUdata conn serv
  let ip := (servg.conns conn).ip
  let port := (servg.conns conn).port
  let hash := servg.nhashes
  let servg := servg.modify serv fun entry =>
    { entry with
      conn := some conn
      ip := some ip
      port := port
      flags := { entry.flags with established := true }
      reqId := 1
      rpcHash := some hash }
  let servg := (servg.createHash.listDel serv).listInsertTail .waitForPing serv
  servg.sNetSend conn (pktIdentifyBack 1 env) env

/-- The answer at `label_auth_error`. -/
def refuse (servg : ServGroup) (conn : Nat) (env : Env) : Option ServGroup :=
  servg.sNetSend conn (pktIdentifyBack 0 env) env

/-- `ihandle_identify`. -/
def ihandleIdentify (servg : ServGroup) (conn : Nat) (pkt : GroupPacket) (env : Env) :
    Option ServGroup :=
  if pkt.fn ≠ sPktTypeIdentify then servg.sNetClose conn
  else
    match pkt.words with
    | [] => servg.sNetClose conn
    | pwd :: rest =>
        if pwd ≠ servg.ipcPwd then servg.refuse conn env
        else
          match rest with
          | type :: id :: mem :: _ =>
              match servg.sServgGetServInConfig type.toInt id.toInt with
              | some serv =>
                  if (servg.entries serv).flags.established then servg.refuse conn env
                  else servg.establish conn serv mem env
              | none =>
                  match servg.sServgCreateServ type.toInt id.toInt with
                  | none => servg.refuse conn env
                  | some (servg, serv) =>
                      if (servg.entries serv).flags.established then servg.refuse conn env
                      else servg.establish conn serv mem env
          | _ => servg.sNetClose conn

/-- `ihandle_identify_back`. -/
def ihandleIdentifyBack (servg : ServGroup) (serv : ServAddr) (pkt : GroupPacket) :
    Option ServGroup :=
  match pkt.words with
  | ret :: mem :: _ =>
      if ret.toInt = 1 then
        let hash := servg.nhashes
        let servg := servg.modify serv fun entry =>
          { entry with mem := mem, reqId := 1, rpcHash := some hash }
        let servg := (servg.createHash.listDel serv).listInsertTail .waitForPing serv
        some
          (servg.modify serv fun entry =>
            { entry with flags := { entry.flags with established := true } })
      else servg.sServgResetServ serv
  | _ => servg.sServgResetServ serv

/-- `ihandle_ping`.  A seek past the end leaves the packet at its first word. -/
def ihandlePing (servg : ServGroup) (serv : ServAddr) (pkt : GroupPacket) (env : Env) :
    Option ServGroup :=
  let rest := if 2 ≤ pkt.words.length then pkt.words.drop 2 else pkt.words
  let servg :=
    match rest with
    | [] => servg
    | mem :: _ => servg.modify serv fun entry => { entry with mem := mem }
  match (servg.entries serv).conn with
  | none => none
  | some conn =>
      let pong := { pkt with fn := sPktTypePong, words := pkt.words.set 2 env.memUsed }
      servg.sNetSend conn pong env

/-- The server takes the lowest delay over; the world tells whether its delay is
below the lowest so far. -/
def noteDelay (servg : ServGroup) (serv : ServAddr) (lowerDelay : Bool) : ServGroup :=
  let type := (servg.entries serv).type
  let lowest :=
    match servg.minDelayServ type with
    | none => true
    | some other => decide (other ≠ serv) && lowerDelay
  { servg with
    minDelayServ :=
      if lowest then Function.update servg.minDelayServ type (some serv)
      else servg.minDelayServ }

/-- `ihandle_pong`. -/
def ihandlePong (servg : ServGroup) (serv : ServAddr) (pkt : GroupPacket) (env : Env) :
    ServGroup :=
  match pkt.words with
  | _ :: _ :: mem :: _ =>
      let servg :=
        (servg.modify serv fun entry => { entry with mem := mem }).noteDelay serv env.lowerDelay
      (servg.listDel serv).listInsertTail .waitForPing serv
  | _ => servg

/-- `ihandle_rpc_back`, up to the callback.  `opening` is the connection the
reply arrives on. -/
def ihandleRpcBack (servg : ServGroup) (serv : ServAddr) (opening : Nat) (pkt : GroupPacket) :
    Option ServGroup :=
  match (servg.entries serv).rpcHash with
  | none => none
  | some hash =>
      match (servg.hashes hash).lookup pkt.req with
      | none => some servg
      | some param =>
          some
            { servg with
              invoked := servg.invoked ++ [{ param := param, cause := .reply opening pkt.req }]
              frame := some (.rpcBack serv param pkt.req) }

/-- The part of `s_servg_do_event` that comes after the server is known; the
handlers of other packets belong to the users of the group. -/
def dispatch (servg : ServGroup) (serv : ServAddr) (opening : Nat) (pkt : GroupPacket)
    (env : Env) : Option ServGroup :=
  if pkt.fn = sPktTypeRpcBack then servg.ihandleRpcBack serv opening pkt
  else if pkt.fn = sPktTypeIdentifyBack then servg.ihandleIdentifyBack serv pkt
  else if pkt.fn = sPktTypePing then servg.ihandlePing serv pkt env
  else if pkt.fn = sPktTypePong then some (servg.ihandlePong serv pkt env)
  else some servg

/-- `s_servg_do_event` of a packet that arrives on a connection. -/
def sServgDoEvent (servg : ServGroup) (conn : Nat) (pkt : GroupPacket) (env : Env) :
    Option ServGroup :=
  match (servg.conns conn).udata with
  | none => servg.ihandleIdentify conn pkt env
  | some serv => servg.dispatch serv (servg.conns conn).opening pkt env

/-- The next packet of `myself_q` goes to `s_servg_do_event` without a
connection. -/
def pollMyself (servg : ServGroup) (env : Env) : Option ServGroup :=
  match servg.myselfQ, servg.myself with
  | pkt :: rest, some serv => { servg with myselfQ := rest }.dispatch serv 0 pkt env
  | _, _ => none

/-! ## The round of `s_servg_check_list` -/

/-- What happens to the server under the cursor: it is too early to try again,
`s_net_connect` fails, or it returns a connection. -/
inductive Attempt where
  | early
  | refused
  | connected (conn : Nat) (env : Env)
  deriving DecidableEq, Repr

/-- The start of the round. -/
def startCheckList (servg : ServGroup) : ServGroup :=
  let p := servg.links.next (.head .waitForConn)
  { servg with frame := some (.checking p (servg.links.next p)) }

/-- The cursors move on. -/
def nextCheckList (servg : ServGroup) (tmp : ServRef) : ServGroup :=
  { servg with frame := some (.checking tmp (servg.links.next tmp)) }

/-- One pass of the loop of `s_servg_check_list`. -/
def checkListStep (servg : ServGroup) (attempt : Attempt) : Option ServGroup :=
  match servg.frame with
  | some (.checking p tmp) =>
      match p with
      | .head _ => some { servg with frame := none }
      | .node serv =>
          let entry := servg.entries serv
          if entry.conn = none ∧ entry.flags.inConfig then
            match attempt, entry.ip with
            | .early, _ => some { servg with frame := none }
            | .refused, _ => some (servg.nextCheckList tmp)
            | .connected _ _, none => none
            | .connected conn env, some ip =>
                let servg := servg.openConn conn ip entry.port
                let servg := servg.modify serv fun entry => { entry with conn := some conn }
                let servg := servg.setUdata conn serv
                let servg := (servg.listDel serv).listInsertTail .waitForIdentify serv
                (servg.sNetSend conn (servg.pktIdentify env) env).map fun servg =>
                  servg.nextCheckList tmp
          else none
  | _ => none

end ServGroup

/-! ## Configuration -/

/-- A region of the configuration that describes a server. -/
structure Region where
  type : Int
  id : Nat
  ip : Option String
  port : Int
  valid : ServGroup.validType type = true
  deriving DecidableEq

/-- What a server knows at the start: itself and the regions in the order of the
configuration. -/
structure GroupConfig where
  id : Int
  type : Int
  ipcPwd : BitVec 32
  regions : List Region
  deriving DecidableEq

namespace ServGroup

/-- `s_servg_create`; `junk` is what the memory of the entries happens to
hold. -/
def sServgCreate (junk : ServAddr → SServer) (config : GroupConfig) : ServGroup :=
  let links : Links ServRef := { prev := fun place => place, next := fun place => place }
  { id := config.id
    type := config.type
    ipcPwd := config.ipcPwd
    servs := fun _ => { block := 0, nelem := 0, total := 16 }
    entries := junk
    links := links
    minDelayServ := fun _ => none
    myself := none
    myselfQ := []
    conns := fun _ => { opened := false, opening := 0, ip := "", port := 0, udata := none }
    openings := 0
    params := fun _ =>
      { reqId := 0, ud := 0, callback := 0, msecTimeout := 0, tvTimeout := ⟨0, 0⟩,
        serv := ⟨0, 0, 0⟩, sentOn := 0 }
    nparams := 0
    hashes := fun _ => ∅
    nhashes := 0
    rpcTimeoutList := []
    frame := none
    sent := []
    invoked := [] }

/-- The fields of an entry that its region gives. -/
def fillRegion (servg : ServGroup) (serv : ServAddr) (region : Region) : ServGroup :=
  servg.modify serv fun entry =>
    { entry with
      conn := none
      type := region.type
      id := region.id
      reqId := 1
      rpcHash := none
      ip := region.ip
      port := region.port
      mem := 0 }

/-- A region may describe this server itself. -/
def noteMyself (servg : ServGroup) (serv : ServAddr) (region : Region) : ServGroup :=
  if region.type = servg.type ∧ (region.id : Int) = servg.id then
    { servg with myself := some serv }
  else servg

/-- The loop body of `s_servg_init_config` for the region of a server. -/
def initRegion (servg : ServGroup) (region : Region) : ServGroup :=
  let created := servg.iinitServ region.type region.id
  let serv : ServAddr :=
    { type := region.type, block := (created.servs region.type).block, index := region.id }
  let listed := ((created.fillRegion serv region).noteMyself serv region).listInit serv
  if region.ip.isSome && decide (region.port ≠ 0) &&
      sDoIConnHim servg.type servg.id region.type region.id then
    listed.listInsertTail .waitForConn serv
  else listed

/-- The end of `s_servg_init_config`: this server's own entry. -/
def initMyself (servg : ServGroup) (serv : ServAddr) : ServGroup :=
  let hash := servg.nhashes
  let servg := servg.modify serv fun entry =>
    { entry with
      flags := { established := true }
      conn := none
      ip := some "127.0.0.1"
      port := -1
      reqId := 1
      rpcHash := some hash }
  { servg.createHash with myself := some serv }.listInit serv

/-- `s_servg_init_config`. -/
def sServgInitConfig (junk : ServAddr → SServer) (config : GroupConfig) : Option ServGroup :=
  let servg := config.regions.foldl initRegion (sServgCreate junk config)
  match servg.myself with
  | some serv => some (servg.initMyself serv)
  | none =>
      match servg.sServgCreateServ servg.type servg.id with
      | none => none
      | some (servg, serv) => some (servg.initMyself serv)

/-! ## Runs -/

/-- What can happen at a server group. -/
inductive Event where
  | accept (conn : Nat) (ip : String) (port : Int)
  | checkList
  | attempt (attempt : Attempt)
  | own (env : Env)
  | timeouts (now : Timeval)
  | receive (conn : Nat) (pkt : GroupPacket) (env : Env)
  | closed (conn : Nat)
  | returned
  | connect (type id : Int) (ip : String) (port : Int) (conn : Option Nat) (env : Env)
  | call (serv : ServAddr) (pkt : GroupPacket) (ud callback : Nat) (msecTimeout : Int)
      (now : Timeval) (env : Env)
  | send (serv : ServAddr) (pkt : GroupPacket) (env : Env)
  | ret (serv : ServAddr) (reqId : BitVec 32) (pkt : GroupPacket) (env : Env)
  deriving DecidableEq, Repr

/-- The group is in the round of `s_servg_check_list`, where no user code runs. -/
def checks (servg : ServGroup) : Bool :=
  match servg.frame with
  | some (.checking _ _) => true
  | _ => false

/-- One step.  The poll functions wait until a callback has returned; the users'
calls come at any time outside `s_servg_check_list`.  Packets that have been read
are delivered even when their connection has been closed meanwhile. -/
def step (servg : ServGroup) : Event → Option ServGroup
  | .accept conn ip port =>
      if servg.frame = none then some (servg.openConn conn ip port) else none
  | .checkList => if servg.frame = none then some servg.startCheckList else none
  | .attempt attempt => servg.checkListStep attempt
  | .own env => if servg.frame = none then servg.pollMyself env else none
  | .timeouts now =>
      if servg.frame = none then some (servg.checkTimeouts now servg.rpcTimeoutList) else none
  | .receive conn pkt env =>
      if servg.frame = none ∧ (servg.conns conn).opening ≠ 0 then
        servg.sServgDoEvent conn pkt env
      else none
  | .closed conn =>
      if servg.frame = none ∧ (servg.conns conn).opening ≠ 0 then servg.sNetClose conn else none
  | .returned => servg.afterCallback
  | .connect type id ip port conn env =>
      if servg.checks then none else servg.sServgConnect type id ip port conn env
  | .call serv pkt ud callback msecTimeout now env =>
      if servg.checks then none
      else servg.sServgRpcCall serv pkt ud callback msecTimeout now env
  | .send serv pkt env => if servg.checks then none else servg.isend serv pkt env
  | .ret serv reqId pkt env =>
      if servg.checks then none else servg.sServgRpcRet serv reqId pkt env

end ServGroup

/-- The runs of a server group from its configuration; `junk` is what the memory
of the entries happens to hold at the start. -/
def groupSystem (junk : ServAddr → SServer) (config : GroupConfig) :
    System ServGroup ServGroup.Event where
  init := fun servg => ServGroup.sServgInitConfig junk config = some servg
  step := ServGroup.step

end SimpleDfs.ServerGroup
