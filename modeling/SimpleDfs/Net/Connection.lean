import SimpleDfs.Common.SList
import SimpleDfs.Library.Run

/-!
Contract: connections and the pool they are taken from (`net/s_net.c`).

Owns: `SConn`, the connection part of `struct s_net`, `iget_conn`, `irm_conn`
and `iput_conn`, and the sequences of acquisitions and closes.

Does not own: sockets, epoll and the contents of packets; what is read into the
buffer of a connection.
-/

set_option autoImplicit false

namespace SimpleDfs.Net

open SimpleDfs.Common
open SimpleDfs.Library

/-- `struct s_conn`.  A write queue is the list of its packets; the fields
`write_queue` and `read_buf` may be null. -/
structure SConn where
  fd : Int
  ip : String
  port : Int
  writeQueue : Option (List Nat)
  readBuf : Option (List UInt8)
  readBufP : Int
  readBufSz : Int
  readBufCurr : Int
  udata : Option Nat

/-- Where a link of the pool can point: to `net->conn_list` or into the
connection at an address. -/
inductive ConnRef where
  | connList
  | conn (addr : Nat)
  deriving DecidableEq, Repr

/-- The connection part of `struct s_net`, with the memory of its connections.
`unused` is the next address `s_malloc` returns. -/
structure SNet where
  nfd : Int
  conns : Nat → SConn
  links : Links ConnRef
  nconn : Int
  nconnFree : Int
  unused : Nat

/-- `DEFAULT_READ_BUFFER_SZ`. -/
def defaultReadBufferSz : Nat := 1024

/-- Memory as `s_malloc` returns it: whatever it held before. -/
def uninitialised (junk : Nat → UInt8) (size : Nat) : List UInt8 :=
  (List.range size).map junk

/-- The connection `s_malloc` returns in `iget_conn`, its buffers null. -/
def allocatedConn : SConn where
  fd := -1
  ip := ""
  port := 0
  writeQueue := none
  readBuf := none
  readBufP := 0
  readBufSz := 0
  readBufCurr := 0
  udata := none

/-- The second half of `iget_conn`: reset the connection and keep the buffers it
has. -/
def resetConn (junk : Nat → UInt8) (conn : SConn) : SConn :=
  let conn := { conn with fd := -1, ip := "", port := 0, udata := none, writeQueue := some [] }
  match conn.readBuf with
  | some _ => { conn with readBufP := 0, readBufCurr := 0 }
  | none =>
      { conn with
        readBuf := some (uninitialised junk defaultReadBufferSz)
        readBufSz := defaultReadBufferSz
        readBufP := 0
        readBufCurr := 0 }

/-- `iget_conn`: the connection at the front of the pool, or a new one. -/
def igetConn (junk : Nat → UInt8) (net : SNet) : SNet × Nat :=
  match net.links.next .connList with
  | .conn addr =>
      let links := sListDel net.links (.conn addr)
      ({ net with
          links := sListInit links (.conn addr)
          nconnFree := net.nconnFree - 1
          conns := Function.update net.conns addr (resetConn junk (net.conns addr)) },
        addr)
  | .connList =>
      let addr := net.unused
      ({ net with
          unused := net.unused + 1
          nconn := net.nconn + 1
          links := sListInit net.links (.conn addr)
          conns := Function.update net.conns addr (resetConn junk allocatedConn) },
        addr)

/-- `irm_fd`, whose result nobody reads.  `removed` is what epoll answers. -/
def irmFd (net : SNet) (removed : Bool) : SNet :=
  if removed then { net with nfd := net.nfd - 1 } else net

/-- `irm_conn`: the connection leaves epoll, joins the pool and drops the
packets it has not sent. -/
def irmConn (net : SNet) (removed : Bool) (addr : Nat) : SNet :=
  let net := irmFd net removed
  let conn := net.conns addr
  { net with
    links := sListInsert (sListDel net.links (.conn addr)) .connList (.conn addr)
    conns := Function.update net.conns addr
      { conn with writeQueue := conn.writeQueue.map fun _ => [] } }

/-- `iput_conn`. -/
def iputConn (net : SNet) (addr : Nat) : SNet :=
  { net with
    links := sListInsert net.links .connList (.conn addr)
    nconnFree := net.nconnFree + 1 }

/-! ## Acquisitions and closes -/

/-- The connections with the ones handed out and not closed since, and the ones
closed and not handed out since. -/
structure PoolWorld where
  net : SNet
  live : List Nat
  closed : List Nat

/-- `iget_conn` in `s_net_connect` or `ilisten_accept`; `irm_conn` and
`iput_conn` in `s_net_close` or `iclose_conn_positive`. -/
inductive PoolEvent where
  | acquire (junk : Nat → UInt8)
  | close (addr : Nat) (removed : Bool)

def PoolWorld.step (world : PoolWorld) : PoolEvent → Option PoolWorld
  | .acquire junk =>
      let (net, addr) := igetConn junk world.net
      some { net := net, live := addr :: world.live, closed := world.closed.erase addr }
  | .close addr removed =>
      if addr ∈ world.live then
        some
          { net := iputConn (irmConn world.net removed addr) addr
            live := world.live.erase addr
            closed := addr :: world.closed }
      else none

/-- `s_net_create`: no connection yet. -/
def emptyPool : PoolWorld where
  net :=
    { nfd := 0
      conns := fun _ => allocatedConn
      links := sListInit { prev := fun addr => addr, next := fun addr => addr } .connList
      nconn := 0
      nconnFree := 0
      unused := 0 }
  live := []
  closed := []

def poolSystem : System PoolWorld PoolEvent where
  init := fun world => world = emptyPool
  step := PoolWorld.step

end SimpleDfs.Net
