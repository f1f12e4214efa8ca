import SimpleDfs.Dserv.Lock
import SimpleDfs.Library.Fifo
import SimpleDfs.Library.Table

/-!
Contract: the chained-lock handlers of a data server (`core/s_core_dserv.c`).

Owns: the lock part of `struct s_dserver`, `s_core_dserv_lock`,
`s_core_dserv_lock_unlock`, the functions they call and the packets they send.

Does not own: the raw bytes of a packet; when a packet is delivered.
-/

set_option autoImplicit false

namespace SimpleDfs.Dserv

open SimpleDfs.Common
open SimpleDfs.Library

/-- A peer of a data server. -/
inductive Peer where
  | client (id : Int)
  | dserv (id : Int)
  deriving DecidableEq, Repr

/-- The packet types of the chained lock. -/
inductive LockBody where
  | lockStart (pkt : LockPacket)
  | lockNext (pkt : LockPacket)
  | lockUnlock (id : SId)
  | lockEnd (id : SId)
  deriving DecidableEq, Repr

/-- The lock part of `struct s_dserver`.  `locks` maps an operation to the
address of its lock, `created` is the next unused address, and `taken` records
the operations `ilock_take_done` ran for, oldest first. -/
structure Dserver where
  locks : Table SId Nat
  lockSent : List CoreLock
  lockWaiting : List CoreLock
  created : Nat
  taken : List SId

/-- `s_core_create`: no locks. -/
def Dserver.empty : Dserver where
  locks := ∅
  lockSent := []
  lockWaiting := []
  created := 0
  taken := []

/-- What the handlers read of the process they run in: `core->id`, the
connected peers, and the contents of memory past the end of an array. -/
structure Core where
  id : Int
  active : Peer → Bool
  junk : Int

/-- The packets a handler sends, oldest first. -/
abbrev Sends := List (Packet Peer LockBody)

/-- `s_servg_get_active_serv` followed by `s_servg_send`. -/
def Core.send (core : Core) (dst : Peer) (body : LockBody) : Sends :=
  if core.active dst then [{ src := .dserv core.id, dst := dst, body := body }] else []

/-- `ilock_conflict_all`. -/
def ilockConflictAll (core : Core) (dserv : Dserver) (lock : CoreLock) : Bool :=
  dserv.lockSent.any fun tmp => ilockIsConflict core.junk tmp lock

/-- The packet of the lock once `ilock_next` has rewritten its position. -/
def CoreLock.nextPacket (lock : CoreLock) : LockPacket :=
  { lock.pkt with curr := lock.nextPos }

/-- `ilock_next`: the packets sent and the return value. -/
def ilockNext (core : Core) (lock : CoreLock) : Sends × Bool :=
  if lock.nextPos ≥ lock.elems.length then
    (core.send (.client lock.clientId) (.lockEnd lock.id), false)
  else
    (core.send (.dserv lock.nextServ) (.lockNext lock.nextPacket),
      core.active (.dserv lock.nextServ))

/-- `ilock_unlock`: every server before this one hears that it was reached. -/
def ilockUnlock (core : Core) (lock : CoreLock) : Sends :=
  if lock.nextPos ≤ 1 then []
  else
    (lock.elems.take (lock.nextPos - 1)).flatMap fun elem =>
      core.send (.dserv elem.servId) (.lockUnlock lock.id)

/-- `ilock_take_done`. -/
def ilockTakeDone (core : Core) (dserv : Dserver) (lock : CoreLock) : Dserver × Sends :=
  let unlocks := ilockUnlock core lock
  let (next, ret) := ilockNext core lock
  let dserv := { dserv with taken := dserv.taken ++ [lock.id] }
  if ret then
    ({ dserv with
        lockSent := dserv.lockSent ++ [{ lock with pkt := lock.nextPacket }]
        locks := dserv.locks.insert lock.id lock.ref },
      unlocks ++ next)
  else
    ({ dserv with locks := dserv.locks.erase lock.id }, unlocks ++ next)

/-- The lock `s_core_dserv_lock` allocates for a packet. -/
def createLock (ref : Nat) (pkt : LockPacket) : CoreLock where
  ref := ref
  pkt := pkt
  id := pkt.id
  clientId := pkt.clientId
  nextPos := pkt.curr + 1
  nextServ := (pkt.servs[pkt.curr + 1]?.map Prod.fst).getD (-1)
  elems := pkt.servs.map fun serv => { servId := serv.1, id := serv.2, finish := false }

/-- `s_core_dserv_lock`.  `none` is the failed assertion that the packet names
this server at its current position. -/
def sCoreDservLock (core : Core) (dserv : Dserver) (pkt : LockPacket) :
    Option (Dserver × Sends) :=
  let lock := createLock dserv.created pkt
  let dserv := { dserv with created := dserv.created + 1 }
  if pkt.servs[pkt.curr]?.map Prod.fst = some core.id then
    if ilockConflictAll core dserv lock then
      some ({ dserv with lockWaiting := dserv.lockWaiting ++ [lock] }, [])
    else
      some (ilockTakeDone core dserv lock)
  else
    none

/-- The loop of `s_core_dserv_lock_unlock` over the elements of a lock: the
elements with the sender marked, and the final value of `finish`. -/
def markFinish (servId : Int) : Bool → List LockElem → List LockElem × Bool
  | finish, [] => ([], finish)
  | finish, elem :: rest =>
      if elem.servId = servId then
        if finish then
          let (marked, final) := markFinish servId finish rest
          ({ elem with finish := true } :: marked, final)
        else
          ({ elem with finish := true } :: rest, finish)
      else
        let (marked, final) := markFinish servId (finish && elem.finish) rest
        (elem :: marked, final)

/-- The first half of `s_core_dserv_lock_unlock`: mark the sender in the lock
at the address found in `locks`, and forget the lock once all its elements are
marked. -/
def unlockMark (dserv : Dserver) (servId : Int) (id : SId) (ref : Nat) : Dserver :=
  let finished := dserv.lockSent.any fun lock =>
    lock.ref == ref && (markFinish servId true lock.elems).2
  if finished then
    { dserv with
      locks := dserv.locks.erase id
      lockSent := dserv.lockSent.filter fun lock => lock.ref != ref }
  else
    { dserv with
      lockSent := dserv.lockSent.map fun lock =>
        if lock.ref = ref then { lock with elems := (markFinish servId true lock.elems).1 }
        else lock }

/-- The second half: release the first waiting lock that meets no conflict and
start over.  A release shortens the list, so its length bounds the releases. -/
def rescan (core : Core) : Nat → Dserver → Dserver × Sends
  | 0, dserv => (dserv, [])
  | fuel + 1, dserv =>
      match dserv.lockWaiting.find? fun lock => !ilockConflictAll core dserv lock with
      | none => (dserv, [])
      | some lock =>
          let waiting := dserv.lockWaiting.eraseP fun lock => !ilockConflictAll core dserv lock
          let (dserv, sends) := ilockTakeDone core { dserv with lockWaiting := waiting } lock
          let (final, more) := rescan core fuel dserv
          (final, sends ++ more)

/-- `s_core_dserv_lock_unlock`. -/
def sCoreDservLockUnlock (core : Core) (dserv : Dserver) (servId : Int) (id : SId) :
    Dserver × Sends :=
  match dserv.locks.lookup id with
  | none => (dserv, [])
  | some ref =>
      let dserv := unlockMark dserv servId id ref
      rescan core dserv.lockWaiting.length dserv

end SimpleDfs.Dserv
