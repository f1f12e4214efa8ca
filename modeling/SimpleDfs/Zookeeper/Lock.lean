import Mathlib.Algebra.Group.Int.Defs
import Mathlib.Algebra.Group.Nat.Defs
import Mathlib.Logic.Function.Basic
import SimpleDfs.Library.Decimal
import SimpleDfs.Library.Run

/-!
Contract: locks on file names (`zookeeper/s_zookeeper.c`).

Owns: `s_zoo_lock`, `try_lock`, `try_lock_watcher` and `s_zoo_unlock` between two
accesses to the service, to `lock_elem_hash` or to `elem->callback`, the service
as far as they use it, and the interleavings of any number of clients.

Does not own: sessions that expire, calls with an element that was not granted.

`lock_m` is left out: it orders calls of `s_zoo_lock` in one client, the watchers
do not take it.  A file name stands for its node, "/lock/" and the name.
-/

set_option autoImplicit false

namespace SimpleDfs.Zookeeper

open SimpleDfs.Library

/-- The bytes of a string. -/
abbrev Name := List Nat

/-- `MAX_FILENAME_LEN`. -/
def maxFilenameLen : Nat := 256

/-- `LOCK_ROOT_LEN`. -/
def lockRootLen : Nat := 5

/-- The name of a sequence node: its path ends with the number alone. -/
def sequenceName (seq : Nat) : Name :=
  zeroPadded 10 seq

/-! ## One call -/

/-- Where a call of `s_zoo_lock` stands: what it does next. -/
inductive LockPoint where
  | idle
  | createParent
  | createNode
  | getChildren
  | clearCallback
  | runCallback
  | returned
  deriving DecidableEq, Repr

/-- What becomes of a `struct try_lock_elem`: it is armed with a watch, which is
due once the children have changed, and then the argument of
`try_lock_watcher`. -/
inductive WatchPoint where
  | armed (due : Bool)
  | lookUp
  | readCallback
  | getChildren
  | takeCallback
  | clearCallback (callback : Bool)
  | runCallback (callback : Bool)
  | crashed
  | returned
  deriving DecidableEq, Repr

/-- Where a call of `s_zoo_unlock` stands. -/
inductive UnlockPoint where
  | idle
  | delete
  | free
  | returned
  deriving DecidableEq, Repr

/-- A call of `s_zoo_lock` with its `struct s_zoo_lock_elem`: `callback` is
whether `elem->callback` is not null, `inHash` whether its id is in
`lock_elem_hash`.  `node` is the name the service has given, `runs` is how often
the callback has been called. -/
structure LockCall where
  client : Nat
  filename : Name
  node : Option Name
  lockPath : Option Name
  callback : Bool
  inHash : Bool
  lock : LockPoint
  watches : List WatchPoint
  unlock : UnlockPoint
  runs : Nat

namespace LockCall

/-- A call that is not made yet. -/
def fresh : LockCall where
  client := 0
  filename := []
  node := none
  lockPath := none
  callback := false
  inHash := false
  lock := .idle
  watches := []
  unlock := .idle
  runs := 0

/-- `s_zoo_lock` goes on. -/
def goTo (call : LockCall) (point : LockPoint) : LockCall :=
  { call with lock := point }

/-- The watcher of one watch goes on. -/
def moveTo (call : LockCall) (watch : Nat) (point : WatchPoint) : LockCall :=
  { call with watches := call.watches.set watch point }

/-- The start of `s_zoo_lock`. -/
def start (call : LockCall) (client : Nat) (filename : Name) : LockCall :=
  { call with client := client, filename := filename }.goTo
    (if filename.length + lockRootLen + 1 ≥ maxFilenameLen - 1 then .returned else .createParent)

/-- The node is created, and the element with what `path_created` has room for
of its name. -/
def created (call : LockCall) (name : Name) : LockCall :=
  { call with
    node := some name
    lockPath :=
      some (name.take (maxFilenameLen - 1 - (lockRootLen + 1 + call.filename.length + 1)))
    callback := true
    inHash := true }.goTo .getChildren

/-- What `s_zoo_unlock` prints to its buffer, behind "/lock/". -/
def unlockPath (call : LockCall) : Option Name :=
  call.lockPath.map fun name =>
    (call.filename ++ 47 :: name).take (maxFilenameLen - 1 - 1 - (lockRootLen + 1))

end LockCall

/-- The loop of `try_lock`; `strcmp` orders as the lists. -/
def minStr (names : List Name) : Option Name :=
  names.foldl
    (fun least str =>
      match least with
      | none => some str
      | some least => if str < least then some str else some least)
    none

/-- The node is the first of the children. -/
def isFirst (children : List Name) (lockPath : Option Name) : Bool :=
  match minStr children with
  | none => false
  | some least => decide (lockPath = some least)

namespace LockCall

/-- A watch is armed. -/
def arm (call : LockCall) : LockCall :=
  { call with watches := call.watches ++ [.armed false] }

/-- `try_lock`, with the children the service returns, if it does; it arms a
watch with them. -/
def tryLock (call : LockCall) : Option (List Name) → LockCall × Bool
  | none => (call, false)
  | some children => (call.arm, isFirst children call.lockPath)

/-- The next step of `s_zoo_lock` from the query on. -/
def lockStep (call : LockCall) (children : Option (List Name)) : Option LockCall :=
  match call.lock with
  | .getChildren =>
      let (call, locked) := call.tryLock children
      some (call.goTo (if locked then .clearCallback else .returned))
  | .clearCallback => some { call.goTo .runCallback with callback := false }
  | .runCallback => some { call.goTo .returned with runs := call.runs + 1 }
  | _ => none

/-- The watch fires, once. -/
def fire (call : LockCall) (watch : Nat) : Option LockCall :=
  match call.watches[watch]? with
  | some (.armed true) => some (call.moveTo watch .lookUp)
  | _ => none

/-- The next step of `try_lock_watcher`. -/
def watcherStep (call : LockCall) (watch : Nat) (children : Option (List Name)) :
    Option LockCall :=
  match call.watches[watch]? with
  | some .lookUp => some (call.moveTo watch (if call.inHash then .readCallback else .returned))
  | some .readCallback =>
      some (call.moveTo watch (if call.callback then .getChildren else .returned))
  | some .getChildren =>
      let (call, locked) := call.tryLock children
      some (call.moveTo watch (if locked then .takeCallback else .returned))
  | some .takeCallback => some (call.moveTo watch (.clearCallback call.callback))
  | some (.clearCallback callback) =>
      some { call.moveTo watch (.runCallback callback) with callback := false }
  | some (.runCallback true) => some { call.moveTo watch .returned with runs := call.runs + 1 }
  | some (.runCallback false) => some (call.moveTo watch .crashed)
  | _ => none

end LockCall

/-- The watch is due once the children have changed. -/
def WatchPoint.change : WatchPoint → WatchPoint
  | .armed _ => .armed true
  | point => point

/-- The children of the node have changed. -/
def LockCall.change (call : LockCall) : LockCall :=
  { call with watches := call.watches.map WatchPoint.change }

/-! ## The clients and the service -/

/-- All calls, the children and the next sequence number of each node, and the
static buffer of `s_zoo_unlock` in each client. -/
structure ZooWorld where
  calls : Nat → LockCall
  children : Name → List Name
  nextSeq : Name → Nat
  buf : Nat → Option Name

/-- The directory and the last part of a path behind "/lock/", if it has two. -/
def splitPath : Name → Option (Name × Name)
  | [] => none
  | char :: rest =>
      match splitPath rest with
      | some (directory, last) => some (char :: directory, last)
      | none => if char = 47 then some ([], rest) else none

namespace ZooWorld

def setCall (world : ZooWorld) (id : Nat) (call : LockCall) : ZooWorld :=
  { world with calls := Function.update world.calls id call }

/-- A node has other children. -/
def setChildren (world : ZooWorld) (filename : Name) (children : List Name) : ZooWorld :=
  { world with
    children := Function.update world.children filename children
    calls := fun id =>
      if (world.calls id).filename = filename then (world.calls id).change else world.calls id }

/-- `zoo_create` of the node of a file name, which may be below that of
another. -/
def createParent (world : ZooWorld) (filename : Name) : ZooWorld :=
  match splitPath filename with
  | none => world
  | some (directory, last) =>
      if last ∈ world.children directory then world
      else world.setChildren directory (world.children directory ++ [last])

/-- `zoo_create` of a sequence node. -/
def createNode (world : ZooWorld) (filename : Name) (seq : Nat) : ZooWorld :=
  { world.setChildren filename (world.children filename ++ [sequenceName seq]) with
    nextSeq := Function.update world.nextSeq filename (seq + 1) }

/-- `zoo_delete`. -/
def deleteNode (world : ZooWorld) (path : Name) : ZooWorld :=
  match splitPath path with
  | none => world
  | some (directory, last) =>
      if last ∈ world.children directory then
        world.setChildren directory ((world.children directory).erase last)
      else world

/-- What the service returns of the children, should it answer. -/
def answer (world : ZooWorld) (filename : Name) (ok : Bool) : Option (List Name) :=
  if ok then some (world.children filename) else none

end ZooWorld

/-- A client calls a function, or one of its threads takes its next step; `ok` is
whether the service does what it is asked for. -/
inductive ZooEvent where
  | callLock (id client : Nat) (filename : Name)
  | createParent (id : Nat) (ok : Bool)
  | createNode (id : Nat) (seq : Option Nat)
  | lock (id : Nat) (ok : Bool)
  | fire (id watch : Nat)
  | watcher (id watch : Nat) (ok : Bool)
  | callUnlock (id : Nat)
  | deleteNode (id : Nat) (ok : Bool)
  | freeElem (id : Nat)
  deriving DecidableEq, Repr

namespace ZooWorld

/-- The service gives a number that is larger than those it has given before and
has ten digits, and whose node does not exist. -/
def Admits (world : ZooWorld) (filename : Name) (seq : Nat) : Prop :=
  world.nextSeq filename ≤ seq ∧ seq < 10 ^ 10 ∧ sequenceName seq ∉ world.children filename

instance (world : ZooWorld) (filename : Name) (seq : Nat) :
    Decidable (world.Admits filename seq) :=
  inferInstanceAs (Decidable (_ ∧ _ ∧ _))

def step (world : ZooWorld) : ZooEvent → Option ZooWorld
  | .callLock id client filename =>
      if (world.calls id).lock = .idle then
        some (world.setCall id ((world.calls id).start client filename))
      else none
  | .createParent id ok =>
      let call := world.calls id
      if call.lock = .createParent then
        if ok then
          some ((world.setCall id (call.goTo .createNode)).createParent call.filename)
        else some (world.setCall id (call.goTo .returned))
      else none
  | .createNode id seq =>
      let call := world.calls id
      if call.lock = .createNode then
        match seq with
        | none => some (world.setCall id (call.goTo .returned))
        | some seq =>
            if world.Admits call.filename seq then
              some ((world.setCall id (call.created (sequenceName seq))).createNode
                call.filename seq)
            else none
      else none
  | .lock id ok =>
      let call := world.calls id
      (call.lockStep (world.answer call.filename ok)).map (world.setCall id)
  | .fire id watch => ((world.calls id).fire watch).map (world.setCall id)
  | .watcher id watch ok =>
      let call := world.calls id
      (call.watcherStep watch (world.answer call.filename ok)).map (world.setCall id)
  | .callUnlock id =>
      -- a client has an element only from its callback, and calls once
      let call := world.calls id
      if 0 < call.runs ∧ call.unlock = .idle then
        some { world.setCall id { call with unlock := .delete } with
          buf := Function.update world.buf call.client call.unlockPath }
      else none
  | .deleteNode id ok =>
      let call := world.calls id
      if call.unlock = .delete then
        let after := world.setCall id { call with unlock := .free }
        match world.buf call.client with
        | none => some after
        | some path => some (if ok then after.deleteNode path else after)
      else none
  | .freeElem id =>
      let call := world.calls id
      if call.unlock = .free then
        some (world.setCall id { call with inHash := false, unlock := .returned })
      else none

end ZooWorld

/-- A child is a sequence node, or the node of a longer file name that
`s_zoo_lock` takes. -/
def IsChild (filename name : Name) : Prop :=
  name.length = 10 ∨
    filename.length + 1 + name.length + lockRootLen + 1 < maxFilenameLen - 1

/-- No call is made yet; the service may have nodes of former clients. -/
structure ZooWorld.Initial (world : ZooWorld) : Prop where
  calls : ∀ id, world.calls id = LockCall.fresh
  children : ∀ filename, ∀ name ∈ world.children filename, IsChild filename name
  buf : ∀ client, world.buf client = none

def zooSystem : System ZooWorld ZooEvent where
  init := ZooWorld.Initial
  step := ZooWorld.step

/-! ## The properties -/

/-- The call has been granted and not unlocked. -/
def LockCall.Holds (call : LockCall) : Prop :=
  0 < call.runs ∧ call.unlock = .idle

/-- Each call is granted once, and one call at a time for a file name. -/
structure ZooWorld.GrantsExclusively (world : ZooWorld) : Prop where
  once : ∀ id, (world.calls id).runs ≤ 1
  alone : ∀ first second, (world.calls first).Holds → (world.calls second).Holds →
    (world.calls first).filename = (world.calls second).filename → first = second

/-- A thread has found the call to be the first and has not written NULL yet. -/
def WatchPoint.deciding : WatchPoint → Bool
  | .takeCallback => true
  | .clearCallback _ => true
  | _ => false

def LockCall.isDeciding (call : LockCall) : Bool :=
  call.lock == .clearCallback || call.watches.any WatchPoint.deciding

/-- A watcher that reads `elem->callback` finds no other thread between the query
and the write, and the element not freed. -/
def readsSettled (world : ZooWorld) : ZooEvent → Bool
  | .watcher id watch _ =>
      let call := world.calls id
      !(call.watches[watch]? == some .readCallback) ||
        (!call.isDeciding && call.unlock != .returned)
  | _ => true

end SimpleDfs.Zookeeper
