import Mathlib.Algebra.Group.Int.Defs
import Mathlib.Algebra.Group.Nat.Defs
import SimpleDfs.Zookeeper.Lock

/-!
Contract: the barrier of processes (`zookeeper/s_zookeeper.c`).

Owns: `s_zoo_sync` and `try_sync` between two accesses to the service, the static
buffer of a process and `sync_m`, the service as far as they use it, sessions
that expire, and the interleavings of any number of processes and threads.

Does not own: how long a process sleeps between two queries; paths that the
service rejects for their characters, which are those it refuses.

An id stands for its node, "/sync/" and the id.  `path_created` is left out: it is
written and not read.
-/

set_option autoImplicit false

namespace SimpleDfs.Zookeeper

open SimpleDfs.Library

/-- `SYNC_ROOT_LEN`. -/
def syncRootLen : Nat := 5

/-- Where a call of `s_zoo_sync` stands: what it does next.  It has returned from
its loop, or behind `label_end`. -/
inductive SyncPoint where
  | idle
  | lockSync
  | createParent
  | createNode
  | trySync
  | returned (synced : Bool)
  deriving DecidableEq, Repr

/-- A call of `s_zoo_sync`.  `directory` is where its sequence node was made,
`refused` whether the service has failed it before that. -/
structure SyncCall where
  client : Nat
  id : Name
  nprocess : Int
  directory : Option Name
  refused : Bool
  point : SyncPoint

namespace SyncCall

/-- A call that is not made yet. -/
def fresh : SyncCall where
  client := 0
  id := []
  nprocess := 0
  directory := none
  refused := false
  point := .idle

def goTo (call : SyncCall) (point : SyncPoint) : SyncCall :=
  { call with point := point }

/-- The test of the length of the id. -/
def tooLong (call : SyncCall) : Bool :=
  decide (call.id.length + syncRootLen + 1 ≥ maxFilenameLen - 1)

end SyncCall

/-- A sequence node and the call that made it, if that is not one of a session
before. -/
structure SyncChild where
  name : Name
  maker : Option Nat
  deriving DecidableEq, Repr

/-- All calls; in each process who has `sync_m`, the static buffer behind "/sync/"
and whether its session has expired; and the nodes below "/sync": those that
stay, and the sequence nodes of each. -/
structure SyncWorld where
  calls : Nat → SyncCall
  holder : Nat → Option Nat
  path : Nat → List Nat
  expired : Nat → Bool
  nodes : List Name
  children : Name → List SyncChild

/-- Write a string with its zero over the start of a buffer. -/
def overwrite (string buffer : List Nat) : List Nat :=
  string ++ 0 :: buffer.drop (string.length + 1)

/-- Write a slash over the zero behind a string. -/
def withSlash (string buffer : List Nat) : List Nat :=
  string ++ 47 :: buffer.drop (string.length + 1)

/-- The string at the start of a buffer. -/
def cString (buffer : List Nat) : Name :=
  buffer.takeWhile (· ≠ 0)

/-- The node stands directly below another. -/
def isBelow (id node : Name) : Bool :=
  (splitPath node).map Prod.fst == some id

namespace SyncWorld

def setCall (world : SyncWorld) (id : Nat) (call : SyncCall) : SyncWorld :=
  { world with calls := Function.update world.calls id call }

/-- The service answers a client. -/
def answers (world : SyncWorld) (client : Nat) (ok : Bool) : Bool :=
  ok && !world.expired client

/-- The node exists, or the one above it does. -/
def canCreate (world : SyncWorld) (node : Name) : Bool :=
  world.nodes.contains node ||
    match splitPath node with
    | none => decide (node ≠ [])
    | some (directory, last) => world.nodes.contains directory && decide (last ≠ [])

/-- Where a sequence node for a path is made, and what its name begins with. -/
def sequencePlace (world : SyncWorld) (path : Name) : Option (Name × Name) :=
  (splitPath path).filter fun place => world.nodes.contains place.1

/-- `v.count` in `try_sync`. -/
def count (world : SyncWorld) (id : Name) : Nat :=
  (world.children id).length + world.nodes.countP (isBelow id)

/-- `label_end`. -/
def giveUp (world : SyncWorld) (id : Nat) (ok : Bool) : SyncWorld :=
  let call := world.calls id
  { world.setCall id
      { call.goTo (.returned false) with refused := !world.answers call.client ok } with
    holder := Function.update world.holder call.client none }

/-- The call has `sync_m` and writes its id to the buffer. -/
def takeLock (world : SyncWorld) (id : Nat) : SyncWorld :=
  let call := world.calls id
  { world.setCall id (call.goTo .createParent) with
    holder := Function.update world.holder call.client (some id)
    path := Function.update world.path call.client
      (overwrite call.id (world.path call.client)) }

/-- The node exists. -/
def parentCreated (world : SyncWorld) (id : Nat) (node : Name) : SyncWorld :=
  let call := world.calls id
  { world.setCall id (call.goTo .createNode) with
    nodes := if world.nodes.contains node then world.nodes else world.nodes ++ [node]
    path := Function.update world.path call.client
      (withSlash call.id (world.path call.client)) }

/-- The sequence node is made. -/
def nodeCreated (world : SyncWorld) (id : Nat) (directory name : Name) : SyncWorld :=
  let call := world.calls id
  { world.setCall id { call.goTo .trySync with directory := some directory } with
    children := Function.update world.children directory
      (world.children directory ++ [{ name := name, maker := some id }])
    holder := Function.update world.holder call.client none
    path := Function.update world.path call.client
      (overwrite call.id (world.path call.client)) }

/-- The sequence nodes that a session has made are gone. -/
def expire (world : SyncWorld) (client : Nat) : SyncWorld :=
  { world with
    expired := Function.update world.expired client true
    children := fun directory => (world.children directory).filter fun child =>
      child.maker.all fun maker => (world.calls maker).client != client }

/-- The sequence nodes of sessions before are gone. -/
def vanish (world : SyncWorld) (directory : Name) : SyncWorld :=
  { world with
    children := Function.update world.children directory
      ((world.children directory).filter fun child => child.maker.isSome) }

end SyncWorld

/-- A thread calls `s_zoo_sync` or takes its next step, or a session expires; `ok`
is whether the service does what it is asked for, `seq` the number it gives. -/
inductive SyncEvent where
  | call (id client : Nat) (name : Name) (nprocess : Int)
  | lockSync (id : Nat)
  | createParent (id : Nat) (ok : Bool)
  | createNode (id : Nat) (ok : Bool) (seq : Nat)
  | trySync (id : Nat) (ok : Bool)
  | expire (client : Nat)
  | vanish (directory : Name)
  deriving DecidableEq, Repr

def SyncWorld.step (world : SyncWorld) : SyncEvent → Option SyncWorld
  | .call id client name nprocess =>
      -- a string ends at its zero
      if (world.calls id).point = .idle ∧ 0 ∉ name then
        some (world.setCall id
          { SyncCall.fresh with
            client := client, id := name, nprocess := nprocess, point := .lockSync })
      else none
  | .lockSync id =>
      let call := world.calls id
      if call.point = .lockSync ∧ world.holder call.client = none then
        if call.tooLong then some (world.setCall id (call.goTo (.returned false)))
        else some (world.takeLock id)
      else none
  | .createParent id ok =>
      let call := world.calls id
      if call.point = .createParent then
        let node := cString (world.path call.client)
        if world.answers call.client ok && world.canCreate node then
          some (world.parentCreated id node)
        else some (world.giveUp id ok)
      else none
  | .createNode id ok seq =>
      let call := world.calls id
      if call.point = .createNode then
        -- the string in the buffer goes on behind the slash with that of calls before
        match (world.sequencePlace (cString (world.path call.client))).filter
            fun _ => world.answers call.client ok with
        | some (directory, last) =>
            some (world.nodeCreated id directory (last ++ sequenceName seq))
        | none => some (world.giveUp id ok)
      else none
  | .trySync id ok =>
      let call := world.calls id
      if call.point = .trySync then
        if world.answers call.client ok && decide (call.nprocess ≤ world.count call.id) then
          some (world.setCall id (call.goTo (.returned true)))
        else some world
      else none
  | .expire client => some (world.expire client)
  | .vanish directory => some (world.vanish directory)

/-- No call is made yet; there may be nodes of sessions before, and `former` bounds
what is below each. -/
structure SyncWorld.Initial (former : Name → Nat) (world : SyncWorld) : Prop where
  calls : ∀ id, world.calls id = SyncCall.fresh
  holder : ∀ client, world.holder client = none
  path : ∀ client, world.path client = List.replicate (maxFilenameLen - syncRootLen - 1) 0
  expired : ∀ client, world.expired client = false
  makers : ∀ directory, ∀ child ∈ world.children directory, child.maker = none
  former : ∀ directory, world.count directory ≤ former directory

def syncSystem (former : Name → Nat) : System SyncWorld SyncEvent where
  init := SyncWorld.Initial former
  step := SyncWorld.step

/-! ## The properties -/

/-- A call has made its node at the barrier of an id, which is its own. -/
def SyncWorld.HasEntered (world : SyncWorld) (name : Name) (id : Nat) : Prop :=
  (world.calls id).id = name ∧ (world.calls id).directory = some name

/-- A call leaves the loop only when enough calls with its id have made their
nodes; it leaves by the next query that the service answers when enough have, and
none of their sessions has expired; and it does not skip the loop but for an id
that cannot be a node or a request that the service refuses. -/
structure SyncWorld.Synchronizes (former : Name → Nat) (world : SyncWorld) : Prop where
  waits : ∀ id, (world.calls id).point = .returned true →
    ∃ entered : List Nat, entered.Nodup ∧
      (∀ other ∈ entered, world.HasEntered (world.calls id).id other) ∧
      (world.calls id).nprocess ≤ (entered.length + former (world.calls id).id : Nat)
  leaves : ∀ id (entered : List Nat), (world.calls id).point = .trySync →
    world.expired (world.calls id).client = false → entered.Nodup →
    (∀ other ∈ entered, world.HasEntered (world.calls id).id other ∧
      world.expired (world.calls other).client = false) →
    (world.calls id).nprocess ≤ (entered.length : Nat) →
    world.step (.trySync id true) =
      some (world.setCall id ((world.calls id).goTo (.returned true)))
  skips : ∀ id, (world.calls id).point = .returned false →
    (world.calls id).tooLong = true ∨ (world.calls id).id = [] ∨
      (world.calls id).refused = true

/-- No id has a slash, and no sequence node is refused to a session that has not
expired. -/
def syncOrderly (world : SyncWorld) : SyncEvent → Bool
  | .call _ _ name _ => decide (47 ∉ name)
  | .createNode id ok _ => ok || world.expired (world.calls id).client
  | _ => true

end SimpleDfs.Zookeeper
