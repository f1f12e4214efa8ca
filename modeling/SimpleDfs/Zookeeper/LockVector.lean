import SimpleDfs.Zookeeper.LockProgress

/-!
Contract: locks on several file names (`zookeeper/s_zookeeper.c`).

Owns: `s_zoo_lockv_create`, `s_zoo_lockv_add`, `s_zoo_lockv`, `lockv_callback` and
`s_zoo_unlockv` on top of the locks on one name, and the interleavings of any
number of vectors.

Does not own: calls of `s_zoo_lock` beside those of vectors, `s_zoo_lockv_free`.

A lock element stands for its call of `s_zoo_lock`.  `lockv_callback` runs once for
each run of the callback of a call, some time after it.
-/

set_option autoImplicit false

namespace SimpleDfs.Zookeeper

open SimpleDfs.Library

/-- What becomes of a vector: its loop of `s_zoo_unlockv` is about to unlock an
element, or in `s_zoo_unlock` for it. -/
inductive VectorPhase where
  | created
  | locking
  | locked
  | unlocking (index : Nat)
  | freeing (index : Nat)
  | unlocked
  deriving DecidableEq, Repr

/-- `struct s_zoo_lock_vector`.  `count` is the number of file names; `lockElems` has
what is written of `lock_elems`, where a null pointer is `none`. -/
structure LockVector where
  client : Nat
  filenames : List Name
  size : Nat
  curr : Nat
  lockElems : List (Option Nat)
  phase : VectorPhase

namespace LockVector

/-- `s_zoo_lockv_create`. -/
def create (client : Nat) : LockVector where
  client := client
  filenames := []
  size := 0
  curr := 0
  lockElems := []
  phase := .created

/-- `s_zoo_lockv_add`: the array of names is copied to one twice as large when it is
full. -/
def add (vector : LockVector) (filename : Name) : LockVector :=
  { vector with
    filenames := vector.filenames ++ [filename]
    size :=
      if vector.filenames.length ≥ vector.size then (vector.size + 1) * 2 else vector.size }

def goTo (vector : LockVector) (phase : VectorPhase) : LockVector :=
  { vector with phase := phase }

theorem filenames_foldl_add (filenames : List Name) (vector : LockVector) :
    (filenames.foldl add vector).filenames = vector.filenames ++ filenames ∧
      (filenames.foldl add vector).lockElems = vector.lockElems ∧
      (filenames.foldl add vector).curr = vector.curr ∧
      (filenames.foldl add vector).client = vector.client := by
  induction filenames generalizing vector with
  | nil => exact ⟨(List.append_nil _).symm, rfl, rfl, rfl⟩
  | cons filename rest inductionHypothesis =>
      obtain ⟨names, others⟩ := inductionHypothesis (vector.add filename)
      refine ⟨?_, others⟩
      rw [List.foldl_cons, names]
      exact List.append_assoc _ [filename] rest

/-- The array has room for the names. -/
theorem length_le_size (filenames : List Name) {vector : LockVector}
    (room : vector.filenames.length ≤ vector.size) :
    (filenames.foldl add vector).filenames.length ≤ (filenames.foldl add vector).size := by
  induction filenames generalizing vector with
  | nil => exact room
  | cons filename rest inductionHypothesis =>
      rw [List.foldl_cons]
      apply inductionHypothesis
      unfold add
      dsimp only
      rw [List.length_append, List.length_singleton]
      split <;> omega

end LockVector

/-- The service with the calls for single names; the vectors; the vector of each
call, `elem->d`; and how many runs of its callback `lockv_callback` has seen. -/
structure LockvWorld where
  zoo : ZooWorld
  vectors : Nat → LockVector
  owner : Nat → Option Nat
  served : Nat → Nat

namespace LockvWorld

def setVector (world : LockvWorld) (id : Nat) (vector : LockVector) : LockvWorld :=
  { world with vectors := Function.update world.vectors id vector }

/-- A vector calls `s_zoo_lock` for a name. -/
def callLock (world : LockvWorld) (id call : Nat) (filename : Name) : Option LockvWorld :=
  (world.zoo.step (.callLock call (world.vectors id).client filename)).map fun zoo =>
    { world with zoo := zoo, owner := Function.update world.owner call (some id) }

/-- `s_zoo_lockv`. -/
def lockv (world : LockvWorld) (id : Nat) (vector : LockVector) (call : Nat) :
    Option LockvWorld :=
  match vector.filenames with
  | [] => some (world.setVector id (vector.goTo .locked))
  | filename :: _ =>
      (world.setVector id ({ vector with lockElems := [], curr := 0 }.goTo .locking)).callLock id
        call filename

/-- `lockv_callback`, for a call that is granted; `next` is its next call of
`s_zoo_lock`. -/
def lockvCallback (world : LockvWorld) (id call next : Nat) : Option LockvWorld :=
  let vector := { world.vectors id with
    lockElems := (world.vectors id).lockElems ++ [some call]
    curr := (world.vectors id).curr + 1 }
  let world := { world with
    served := Function.update world.served call (world.served call + 1) }
  match vector.filenames[vector.curr]? with
  | none => some (world.setVector id (vector.goTo .locked))
  | some filename => (world.setVector id vector).callLock id next filename

/-- The loop of `s_zoo_unlockv`. -/
def unlockNext (world : LockvWorld) (id : Nat) : Option LockvWorld :=
  let vector := world.vectors id
  match vector.phase with
  | .unlocking index =>
      if index < vector.filenames.length then
        match vector.lockElems[index]? with
        | some (some call) =>
            (world.zoo.step (.callUnlock call)).map fun zoo =>
              { world with zoo := zoo }.setVector id (vector.goTo (.freeing index))
        | _ => some (world.setVector id (vector.goTo (.unlocking (index + 1))))
      else some (world.setVector id (vector.goTo .unlocked))
  | .freeing index =>
      match vector.lockElems[index]? with
      | some (some call) =>
          if (world.zoo.calls call).unlock = .returned then
            some (world.setVector id
              ({ vector with lockElems := vector.lockElems.set index none }.goTo
                (.unlocking (index + 1))))
          else none
      | _ => none
  | _ => none

end LockvWorld

/-- A client calls a function, or something goes on of itself. -/
inductive LockvEvent where
  | zoo (event : ZooEvent)
  | lockv (id client : Nat) (filenames : List Name) (call : Nat)
  | callback (call next : Nat)
  | unlockv (id : Nat)
  | unlockNext (id : Nat)
  deriving DecidableEq, Repr

def LockvWorld.step (world : LockvWorld) : LockvEvent → Option LockvWorld
  | .zoo event =>
      if event.inner then (world.zoo.step event).map fun zoo => { world with zoo := zoo } else none
  | .lockv id client filenames call =>
      if (world.vectors id).phase = .created then
        world.lockv id (filenames.foldl LockVector.add (LockVector.create client)) call
      else none
  | .callback call next =>
      match world.owner call with
      | none => none
      | some id =>
          if world.served call < (world.zoo.calls call).runs then world.lockvCallback id call next
          else none
  | .unlockv id =>
      if (world.vectors id).phase = .locked then
        some (world.setVector id ((world.vectors id).goTo (.unlocking 0)))
      else none
  | .unlockNext id => world.unlockNext id

/-- No call is made yet, and the service has no node. -/
structure LockvWorld.Initial (world : LockvWorld) : Prop where
  zoo : zooWithoutNodes.init world.zoo
  vectors : ∀ id, ∃ client, world.vectors id = LockVector.create client
  owner : ∀ call, world.owner call = none
  served : ∀ call, world.served call = 0

def lockvSystem : System LockvWorld LockvEvent where
  init := LockvWorld.Initial
  step := LockvWorld.step

/-! ## The properties -/

/-- A vector has been granted the lock on a name, and has not begun to unlock. -/
def LockvWorld.HasLock (world : LockvWorld) (id : Nat) (name : Name) : Prop :=
  ((world.vectors id).phase = .locking ∨ (world.vectors id).phase = .locked) ∧
    name ∈ (world.vectors id).filenames.take (world.vectors id).curr

/-- What goes on of itself. -/
def LockvEvent.inner : LockvEvent → Bool
  | .zoo _ => true
  | .lockv _ _ _ _ => false
  | .callback _ _ => true
  | .unlockv _ => false
  | .unlockNext _ => true

def LockvWorld.Quiet (world : LockvWorld) : Prop :=
  ∀ event : LockvEvent, event.inner = true → world.step event = none

/-- A vector whose callback has run has all its names; no two vectors have one name;
and once nothing is left to happen and every vector that was granted is unlocked,
no vector waits. -/
structure LockvWorld.Fair (world : LockvWorld) : Prop where
  complete : ∀ id, (world.vectors id).phase = .locked →
    ∀ name ∈ (world.vectors id).filenames, world.HasLock id name
  alone : ∀ first second name, world.HasLock first name → world.HasLock second name →
    first = second
  unstuck : world.Quiet → (∀ id, (world.vectors id).phase ≠ .locked) →
    ∀ id, (world.vectors id).phase ≠ .locking

/-- The names of each vector are plain and in increasing order, and the service
serves. -/
def lockvServes (rank : Name → Nat) (world : LockvWorld) : LockvEvent → Bool
  | .zoo event => zooServes world.zoo event
  | .lockv _ _ filenames _ =>
      filenames.all fitsPlain &&
        decide (filenames.Pairwise fun first second => rank first < rank second)
  | _ => true

end SimpleDfs.Zookeeper
