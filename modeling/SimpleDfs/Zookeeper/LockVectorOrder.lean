import Mathlib.Data.Finset.Max
import SimpleDfs.Zookeeper.LockVector

/-!
Contract: vectors of locks exclude each other and do not block each other
(`zookeeper/s_zookeeper.c`).

Owns: which calls a vector owns and what of them it has, in every phase; that
vectors which take their names in one order are never stuck.

Does not own: the locks on single names.

A vector that waits has the names before the one it waits for.  So along a chain
of waiting vectors the names grow, and its last vector waits for nobody.
-/

set_option autoImplicit false

namespace SimpleDfs.Zookeeper

open SimpleDfs.Library

/-! ## Steps of the service -/

/-- What a step that is no call of `s_zoo_lock` or `s_zoo_unlock` leaves of a
call. -/
structure LockCall.Stays (before after : LockCall) : Prop where
  idle : after.lock = .idle ↔ before.lock = .idle
  filename : before.lock ≠ .idle → after.filename = before.filename
  unlock : after.unlock = .idle ↔ before.unlock = .idle
  runs : before.runs ≤ after.runs

namespace LockCall

variable {call after : LockCall} {children : Option (List Name)} {watch : Nat}

theorem Stays.refl (call : LockCall) : call.Stays call :=
  ⟨Iff.rfl, fun _ => rfl, Iff.rfl, Nat.le_refl _⟩

theorem Stays.trans {first second third : LockCall} (front : first.Stays second)
    (back : second.Stays third) : first.Stays third where
  idle := back.idle.trans front.idle
  filename := fun busy =>
    (back.filename fun idle => busy (front.idle.mp idle)).trans (front.filename busy)
  unlock := back.unlock.trans front.unlock
  runs := front.runs.trans back.runs

theorem stays_change (call : LockCall) : call.Stays call.change :=
  ⟨Iff.rfl, fun _ => rfl, Iff.rfl, Nat.le_refl _⟩

theorem stays_moveTo (call : LockCall) (watch : Nat) (point : WatchPoint) :
    call.Stays (call.moveTo watch point) :=
  ⟨Iff.rfl, fun _ => rfl, Iff.rfl, Nat.le_refl _⟩

theorem stays_tryLock (call : LockCall) (children : Option (List Name)) :
    call.Stays (call.tryLock children).1 ∧ (call.tryLock children).1.lock = call.lock := by
  cases children with
  | none => exact ⟨Stays.refl call, rfl⟩
  | some names => exact ⟨⟨Iff.rfl, fun _ => rfl, Iff.rfl, Nat.le_refl _⟩, rfl⟩

/-- `s_zoo_lock` goes on from a point that is not its start. -/
theorem stays_goTo {point : LockPoint} (before : call.lock ≠ .idle) (after : point ≠ .idle) :
    call.Stays (call.goTo point) :=
  ⟨⟨fun idle => absurd idle after, fun idle => absurd idle before⟩, fun _ => rfl, Iff.rfl,
    Nat.le_refl _⟩

theorem stays_lockStep (stepped : call.lockStep children = some after) : call.Stays after := by
  unfold lockStep at stepped
  split at stepped
  next here =>
    have isAfter : after = (call.tryLock children).1.goTo
        (if (call.tryLock children).2 then .clearCallback else .returned) :=
      (Option.some.inj stepped).symm
    obtain ⟨stays, lock⟩ := stays_tryLock call children
    rw [isAfter]
    apply stays.trans
    apply stays_goTo
    · rw [lock, here]
      nofun
    · split <;> nofun
  next here =>
    cases stepped
    exact ⟨⟨nofun, fun idle => absurd (here.symm.trans idle) nofun⟩, fun _ => rfl, Iff.rfl,
      Nat.le_refl _⟩
  next here =>
    cases stepped
    exact ⟨⟨nofun, fun idle => absurd (here.symm.trans idle) nofun⟩, fun _ => rfl, Iff.rfl,
      Nat.le_succ _⟩
  next => cases stepped

theorem stays_fire (stepped : call.fire watch = some after) : call.Stays after := by
  unfold fire at stepped
  split at stepped
  · cases stepped
    exact stays_moveTo call watch _
  · cases stepped

theorem stays_watcherStep (stepped : call.watcherStep watch children = some after) :
    call.Stays after := by
  unfold watcherStep at stepped
  split at stepped
  · cases stepped
    exact stays_moveTo call watch _
  · cases stepped
    exact stays_moveTo call watch _
  · have isAfter : after = (call.tryLock children).1.moveTo watch
        (if (call.tryLock children).2 then .takeCallback else .returned) :=
      (Option.some.inj stepped).symm
    rw [isAfter]
    exact (stays_tryLock call children).1.trans (stays_moveTo _ watch _)
  · cases stepped
    exact stays_moveTo call watch _
  · cases stepped
    exact ⟨Iff.rfl, fun _ => rfl, Iff.rfl, Nat.le_refl _⟩
  · cases stepped
    exact ⟨Iff.rfl, fun _ => rfl, Iff.rfl, Nat.le_succ _⟩
  · cases stepped
    exact stays_moveTo call watch _
  · cases stepped

end LockCall

namespace ZooWorld

variable {world after : ZooWorld} {id : Nat} {call : LockCall}

theorem stays_setCall (stays : (world.calls id).Stays call) (other : Nat) :
    (world.calls other).Stays ((world.setCall id call).calls other) := by
  unfold ZooWorld.setCall
  dsimp only
  rw [Function.update_apply]
  split
  next same =>
    rw [same]
    exact stays
  next => exact LockCall.Stays.refl _

theorem stays_setChildren (world : ZooWorld) (filename : Name) (children : List Name)
    (other : Nat) :
    (world.calls other).Stays ((world.setChildren filename children).calls other) := by
  rw [setChildren_calls]
  split
  · exact LockCall.stays_change _
  · exact LockCall.Stays.refl _

theorem stays_createParent (world : ZooWorld) (filename : Name) (other : Nat) :
    (world.calls other).Stays ((world.createParent filename).calls other) := by
  unfold ZooWorld.createParent
  split
  · exact LockCall.Stays.refl _
  · split
    · exact LockCall.Stays.refl _
    · exact stays_setChildren world _ _ other

theorem stays_deleteNode (world : ZooWorld) (path : Name) (other : Nat) :
    (world.calls other).Stays ((world.deleteNode path).calls other) := by
  unfold ZooWorld.deleteNode
  split
  · exact LockCall.Stays.refl _
  · split
    · exact stays_setChildren world _ _ other
    · exact LockCall.Stays.refl _

/-- What goes on of itself leaves what a vector knows of its calls. -/
theorem stays_inner {event : ZooEvent} (inner : event.inner = true)
    (stepped : world.step event = some after) (other : Nat) :
    (world.calls other).Stays (after.calls other) := by
  cases event with
  | callLock id client filename => cases inner
  | createParent id ok =>
      simp only [ZooWorld.step] at stepped
      split at stepped
      next here =>
        have goes : ∀ point, point ≠ .idle →
            (world.calls id).Stays ((world.calls id).goTo point) := fun point late =>
          LockCall.stays_goTo (by rw [here]; decide) late
        split at stepped
        · cases stepped
          exact (stays_setCall (goes .createNode (by decide)) other).trans (stays_createParent _ _ other)
        · cases stepped
          exact stays_setCall (goes .returned (by decide)) other
      next => cases stepped
  | createNode id seq =>
      simp only [ZooWorld.step] at stepped
      split at stepped
      next here =>
        have busy : (world.calls id).lock ≠ .idle := by
          rw [here]
          decide
        have returned : (world.calls id).Stays ((world.calls id).goTo .returned) :=
          LockCall.stays_goTo busy (by decide)
        split at stepped
        · cases stepped
          exact stays_setCall returned other
        next seq =>
          split at stepped
          next =>
            cases stepped
            have created : (world.calls id).Stays ((world.calls id).created (sequenceName seq)) :=
              ⟨⟨fun idle => absurd (show LockPoint.getChildren = .idle from idle) (by decide),
                fun idle => absurd idle busy⟩, fun _ => rfl, Iff.rfl, Nat.le_refl _⟩
            exact (stays_setCall created other).trans
              (stays_setChildren _ (world.calls id).filename
                (world.children (world.calls id).filename ++ [sequenceName seq]) other)
          next => cases stepped
      next => cases stepped
  | lock id ok =>
      obtain ⟨call, moved, rfl⟩ := Option.map_eq_some_iff.mp stepped
      exact stays_setCall (LockCall.stays_lockStep moved) other
  | fire id watch =>
      obtain ⟨call, moved, rfl⟩ := Option.map_eq_some_iff.mp stepped
      exact stays_setCall (LockCall.stays_fire moved) other
  | watcher id watch ok =>
      obtain ⟨call, moved, rfl⟩ := Option.map_eq_some_iff.mp stepped
      exact stays_setCall (LockCall.stays_watcherStep moved) other
  | callUnlock id => cases inner
  | deleteNode id ok =>
      simp only [ZooWorld.step] at stepped
      split at stepped
      next here =>
        have goes : (world.calls id).Stays { world.calls id with unlock := .free } :=
          ⟨Iff.rfl, fun _ => rfl,
            ⟨fun idle => absurd (show UnlockPoint.free = .idle from idle) (by decide),
              fun idle => absurd (here.symm.trans idle) (by decide)⟩,
            Nat.le_refl _⟩
        split at stepped
        · cases stepped
          exact stays_setCall goes other
        next path held =>
          cases stepped
          split
          · exact (stays_setCall goes other).trans (stays_deleteNode _ _ other)
          · exact stays_setCall goes other
      next => cases stepped
  | freeElem id =>
      simp only [ZooWorld.step] at stepped
      split at stepped
      next here =>
        cases stepped
        have goes : (world.calls id).Stays
            { world.calls id with inHash := false, unlock := .returned } :=
          ⟨Iff.rfl, fun _ => rfl,
            ⟨fun idle => absurd (show UnlockPoint.returned = .idle from idle) (by decide),
              fun idle => absurd (here.symm.trans idle) (by decide)⟩,
            Nat.le_refl _⟩
        exact stays_setCall goes other
      next => cases stepped

/-- A call of `s_zoo_lock` takes a call that is not made. -/
theorem step_callLock {client : Nat} {filename : Name}
    (stepped : world.step (.callLock id client filename) = some after) :
    (world.calls id).lock = .idle ∧ (after.calls id).filename = filename ∧
      (after.calls id).lock ≠ .idle ∧ (after.calls id).unlock = (world.calls id).unlock ∧
      (after.calls id).runs = (world.calls id).runs ∧
      ∀ other, other ≠ id → after.calls other = world.calls other := by
  simp only [ZooWorld.step] at stepped
  split at stepped
  next here =>
    cases stepped
    have self : (world.setCall id ((world.calls id).start client filename)).calls id =
        (world.calls id).start client filename := Function.update_self ..
    rw [self]
    refine ⟨here, rfl, ?_, rfl, rfl, fun other apart => Function.update_of_ne apart _ _⟩
    unfold LockCall.start LockCall.goTo
    dsimp only
    split <;> decide
  next => cases stepped

/-- A call of `s_zoo_unlock` is for a call that is granted. -/
theorem step_callUnlock (stepped : world.step (.callUnlock id) = some after) :
    (world.calls id).Holds ∧ after.calls id = { world.calls id with unlock := .delete } ∧
      ∀ other, other ≠ id → after.calls other = world.calls other := by
  simp only [ZooWorld.step] at stepped
  split at stepped
  next here =>
    cases stepped
    exact ⟨here, Function.update_self .., fun other apart => Function.update_of_ne apart _ _⟩
  next => cases stepped

end ZooWorld

/-! ## One vector -/

/-- The vector has the element at an index and has not begun to unlock it. -/
def VectorPhase.Holds : VectorPhase → Nat → Prop
  | .created, _ => False
  | .locking, _ => True
  | .locked, _ => True
  | .unlocking next, index => next ≤ index
  | .freeing next, index => next < index
  | .unlocked, _ => False

/-- The calls of a vector: those it has been granted, in the order of its names, and
while it is locking one more. -/
structure VectorSound (rank : Name → Nat) (calls : Nat → LockCall) (owner : Nat → Option Nat)
    (served : Nat → Nat) (id : Nat) (vector : LockVector) : Prop where
  increasing : vector.filenames.Pairwise fun first second => rank first < rank second
  plain : ∀ filename ∈ vector.filenames, fitsPlain filename = true
  curr : vector.curr = vector.lockElems.length
  bound : vector.lockElems.length ≤ vector.filenames.length
  full : vector.phase ≠ .created → vector.phase ≠ .locking →
    vector.lockElems.length = vector.filenames.length
  fresh : vector.phase = .created → ∀ call, owner call ≠ some id
  slots : ∀ (index call : Nat), vector.lockElems[index]? = some (some call) →
    owner call = some id ∧ served call = 1 ∧
      vector.filenames[index]? = some (calls call).filename
  held : ∀ index, vector.phase.Holds index → index < vector.lockElems.length →
    ∃ call, vector.lockElems[index]? = some (some call) ∧ (calls call).unlock = .idle
  freeing : ∀ index, vector.phase = .freeing index →
    ∃ call, vector.lockElems[index]? = some (some call) ∧ (calls call).unlock ≠ .idle
  owned : ∀ call, owner call = some id →
    (served call = 0 ∧ vector.phase = .locking ∧ (calls call).unlock = .idle ∧
      vector.filenames[vector.lockElems.length]? = some (calls call).filename) ∨
    (served call = 1 ∧ ((calls call).unlock = .idle →
      ∃ index, vector.phase.Holds index ∧ vector.lockElems[index]? = some (some call)))
  one : ∀ first second, owner first = some id → owner second = some id → served first = 0 →
    served second = 0 → first = second
  waits : vector.phase = .locking → ∃ call, owner call = some id ∧ served call = 0

section

variable {rank : Name → Nat} {calls later : Nat → LockCall} {owner newOwner : Nat → Option Nat}
variable {served newServed : Nat → Nat} {id : Nat} {vector : LockVector}

/-- What a vector knows only depends on its own calls. -/
theorem VectorSound.congr (sound : VectorSound rank calls owner served id vector)
    (same : ∀ call, newOwner call = some id ↔ owner call = some id)
    (agree : ∀ call, owner call = some id → newServed call = served call ∧
      (later call).filename = (calls call).filename ∧
        ((later call).unlock = .idle ↔ (calls call).unlock = .idle)) :
    VectorSound rank later newOwner newServed id vector where
  increasing := sound.increasing
  plain := sound.plain
  curr := sound.curr
  bound := sound.bound
  full := sound.full
  fresh := fun created call isOwner => sound.fresh created call ((same call).mp isOwner)
  slots := by
    intro index call listed
    obtain ⟨isOwner, isServed, filename⟩ := sound.slots index call listed
    obtain ⟨sameServed, sameFile, _⟩ := agree call isOwner
    exact ⟨(same call).mpr isOwner, sameServed.trans isServed, by rw [sameFile]; exact filename⟩
  held := by
    intro index holds below
    obtain ⟨call, listed, locked⟩ := sound.held index holds below
    obtain ⟨_, _, unlock⟩ := agree call (sound.slots index call listed).1
    exact ⟨call, listed, unlock.mpr locked⟩
  freeing := by
    intro index phase
    obtain ⟨call, listed, unlocking⟩ := sound.freeing index phase
    obtain ⟨_, _, unlock⟩ := agree call (sound.slots index call listed).1
    exact ⟨call, listed, fun locked => unlocking (unlock.mp locked)⟩
  owned := by
    intro call isOwner
    have before := (same call).mp isOwner
    obtain ⟨sameServed, sameFile, unlock⟩ := agree call before
    rw [sameServed, sameFile]
    refine (sound.owned call before).imp ?_ ?_
    · exact fun pending => ⟨pending.1, pending.2.1, unlock.mpr pending.2.2.1, pending.2.2.2⟩
    · exact fun granted => ⟨granted.1, fun locked => granted.2 (unlock.mp locked)⟩
  one := by
    intro first second isFirst isSecond unservedFirst unservedSecond
    have beforeFirst := (same first).mp isFirst
    have beforeSecond := (same second).mp isSecond
    rw [(agree first beforeFirst).1] at unservedFirst
    rw [(agree second beforeSecond).1] at unservedSecond
    exact sound.one first second beforeFirst beforeSecond unservedFirst unservedSecond
  waits := by
    intro locking
    obtain ⟨call, isOwner, unserved⟩ := sound.waits locking
    exact ⟨call, (same call).mpr isOwner, (agree call isOwner).1.trans unserved⟩

/-- Two elements for one name are one. -/
theorem VectorSound.index_unique (sound : VectorSound rank calls owner served id vector)
    {first second : Nat} {name : Name} (isFirst : vector.filenames[first]? = some name)
    (isSecond : vector.filenames[second]? = some name) : first = second := by
  obtain ⟨belowFirst, atFirst⟩ := List.getElem?_eq_some_iff.mp isFirst
  obtain ⟨belowSecond, atSecond⟩ := List.getElem?_eq_some_iff.mp isSecond
  have increasing := List.pairwise_iff_getElem.mp sound.increasing
  rcases Nat.lt_trichotomy first second with less | same | greater
  · have ranks := increasing first second belowFirst belowSecond less
    rw [atFirst, atSecond] at ranks
    exact absurd ranks (Nat.lt_irrefl _)
  · exact same
  · have ranks := increasing second first belowSecond belowFirst greater
    rw [atFirst, atSecond] at ranks
    exact absurd ranks (Nat.lt_irrefl _)

/-- A vector that is made, before it has a call. -/
theorem vectorSound_create (client : Nat) (unowned : ∀ call, owner call ≠ some id) :
    VectorSound rank calls owner served id (LockVector.create client) where
  increasing := List.Pairwise.nil
  plain := fun _ listed => absurd listed List.not_mem_nil
  curr := rfl
  bound := Nat.le_refl _
  full := fun notCreated => absurd rfl notCreated
  fresh := fun _ => unowned
  slots := nofun
  held := nofun
  freeing := nofun
  owned := fun call isOwner => absurd isOwner (unowned call)
  one := fun first _ isFirst => absurd isFirst (unowned first)
  waits := nofun

/-- A vector without names is granted at once. -/
theorem vectorSound_empty (unowned : ∀ call, owner call ≠ some id)
    (shape : vector.filenames = [] ∧ vector.lockElems = [] ∧ vector.curr = 0) :
    VectorSound rank calls owner served id (vector.goTo .locked) where
  increasing := by
    show vector.filenames.Pairwise _
    rw [shape.1]
    exact List.Pairwise.nil
  plain := by
    intro filename listed
    have inNames : filename ∈ vector.filenames := listed
    rw [shape.1] at inNames
    cases inNames
  curr := by
    show vector.curr = vector.lockElems.length
    rw [shape.2.1, shape.2.2]
    rfl
  bound := by
    show vector.lockElems.length ≤ _
    rw [shape.2.1]
    exact Nat.zero_le _
  full := by
    intro _ _
    show vector.lockElems.length = vector.filenames.length
    rw [shape.1, shape.2.1]
    rfl
  fresh := nofun
  slots := by
    intro index call listed
    have inElems : vector.lockElems[index]? = some (some call) := listed
    rw [shape.2.1] at inElems
    cases inElems
  held := by
    intro index _ below
    have inElems : index < vector.lockElems.length := below
    rw [shape.2.1] at inElems
    cases inElems
  freeing := nofun
  owned := fun call isOwner => absurd isOwner (unowned call)
  one := fun first _ isFirst => absurd isFirst (unowned first)
  waits := nofun

/-- A vector calls `s_zoo_lock` for its first name. -/
theorem vectorSound_start {call : Nat} {filename : Name} {rest : List Name}
    (unowned : ∀ other, owner other ≠ some id) (unserved : served call = 0)
    (increasing : vector.filenames.Pairwise fun first second => rank first < rank second)
    (plain : ∀ filename ∈ vector.filenames, fitsPlain filename = true)
    (names : vector.filenames = filename :: rest)
    (isFile : (later call).filename = filename) (locked : (later call).unlock = .idle) :
    VectorSound rank later (Function.update owner call (some id)) served id
      ({ vector with lockElems := [], curr := 0 }.goTo .locking) := by
  have only : ∀ other, Function.update owner call (some id) other = some id → other = call := by
    intro other isOwner
    by_contra apart
    rw [Function.update_of_ne apart] at isOwner
    exact unowned other isOwner
  refine ⟨increasing, plain, rfl, Nat.zero_le _, fun _ notLocking => absurd rfl notLocking, nofun,
    nofun, fun _ _ below => absurd below (Nat.not_lt_zero _), nofun, ?_, ?_, ?_⟩
  · intro other isOwner
    rw [only other isOwner]
    refine Or.inl ⟨unserved, rfl, locked, ?_⟩
    show vector.filenames[0]? = _
    rw [names, isFile]
    rfl
  · intro first second isFirst isSecond _ _
    rw [only first isFirst, only second isSecond]
  · exact fun _ => ⟨call, Function.update_self .., unserved⟩

/-- The call that a vector waits for. -/
theorem VectorSound.pending (sound : VectorSound rank calls owner served id vector) {call : Nat}
    (isOwner : owner call = some id) (unserved : served call = 0) :
    vector.phase = .locking ∧ (calls call).unlock = .idle ∧
      vector.filenames[vector.lockElems.length]? = some (calls call).filename := by
  rcases sound.owned call isOwner with ⟨_, pending⟩ | ⟨isServed, _⟩
  · exact pending
  · rw [unserved] at isServed
    cases isServed

/-- `lockv_callback`: the vector has one more element, and calls `s_zoo_lock` for the
next name, if there is one. -/
theorem VectorSound.granted (sound : VectorSound rank calls owner served id vector)
    {call next : Nat} (isOwner : owner call = some id) (unserved : served call = 0)
    {phase : VectorPhase} (same : ∀ other, newOwner other = some id ↔
      owner other = some id ∨ phase = .locking ∧ other = next)
    (agree : ∀ other, owner other = some id → (later other).filename = (calls other).filename ∧
      ((later other).unlock = .idle ↔ (calls other).unlock = .idle))
    (shape : phase = .locked ∧ vector.filenames[vector.lockElems.length + 1]? = none ∨
      phase = .locking ∧ owner next ≠ some id ∧ served next = 0 ∧ (later next).unlock = .idle ∧
        vector.filenames[vector.lockElems.length + 1]? = some (later next).filename) :
    VectorSound rank later newOwner (Function.update served call 1) id
      ({ vector with
        lockElems := vector.lockElems ++ [some call], curr := vector.curr + 1 }.goTo phase) := by
  obtain ⟨_, locked, isFile⟩ := sound.pending isOwner unserved
  have below : vector.lockElems.length < vector.filenames.length :=
    (List.getElem?_eq_some_iff.mp isFile).1
  have holds : ∀ index, phase.Holds index := by
    intro index
    rcases shape with ⟨rfl, _⟩ | ⟨rfl, _⟩ <;> trivial
  have last : (vector.lockElems ++ [some call])[vector.lockElems.length]? = some (some call) :=
    List.getElem?_concat_length
  have earlier : ∀ {index other : Nat}, vector.lockElems[index]? = some (some other) →
      (vector.lockElems ++ [some call])[index]? = some (some other) := fun listed => by
    rw [List.getElem?_append_left (List.getElem?_eq_some_iff.mp listed).1]
    exact listed
  -- the next call is not the one that is granted
  have notServed : ∀ other, other ≠ call → Function.update served call 1 other = served other :=
    fun other apart => Function.update_of_ne apart 1 served
  have split : ∀ {index other : Nat}, (vector.lockElems ++ [some call])[index]? = some (some other) →
      vector.lockElems[index]? = some (some other) ∨
        index = vector.lockElems.length ∧ other = call := by
    intro index other listed
    rcases Nat.lt_trichotomy index vector.lockElems.length with less | same | greater
    · rw [List.getElem?_append_left less] at listed
      exact Or.inl listed
    · rw [same, last] at listed
      exact Or.inr ⟨same, (Option.some.inj (Option.some.inj listed)).symm⟩
    · rw [List.getElem?_eq_none (by
        rw [List.length_append, List.length_singleton]
        omega)] at listed
      cases listed
  refine ⟨sound.increasing, sound.plain, ?_, ?_, ?_, ?_, ?_, ?_, ?_, ?_, ?_, ?_⟩
  · show vector.curr + 1 = (vector.lockElems ++ [some call]).length
    rw [List.length_append, sound.curr]
    rfl
  · show (vector.lockElems ++ [some call]).length ≤ _
    rw [List.length_append]
    exact below
  · intro _ notLocking
    show (vector.lockElems ++ [some call]).length = vector.filenames.length
    rcases shape with ⟨_, noMore⟩ | ⟨isLocking, _⟩
    · have top := List.getElem?_eq_none_iff.mp noMore
      rw [List.length_append, List.length_singleton]
      omega
    · exact absurd isLocking notLocking
  · intro created
    rcases shape with ⟨isLocked, _⟩ | ⟨isLocking, _⟩
    · exact absurd (isLocked.symm.trans created) nofun
    · exact absurd (isLocking.symm.trans created) nofun
  · intro index other listed
    rcases split listed with before | ⟨rfl, rfl⟩
    · obtain ⟨hasOwner, isServed, filename⟩ := sound.slots index other before
      have apart : other ≠ call := by
        rintro rfl
        rw [unserved] at isServed
        cases isServed
      refine ⟨(same other).mpr (Or.inl hasOwner), (notServed other apart).trans isServed, ?_⟩
      rw [(agree other hasOwner).1]
      exact filename
    · refine ⟨(same other).mpr (Or.inl isOwner), Function.update_self .., ?_⟩
      rw [(agree other isOwner).1]
      exact isFile
  · intro index _ inElems
    have inside : index < vector.lockElems.length + 1 := by
      have inAll : index < (vector.lockElems ++ [some call]).length := inElems
      rw [List.length_append, List.length_singleton] at inAll
      exact inAll
    rcases Nat.lt_succ_iff_lt_or_eq.mp inside with less | isLast
    · have holdsBefore : vector.phase.Holds index := by
        rw [(sound.pending isOwner unserved).1]
        trivial
      obtain ⟨other, listed, unlocked⟩ := sound.held index holdsBefore less
      exact ⟨other, earlier listed,
        (agree other (sound.slots index other listed).1).2.mpr unlocked⟩
    · rw [isLast]
      exact ⟨call, last, (agree call isOwner).2.mpr locked⟩
  · intro index freeing
    rcases shape with ⟨isLocked, _⟩ | ⟨isLocking, _⟩
    · exact absurd (isLocked.symm.trans freeing) nofun
    · exact absurd (isLocking.symm.trans freeing) nofun
  · intro other hasOwner
    rcases (same other).mp hasOwner with before | ⟨isLocking, rfl⟩
    · obtain ⟨sameFile, unlock⟩ := agree other before
      right
      by_cases isCall : other = call
      · subst isCall
        exact ⟨Function.update_self .., fun _ => ⟨_, holds _, last⟩⟩
      · rw [notServed other isCall]
        rcases sound.owned other before with ⟨unservedOther, _⟩ | ⟨isServed, inSlot⟩
        · exact absurd (sound.one other call before isOwner unservedOther unserved) isCall
        · refine ⟨isServed, fun unlocked => ?_⟩
          obtain ⟨index, _, listed⟩ := inSlot (unlock.mp unlocked)
          exact ⟨index, holds index, earlier listed⟩
    · rcases shape with ⟨isLocked, _⟩ | ⟨_, notOwner, unservedNext, unlocked, name⟩
      · exact absurd (isLocked.symm.trans isLocking) nofun
      · have apart : other ≠ call := by
          rintro rfl
          exact notOwner isOwner
        refine Or.inl ⟨(notServed other apart).trans unservedNext, isLocking, unlocked, ?_⟩
        show vector.filenames[(vector.lockElems ++ [some call]).length]? = _
        rw [List.length_append, List.length_singleton]
        exact name
  · intro first second isFirst isSecond unservedFirst unservedSecond
    have pendingNext : ∀ other, newOwner other = some id →
        Function.update served call 1 other = 0 → other = next := by
      intro other hasOwner isUnserved
      have apart : other ≠ call := by
        rintro rfl
        rw [Function.update_self] at isUnserved
        cases isUnserved
      rw [notServed other apart] at isUnserved
      rcases (same other).mp hasOwner with before | ⟨_, isNext⟩
      · exact absurd (sound.one other call before isOwner isUnserved unserved) apart
      · exact isNext
    rw [pendingNext first isFirst unservedFirst, pendingNext second isSecond unservedSecond]
  · intro locking
    rcases shape with ⟨isLocked, _⟩ | ⟨isLocking, notOwner, unservedNext, _⟩
    · exact absurd (isLocked.symm.trans locking) nofun
    · have apart : next ≠ call := by
        rintro rfl
        exact notOwner isOwner
      exact ⟨next, (same next).mpr (Or.inr ⟨isLocking, rfl⟩),
        (notServed next apart).trans unservedNext⟩

/-- `s_zoo_unlockv` begins. -/
theorem VectorSound.unlockv (sound : VectorSound rank calls owner served id vector)
    (locked : vector.phase = .locked) :
    VectorSound rank calls owner served id (vector.goTo (.unlocking 0)) where
  increasing := sound.increasing
  plain := sound.plain
  curr := sound.curr
  bound := sound.bound
  full := fun _ _ => sound.full (by rw [locked]; nofun) (by rw [locked]; nofun)
  fresh := nofun
  slots := sound.slots
  held := fun index _ below => sound.held index (by rw [locked]; trivial) below
  freeing := nofun
  owned := by
    intro call isOwner
    rcases sound.owned call isOwner with ⟨_, locking, _⟩ | ⟨isServed, inSlot⟩
    · rw [locked] at locking
      cases locking
    · refine Or.inr ⟨isServed, fun unlocked => ?_⟩
      obtain ⟨index, _, listed⟩ := inSlot unlocked
      exact ⟨index, Nat.zero_le index, listed⟩
  one := sound.one
  waits := nofun

/-- `s_zoo_unlock` begins for an element. -/
theorem VectorSound.unlocks (sound : VectorSound rank calls owner served id vector)
    {index call : Nat} (here : vector.phase = .unlocking index)
    (listed : vector.lockElems[index]? = some (some call))
    (agree : ∀ other, other ≠ call → later other = calls other)
    (filename : (later call).filename = (calls call).filename)
    (unlocking : (later call).unlock ≠ .idle) :
    VectorSound rank later owner served id (vector.goTo (.freeing index)) where
  increasing := sound.increasing
  plain := sound.plain
  curr := sound.curr
  bound := sound.bound
  full := fun _ _ => sound.full (by rw [here]; nofun) (by rw [here]; nofun)
  fresh := nofun
  slots := by
    intro slot other inSlot
    obtain ⟨isOwner, isServed, isFile⟩ := sound.slots slot other inSlot
    refine ⟨isOwner, isServed, ?_⟩
    by_cases same : other = call
    · rw [same, filename, ← same]
      exact isFile
    · rw [agree other same]
      exact isFile
  held := by
    intro slot behind below
    have before : vector.phase.Holds slot := by
      rw [here]
      exact Nat.le_of_lt behind
    obtain ⟨other, inSlot, unlocked⟩ := sound.held slot before below
    have apart : other ≠ call := by
      rintro rfl
      have same := sound.index_unique (sound.slots slot other inSlot).2.2
        (sound.slots index other listed).2.2
      rw [same] at behind
      exact Nat.lt_irrefl _ behind
    exact ⟨other, inSlot, by rw [agree other apart]; exact unlocked⟩
  freeing := by
    intro slot freeing
    cases freeing
    exact ⟨call, listed, unlocking⟩
  owned := by
    intro other isOwner
    rcases sound.owned other isOwner with ⟨_, locking, _⟩ | ⟨isServed, inSlot⟩
    · rw [here] at locking
      cases locking
    · refine Or.inr ⟨isServed, fun unlocked => ?_⟩
      have apart : other ≠ call := by
        rintro rfl
        exact unlocking unlocked
      rw [agree other apart] at unlocked
      obtain ⟨slot, holds, there⟩ := inSlot unlocked
      rw [here] at holds
      refine ⟨slot, lt_of_le_of_ne holds ?_, there⟩
      rintro rfl
      rw [listed] at there
      exact apart (Option.some.inj (Option.some.inj there)).symm
  one := sound.one
  waits := nofun

/-- `s_zoo_unlock` has returned for an element. -/
theorem VectorSound.freed (sound : VectorSound rank calls owner served id vector) {index : Nat}
    (here : vector.phase = .freeing index) :
    VectorSound rank calls owner served id
      ({ vector with lockElems := vector.lockElems.set index none }.goTo
        (.unlocking (index + 1))) := by
  have before : ∀ {slot call : Nat}, (vector.lockElems.set index none)[slot]? = some (some call) →
      vector.lockElems[slot]? = some (some call) := by
    intro slot call listed
    rw [List.getElem?_set] at listed
    split at listed
    · split at listed <;> cases listed
    · exact listed
  have behind : ∀ {slot : Nat}, index < slot →
      (vector.lockElems.set index none)[slot]? = vector.lockElems[slot]? := by
    intro slot less
    exact List.getElem?_set_ne (Nat.ne_of_lt less)
  refine ⟨sound.increasing, sound.plain, ?_, ?_, ?_, nofun, ?_, ?_, nofun, ?_, sound.one, nofun⟩
  · show vector.curr = (vector.lockElems.set index none).length
    rw [List.length_set]
    exact sound.curr
  · show (vector.lockElems.set index none).length ≤ _
    rw [List.length_set]
    exact sound.bound
  · intro _ _
    show (vector.lockElems.set index none).length = _
    rw [List.length_set]
    exact sound.full (by rw [here]; nofun) (by rw [here]; nofun)
  · exact fun slot call listed => sound.slots slot call (before listed)
  · intro slot holds below
    have inElems : slot < vector.lockElems.length := by
      have inSet : slot < (vector.lockElems.set index none).length := below
      rw [List.length_set] at inSet
      exact inSet
    have less : index < slot := holds
    obtain ⟨call, listed, unlocked⟩ := sound.held slot (by rw [here]; exact less) inElems
    exact ⟨call, (behind less).trans listed, unlocked⟩
  · intro call isOwner
    rcases sound.owned call isOwner with ⟨_, locking, _⟩ | ⟨isServed, inSlot⟩
    · rw [here] at locking
      cases locking
    · refine Or.inr ⟨isServed, fun unlocked => ?_⟩
      obtain ⟨slot, holds, listed⟩ := inSlot unlocked
      rw [here] at holds
      exact ⟨slot, holds, (behind holds).trans listed⟩

/-- The loop of `s_zoo_unlockv` is done. -/
theorem VectorSound.unlocked (sound : VectorSound rank calls owner served id vector) {index : Nat}
    (here : vector.phase = .unlocking index) (done : vector.filenames.length ≤ index) :
    VectorSound rank calls owner served id (vector.goTo .unlocked) where
  increasing := sound.increasing
  plain := sound.plain
  curr := sound.curr
  bound := sound.bound
  full := fun _ _ => sound.full (by rw [here]; nofun) (by rw [here]; nofun)
  fresh := nofun
  slots := sound.slots
  held := nofun
  freeing := nofun
  owned := by
    intro call isOwner
    rcases sound.owned call isOwner with ⟨_, locking, _⟩ | ⟨isServed, inSlot⟩
    · rw [here] at locking
      cases locking
    · refine Or.inr ⟨isServed, fun unlocked => ?_⟩
      obtain ⟨slot, holds, listed⟩ := inSlot unlocked
      rw [here] at holds
      have below := (List.getElem?_eq_some_iff.mp listed).1
      have inNames := below.trans_le sound.bound
      have behind : index ≤ slot := holds
      omega
  one := sound.one
  waits := nofun

end

/-! ## The calls of all vectors -/

/-- Each call that is made has a vector, whose callback runs no more often than that of
the call. -/
structure CallsSound (zoo : ZooWorld) (owner : Nat → Option Nat) (served : Nat → Nat) : Prop where
  wakes : zoo.Wakes
  ordered : zoo.Ordered
  kept : zoo.Kept
  unowned : ∀ call, owner call = none ↔ (zoo.calls call).lock = .idle
  served : ∀ call, served call ≤ (zoo.calls call).runs
  bound : ∃ bound, ∀ call, bound ≤ call → (zoo.calls call).lock = .idle

namespace CallsSound

variable {zoo after : ZooWorld} {owner : Nat → Option Nat} {served : Nat → Nat} {call : Nat}

/-- A call that is not made. -/
theorem fresh (sound : CallsSound zoo owner served) (idle : (zoo.calls call).lock = .idle) :
    owner call = none ∧ served call = 0 ∧ (zoo.calls call).unlock = .idle := by
  obtain ⟨_, unrun, locked⟩ := (sound.kept call).earlyAt idle rfl
  have atMost := sound.served call
  exact ⟨(sound.unowned call).mpr idle, by omega, locked⟩

theorem busy (sound : CallsSound zoo owner served) {id : Nat} (isOwner : owner call = some id) :
    (zoo.calls call).lock ≠ .idle := by
  intro idle
  rw [(sound.unowned call).mpr idle] at isOwner
  cases isOwner

theorem runs_le (sound : CallsSound zoo owner served) (call : Nat) :
    (zoo.calls call).runs ≤ 1 := by
  have grants := (sound.kept call).balanced.2.1
  unfold LockCall.granted at grants
  omega

theorem inner (sound : CallsSound zoo owner served) {event : ZooEvent}
    (inner : event.inner = true) (serves : zooServes zoo event = true)
    (stepped : zoo.step event = some after) : CallsSound after owner served where
  wakes := sound.wakes.step sound.ordered sound.kept serves stepped
  ordered := sound.ordered.step stepped
  kept := sound.kept.step (Bool.and_eq_true_iff.mp serves).1 stepped
  unowned := fun call =>
    (sound.unowned call).trans (ZooWorld.stays_inner inner stepped call).idle.symm
  served := fun call =>
    (sound.served call).trans (ZooWorld.stays_inner inner stepped call).runs
  bound := by
    obtain ⟨bound, idle⟩ := sound.bound
    exact ⟨bound, fun call above =>
      (ZooWorld.stays_inner inner stepped call).idle.mpr (idle call above)⟩

theorem callLock (sound : CallsSound zoo owner served) {client id : Nat} {filename : Name}
    (plain : fitsPlain filename = true)
    (stepped : zoo.step (.callLock call client filename) = some after) :
    CallsSound after (Function.update owner call (some id)) served := by
  have serves : zooServes zoo (.callLock call client filename) = true :=
    Bool.and_eq_true_iff.mpr ⟨rfl, plain⟩
  obtain ⟨_, _, busy, _, runs, others⟩ := ZooWorld.step_callLock stepped
  refine ⟨sound.wakes.step sound.ordered sound.kept serves stepped, sound.ordered.step stepped,
    sound.kept.step rfl stepped, ?_, ?_, ?_⟩
  · intro other
    by_cases same : other = call
    · rw [same, Function.update_self]
      exact ⟨nofun, fun idle => absurd idle busy⟩
    · rw [Function.update_of_ne same, others other same]
      exact sound.unowned other
  · intro other
    by_cases same : other = call
    · rw [same, runs]
      exact sound.served call
    · rw [others other same]
      exact sound.served other
  · obtain ⟨bound, idle⟩ := sound.bound
    refine ⟨max bound (call + 1), fun other above => ?_⟩
    rw [others other (by omega)]
    exact idle other (by omega)

theorem callUnlock (sound : CallsSound zoo owner served)
    (stepped : zoo.step (.callUnlock call) = some after) : CallsSound after owner served := by
  obtain ⟨_, self, others⟩ := ZooWorld.step_callUnlock stepped
  have same : ∀ other, (after.calls other).lock = (zoo.calls other).lock ∧
      (after.calls other).runs = (zoo.calls other).runs := by
    intro other
    by_cases isCall : other = call
    · rw [isCall, self]
      exact ⟨rfl, rfl⟩
    · rw [others other isCall]
      exact ⟨rfl, rfl⟩
  refine ⟨sound.wakes.step sound.ordered sound.kept rfl stepped, sound.ordered.step stepped,
    sound.kept.step rfl stepped, ?_, ?_, ?_⟩
  · intro other
    rw [(same other).1]
    exact sound.unowned other
  · intro other
    rw [(same other).2]
    exact sound.served other
  · obtain ⟨bound, idle⟩ := sound.bound
    exact ⟨bound, fun other above => (same other).1.trans (idle other above)⟩

/-- `lockv_callback` runs. -/
theorem serve (sound : CallsSound zoo owner served) (less : served call < (zoo.calls call).runs) :
    CallsSound zoo owner (Function.update served call (served call + 1)) where
  wakes := sound.wakes
  ordered := sound.ordered
  kept := sound.kept
  unowned := sound.unowned
  served := by
    intro other
    rw [Function.update_apply]
    split
    next same =>
      rw [same]
      exact less
    next => exact sound.served other
  bound := sound.bound

end CallsSound

/-! ## All vectors -/

/-- What every run keeps in which the service serves and the names are in order. -/
structure LockvSound (rank : Name → Nat) (world : LockvWorld) : Prop where
  calls : CallsSound world.zoo world.owner world.served
  vectors : ∀ id, VectorSound rank world.zoo.calls world.owner world.served id (world.vectors id)
  bound : ∃ bound, ∀ id, bound ≤ id → (world.vectors id).phase = .created

namespace LockvSound

variable {rank : Name → Nat} {world after : LockvWorld} {id : Nat}

theorem initial (initial : world.Initial) : LockvSound rank world := by
  obtain ⟨⟨none, empty⟩, vectors, owner, served⟩ := initial
  have reached : zooWithoutNodes.ReachableVia (fun world event => zooServes world event = true)
      world.zoo := System.ReachableVia.start ⟨none, empty⟩
  obtain ⟨wakes, ordered, kept⟩ := wakes_of_reachable reached
  refine ⟨⟨wakes, ordered, kept, ?_, ?_, 0, ?_⟩, ?_, 0, ?_⟩
  · intro call
    rw [owner call, none.calls call]
    exact ⟨fun _ => rfl, fun _ => rfl⟩
  · intro call
    rw [served call]
    exact Nat.zero_le _
  · intro call _
    rw [none.calls call]
    rfl
  · intro id
    obtain ⟨client, isNew⟩ := vectors id
    rw [isNew]
    apply vectorSound_create
    intro call isOwner
    rw [owner call] at isOwner
    cases isOwner
  · intro id _
    obtain ⟨client, isNew⟩ := vectors id
    rw [isNew]
    rfl

/-- A step of one vector, which the others do not see. -/
theorem update (sound : LockvSound rank world) {vector : LockVector} {zoo : ZooWorld}
    {owner : Nat → Option Nat} {served : Nat → Nat} (calls : CallsSound zoo owner served)
    (self : VectorSound rank zoo.calls owner served id vector)
    (others : ∀ other call, other ≠ id → (owner call = some other ↔ world.owner call = some other) ∧
      (world.owner call = some other → served call = world.served call ∧
        zoo.calls call = world.zoo.calls call)) :
    LockvSound rank ⟨zoo, Function.update world.vectors id vector, owner, served⟩ := by
  refine ⟨calls, ?_, ?_⟩
  · intro other
    dsimp only
    by_cases same : other = id
    · rw [same, Function.update_self]
      exact self
    · rw [Function.update_of_ne same]
      apply (sound.vectors other).congr (fun call => (others other call same).1)
      intro call isOwner
      obtain ⟨sameServed, sameCall⟩ := (others other call same).2 isOwner
      rw [sameCall]
      exact ⟨sameServed, rfl, Iff.rfl⟩
  · obtain ⟨bound, created⟩ := sound.bound
    refine ⟨max bound (id + 1), fun other above => ?_⟩
    show (Function.update world.vectors id vector other).phase = _
    rw [Function.update_of_ne (by omega)]
    exact created other (by omega)

/-- A step of one vector that leaves the calls. -/
theorem setVector (sound : LockvSound rank world) {vector : LockVector}
    (self : VectorSound rank world.zoo.calls world.owner world.served id vector) :
    LockvSound rank (world.setVector id vector) :=
  sound.update sound.calls self fun _ _ _ => ⟨Iff.rfl, fun _ => ⟨rfl, rfl⟩⟩

theorem inner (sound : LockvSound rank world) {event : ZooEvent} {zoo : ZooWorld}
    (inner : event.inner = true) (serves : zooServes world.zoo event = true)
    (stepped : world.zoo.step event = some zoo) : LockvSound rank { world with zoo := zoo } where
  calls := sound.calls.inner inner serves stepped
  vectors := by
    intro id
    apply (sound.vectors id).congr (fun _ => Iff.rfl)
    intro call isOwner
    have stays := ZooWorld.stays_inner inner stepped call
    exact ⟨rfl, stays.filename (sound.calls.busy isOwner), stays.unlock⟩
  bound := sound.bound

/-- `s_zoo_lockv`. -/
theorem lockv (sound : LockvSound rank world) {vector : LockVector} {call : Nat}
    (created : (world.vectors id).phase = .created)
    (shape : vector.lockElems = [] ∧ vector.curr = 0)
    (increasing : vector.filenames.Pairwise fun first second => rank first < rank second)
    (plain : ∀ filename ∈ vector.filenames, fitsPlain filename = true)
    (stepped : world.lockv id vector call = some after) : LockvSound rank after := by
  have unowned := (sound.vectors id).fresh created
  unfold LockvWorld.lockv at stepped
  split at stepped
  next empty =>
    cases stepped
    exact sound.setVector (vectorSound_empty unowned ⟨empty, shape⟩)
  next filename rest names =>
    obtain ⟨zoo, called, rfl⟩ := Option.map_eq_some_iff.mp stepped
    obtain ⟨idle, isFile, _, sameUnlock, _, same⟩ := ZooWorld.step_callLock called
    obtain ⟨noOwner, unserved, locked⟩ := sound.calls.fresh idle
    have isPlain := plain filename (by rw [names]; exact List.mem_cons_self)
    apply sound.update (sound.calls.callLock isPlain called)
    · exact vectorSound_start unowned unserved increasing plain names isFile
        (sameUnlock.trans locked)
    · intro other otherCall apart
      refine ⟨?_, fun isOwner => ⟨rfl, same otherCall ?_⟩⟩
      · by_cases isCall : otherCall = call
        · rw [isCall, Function.update_self, noOwner]
          exact ⟨fun isId => absurd (Option.some.inj isId).symm apart, nofun⟩
        · rw [Function.update_of_ne isCall]
      · rintro rfl
        exact absurd (noOwner.symm.trans isOwner) nofun

/-- `lockv_callback`. -/
theorem callback (sound : LockvSound rank world) {call next : Nat}
    (isOwner : world.owner call = some id)
    (less : world.served call < (world.zoo.calls call).runs)
    (stepped : world.lockvCallback id call next = some after) : LockvSound rank after := by
  have once := sound.calls.runs_le call
  have unserved : world.served call = 0 := by omega
  have serves := sound.calls.serve less
  have curr := (sound.vectors id).curr
  rw [unserved] at serves
  unfold LockvWorld.lockvCallback at stepped
  dsimp only at stepped
  rw [unserved] at stepped
  have notServed : ∀ other otherCall, other ≠ id → world.owner otherCall = some other →
      Function.update world.served call 1 otherCall = world.served otherCall := by
    intro other otherCall apart isOther
    apply Function.update_of_ne
    rintro rfl
    exact apart (Option.some.inj (isOther.symm.trans isOwner))
  split at stepped
  next noMore =>
    cases stepped
    apply sound.update serves
    · have nothing : ∀ other, world.owner other = some id ↔
          world.owner other = some id ∨ VectorPhase.locked = .locking ∧ other = call :=
        fun other => ⟨Or.inl, fun cases => cases.resolve_right fun wrong => nomatch wrong.1⟩
      rw [curr] at noMore
      exact (sound.vectors id).granted isOwner unserved nothing (fun other _ => ⟨rfl, Iff.rfl⟩)
        (Or.inl ⟨rfl, noMore⟩)
    · exact fun other otherCall apart =>
        ⟨Iff.rfl, fun isOther => ⟨notServed other otherCall apart isOther, rfl⟩⟩
  next filename isNext =>
    obtain ⟨zoo, called, rfl⟩ := Option.map_eq_some_iff.mp stepped
    obtain ⟨idle, isFile, _, sameUnlock, _, same⟩ := ZooWorld.step_callLock called
    obtain ⟨noOwner, unservedNext, locked⟩ := sound.calls.fresh idle
    have plain := (sound.vectors id).plain filename (List.mem_of_getElem? isNext)
    have apartNext : ∀ {other otherCall : Nat}, world.owner otherCall = some other →
        otherCall ≠ next := by
      rintro other otherCall isOther rfl
      exact absurd (noOwner.symm.trans isOther) nofun
    apply sound.update (serves.callLock plain called)
    · have phase : (world.vectors id).phase = .locking :=
        ((sound.vectors id).pending isOwner unserved).1
      rw [curr] at isNext
      have oneMore : ∀ other, Function.update world.owner next (some id) other = some id ↔
          world.owner other = some id ∨ (world.vectors id).phase = .locking ∧ other = next := by
        intro other
        by_cases isNextCall : other = next
        · rw [isNextCall, Function.update_self]
          exact ⟨fun _ => Or.inr ⟨phase, rfl⟩, fun _ => rfl⟩
        · rw [Function.update_of_ne isNextCall]
          exact ⟨Or.inl, fun cases => cases.resolve_right fun wrong => isNextCall wrong.2⟩
      have agree : ∀ other, world.owner other = some id →
          (zoo.calls other).filename = (world.zoo.calls other).filename ∧
            ((zoo.calls other).unlock = .idle ↔ (world.zoo.calls other).unlock = .idle) := by
        intro other isOther
        rw [same other (apartNext isOther)]
        exact ⟨rfl, Iff.rfl⟩
      refine (sound.vectors id).granted isOwner unserved oneMore agree
        (Or.inr ⟨phase, fun isOther => apartNext isOther rfl, unservedNext,
          sameUnlock.trans locked, ?_⟩)
      rw [isFile]
      exact isNext
    · intro other otherCall apart
      refine ⟨?_, fun isOther => ⟨notServed other otherCall apart isOther,
        same otherCall (apartNext isOther)⟩⟩
      by_cases isCall : otherCall = next
      · rw [isCall, Function.update_self, noOwner]
        exact ⟨fun isId => absurd (Option.some.inj isId).symm apart, nofun⟩
      · rw [Function.update_of_ne isCall]

/-- The element that the loop of `s_zoo_unlockv` comes to. -/
theorem unlocking (sound : LockvSound rank world) {index : Nat}
    (here : (world.vectors id).phase = .unlocking index)
    (below : index < (world.vectors id).filenames.length) :
    ∃ call, (world.vectors id).lockElems[index]? = some (some call) ∧
      (world.zoo.calls call).Holds := by
  have vector := sound.vectors id
  have inElems : index < (world.vectors id).lockElems.length := by
    rw [vector.full (by rw [here]; nofun) (by rw [here]; nofun)]
    exact below
  obtain ⟨call, listed, unlocked⟩ := vector.held index (by rw [here]; exact Nat.le_refl _) inElems
  refine ⟨call, listed, ?_, unlocked⟩
  have atMost := sound.calls.served call
  rw [(vector.slots index call listed).2.1] at atMost
  exact atMost

/-- The loop of `s_zoo_unlockv`. -/
theorem unlockNext (sound : LockvSound rank world) (stepped : world.unlockNext id = some after) :
    LockvSound rank after := by
  have vector := sound.vectors id
  unfold LockvWorld.unlockNext at stepped
  dsimp only at stepped
  split at stepped
  next index here =>
    split at stepped
    next below =>
      obtain ⟨call, listed, _⟩ := sound.unlocking here below
      rw [listed] at stepped
      obtain ⟨zoo, called, rfl⟩ := Option.map_eq_some_iff.mp stepped
      obtain ⟨_, self, same⟩ := ZooWorld.step_callUnlock called
      apply sound.update (sound.calls.callUnlock called)
      · apply vector.unlocks here listed same
        · rw [self]
        · rw [self]
          nofun
      · intro other otherCall apart
        refine ⟨Iff.rfl, fun isOther => ⟨rfl, same otherCall ?_⟩⟩
        rintro rfl
        have isId := (vector.slots index otherCall listed).1
        exact apart (Option.some.inj (isOther.symm.trans isId))
    next done =>
      cases stepped
      exact sound.setVector (vector.unlocked here (Nat.le_of_not_lt done))
  next index here =>
    split at stepped
    · split at stepped
      · cases stepped
        exact sound.setVector (vector.freed here)
      · cases stepped
    · cases stepped
  next => cases stepped

/-- One step in which the service serves. -/
theorem step (sound : LockvSound rank world) {event : LockvEvent}
    (serves : lockvServes rank world event = true) (stepped : world.step event = some after) :
    LockvSound rank after := by
  cases event with
  | zoo event =>
      simp only [LockvWorld.step] at stepped
      split at stepped
      next isInner =>
        obtain ⟨zoo, moved, rfl⟩ := Option.map_eq_some_iff.mp stepped
        exact sound.inner isInner serves moved
      next => cases stepped
  | lockv id client filenames call =>
      simp only [LockvWorld.step] at stepped
      split at stepped
      next created =>
        obtain ⟨plain, increasing⟩ := Bool.and_eq_true_iff.mp serves
        obtain ⟨names, elems, curr, _⟩ :=
          LockVector.filenames_foldl_add filenames (LockVector.create client)
        have same : (filenames.foldl LockVector.add (LockVector.create client)).filenames =
            filenames := names
        apply sound.lockv created ⟨elems, curr⟩ ?_ ?_ stepped
        · rw [same]
          exact of_decide_eq_true increasing
        · rw [same]
          exact List.all_eq_true.mp plain
      next => cases stepped
  | callback call next =>
      simp only [LockvWorld.step] at stepped
      split at stepped
      next => cases stepped
      next id isOwner =>
        split at stepped
        next less => exact sound.callback isOwner less stepped
        next => cases stepped
  | unlockv id =>
      simp only [LockvWorld.step] at stepped
      split at stepped
      next locked =>
        cases stepped
        exact sound.setVector ((sound.vectors id).unlockv locked)
      next => cases stepped
  | unlockNext id => exact sound.unlockNext stepped

/-! ## What the vectors have -/

theorem quiet_zoo (quiet : world.Quiet) : world.zoo.Quiet := by
  intro event inner
  have nothing := quiet (.zoo event) rfl
  simp only [LockvWorld.step] at nothing
  rw [if_pos inner] at nothing
  exact Option.map_eq_none_iff.mp nothing

/-- The call for a name that a vector has. -/
theorem hasLock (sound : LockvSound rank world) {name : Name} (has : world.HasLock id name) :
    ∃ call, world.owner call = some id ∧ (world.zoo.calls call).Holds ∧
      (world.zoo.calls call).filename = name := by
  obtain ⟨phase, listed⟩ := has
  have vector := sound.vectors id
  obtain ⟨index, below, isName⟩ := List.mem_take_iff_getElem.mp listed
  have holds : (world.vectors id).phase.Holds index := by
    rcases phase with here | here <;> rw [here] <;> trivial
  have inElems : index < (world.vectors id).lockElems.length := by
    rw [← vector.curr]
    exact lt_of_lt_of_le below (Nat.min_le_left _ _)
  obtain ⟨call, inSlot, unlocked⟩ := vector.held index holds inElems
  obtain ⟨isOwner, isServed, isFile⟩ := vector.slots index call inSlot
  have atMost := sound.calls.served call
  rw [isServed] at atMost
  refine ⟨call, isOwner, ⟨atMost, unlocked⟩, ?_⟩
  rw [List.getElem?_eq_getElem (inElems.trans_le vector.bound)] at isFile
  exact (Option.some.inj isFile).symm.trans isName

/-- No vector is in the middle of `s_zoo_unlockv`. -/
theorem quiet_phase (sound : LockvSound rank world) (quiet : world.Quiet) (id : Nat) :
    (∀ index, (world.vectors id).phase ≠ .unlocking index) ∧
      ∀ index, (world.vectors id).phase ≠ .freeing index := by
  have next := quiet (.unlockNext id) rfl
  simp only [LockvWorld.step, LockvWorld.unlockNext] at next
  refine ⟨fun index here => ?_, fun index here => ?_⟩
  · rw [here] at next
    dsimp only at next
    split at next
    next below =>
      obtain ⟨call, listed, holds⟩ := sound.unlocking here below
      rw [listed] at next
      have steps : world.zoo.step (.callUnlock call) ≠ none := by
        simp only [ZooWorld.step]
        rw [if_pos (And.intro holds.1 holds.2)]
        exact Option.some_ne_none _
      exact steps (Option.map_eq_none_iff.mp next)
    next => cases next
  · obtain ⟨call, listed, unlocking⟩ := (sound.vectors id).freeing index here
    have returned : (world.zoo.calls call).unlock = .returned :=
      ((quiet_zoo quiet).threads call).2.2.resolve_left unlocking
    rw [here] at next
    dsimp only at next
    rw [listed] at next
    dsimp only at next
    rw [if_pos returned] at next
    cases next

/-- `lockv_callback` has run as often as the callbacks of the calls. -/
theorem quiet_served (sound : LockvSound rank world) (quiet : world.Quiet) {call : Nat}
    (isOwner : world.owner call = some id) :
    world.served call = (world.zoo.calls call).runs := by
  by_contra behind
  have less : world.served call < (world.zoo.calls call).runs :=
    lt_of_le_of_ne (sound.calls.served call) behind
  obtain ⟨bound, idle⟩ := sound.calls.bound
  have nothing := quiet (.callback call bound) rfl
  simp only [LockvWorld.step] at nothing
  rw [isOwner] at nothing
  dsimp only at nothing
  rw [if_pos less] at nothing
  unfold LockvWorld.lockvCallback at nothing
  dsimp only at nothing
  split at nothing
  · cases nothing
  · have calls : ∀ client filename, world.zoo.step (.callLock bound client filename) ≠ none := by
      intro client filename
      simp only [ZooWorld.step]
      rw [if_pos (idle bound (Nat.le_refl _))]
      exact Option.some_ne_none _
    exact calls _ _ (Option.map_eq_none_iff.mp nothing)

/-- The name that a vector waits for. -/
theorem waitsFor (sound : LockvSound rank world) (quiet : world.Quiet)
    (locking : (world.vectors id).phase = .locking) :
    ∃ call, (world.zoo.calls call).lock ≠ .idle ∧ (world.zoo.calls call).runs = 0 ∧
      (world.vectors id).filenames[(world.vectors id).lockElems.length]? =
        some (world.zoo.calls call).filename := by
  obtain ⟨call, isOwner, unserved⟩ := (sound.vectors id).waits locking
  have runs := sound.quiet_served quiet isOwner
  exact ⟨call, sound.calls.busy isOwner, runs.symm.trans unserved,
    ((sound.vectors id).pending isOwner unserved).2.2⟩

/-- The rank of the name that a vector comes to. -/
def nextRank (rank : Name → Nat) (vector : LockVector) : Nat :=
  rank ((vector.filenames[vector.lockElems.length]?).getD [])

/-- **A vector that waits, waits for one that waits for a later name.** -/
theorem blocked (sound : LockvSound rank world) (quiet : world.Quiet)
    (unlocked : ∀ id, (world.vectors id).phase ≠ .locked)
    (locking : (world.vectors id).phase = .locking) :
    ∃ other, (world.vectors other).phase = .locking ∧
      nextRank rank (world.vectors id) < nextRank rank (world.vectors other) := by
  obtain ⟨call, busy, unrun, isName⟩ := sound.waitsFor quiet locking
  obtain ⟨holder, holds, sameFile⟩ :=
    sound.calls.wakes.losesNoWake sound.calls.ordered sound.calls.kept (quiet_zoo quiet) call busy
      unrun
  -- the call that is granted is one of another vector
  have busyHolder : (world.zoo.calls holder).lock ≠ .idle := by
    intro idle
    obtain ⟨_, none, _⟩ := (sound.calls.kept holder).earlyAt idle rfl
    exact absurd holds.1 (by omega)
  obtain ⟨other, isOther⟩ : ∃ other, world.owner holder = some other := by
    apply Option.ne_none_iff_exists'.mp
    exact fun none => busyHolder ((sound.calls.unowned holder).mp none)
  have served := sound.quiet_served quiet isOther
  rcases (sound.vectors other).owned holder isOther with ⟨unserved, _⟩ | ⟨_, inSlot⟩
  · have runs := holds.1
    omega
  obtain ⟨index, phase, listed⟩ := inSlot holds.2
  have isLocking : (world.vectors other).phase = .locking := by
    obtain ⟨noUnlocking, noFreeing⟩ := sound.quiet_phase quiet other
    cases here : (world.vectors other).phase with
    | locking => rfl
    | locked => exact absurd here (unlocked other)
    | unlocking next => exact absurd here (noUnlocking next)
    | freeing next => exact absurd here (noFreeing next)
    | created =>
        rw [here] at phase
        exact phase.elim
    | unlocked =>
        rw [here] at phase
        exact phase.elim
  refine ⟨other, isLocking, ?_⟩
  -- its element is before the name it waits for
  obtain ⟨_, _, _, isNext⟩ := sound.waitsFor quiet isLocking
  obtain ⟨belowNext, atNext⟩ := List.getElem?_eq_some_iff.mp isNext
  obtain ⟨below, atIndex⟩ :=
    List.getElem?_eq_some_iff.mp ((sound.vectors other).slots index holder listed).2.2
  have inElems := (List.getElem?_eq_some_iff.mp listed).1
  have ranks := List.pairwise_iff_getElem.mp (sound.vectors other).increasing index _ below
    belowNext inElems
  unfold nextRank
  rw [isName, isNext, Option.getD_some, Option.getD_some, ← sameFile, ← atIndex, ← atNext]
  exact ranks

/-- Along a chain of waiting vectors the names grow, so there is none. -/
theorem unstuck (sound : LockvSound rank world) (quiet : world.Quiet)
    (unlocked : ∀ id, (world.vectors id).phase ≠ .locked) (id : Nat) :
    (world.vectors id).phase ≠ .locking := by
  intro locking
  obtain ⟨bound, created⟩ := sound.bound
  let waiting := (Finset.range bound).filter fun id => (world.vectors id).phase = .locking
  have isWaiting : ∀ id, id ∈ waiting ↔ (world.vectors id).phase = .locking := by
    intro id
    rw [Finset.mem_filter, Finset.mem_range]
    refine ⟨And.right, fun here => ⟨?_, here⟩⟩
    by_contra above
    exact absurd (here.symm.trans (created id (Nat.le_of_not_lt above))) nofun
  obtain ⟨last, listed, greatest⟩ := waiting.exists_max_image
    (fun id => nextRank rank (world.vectors id)) ⟨id, (isWaiting id).mpr locking⟩
  obtain ⟨other, isLocking, less⟩ := sound.blocked quiet unlocked ((isWaiting last).mp listed)
  have atMost := greatest other ((isWaiting other).mpr isLocking)
  omega

theorem fair (sound : LockvSound rank world) : world.Fair where
  complete := by
    intro id locked name listed
    refine ⟨Or.inr locked, ?_⟩
    rw [(sound.vectors id).curr,
      (sound.vectors id).full (by rw [locked]; nofun) (by rw [locked]; nofun), List.take_length]
    exact listed
  alone := by
    intro first second name hasFirst hasSecond
    obtain ⟨call, isFirst, holds, isName⟩ := sound.hasLock hasFirst
    obtain ⟨other, isSecond, otherHolds, isSame⟩ := sound.hasLock hasSecond
    have same := sound.calls.ordered.alone holds otherHolds (isName.trans isSame.symm)
    rw [same, isSecond] at isFirst
    exact (Option.some.inj isFirst).symm
  unstuck := sound.unstuck

end LockvSound

/-- No call and no vector is made. -/
def emptyLockv : LockvWorld where
  zoo := emptyService
  vectors := fun _ => LockVector.create 0
  owner := fun _ => none
  served := fun _ => 0

theorem init_emptyLockv : lockvSystem.init emptyLockv :=
  ⟨init_withoutNodes, fun _ => ⟨0, rfl⟩, fun _ => rfl, fun _ => rfl⟩

/-- The threads of a call up to its end. -/
def takes (call seq steps : Nat) : List LockvEvent :=
  [.zoo (.createParent call true), .zoo (.createNode call (some seq))] ++
    List.replicate steps (.zoo (.lock call true))

/-- The loop of `s_zoo_unlockv` for one element. -/
def gives (id call : Nat) : List LockvEvent :=
  [.unlockNext id, .zoo (.deleteNode call true), .zoo (.freeElem call), .unlockNext id]

/-- Vector 0 takes two names, and vector 1 takes them after it. -/
def vectorsTakeTurns : List LockvEvent :=
  .lockv 0 1 [[97], [98]] 0 :: takes 0 0 3 ++ .callback 0 1 :: takes 1 0 3 ++ [.callback 1 9] ++
    .lockv 1 2 [[97], [98]] 2 :: takes 2 1 1 ++ .unlockv 0 :: gives 0 0 ++ gives 0 1 ++
    .unlockNext 0 :: (watches 2 0 6).map .zoo ++ .callback 2 3 :: takes 3 1 3 ++ [.callback 3 9]

end SimpleDfs.Zookeeper
