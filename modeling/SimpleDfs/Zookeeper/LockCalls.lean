import Mathlib.Data.List.Basic
import SimpleDfs.Zookeeper.Lock

/-!
Contract: the threads of one call of `s_zoo_lock` (`zookeeper/s_zookeeper.c`).

Owns: how many threads may still ask the service for a call, have found it the
first, or have written NULL, and that in a run whose reads are settled only one
ever writes NULL over a callback.

Does not own: which call the service lets be the first.

A query arms the watch that fires next, so at most one thread may still ask.  It
asks only if it has read a callback, which is gone once another thread is past
its write.
-/

set_option autoImplicit false

namespace SimpleDfs.Zookeeper

open SimpleDfs.Library

/-! ## Counting threads -/

namespace LockPoint

def asking : LockPoint → Bool
  | .getChildren => true
  | _ => false

def deciding : LockPoint → Bool
  | .clearCallback => true
  | _ => false

/-- NULL is written, the call is next. -/
def granting : LockPoint → Bool
  | .runCallback => true
  | _ => false

/-- Nothing is armed yet. -/
def early : LockPoint → Bool
  | .idle => true
  | .createParent => true
  | .createNode => true
  | .getChildren => true
  | _ => false

end LockPoint

namespace WatchPoint

/-- The watcher is to come, or may still ask. -/
def probing : WatchPoint → Bool
  | .armed _ => true
  | .lookUp => true
  | .readCallback => true
  | .getChildren => true
  | _ => false

def asking : WatchPoint → Bool
  | .getChildren => true
  | _ => false

def granting : WatchPoint → Bool
  | .runCallback _ => true
  | _ => false

/-- The local variable `callback`, where it is in use. -/
def local? : WatchPoint → Option Bool
  | .clearCallback callback => some callback
  | .runCallback callback => some callback
  | _ => none

end WatchPoint

namespace LockCall

/-- The threads of a call, that of `s_zoo_lock` and the watchers, that pass a
test. -/
def count (call : LockCall) (lockTest : LockPoint → Bool) (watchTest : WatchPoint → Bool) : Nat :=
  (lockTest call.lock).toNat + call.watches.countP watchTest

def probing (call : LockCall) : Nat :=
  call.count LockPoint.asking WatchPoint.probing

def asking (call : LockCall) : Nat :=
  call.count LockPoint.asking WatchPoint.asking

def deciding (call : LockCall) : Nat :=
  call.count LockPoint.deciding WatchPoint.deciding

/-- The runs of the callback, past or next. -/
def granted (call : LockCall) : Nat :=
  call.count LockPoint.granting WatchPoint.granting + call.runs

/-- How many threads there may be, and what the callback is then. -/
def Balanced (probing asking deciding granted : Nat) (callback : Bool) : Prop :=
  probing ≤ 1 ∧ deciding + granted ≤ 1 ∧
    (0 < asking → callback = true ∧ deciding + granted = 0) ∧
    (0 < deciding → callback = true) ∧ (0 < granted → callback = false)

/-- What every call keeps in runs whose reads are settled. -/
structure Kept (call : LockCall) : Prop where
  balanced : Balanced call.probing call.asking call.deciding call.granted call.callback
  locals : ∀ watch ∈ call.watches, watch.local? ≠ some false
  early : call.lock.early = true → call.watches = [] ∧ call.runs = 0 ∧ call.unlock = .idle
  unlocks : call.unlock ≠ .idle → 0 < call.runs

section

variable {call : LockCall}

theorem count_moveTo {watch : Nat} {old : WatchPoint} (found : call.watches[watch]? = some old)
    (new : WatchPoint) (lockTest : LockPoint → Bool) (watchTest : WatchPoint → Bool) :
    (call.moveTo watch new).count lockTest watchTest + (watchTest old).toNat =
      call.count lockTest watchTest + (watchTest new).toNat := by
  obtain ⟨inside, isOld⟩ := List.getElem?_eq_some_iff.mp found
  have counted := @List.boole_getElem_le_countP _ watchTest _ _ inside
  have one : ∀ watch, (if watchTest watch = true then 1 else 0) = (watchTest watch).toNat := by
    intro watch
    cases watchTest watch <;> rfl
  unfold count moveTo
  dsimp only
  rw [List.countP_set inside, one, one, isOld]
  rw [one, isOld] at counted
  omega

theorem count_goTo (new : LockPoint) (lockTest : LockPoint → Bool)
    (watchTest : WatchPoint → Bool) :
    (call.goTo new).count lockTest watchTest + (lockTest call.lock).toNat =
      call.count lockTest watchTest + (lockTest new).toNat := by
  unfold count goTo
  dsimp only
  omega

theorem count_arm (lockTest : LockPoint → Bool) (watchTest : WatchPoint → Bool) :
    call.arm.count lockTest watchTest =
      call.count lockTest watchTest + (watchTest (.armed false)).toNat := by
  unfold count arm
  dsimp only
  rw [List.countP_append, List.countP_singleton]
  cases watchTest (.armed false)
  · rfl
  · exact (Nat.add_assoc _ _ _).symm

theorem count_pos {watch : Nat} {point : WatchPoint} (found : call.watches[watch]? = some point)
    (lockTest : LockPoint → Bool) {watchTest : WatchPoint → Bool}
    (passes : watchTest point = true) : 0 < call.count lockTest watchTest := by
  have counted : 0 < call.watches.countP watchTest :=
    List.countP_pos_iff.mpr ⟨point, List.mem_of_getElem? found, passes⟩
  exact Nat.add_pos_right _ counted

/-- The threads after a watcher has gone on. -/
theorem tally_moveTo {watch : Nat} {old : WatchPoint} (found : call.watches[watch]? = some old)
    (new : WatchPoint) :
    (call.moveTo watch new).probing + old.probing.toNat = call.probing + new.probing.toNat ∧
      (call.moveTo watch new).asking + old.asking.toNat = call.asking + new.asking.toNat ∧
      (call.moveTo watch new).deciding + old.deciding.toNat =
        call.deciding + new.deciding.toNat ∧
      (call.moveTo watch new).granted + old.granting.toNat = call.granted + new.granting.toNat := by
  refine ⟨count_moveTo found new _ _, count_moveTo found new _ _, count_moveTo found new _ _, ?_⟩
  have counted := count_moveTo found new LockPoint.granting WatchPoint.granting
  unfold granted
  show _ + call.runs + _ = _
  omega

/-- The threads after `s_zoo_lock` has gone on. -/
theorem tally_goTo (new : LockPoint) :
    (call.goTo new).probing + call.lock.asking.toNat = call.probing + new.asking.toNat ∧
      (call.goTo new).asking + call.lock.asking.toNat = call.asking + new.asking.toNat ∧
      (call.goTo new).deciding + call.lock.deciding.toNat =
        call.deciding + new.deciding.toNat ∧
      (call.goTo new).granted + call.lock.granting.toNat = call.granted + new.granting.toNat := by
  refine ⟨count_goTo new _ _, count_goTo new _ _, count_goTo new _ _, ?_⟩
  have counted := @count_goTo call new LockPoint.granting WatchPoint.granting
  unfold granted
  show _ + call.runs + _ = _
  omega

/-- A watch armed may ask. -/
theorem tally_arm :
    call.arm.probing = call.probing + 1 ∧ call.arm.asking = call.asking ∧
      call.arm.deciding = call.deciding ∧ call.arm.granted = call.granted :=
  ⟨count_arm _ _, count_arm _ _, count_arm _ _, congrArg (· + call.runs) (count_arm _ _)⟩

theorem asking_le_probing : call.asking ≤ call.probing := by
  refine Nat.add_le_add_left (List.countP_mono_left ?_) _
  intro watch _ asks
  cases watch <;> first | rfl | cases asks

/-- A change of the children makes watches due. -/
theorem tally_change :
    call.change.probing = call.probing ∧ call.change.asking = call.asking ∧
      call.change.deciding = call.deciding ∧ call.change.granted = call.granted := by
  have same : ∀ lockTest watchTest,
      (∀ watch : WatchPoint, watchTest watch.change = watchTest watch) →
      call.change.count lockTest watchTest = call.count lockTest watchTest := by
    intro lockTest watchTest blind
    unfold count LockCall.change
    dsimp only
    rw [List.countP_map]
    congr 2
    funext watch
    exact blind watch
  refine ⟨same _ _ ?_, same _ _ ?_, same _ _ ?_, congrArg (· + call.runs) (same _ _ ?_)⟩
  all_goals
    intro watch
    cases watch <;> rfl

theorem kept_fresh : fresh.Kept where
  balanced := by
    unfold Balanced
    decide
  locals := fun _ listed => absurd listed List.not_mem_nil
  early := by decide
  unlocks := by decide

theorem Kept.change (kept : call.Kept) : call.change.Kept := by
  obtain ⟨probing, asking, deciding, granted⟩ := @tally_change call
  constructor
  · rw [probing, asking, deciding, granted]
    exact kept.balanced
  · intro watch listed
    obtain ⟨before, present, rfl⟩ := List.mem_map.mp listed
    have same : before.change.local? = before.local? := by cases before <;> rfl
    rw [same]
    exact kept.locals before present
  · intro isEarly
    obtain ⟨none, others⟩ := kept.early isEarly
    refine ⟨?_, others⟩
    unfold LockCall.change
    rw [none]
    rfl
  · exact kept.unlocks

/-! ## Steps of `s_zoo_lock` -/

/-- A call that has armed nothing and found nothing. -/
theorem kept_alone (none : call.watches = []) (unrun : call.runs = 0) (locked : call.unlock = .idle)
    (undecided : call.lock.deciding = false ∧ call.lock.granting = false)
    (asks : call.lock.asking = true → call.callback = true) : call.Kept := by
  have counts : ∀ lockTest watchTest, call.count lockTest watchTest = (lockTest call.lock).toNat := by
    intro lockTest watchTest
    unfold count
    rw [none]
    rfl
  constructor
  · unfold LockCall.probing LockCall.asking LockCall.deciding granted Balanced
    rw [counts, counts, counts, counts, undecided.1, undecided.2, unrun]
    cases asking : call.lock.asking
    · simp
    · simp [asks asking]
  · intro watch listed
    rw [none] at listed
    exact absurd listed List.not_mem_nil
  · exact fun _ => ⟨none, unrun, locked⟩
  · exact fun unlocking => absurd locked unlocking

theorem Kept.earlyAt (kept : call.Kept) {point : LockPoint} (here : call.lock = point)
    (isEarly : point.early = true) :
    call.watches = [] ∧ call.runs = 0 ∧ call.unlock = .idle :=
  kept.early (here ▸ isEarly)

theorem Kept.start (kept : call.Kept) (here : call.lock = .idle) (client : Nat) (filename : Name) :
    (call.start client filename).Kept := by
  obtain ⟨none, unrun, locked⟩ := kept.earlyAt here rfl
  unfold LockCall.start goTo
  split
  · exact kept_alone none unrun locked ⟨rfl, rfl⟩ nofun
  · exact kept_alone none unrun locked ⟨rfl, rfl⟩ nofun

/-- A step in front of the query. -/
theorem Kept.goOn (kept : call.Kept) {point : LockPoint} (here : call.lock = point)
    (isEarly : point.early = true) {next : LockPoint}
    (soon : next = .createNode ∨ next = .returned) : (call.goTo next).Kept := by
  obtain ⟨none, unrun, locked⟩ := kept.earlyAt here isEarly
  rcases soon with rfl | rfl
  · exact kept_alone none unrun locked ⟨rfl, rfl⟩ nofun
  · exact kept_alone none unrun locked ⟨rfl, rfl⟩ nofun

theorem Kept.created (kept : call.Kept) (here : call.lock = .createNode) (name : Name) :
    (call.created name).Kept := by
  obtain ⟨none, unrun, locked⟩ := kept.earlyAt here rfl
  exact kept_alone none unrun locked ⟨rfl, rfl⟩ fun _ => rfl

/-- The query of `s_zoo_lock`: the watch is the next that may ask. -/
theorem Kept.lockAsked (kept : call.Kept) (here : call.lock = .getChildren) {point : LockPoint}
    (next : point = .clearCallback ∨ point = .returned) : (call.arm.goTo point).Kept := by
  obtain ⟨none, unrun, locked⟩ := kept.earlyAt here rfl
  have balanced := kept.balanced
  obtain ⟨probing, asking, deciding, granted⟩ := @tally_arm call
  have bound := @asking_le_probing call
  have moved := @tally_goTo call.arm point
  have here' : call.arm.lock = .getChildren := here
  rw [here', probing, asking, deciding, granted] at moved
  constructor
  · have callback : (call.arm.goTo point).callback = call.callback := rfl
    unfold Balanced at balanced ⊢
    rw [callback]
    rcases next with rfl | rfl
    · simp only [LockPoint.asking, LockPoint.deciding, LockPoint.granting, Bool.toNat_true,
      Bool.toNat_false] at moved
      grind
    · simp only [LockPoint.asking, LockPoint.deciding, LockPoint.granting, Bool.toNat_true,
      Bool.toNat_false] at moved
      grind
  · intro watch listed
    have only : (call.arm.goTo point).watches = [.armed false] := by
      show call.watches ++ _ = _
      rw [none]
      rfl
    rw [only] at listed
    rw [List.mem_singleton.mp listed]
    nofun
  · intro isEarly
    rcases next with rfl | rfl <;> cases isEarly
  · exact fun unlocking => absurd locked unlocking

/-- The query of `s_zoo_lock`, answered or not. -/
theorem Kept.lockQuery (kept : call.Kept) (here : call.lock = .getChildren)
    (children : Option (List Name)) :
    ((call.tryLock children).1.goTo
      (if (call.tryLock children).2 then .clearCallback else .returned)).Kept := by
  cases children with
  | none => exact kept.goOn here rfl (Or.inr rfl)
  | some children =>
      unfold tryLock
      dsimp only
      split
      · exact kept.lockAsked here (Or.inl rfl)
      · exact kept.lockAsked here (Or.inr rfl)

/-- The write of NULL in `s_zoo_lock`. -/
theorem Kept.lockCleared (kept : call.Kept) (here : call.lock = .clearCallback) :
    ({ call.goTo .runCallback with callback := false } : LockCall).Kept := by
  have balanced := kept.balanced
  have moved := @tally_goTo call .runCallback
  rw [here] at moved
  constructor
  · show Balanced (call.goTo .runCallback).probing (call.goTo .runCallback).asking
      (call.goTo .runCallback).deciding (call.goTo .runCallback).granted false
    unfold Balanced at balanced ⊢
    simp only [LockPoint.asking, LockPoint.deciding, LockPoint.granting, Bool.toNat_true,
      Bool.toNat_false] at moved
    grind
  · exact kept.locals
  · nofun
  · exact kept.unlocks

/-- The call of the callback in `s_zoo_lock`. -/
theorem Kept.lockRun (kept : call.Kept) (here : call.lock = .runCallback) :
    ({ call.goTo .returned with runs := call.runs + 1 } : LockCall).Kept := by
  have balanced := kept.balanced
  have moved := @tally_goTo call .returned
  rw [here] at moved
  constructor
  · show Balanced (call.goTo .returned).probing (call.goTo .returned).asking
      (call.goTo .returned).deciding ((call.goTo .returned).granted + 1) call.callback
    unfold Balanced at balanced ⊢
    simp only [LockPoint.asking, LockPoint.deciding, LockPoint.granting, Bool.toNat_true,
      Bool.toNat_false] at moved
    grind
  · exact kept.locals
  · nofun
  · exact fun _ => Nat.succ_pos call.runs

/-- A step of `s_zoo_lock` from its query on. -/
theorem Kept.lockStep (kept : call.Kept) {children : Option (List Name)} {after : LockCall}
    (stepped : call.lockStep children = some after) : after.Kept := by
  unfold LockCall.lockStep at stepped
  split at stepped
  next here =>
    cases stepped
    exact kept.lockQuery here children
  next here =>
    cases stepped
    exact kept.lockCleared here
  next here =>
    cases stepped
    exact kept.lockRun here
  next => cases stepped

/-! ## Steps of the watcher -/

/-- `s_zoo_lock` is past its query where a watch is armed. -/
theorem Kept.late (kept : call.Kept) {watch : Nat} {point : WatchPoint}
    (found : call.watches[watch]? = some point) : call.lock.early = false := by
  by_contra isEarly
  obtain ⟨none, _⟩ := kept.early (Bool.not_eq_false _ ▸ isEarly)
  rw [none] at found
  cases found

/-- What a step of a watcher has to keep. -/
theorem Kept.watched (kept : call.Kept) {watch : Nat} {point : WatchPoint}
    (found : call.watches[watch]? = some point) {after : LockCall}
    (watches : ∀ other ∈ after.watches, other ∈ call.watches ∨ other.local? ≠ some false)
    (lock : after.lock = call.lock) (unlock : after.unlock = call.unlock)
    (runs : call.runs ≤ after.runs)
    (balanced : Balanced after.probing after.asking after.deciding after.granted after.callback) :
    after.Kept := by
  refine ⟨balanced, ?_, ?_, ?_⟩
  · intro other listed
    rcases watches other listed with before | fine
    · exact kept.locals other before
    · exact fine
  · intro isEarly
    rw [lock, kept.late found] at isEarly
    cases isEarly
  · intro unlocking
    rw [unlock] at unlocking
    exact (kept.unlocks unlocking).trans_le runs

/-- The points of a watcher behind a step of it. -/
theorem locals_moveTo {watch : Nat} {new : WatchPoint} (fine : new.local? ≠ some false) :
    ∀ other ∈ (call.moveTo watch new).watches, other ∈ call.watches ∨ other.local? ≠ some false :=
  fun _ listed => (List.mem_or_eq_of_mem_set listed).imp_right fun isNew => by
    rw [isNew]
    exact fine

/-- A watcher that is still to ask, or gives up. -/
theorem Kept.probed (kept : call.Kept) {watch : Nat} {old new : WatchPoint}
    (found : call.watches[watch]? = some old)
    (first : old = .armed true ∨ old = .lookUp ∨ old = .readCallback)
    (next : new = .lookUp ∨ new = .readCallback ∨ new = .returned) :
    (call.moveTo watch new).Kept := by
  have balanced := kept.balanced
  have bound := @asking_le_probing (call.moveTo watch new)
  have moved := tally_moveTo found new
  refine kept.watched found (locals_moveTo ?_) rfl rfl le_rfl ?_
  · rcases next with rfl | rfl | rfl <;> nofun
  · have callback : (call.moveTo watch new).callback = call.callback := rfl
    unfold Balanced at balanced ⊢
    rw [callback]
    rcases first with rfl | rfl | rfl <;> rcases next with rfl | rfl | rfl <;>
      simp only [WatchPoint.probing, WatchPoint.asking, WatchPoint.deciding, WatchPoint.granting,
        Bool.toNat_true, Bool.toNat_false] at moved <;>
      grind

/-- A watcher reads the callback where no thread is about to write NULL. -/
theorem Kept.read (kept : call.Kept) {watch : Nat} (found : call.watches[watch]? = some .readCallback)
    (present : call.callback = true) (settled : call.deciding = 0) :
    (call.moveTo watch .getChildren).Kept := by
  have balanced := kept.balanced
  have moved := tally_moveTo found .getChildren
  refine kept.watched found (locals_moveTo nofun) rfl rfl le_rfl ?_
  have callback : (call.moveTo watch .getChildren).callback = call.callback := rfl
  unfold Balanced at balanced ⊢
  rw [callback]
  simp only [WatchPoint.probing, WatchPoint.asking, WatchPoint.deciding, WatchPoint.granting,
    Bool.toNat_true, Bool.toNat_false] at moved
  grind

/-- The query of a watcher: the new watch is the next that may ask. -/
theorem Kept.asked (kept : call.Kept) {watch : Nat} (found : call.watches[watch]? = some .getChildren)
    {base : LockCall} (armed : base = call ∨ base = call.arm) {new : WatchPoint}
    (next : new = .takeCallback ∨ new = .returned) : (base.moveTo watch new).Kept := by
  have balanced := kept.balanced
  have inBase : base.watches[watch]? = some .getChildren ∧ call.probing ≤ base.probing ∧
      base.probing ≤ call.probing + 1 ∧ base.asking = call.asking ∧
      base.deciding = call.deciding ∧ base.granted = call.granted ∧
      base.callback = call.callback := by
    rcases armed with rfl | rfl
    · exact ⟨found, le_rfl, Nat.le_succ _, rfl, rfl, rfl, rfl⟩
    · obtain ⟨probing, asking, deciding, granted⟩ := @tally_arm call
      refine ⟨?_, by omega, by omega, asking, deciding, granted, rfl⟩
      unfold arm
      rw [List.getElem?_append_left (List.getElem?_eq_some_iff.mp found).1, found]
  obtain ⟨foundBase, counts⟩ := inBase
  have bound := @asking_le_probing call
  have moved := tally_moveTo foundBase new
  have others : ∀ other ∈ base.watches, other ∈ call.watches ∨ other.local? ≠ some false := by
    rcases armed with rfl | rfl
    · exact fun _ listed => Or.inl listed
    · intro other listed
      rcases List.mem_append.mp listed with before | isNew
      · exact Or.inl before
      · rw [List.mem_singleton.mp isNew]
        exact Or.inr nofun
  have fine : new.local? ≠ some false := by rcases next with rfl | rfl <;> nofun
  refine kept.watched found ?_ ?_ ?_ ?_ ?_
  · intro other listed
    rcases locals_moveTo fine other listed with before | isFine
    · exact others other before
    · exact Or.inr isFine
  · rcases armed with rfl | rfl <;> rfl
  · rcases armed with rfl | rfl <;> rfl
  · rcases armed with rfl | rfl <;> exact le_rfl
  · have callback : (base.moveTo watch new).callback = base.callback := rfl
    unfold Balanced at balanced ⊢
    rw [callback]
    rcases next with rfl | rfl <;>
      simp only [WatchPoint.probing, WatchPoint.asking, WatchPoint.deciding, WatchPoint.granting,
        Bool.toNat_true, Bool.toNat_false] at moved <;>
      grind

/-- A watcher that has found the call the first takes the callback, which is
there. -/
theorem Kept.taken (kept : call.Kept) {watch : Nat}
    (found : call.watches[watch]? = some .takeCallback) :
    (call.moveTo watch (.clearCallback call.callback)).Kept := by
  have balanced := kept.balanced
  have moved := tally_moveTo found (.clearCallback call.callback)
  have present : call.callback = true :=
    balanced.2.2.2.1 (count_pos found LockPoint.deciding rfl)
  refine kept.watched found (locals_moveTo ?_) rfl rfl le_rfl ?_
  · rw [present]
    nofun
  · have callback : (call.moveTo watch (.clearCallback call.callback)).callback = call.callback :=
      rfl
    unfold Balanced at balanced ⊢
    rw [callback]
    simp only [WatchPoint.probing, WatchPoint.asking, WatchPoint.deciding, WatchPoint.granting,
      Bool.toNat_true, Bool.toNat_false] at moved
    grind

/-- The write of NULL in a watcher. -/
theorem Kept.cleared (kept : call.Kept) {watch : Nat} {callback : Bool}
    (found : call.watches[watch]? = some (.clearCallback callback)) :
    ({ call.moveTo watch (.runCallback callback) with callback := false } : LockCall).Kept := by
  have balanced := kept.balanced
  have moved := tally_moveTo found (.runCallback callback)
  have isTrue := kept.locals _ (List.mem_of_getElem? found)
  refine kept.watched found (@locals_moveTo call watch (.runCallback callback) isTrue) rfl rfl
    le_rfl ?_
  show Balanced (call.moveTo watch (.runCallback callback)).probing
    (call.moveTo watch (.runCallback callback)).asking
    (call.moveTo watch (.runCallback callback)).deciding
    (call.moveTo watch (.runCallback callback)).granted false
  unfold Balanced at balanced ⊢
  simp only [WatchPoint.probing, WatchPoint.asking, WatchPoint.deciding, WatchPoint.granting,
    Bool.toNat_true, Bool.toNat_false] at moved
  grind

/-- The call of the callback in a watcher. -/
theorem Kept.run (kept : call.Kept) {watch : Nat}
    (found : call.watches[watch]? = some (.runCallback true)) :
    ({ call.moveTo watch .returned with runs := call.runs + 1 } : LockCall).Kept := by
  have balanced := kept.balanced
  have moved := tally_moveTo found .returned
  refine kept.watched found (@locals_moveTo call watch .returned nofun) rfl rfl
    (Nat.le_succ _) ?_
  show Balanced (call.moveTo watch .returned).probing (call.moveTo watch .returned).asking
    (call.moveTo watch .returned).deciding ((call.moveTo watch .returned).granted + 1)
    call.callback
  unfold Balanced at balanced ⊢
  simp only [WatchPoint.probing, WatchPoint.asking, WatchPoint.deciding, WatchPoint.granting,
    Bool.toNat_true, Bool.toNat_false] at moved
  grind

/-- A watch fires. -/
theorem Kept.fire (kept : call.Kept) {watch : Nat} {after : LockCall}
    (stepped : call.fire watch = some after) : after.Kept := by
  unfold LockCall.fire at stepped
  split at stepped
  next found =>
    cases stepped
    exact kept.probed found (Or.inl rfl) (Or.inl rfl)
  next => cases stepped

/-- **A step of a watcher**; where it reads the callback, no thread is about to
write NULL. -/
theorem Kept.watcherStep (kept : call.Kept) {watch : Nat} {children : Option (List Name)}
    {after : LockCall} (settled : call.watches[watch]? = some .readCallback → call.deciding = 0)
    (stepped : call.watcherStep watch children = some after) : after.Kept := by
  unfold LockCall.watcherStep at stepped
  split at stepped
  next found =>
    cases stepped
    split
    · exact kept.probed found (Or.inr (Or.inl rfl)) (Or.inr (Or.inl rfl))
    · exact kept.probed found (Or.inr (Or.inl rfl)) (Or.inr (Or.inr rfl))
  next found =>
    cases stepped
    split
    next present => exact kept.read found present (settled found)
    · exact kept.probed found (Or.inr (Or.inr rfl)) (Or.inr (Or.inr rfl))
  next found =>
    cases stepped
    have armed : (call.tryLock children).1 = call ∨ (call.tryLock children).1 = call.arm := by
      cases children with
      | none => exact Or.inl rfl
      | some children => exact Or.inr rfl
    exact kept.asked found armed (ite_eq_or_eq _ _ _)
  next found =>
    cases stepped
    exact kept.taken found
  next found =>
    cases stepped
    exact kept.cleared found
  next found =>
    cases stepped
    exact kept.run found
  next found => exact absurd rfl (kept.locals _ (List.mem_of_getElem? found))
  next => cases stepped

/-! ## Steps of `s_zoo_unlock` -/

/-- `s_zoo_unlock` goes on with a call that has been granted. -/
theorem Kept.unlock (kept : call.Kept) (granted : 0 < call.runs) {after : LockCall}
    (same : after.watches = call.watches ∧ after.lock = call.lock ∧
      after.callback = call.callback ∧ after.runs = call.runs) : after.Kept := by
  obtain ⟨watches, lock, callback, runs⟩ := same
  have late : call.lock.early ≠ true := by
    intro isEarly
    obtain ⟨_, unrun, _⟩ := kept.early isEarly
    omega
  refine ⟨?_, ?_, ?_, ?_⟩
  · have balanced := kept.balanced
    unfold LockCall.probing LockCall.asking LockCall.deciding LockCall.granted count at balanced ⊢
    rw [watches, lock, callback, runs]
    exact balanced
  · rw [watches]
    exact kept.locals
  · rw [lock]
    exact fun isEarly => absurd isEarly late
  · rw [runs]
    exact fun _ => granted

end

end LockCall

/-! ## Runs -/

theorem deciding_eq_zero {call : LockCall} (settled : call.isDeciding = false) :
    call.deciding = 0 := by
  unfold LockCall.isDeciding at settled
  obtain ⟨elsewhere, nobody⟩ := Bool.or_eq_false_iff.mp settled
  have noWatch : call.watches.countP WatchPoint.deciding = 0 := by
    rw [List.countP_eq_zero]
    intro watch listed decides
    exact List.any_eq_false.mp nobody watch listed decides
  have noLock : call.lock.deciding = false := by
    cases lock : call.lock <;> first | rfl | (rw [lock] at elsewhere; cases elsewhere)
  unfold LockCall.deciding LockCall.count
  rw [noWatch, noLock]
  rfl

/-- Every call keeps its balance. -/
def ZooWorld.Kept (world : ZooWorld) : Prop :=
  ∀ id, (world.calls id).Kept

namespace ZooWorld

variable {world : ZooWorld}

theorem Kept.setCall (kept : world.Kept) {id : Nat} {call : LockCall} (keeps : call.Kept) :
    (world.setCall id call).Kept := by
  intro other
  unfold ZooWorld.setCall
  dsimp only
  rw [Function.update_apply]
  split
  · exact keeps
  · exact kept other

theorem Kept.setChildren (kept : world.Kept) (filename : Name) (children : List Name) :
    (world.setChildren filename children).Kept := by
  intro id
  unfold ZooWorld.setChildren
  dsimp only
  split
  · exact (kept id).change
  · exact kept id

theorem Kept.createParent (kept : world.Kept) (filename : Name) :
    (world.createParent filename).Kept := by
  unfold ZooWorld.createParent
  split
  · exact kept
  · split
    · exact kept
    · exact kept.setChildren _ _

theorem Kept.createNode (kept : world.Kept) (filename : Name) (seq : Nat) :
    (world.createNode filename seq).Kept :=
  kept.setChildren filename (world.children filename ++ [sequenceName seq])

theorem Kept.deleteNode (kept : world.Kept) (path : Name) : (world.deleteNode path).Kept := by
  unfold ZooWorld.deleteNode
  split
  · exact kept
  · split
    · exact kept.setChildren _ _
    · exact kept

/-- One step whose reads are settled. -/
theorem Kept.step (kept : world.Kept) {event : ZooEvent} {after : ZooWorld}
    (settled : readsSettled world event = true) (stepped : world.step event = some after) :
    after.Kept := by
  cases event with
  | callLock id client filename =>
      simp only [ZooWorld.step] at stepped
      split at stepped
      next here =>
        cases stepped
        exact kept.setCall ((kept id).start here client filename)
      next => cases stepped
  | createParent id ok =>
      simp only [ZooWorld.step] at stepped
      split at stepped
      next here =>
        split at stepped
        · cases stepped
          exact (kept.setCall ((kept id).goOn here rfl (Or.inl rfl))).createParent _
        · cases stepped
          exact kept.setCall ((kept id).goOn here rfl (Or.inr rfl))
      next => cases stepped
  | createNode id seq =>
      simp only [ZooWorld.step] at stepped
      split at stepped
      next here =>
        split at stepped
        · cases stepped
          exact kept.setCall ((kept id).goOn here rfl (Or.inr rfl))
        next seq =>
          split at stepped
          · cases stepped
            exact (kept.setCall ((kept id).created here (sequenceName seq))).createNode _ _
          · cases stepped
      next => cases stepped
  | lock id ok =>
      obtain ⟨call, moved, rfl⟩ := Option.map_eq_some_iff.mp stepped
      exact kept.setCall ((kept id).lockStep moved)
  | fire id watch =>
      obtain ⟨call, moved, rfl⟩ := Option.map_eq_some_iff.mp stepped
      exact kept.setCall ((kept id).fire moved)
  | watcher id watch ok =>
      obtain ⟨call, moved, rfl⟩ := Option.map_eq_some_iff.mp stepped
      refine kept.setCall ((kept id).watcherStep ?_ moved)
      intro reads
      unfold readsSettled at settled
      simp only [reads, BEq.rfl, Bool.not_true, Bool.false_or, Bool.and_eq_true,
        Bool.not_eq_true'] at settled
      exact deciding_eq_zero settled.1
  | callUnlock id =>
      simp only [ZooWorld.step] at stepped
      split at stepped
      next granted =>
        cases stepped
        exact kept.setCall ((kept id).unlock granted.1 ⟨rfl, rfl, rfl, rfl⟩)
      next => cases stepped
  | deleteNode id ok =>
      simp only [ZooWorld.step] at stepped
      split at stepped
      next here =>
        have granted : 0 < (world.calls id).runs := (kept id).unlocks (here ▸ nofun)
        have unlocked : (world.setCall id { world.calls id with unlock := .free }).Kept :=
          kept.setCall ((kept id).unlock granted ⟨rfl, rfl, rfl, rfl⟩)
        split at stepped
        · cases stepped
          exact unlocked
        · cases stepped
          split
          · exact unlocked.deleteNode _
          · exact unlocked
      next => cases stepped
  | freeElem id =>
      simp only [ZooWorld.step] at stepped
      split at stepped
      next here =>
        have granted : 0 < (world.calls id).runs := (kept id).unlocks (here ▸ nofun)
        cases stepped
        exact kept.setCall ((kept id).unlock granted ⟨rfl, rfl, rfl, rfl⟩)
      next => cases stepped

end ZooWorld

end SimpleDfs.Zookeeper
