import Mathlib.Data.List.Nodup
import SimpleDfs.Zookeeper.LockOrder

/-!
Contract: no wake-up of a lock is lost (`zookeeper/s_zookeeper.c`).

Owns: the runs in which the service does what it is asked, that a call which is
not granted always has a thread or a watch that will ask again, and what such a
call waits for when nothing is left to happen.

Does not own: runs in which a request fails, file names with slashes, two calls
of `s_zoo_unlock` that share the static buffer.
-/

set_option autoImplicit false

namespace SimpleDfs.Zookeeper

open SimpleDfs.Library

/-- A path that is not cut, neither in `path_created` nor in the buffer of
`s_zoo_unlock`. -/
def fitsPlain (filename : Name) : Bool :=
  decide (47 ∉ filename) && decide (filename.length ≤ 237)

/-- The service does what it is asked; the buffer of `s_zoo_unlock` still holds what
the call has written; and the reads are settled. -/
def zooServes (world : ZooWorld) (event : ZooEvent) : Bool :=
  readsSettled world event &&
    match event with
    | .callLock _ _ filename => fitsPlain filename
    | .createParent _ ok => ok
    | .createNode _ seq => seq.isSome
    | .lock _ ok => ok
    | .watcher _ _ ok => ok
    | .deleteNode id ok =>
        ok && world.buf (world.calls id).client == (world.calls id).unlockPath
    | _ => true

/-- What a thread does of itself, or a watch. -/
def ZooEvent.inner : ZooEvent → Bool
  | .callLock _ _ _ => false
  | .callUnlock _ => false
  | _ => true

/-- Nothing is left to happen but calls. -/
def ZooWorld.Quiet (world : ZooWorld) : Prop :=
  ∀ event : ZooEvent, event.inner = true → world.step event = none

/-- Once nothing is left to happen, a call waits for one that is granted and not
unlocked. -/
def ZooWorld.LosesNoWake (world : ZooWorld) : Prop :=
  world.Quiet → ∀ id, (world.calls id).lock ≠ .idle → (world.calls id).runs = 0 →
    ∃ other, (world.calls other).Holds ∧
      (world.calls other).filename = (world.calls id).filename

/-- A service without nodes. -/
def zooWithoutNodes : System ZooWorld ZooEvent where
  init := fun world => world.Initial ∧ ∀ filename, world.children filename = []
  step := ZooWorld.step

/-! ## One call -/

namespace LockCall

/-- What a call with a node keeps: it is granted, or some thread or watch will ask
again. -/
structure Wakeful (call : LockCall) : Prop where
  named : call.node = none → call.lock.unnamed = true
  answered : call.node ≠ none → call.callback = true ∨ 0 < call.granted
  awake : call.node ≠ none → call.callback = true → 0 < call.probing + call.deciding
  inHash : call.node ≠ none → call.unlock ≠ .returned → call.inHash = true

/-- The first child was another when an armed watch was set, if it has not
fired. -/
def Behind (call : LockCall) (children : List Name) : Prop :=
  .armed false ∈ call.watches → call.IsChosen ∨ isFirst children call.lockPath = false

section

variable {call after : LockCall} {children : List Name} {watch : Nat}

/-- A step of a call with a node, which keeps it. -/
theorem Wakeful.keeps (wakeful : call.Wakeful)
    (same : after.node = call.node ∧ after.unlock = call.unlock ∧ after.inHash = call.inHash)
    (named : call.node ≠ none)
    (answered : call.callback = true ∨ 0 < call.granted → after.callback = true ∨ 0 < after.granted)
    (awake : (call.callback = true → 0 < call.probing + call.deciding) → after.callback = true →
      0 < after.probing + after.deciding) : after.Wakeful where
  named := by
    rw [same.1]
    exact fun unnamed => absurd unnamed named
  answered := fun _ => answered (wakeful.answered named)
  awake := fun _ => awake (wakeful.awake named)
  inHash := by
    rw [same.1, same.2.1, same.2.2]
    exact wakeful.inHash

theorem wakeful_fresh : fresh.Wakeful where
  named := fun _ => rfl
  answered := fun named => absurd rfl named
  awake := fun named => absurd rfl named
  inHash := fun named => absurd rfl named

/-- A call in front of its node. -/
theorem wakeful_unnamed (unnamed : after.node = none) (early : after.lock.unnamed = true) :
    after.Wakeful where
  named := fun _ => early
  answered := fun named => absurd unnamed named
  awake := fun named => absurd unnamed named
  inHash := fun named => absurd unnamed named

theorem wakeful_created (call : LockCall) (name : Name) : (call.created name).Wakeful where
  named := nofun
  answered := fun _ => Or.inl rfl
  awake := by
    intro _ _
    apply Nat.add_pos_left
    exact Nat.add_pos_left Nat.one_pos _
  inHash := fun _ _ => rfl

theorem Wakeful.change (wakeful : call.Wakeful) : call.change.Wakeful where
  named := wakeful.named
  answered := by
    obtain ⟨_, _, _, granted⟩ := @tally_change call
    rw [granted]
    exact wakeful.answered
  awake := by
    obtain ⟨probing, _, deciding, _⟩ := @tally_change call
    rw [probing, deciding]
    exact wakeful.awake
  inHash := wakeful.inHash

/-- The children have changed: every watch that is armed is due. -/
theorem behind_change (call : LockCall) (children : List Name) : call.change.Behind children := by
  intro armed
  obtain ⟨watch, _, same⟩ := List.mem_map.mp armed
  cases watch <;> cases same

theorem Behind.of_mem (behind : call.Behind children)
    (watches : .armed false ∈ after.watches → .armed false ∈ call.watches)
    (chosen : call.IsChosen → after.IsChosen) (lockPath : after.lockPath = call.lockPath) :
    after.Behind children := by
  intro armed
  rw [lockPath]
  exact (behind (watches armed)).imp_left chosen

/-- The threads that have found the call the first, behind a step of a watcher. -/
theorem isChosen_moveTo {old new : WatchPoint} (found : call.watches[watch]? = some old)
    (stays : old.deciding.toNat + old.granting.toNat ≤ new.deciding.toNat + new.granting.toNat)
    (chosen : call.IsChosen) : (call.moveTo watch new).IsChosen := by
  obtain ⟨_, _, deciding, granted⟩ := tally_moveTo found new
  unfold IsChosen at chosen ⊢
  omega

theorem mem_moveTo {new : WatchPoint} (notArmed : new ≠ .armed false)
    (armed : .armed false ∈ (call.moveTo watch new).watches) : .armed false ∈ call.watches := by
  rcases List.mem_or_eq_of_mem_set armed with before | isNew
  · exact before
  · exact absurd isNew.symm notArmed

/-- The steps of `s_zoo_lock` behind its node, when the service answers. -/
theorem Wakeful.lockStep (wakeful : call.Wakeful) (kept : call.Kept) (behind : call.Behind children)
    (named : call.node ≠ none) (stepped : call.lockStep (some children) = some after) :
    after.Wakeful ∧ after.Behind children ∧ (call.IsChosen → after.IsChosen) := by
  unfold LockCall.lockStep at stepped
  split at stepped
  next here =>
    obtain ⟨nothing, _, _⟩ := kept.earlyAt here rfl
    obtain ⟨probing, asking, deciding, granted⟩ := @tally_arm call
    cases first : isFirst children call.lockPath with
    | true =>
        have isAfter : after = call.arm.goTo .clearCallback := by
          rw [← Option.some.inj stepped]
          simp only [first, if_true]
        obtain ⟨movedProbing, _, movedDeciding, movedGranted⟩ := @tally_goTo call.arm .clearCallback
        have here' : call.arm.lock = .getChildren := here
        rw [here'] at movedProbing movedDeciding movedGranted
        simp only [LockPoint.asking, LockPoint.deciding, LockPoint.granting, Bool.toNat_true,
          Bool.toNat_false] at movedProbing movedDeciding movedGranted
        rw [isAfter]
        have chosen : (call.arm.goTo .clearCallback).IsChosen := by
          unfold IsChosen
          omega
        refine ⟨wakeful.keeps ⟨rfl, rfl, rfl⟩ named ?_ ?_, fun _ => Or.inl chosen, fun _ => chosen⟩
        · exact fun answered => answered.imp id fun positive => by omega
        · exact fun _ _ => by omega
    | false =>
        have isAfter : after = call.arm.goTo .returned := by
          rw [← Option.some.inj stepped]
          simp only [first]
          rfl
        obtain ⟨movedProbing, _, movedDeciding, movedGranted⟩ := @tally_goTo call.arm .returned
        have here' : call.arm.lock = .getChildren := here
        have alone : call.asking = 1 := by
          unfold LockCall.asking LockCall.count
          rw [here, nothing]
          rfl
        have bound := @asking_le_probing call
        rw [here'] at movedProbing movedDeciding movedGranted
        simp only [LockPoint.asking, LockPoint.deciding, LockPoint.granting, Bool.toNat_true,
          Bool.toNat_false] at movedProbing movedDeciding movedGranted
        rw [isAfter]
        refine ⟨wakeful.keeps ⟨rfl, rfl, rfl⟩ named ?_ ?_, fun _ => Or.inr first, ?_⟩
        · exact fun answered => answered.imp id fun positive => by omega
        · exact fun _ _ => by omega
        · intro chosen
          unfold IsChosen at chosen ⊢
          omega
  next here =>
    cases stepped
    obtain ⟨_, _, deciding, granted⟩ := @tally_goTo call .runCallback
    rw [here] at deciding granted
    simp only [LockPoint.deciding, LockPoint.granting, Bool.toNat_true, Bool.toNat_false]
      at deciding granted
    have chosen : (call.goTo .runCallback).IsChosen := by
      unfold IsChosen
      omega
    refine ⟨wakeful.keeps ⟨rfl, rfl, rfl⟩ named ?_ (fun _ => Bool.noConfusion), ?_, fun _ => chosen⟩
    · intro _
      right
      show 0 < (call.goTo .runCallback).granted
      omega
    · exact behind.of_mem (fun armed => armed) (fun _ => chosen) rfl
  next here =>
    cases stepped
    obtain ⟨probing, _, deciding, granted⟩ := @tally_goTo call .returned
    rw [here] at probing deciding granted
    simp only [LockPoint.asking, LockPoint.deciding, LockPoint.granting, Bool.toNat_true,
      Bool.toNat_false] at probing deciding granted
    have chosen : ({ call.goTo .returned with runs := call.runs + 1 } : LockCall).IsChosen :=
      Nat.add_pos_right _ (Nat.add_pos_right _ (Nat.succ_pos _))
    refine ⟨wakeful.keeps ⟨rfl, rfl, rfl⟩ named ?_ ?_, ?_, fun _ => chosen⟩
    · exact fun _ => Or.inr (Nat.add_pos_right _ (Nat.succ_pos _))
    · intro awake callback
      have before := awake callback
      show 0 < (call.goTo .returned).probing + (call.goTo .returned).deciding
      omega
    · exact behind.of_mem (fun armed => armed) (fun _ => chosen) rfl
  next => cases stepped

/-- A watcher goes on without asking. -/
theorem Wakeful.watched (wakeful : call.Wakeful) (behind : call.Behind children)
    (named : call.node ≠ none) {old new : WatchPoint} (found : call.watches[watch]? = some old)
    (notArmed : new ≠ .armed false)
    (stays : old.deciding.toNat + old.granting.toNat ≤ new.deciding.toNat + new.granting.toNat)
    (grants : old.granting.toNat ≤ new.granting.toNat)
    (asks : call.callback = true → old.probing.toNat + old.deciding.toNat ≤
      new.probing.toNat + new.deciding.toNat) :
    (call.moveTo watch new).Wakeful ∧ (call.moveTo watch new).Behind children ∧
      (call.IsChosen → (call.moveTo watch new).IsChosen) := by
  obtain ⟨probing, _, deciding, granted⟩ := tally_moveTo found new
  refine ⟨wakeful.keeps ⟨rfl, rfl, rfl⟩ named ?_ ?_,
    behind.of_mem (mem_moveTo notArmed) (isChosen_moveTo found stays) rfl,
    isChosen_moveTo found stays⟩
  · exact fun answered => answered.imp id fun positive => by omega
  · intro awake callback
    have before := awake callback
    have more := asks callback
    omega

/-- The watch fires. -/
theorem Wakeful.fire (wakeful : call.Wakeful) (behind : call.Behind children)
    (named : call.node ≠ none) (stepped : call.fire watch = some after) :
    after.Wakeful ∧ after.Behind children ∧ (call.IsChosen → after.IsChosen) := by
  unfold LockCall.fire at stepped
  split at stepped
  next found =>
    cases stepped
    exact wakeful.watched behind named found nofun (by decide) (by decide) fun _ => by decide
  next => cases stepped

/-- The query of a watcher. -/
theorem Wakeful.asked (wakeful : call.Wakeful) (named : call.node ≠ none)
    (found : call.watches[watch]? = some .getChildren) {new : WatchPoint}
    (next : new = .takeCallback ∨ new = .returned ∧ isFirst children call.lockPath = false) :
    (call.arm.moveTo watch new).Wakeful ∧ (call.arm.moveTo watch new).Behind children ∧
      (call.IsChosen → (call.arm.moveTo watch new).IsChosen) := by
  have foundStill : call.arm.watches[watch]? = some .getChildren := by
    unfold LockCall.arm
    rw [List.getElem?_append_left (List.getElem?_eq_some_iff.mp found).1, found]
  obtain ⟨probing, _, deciding, granted⟩ := @tally_arm call
  obtain ⟨movedProbing, _, movedDeciding, movedGranted⟩ := tally_moveTo foundStill new
  have one : 0 < call.probing := count_pos found _ rfl
  have chosen : call.IsChosen → (call.arm.moveTo watch new).IsChosen := by
    intro isChosen
    apply isChosen_moveTo foundStill (Nat.zero_le _)
    unfold IsChosen at isChosen ⊢
    rw [deciding, granted]
    exact isChosen
  refine ⟨wakeful.keeps ⟨rfl, rfl, rfl⟩ named ?_ ?_, ?_, chosen⟩
  · intro answered
    refine answered.imp id fun positive => ?_
    simp only [WatchPoint.granting, Bool.toNat_false] at movedGranted
    omega
  · intro _ _
    simp only [WatchPoint.probing, WatchPoint.deciding, Bool.toNat_true, Bool.toNat_false]
      at movedProbing movedDeciding
    omega
  · intro _
    rcases next with rfl | ⟨rfl, notFirst⟩
    · left
      simp only [WatchPoint.deciding, Bool.toNat_true, Bool.toNat_false] at movedDeciding
      unfold IsChosen
      omega
    · exact Or.inr notFirst

/-- The steps of a watcher, when the service answers. -/
theorem Wakeful.watcherStep (wakeful : call.Wakeful) (kept : call.Kept)
    (behind : call.Behind children) (named : call.node ≠ none)
    (stepped : call.watcherStep watch (some children) = some after) :
    after.Wakeful ∧ after.Behind children ∧ (call.IsChosen → after.IsChosen) := by
  unfold LockCall.watcherStep at stepped
  split at stepped
  next found =>
    cases stepped
    split
    · exact wakeful.watched behind named found (by decide) (by decide) (by decide) fun _ => by decide
    next gone =>
      refine wakeful.watched behind named found (by decide) (by decide) (by decide) fun callback => ?_
      -- the element is freed, so the call has been granted
      exfalso
      have freed : call.unlock = .returned := by
        by_contra before
        exact gone (wakeful.inHash named before)
      have runs := kept.unlocks (by rw [freed]; decide)
      have taken := kept.balanced.2.2.2.2 (Nat.add_pos_right _ runs)
      rw [callback] at taken
      cases taken
  next found =>
    cases stepped
    split
    · exact wakeful.watched behind named found (by decide) (by decide) (by decide) fun _ => by decide
    next taken =>
      refine wakeful.watched behind named found (by decide) (by decide) (by decide) fun callback => ?_
      exact absurd callback taken
  next found =>
    cases first : isFirst children call.lockPath with
    | true =>
        have isAfter : after = call.arm.moveTo watch .takeCallback := by
          rw [← Option.some.inj stepped]
          simp only [first, if_true]
        rw [isAfter]
        exact wakeful.asked named found (Or.inl rfl)
    | false =>
        have isAfter : after = call.arm.moveTo watch .returned := by
          rw [← Option.some.inj stepped]
          simp only [first]
          rfl
        rw [isAfter]
        exact wakeful.asked named found (Or.inr ⟨rfl, first⟩)
  next found =>
    cases stepped
    exact wakeful.watched behind named found (by intro same; cases same) (Nat.le_refl 1) (Nat.le_refl 0)
      fun _ => Nat.le_refl 1
  next callback found =>
    cases stepped
    obtain ⟨_, _, deciding, granted⟩ := tally_moveTo found (.runCallback callback)
    simp only [WatchPoint.deciding, WatchPoint.granting, Bool.toNat_true, Bool.toNat_false]
      at deciding granted
    have chosen : (call.moveTo watch (.runCallback callback)).IsChosen := by
      unfold IsChosen
      omega
    refine ⟨wakeful.keeps ⟨rfl, rfl, rfl⟩ named ?_ (fun _ => Bool.noConfusion), ?_, fun _ => chosen⟩
    · intro _
      right
      show 0 < (call.moveTo watch (.runCallback callback)).granted
      omega
    · exact behind.of_mem (mem_moveTo (by intro same; cases same)) (fun _ => chosen) rfl
  next found =>
    cases stepped
    obtain ⟨probing, _, deciding, granted⟩ := tally_moveTo found .returned
    simp only [WatchPoint.probing, WatchPoint.deciding, WatchPoint.granting, Bool.toNat_true,
      Bool.toNat_false] at probing deciding granted
    have chosen : ({ call.moveTo watch .returned with runs := call.runs + 1 } : LockCall).IsChosen :=
      Nat.add_pos_right _ (Nat.add_pos_right _ (Nat.succ_pos _))
    refine ⟨wakeful.keeps ⟨rfl, rfl, rfl⟩ named ?_ ?_, ?_, fun _ => chosen⟩
    · exact fun _ => Or.inr (Nat.add_pos_right _ (Nat.succ_pos _))
    · intro awake callback
      have before := awake callback
      show 0 < (call.moveTo watch .returned).probing + (call.moveTo watch .returned).deciding
      omega
    · exact behind.of_mem (mem_moveTo (by decide)) (fun _ => chosen) rfl
  next found => exact absurd rfl (kept.locals _ (List.mem_of_getElem? found))
  next => cases stepped

end

end LockCall

/-! ## All calls -/

/-- A call of `s_zoo_unlock` has not deleted the node. -/
def UnlockPoint.undeleted : UnlockPoint → Bool
  | .idle => true
  | .delete => true
  | _ => false

/-- Who has made the children, and what the calls keep. -/
structure ZooWorld.Wakes (world : ZooWorld) : Prop where
  calls : ∀ id, (world.calls id).Wakeful
  behind : ∀ id, (world.calls id).Behind (world.children (world.calls id).filename)
  makers : ∀ filename, ∀ name ∈ world.children filename, ∃ id,
    (world.calls id).filename = filename ∧ (world.calls id).node = some name ∧
      (world.calls id).unlock.undeleted = true
  nodup : ∀ filename, (world.children filename).Nodup
  plain : ∀ id, (world.calls id).lock ≠ .idle → fitsPlain (world.calls id).filename = true

namespace ZooWorld

variable {world after : ZooWorld} {id : Nat} {call : LockCall}

/-- A call goes on; no node is made or deleted. -/
theorem Wakes.setCall (wakes : world.Wakes) (wakeful : call.Wakeful)
    (behind : call.Behind (world.children call.filename))
    (same : ∀ node, (world.calls id).node = some node → (world.calls id).unlock.undeleted = true →
      node ∈ world.children (world.calls id).filename →
      call.node = some node ∧ call.filename = (world.calls id).filename ∧
        call.unlock.undeleted = true)
    (plain : call.lock ≠ .idle → fitsPlain call.filename = true) : (world.setCall id call).Wakes := by
  have calls : ∀ other, (world.setCall id call).calls other =
      if other = id then call else world.calls other := Function.update_apply _ _ _
  refine ⟨?_, ?_, ?_, wakes.nodup, ?_⟩
  · intro other
    rw [calls]
    split
    · exact wakeful
    · exact wakes.calls other
  · intro other
    rw [calls]
    split
    · exact behind
    · exact wakes.behind other
  · intro filename name listed
    obtain ⟨maker, isFile, isNode, undeleted⟩ := wakes.makers filename name listed
    refine ⟨maker, ?_⟩
    rw [calls]
    split
    next isSelf =>
      rw [isSelf] at isFile isNode undeleted
      obtain ⟨sameNode, sameFile, stays⟩ := same name isNode undeleted (isFile ▸ listed)
      exact ⟨sameFile.trans isFile, sameNode, stays⟩
    next => exact ⟨isFile, isNode, undeleted⟩
  · intro other
    rw [calls]
    split
    · exact plain
    · exact wakes.plain other

theorem setChildren_calls (world : ZooWorld) (filename : Name) (children : List Name) (id : Nat) :
    (world.setChildren filename children).calls id =
      if (world.calls id).filename = filename then (world.calls id).change else world.calls id :=
  rfl

/-- A node has other children, each of them with a maker. -/
theorem Wakes.setChildren (wakes : world.Wakes) {filename : Name} {children : List Name}
    (makers : ∀ name ∈ children, ∃ id, (world.calls id).filename = filename ∧
      (world.calls id).node = some name ∧ (world.calls id).unlock.undeleted = true)
    (nodup : children.Nodup) : (world.setChildren filename children).Wakes := by
  have fields : ∀ id, ((world.setChildren filename children).calls id).filename =
        (world.calls id).filename ∧
      ((world.setChildren filename children).calls id).node = (world.calls id).node ∧
      ((world.setChildren filename children).calls id).unlock = (world.calls id).unlock ∧
      ((world.setChildren filename children).calls id).lock = (world.calls id).lock := by
    intro id
    rw [setChildren_calls]
    split <;> exact ⟨rfl, rfl, rfl, rfl⟩
  have newChildren : ∀ other, (world.setChildren filename children).children other =
      if other = filename then children else world.children other := Function.update_apply _ _ _
  refine ⟨?_, ?_, ?_, ?_, ?_⟩
  · intro id
    rw [setChildren_calls]
    split
    · exact (wakes.calls id).change
    · exact wakes.calls id
  · intro id
    rw [(fields id).1, newChildren, setChildren_calls]
    split
    · exact LockCall.behind_change _ _
    · exact wakes.behind id
  · intro other name listed
    rw [newChildren] at listed
    split at listed
    next here =>
      obtain ⟨maker, isFile, isNode, undeleted⟩ := makers name listed
      refine ⟨maker, ?_⟩
      rw [(fields maker).1, (fields maker).2.1, (fields maker).2.2.1, here]
      exact ⟨isFile, isNode, undeleted⟩
    next =>
      obtain ⟨maker, isFile, isNode, undeleted⟩ := wakes.makers other name listed
      refine ⟨maker, ?_⟩
      rw [(fields maker).1, (fields maker).2.1, (fields maker).2.2.1]
      exact ⟨isFile, isNode, undeleted⟩
  · intro other
    rw [newChildren]
    split
    · exact nodup
    · exact wakes.nodup other
  · intro id busy
    rw [(fields id).2.2.2] at busy
    rw [(fields id).1]
    exact wakes.plain id busy

/-- A call with a node goes on. -/
theorem Wakes.goesOn (wakes : world.Wakes) (continues : LockCall.Continues (world.calls id) call)
    (wakeful : call.Wakeful) (behind : call.Behind (world.children (world.calls id).filename))
    (busy : (world.calls id).lock ≠ .idle) : (world.setCall id call).Wakes := by
  apply wakes.setCall wakeful
  · rw [continues.filename]
    exact behind
  · intro node isNode undeleted _
    rw [continues.node, continues.unlock]
    exact ⟨isNode, continues.filename, undeleted⟩
  · intro _
    rw [continues.filename]
    exact wakes.plain id busy

/-- A plain path is whole wherever it is written. -/
theorem Ordered.whole_plain (ordered : world.Ordered) {node : Name}
    (named : (world.calls id).node = some node)
    (plain : fitsPlain (world.calls id).filename = true) :
    (world.calls id).lockPath = some node ∧
      (world.calls id).unlockPath = some ((world.calls id).filename ++ 47 :: node) := by
  obtain ⟨ten, _⟩ := ordered.tenDigits named
  have short : (world.calls id).filename.length ≤ 237 :=
    of_decide_eq_true (Bool.and_eq_true_iff.mp plain).2
  have path := ordered.path id
  rw [named] at path
  have whole : LockCall.cutName (world.calls id).filename node = node := by
    unfold LockCall.cutName
    apply List.take_of_length_le
    unfold lockRootLen maxFilenameLen
    omega
  have isPath : (world.calls id).lockPath = some node := by
    rw [path]
    exact congrArg some whole
  refine ⟨isPath, ?_⟩
  unfold LockCall.unlockPath
  rw [isPath]
  refine congrArg some (List.take_of_length_le ?_)
  rw [List.length_append, List.length_cons]
  unfold lockRootLen maxFilenameLen
  omega

/-- The names of calls that have made a node. -/
theorem Wakes.named (wakes : world.Wakes) (late : (world.calls id).lock.unnamed = false) :
    (world.calls id).node ≠ none := by
  intro none
  rw [(wakes.calls id).named none] at late
  cases late

theorem Wakes.raise (wakes : world.Wakes) (nextSeq : Name → Nat) :
    ({ world with nextSeq := nextSeq } : ZooWorld).Wakes :=
  ⟨wakes.calls, wakes.behind, wakes.makers, wakes.nodup, wakes.plain⟩

theorem Wakes.createNode (wakes : world.Wakes) (ordered : world.Ordered) (kept : world.Kept)
    {seq : Nat} (here : (world.calls id).lock = .createNode)
    (admits : world.Admits (world.calls id).filename seq) :
    ((world.setCall id ((world.calls id).created (sequenceName seq))).createNode
      (world.calls id).filename seq).Wakes := by
  have noNode : (world.calls id).node = none := ordered.unnamed id (by rw [here]; rfl)
  have plain := wakes.plain id (by rw [here]; nofun)
  obtain ⟨nothing, _, _⟩ := (kept id).earlyAt here rfl
  have named : (world.setCall id ((world.calls id).created (sequenceName seq))).Wakes := by
    refine wakes.setCall (LockCall.wakeful_created _ _) ?_ ?_ fun _ => plain
    · intro armed
      have inWatches : WatchPoint.armed false ∈ (world.calls id).watches := armed
      rw [nothing] at inWatches
      cases inWatches
    · intro node isNode
      rw [noNode] at isNode
      cases isNode
  refine (named.setChildren ?_ ?_).raise _
  · intro name listed
    rcases List.mem_append.mp listed with before | isNew
    · exact named.makers _ name before
    · have self : (world.setCall id ((world.calls id).created (sequenceName seq))).calls id =
          (world.calls id).created (sequenceName seq) := Function.update_self ..
      refine ⟨id, ?_⟩
      rw [self, List.mem_singleton.mp isNew]
      have unlocked := ((kept id).earlyAt here rfl).2.2
      refine ⟨rfl, rfl, ?_⟩
      show (world.calls id).unlock.undeleted = true
      rw [unlocked]
      rfl
  · refine List.Nodup.append (wakes.nodup _) (List.nodup_singleton _) ?_
    rw [List.disjoint_singleton]
    exact admits.2.2

/-- `s_zoo_unlock` goes on. -/
theorem Wakes.unlocks (wakes : world.Wakes) (runs : 0 < (world.calls id).runs)
    (kept : world.Kept) {next : UnlockPoint} {hash : Bool}
    (busy : (world.calls id).lock ≠ .idle)
    (inHash : next ≠ .returned → hash = (world.calls id).inHash ∧
      (world.calls id).unlock ≠ .returned)
    (undeleted : (world.calls id).unlock.undeleted = true →
      (∃ node ∈ world.children (world.calls id).filename, (world.calls id).node = some node) →
      next.undeleted = true) :
    (world.setCall id { world.calls id with inHash := hash, unlock := next }).Wakes := by
  have wakeful := wakes.calls id
  have granted : 0 < (world.calls id).granted := Nat.add_pos_right _ runs
  have taken := (kept id).balanced.2.2.2.2 granted
  apply wakes.setCall
  · refine ⟨wakeful.named, wakeful.answered, wakeful.awake, ?_⟩
    intro named notReturned
    obtain ⟨sameHash, before⟩ := inHash notReturned
    exact sameHash.trans (wakeful.inHash named before)
  · exact wakes.behind id
  · intro node isNode before listed
    exact ⟨isNode, rfl, undeleted before ⟨node, listed, isNode⟩⟩
  · exact fun _ => wakes.plain id busy

theorem setCall_setChildren (world : ZooWorld) {id : Nat} {call : LockCall} {filename : Name}
    (isFile : call.filename = filename) (children : List Name) :
    (world.setCall id call).setChildren filename children =
      (world.setChildren filename children).setCall id call.change := by
  unfold ZooWorld.setChildren ZooWorld.setCall
  congr 1
  funext other
  by_cases isSelf : other = id
  · subst isSelf
    simp only [Function.update_self]
    exact if_pos isFile
  · simp only [Function.update_of_ne isSelf]

/-- A call that is being unlocked has been granted, and its path is whole. -/
theorem Wakes.deleting (wakes : world.Wakes) (ordered : world.Ordered) (kept : world.Kept)
    (unlocking : (world.calls id).unlock ≠ .idle) :
    0 < (world.calls id).runs ∧ (world.calls id).lock ≠ .idle ∧
      ∃ node, (world.calls id).node = some node ∧
        (world.calls id).unlockPath = some ((world.calls id).filename ++ 47 :: node) := by
  have runs : 0 < (world.calls id).runs := (kept id).unlocks unlocking
  obtain ⟨node, isNode, _⟩ := ordered.whole id (Nat.add_pos_right _ (Nat.add_pos_right _ runs))
  have busy : (world.calls id).lock ≠ .idle := by
    intro idle
    have unnamed := ordered.unnamed id (by rw [idle]; rfl)
    rw [isNode] at unnamed
    cases unnamed
  exact ⟨runs, busy, node, isNode, (ordered.whole_plain isNode (wakes.plain id busy)).2⟩

/-- The node of a call is deleted. -/
theorem Wakes.deleteNode (wakes : world.Wakes) (ordered : world.Ordered) (kept : world.Kept)
    (here : (world.calls id).unlock = .delete)
    (whole : world.buf (world.calls id).client = (world.calls id).unlockPath) {path : Name}
    (held : world.buf (world.calls id).client = some path) :
    ((world.setCall id { world.calls id with unlock := .free }).deleteNode path).Wakes := by
  have unlocking : (world.calls id).unlock ≠ .idle := by
    rw [here]
    nofun
  obtain ⟨runs, busy, node, isNode, isWhole⟩ := wakes.deleting ordered kept unlocking
  have plain := wakes.plain id busy
  have isPath : path = (world.calls id).filename ++ 47 :: node := by
    have written := whole.symm.trans held
    rw [isWhole] at written
    exact (Option.some.inj written).symm
  have split := splitPath_append (world.calls id).filename (ordered.tenDigits isNode).2
  unfold ZooWorld.deleteNode
  rw [isPath, split]
  dsimp only
  have sameChildren : (world.setCall id { world.calls id with unlock := .free }).children =
      world.children := rfl
  rw [sameChildren]
  split
  next listed =>
    have swapped : ((world.setCall id { world.calls id with unlock := .free }).setChildren
        (world.calls id).filename ((world.children (world.calls id).filename).erase node)) =
          (world.setChildren (world.calls id).filename
            ((world.children (world.calls id).filename).erase node)).setCall id
              ({ world.calls id with unlock := .free } : LockCall).change :=
      @setCall_setChildren world id { world.calls id with unlock := .free } _ rfl _
    rw [swapped]
    have distinct := wakes.nodup (world.calls id).filename
    have fewer : (world.setChildren (world.calls id).filename
        ((world.children (world.calls id).filename).erase node)).Wakes := by
      apply wakes.setChildren
      · intro name inRest
        exact wakes.makers _ name (List.mem_of_mem_erase inRest)
      · exact distinct.erase node
    have changed : (world.setChildren (world.calls id).filename
        ((world.children (world.calls id).filename).erase node)).calls id =
          (world.calls id).change := if_pos rfl
    refine fewer.setCall ?_ (LockCall.behind_change _ _) ?_ fun _ => plain
    · have wakeful := (wakes.calls id).change
      refine ⟨wakeful.named, wakeful.answered, wakeful.awake, fun named _ => ?_⟩
      exact (wakes.calls id).inHash named (by rw [here]; nofun)
    · -- the node is gone
      intro other isOther _ inRest
      rw [changed] at isOther inRest
      have same : other = node := Option.some.inj (isOther.symm.trans isNode)
      have rest : (world.setChildren (world.calls id).filename
          ((world.children (world.calls id).filename).erase node)).children
            (world.calls id).filename =
          (world.children (world.calls id).filename).erase node := Function.update_self ..
      have gone : other ∈ (world.children (world.calls id).filename).erase node := by
        rw [← rest]
        exact inRest
      rw [same] at gone
      exact absurd gone distinct.not_mem_erase
  next unlisted =>
    apply wakes.unlocks runs kept busy
    · exact fun _ => ⟨rfl, by rw [here]; nofun⟩
    · rintro _ ⟨other, listed, isOther⟩
      rw [isNode] at isOther
      rw [← Option.some.inj isOther] at listed
      exact absurd listed unlisted

/-- **One step of a run in which the service serves.** -/
theorem Wakes.step (wakes : world.Wakes) (ordered : world.Ordered) (kept : world.Kept)
    {event : ZooEvent} (serves : zooServes world event = true)
    (stepped : world.step event = some after) : after.Wakes := by
  obtain ⟨_, served⟩ := Bool.and_eq_true_iff.mp serves
  cases event with
  | callLock id client filename =>
      simp only [ZooWorld.step] at stepped
      split at stepped
      next here =>
        cases stepped
        have noNode : (world.calls id).node = none := ordered.unnamed id (by rw [here]; rfl)
        obtain ⟨nothing, _, _⟩ := (kept id).earlyAt here rfl
        have short : filename.length ≤ 237 :=
          of_decide_eq_true (Bool.and_eq_true_iff.mp served).2
        have room : ¬ filename.length + lockRootLen + 1 ≥ maxFilenameLen - 1 := by
          unfold lockRootLen maxFilenameLen
          omega
        unfold LockCall.start
        rw [if_neg room]
        refine wakes.setCall (LockCall.wakeful_unnamed noNode rfl) ?_ ?_ fun _ => served
        · intro armed
          have inWatches : WatchPoint.armed false ∈ (world.calls id).watches := armed
          rw [nothing] at inWatches
          cases inWatches
        · intro node isNode
          rw [noNode] at isNode
          cases isNode
      next => cases stepped
  | createParent id ok =>
      simp only [ZooWorld.step] at stepped
      split at stepped
      next here =>
        have noNode : (world.calls id).node = none := ordered.unnamed id (by rw [here]; rfl)
        have plain := wakes.plain id (by rw [here]; decide)
        obtain ⟨nothing, _, _⟩ := (kept id).earlyAt here rfl
        have isOk : ok = true := served
        subst isOk
        cases stepped
        have noSlash : 47 ∉ (world.calls id).filename :=
          of_decide_eq_true (Bool.and_eq_true_iff.mp plain).1
        unfold ZooWorld.createParent
        rw [splitPath_none noSlash]
        refine wakes.setCall (LockCall.wakeful_unnamed noNode rfl) ?_ ?_ fun _ => plain
        · intro armed
          have inWatches : WatchPoint.armed false ∈ (world.calls id).watches := armed
          rw [nothing] at inWatches
          cases inWatches
        · intro node isNode
          rw [noNode] at isNode
          cases isNode
      next => cases stepped
  | createNode id seq =>
      simp only [ZooWorld.step] at stepped
      split at stepped
      next here =>
        cases seq with
        | none => cases served
        | some seq =>
            dsimp only at stepped
            split at stepped
            next admits =>
              cases stepped
              exact wakes.createNode ordered kept here admits
            next => cases stepped
      next => cases stepped
  | lock id ok =>
      obtain ⟨call, moved, rfl⟩ := Option.map_eq_some_iff.mp stepped
      have isOk : ok = true := served
      have answer : world.answer (world.calls id).filename ok =
          some (world.children (world.calls id).filename) := if_pos isOk
      rw [answer] at moved
      have late : (world.calls id).lock.unnamed = false := by
        cases here : (world.calls id).lock <;>
          first
          | rfl
          | (unfold LockCall.lockStep at moved; rw [here] at moved; cases moved)
      obtain ⟨wakeful, behind, _⟩ := (wakes.calls id).lockStep (kept id) (wakes.behind id)
        (wakes.named late) moved
      refine wakes.goesOn (LockCall.chosen_of_lockStep moved).1 wakeful behind ?_
      intro idle
      rw [idle] at late
      cases late
  | fire id watch =>
      obtain ⟨call, moved, rfl⟩ := Option.map_eq_some_iff.mp stepped
      have named : (world.calls id).node ≠ none := by
        apply wakes.named
        by_contra unnamed
        have nothing := ((kept id).early (by
          cases here : (world.calls id).lock <;> rw [here] at unnamed <;>
            first | rfl | exact absurd rfl unnamed)).1
        unfold LockCall.fire at moved
        rw [nothing] at moved
        cases moved
      obtain ⟨wakeful, behind, _⟩ := (wakes.calls id).fire (wakes.behind id) named moved
      refine wakes.goesOn (LockCall.chosen_of_fire moved).1 wakeful behind ?_
      intro idle
      exact named (ordered.unnamed id (by rw [idle]; rfl))
  | watcher id watch ok =>
      obtain ⟨call, moved, rfl⟩ := Option.map_eq_some_iff.mp stepped
      have isOk : ok = true := served
      have answer : world.answer (world.calls id).filename ok =
          some (world.children (world.calls id).filename) := if_pos isOk
      rw [answer] at moved
      have named : (world.calls id).node ≠ none := by
        apply wakes.named
        by_contra unnamed
        have nothing := ((kept id).early (by
          cases here : (world.calls id).lock <;> rw [here] at unnamed <;>
            first | rfl | exact absurd rfl unnamed)).1
        unfold LockCall.watcherStep at moved
        rw [nothing] at moved
        cases moved
      obtain ⟨wakeful, behind, _⟩ := (wakes.calls id).watcherStep (kept id) (wakes.behind id) named
        moved
      refine wakes.goesOn (LockCall.chosen_of_watcherStep moved).1 wakeful behind ?_
      intro idle
      exact named (ordered.unnamed id (by rw [idle]; rfl))
  | callUnlock id =>
      simp only [ZooWorld.step] at stepped
      split at stepped
      next granted =>
        cases stepped
        have busy : (world.calls id).lock ≠ .idle := by
          intro idle
          obtain ⟨_, unrun, _⟩ := (kept id).earlyAt idle rfl
          omega
        have unlocked : (world.setCall id { world.calls id with unlock := .delete }).Wakes :=
          wakes.unlocks granted.1 kept busy (fun _ => ⟨rfl, by rw [granted.2]; decide⟩)
            fun _ _ => rfl
        exact ⟨unlocked.calls, unlocked.behind, unlocked.makers, unlocked.nodup, unlocked.plain⟩
      next => cases stepped
  | deleteNode id ok =>
      simp only [ZooWorld.step] at stepped
      split at stepped
      next here =>
        obtain ⟨isOk, whole⟩ := Bool.and_eq_true_iff.mp served
        have sameBuf := beq_iff_eq.mp whole
        split at stepped
        next nothing =>
          have unlocking : (world.calls id).unlock ≠ .idle := by
            rw [here]
            decide
          obtain ⟨_, _, _, _, isWhole⟩ := wakes.deleting ordered kept unlocking
          rw [nothing, isWhole] at sameBuf
          cases sameBuf
        next path held =>
          cases stepped
          rw [if_pos isOk]
          exact wakes.deleteNode ordered kept here sameBuf held
      next => cases stepped
  | freeElem id =>
      simp only [ZooWorld.step] at stepped
      split at stepped
      next here =>
        cases stepped
        have runs : 0 < (world.calls id).runs := (kept id).unlocks (by rw [here]; decide)
        have busy : (world.calls id).lock ≠ .idle := by
          intro idle
          obtain ⟨_, unrun, _⟩ := (kept id).earlyAt idle rfl
          omega
        apply wakes.unlocks runs kept busy
        · exact fun notReturned => absurd rfl notReturned
        · intro undeleted
          rw [here] at undeleted
          cases undeleted
      next => cases stepped

/-! ## Nothing is left to happen -/

/-- The threads of a call have returned, and its watches wait. -/
theorem Quiet.threads (quiet : world.Quiet) (id : Nat) :
    ((world.calls id).lock = .idle ∨ (world.calls id).lock = .returned) ∧
      (∀ watch ∈ (world.calls id).watches,
        watch = .armed false ∨ watch = .returned ∨ watch = .crashed) ∧
      ((world.calls id).unlock = .idle ∨ (world.calls id).unlock = .returned) := by
  have parent := quiet (.createParent id false) rfl
  have node := quiet (.createNode id none) rfl
  have lock := quiet (.lock id false) rfl
  have delete := quiet (.deleteNode id false) rfl
  have free := quiet (.freeElem id) rfl
  simp only [ZooWorld.step] at parent node lock delete free
  refine ⟨?_, ?_, ?_⟩
  · cases here : (world.calls id).lock with
    | idle => exact Or.inl rfl
    | returned => exact Or.inr rfl
    | createParent =>
        rw [if_pos here] at parent
        cases parent
    | createNode =>
        rw [if_pos here] at node
        cases node
    | getChildren =>
        unfold LockCall.lockStep at lock
        rw [here] at lock
        cases lock
    | clearCallback =>
        unfold LockCall.lockStep at lock
        rw [here] at lock
        cases lock
    | runCallback =>
        unfold LockCall.lockStep at lock
        rw [here] at lock
        cases lock
  · intro point listed
    obtain ⟨watch, found⟩ := List.mem_iff_getElem?.mp listed
    have fire := quiet (.fire id watch) rfl
    have watcher := quiet (.watcher id watch false) rfl
    simp only [ZooWorld.step, LockCall.fire, LockCall.watcherStep, found] at fire watcher
    cases point with
    | armed due =>
        cases due with
        | true => cases fire
        | false => exact Or.inl rfl
    | lookUp => cases watcher
    | readCallback => cases watcher
    | getChildren => cases watcher
    | takeCallback => cases watcher
    | clearCallback callback => cases watcher
    | runCallback callback => cases callback <;> cases watcher
    | crashed => exact Or.inr (Or.inr rfl)
    | returned => exact Or.inr (Or.inl rfl)
  · cases here : (world.calls id).unlock with
    | idle => exact Or.inl rfl
    | returned => exact Or.inr rfl
    | delete =>
        rw [if_pos here] at delete
        split at delete <;> cases delete
    | free =>
        rw [if_pos here] at free
        cases free

/-- No thread has found a call the first and not run its callback. -/
theorem Quiet.chosen (quiet : world.Quiet) {id : Nat} (chosen : (world.calls id).IsChosen) :
    0 < (world.calls id).runs := by
  obtain ⟨lock, watches, _⟩ := quiet.threads id
  have none : ∀ (lockTest : LockPoint → Bool) (watchTest : WatchPoint → Bool),
      lockTest .idle = false → lockTest .returned = false →
      watchTest (.armed false) = false → watchTest .returned = false →
      watchTest .crashed = false → (world.calls id).count lockTest watchTest = 0 := by
    intro lockTest watchTest idle returned armed done crashed
    have nobody : (world.calls id).watches.countP watchTest = 0 := by
      rw [List.countP_eq_zero]
      intro watch listed
      rcases watches watch listed with rfl | rfl | rfl
      · rw [armed]
        nofun
      · rw [done]
        nofun
      · rw [crashed]
        nofun
    unfold LockCall.count
    rw [nobody]
    rcases lock with here | here <;> rw [here]
    · rw [idle]
      rfl
    · rw [returned]
      rfl
  unfold LockCall.IsChosen LockCall.deciding LockCall.granted at chosen
  rw [none _ _ rfl rfl rfl rfl rfl, none _ _ rfl rfl rfl rfl rfl] at chosen
  omega

/-- A call that is not granted is not the first child. -/
theorem Wakes.notFirst (wakes : world.Wakes) (quiet : world.Quiet) (id : Nat)
    (named : (world.calls id).node ≠ none) (unrun : (world.calls id).runs = 0) :
    isFirst (world.children (world.calls id).filename) (world.calls id).lockPath = false := by
  have unchosen : ¬ (world.calls id).IsChosen := by
    intro chosen
    have runs := quiet.chosen chosen
    omega
  have ungranted : ¬ 0 < (world.calls id).granted := fun granted =>
    unchosen (Nat.add_pos_right _ granted)
  have waiting : (world.calls id).callback = true :=
    ((wakes.calls id).answered named).resolve_right ungranted
  have awake := (wakes.calls id).awake named waiting
  have probing : 0 < (world.calls id).probing := by
    unfold LockCall.IsChosen at unchosen
    omega
  obtain ⟨lock, watches, _⟩ := quiet.threads id
  have asks : LockPoint.asking (world.calls id).lock = false := by
    rcases lock with here | here <;> rw [here] <;> rfl
  unfold LockCall.probing LockCall.count at probing
  rw [asks, Bool.toNat_false, Nat.zero_add] at probing
  obtain ⟨watch, listed, isProbing⟩ := List.countP_pos_iff.mp probing
  have armed : WatchPoint.armed false ∈ (world.calls id).watches := by
    rcases watches watch listed with rfl | rfl | rfl
    · exact listed
    · cases isProbing
    · cases isProbing
  exact (wakes.behind id armed).resolve_left unchosen

theorem foldl_isSome {step : Option Name → Name → Option Name}
    (keeps : ∀ least str, ∃ next, step (some least) str = some next) (names : List Name) :
    ∀ start, ∃ least, names.foldl step (some start) = some least := by
  induction names with
  | nil => exact fun start => ⟨start, rfl⟩
  | cons str rest inductionHypothesis =>
      intro start
      obtain ⟨next, isNext⟩ := keeps start str
      rw [List.foldl_cons, isNext]
      exact inductionHypothesis next

theorem minStr_isSome {names : List Name} (filled : names ≠ []) :
    ∃ least, minStr names = some least := by
  cases names with
  | nil => exact absurd rfl filled
  | cons first rest =>
      refine foldl_isSome (fun least str => ?_) rest first
      dsimp only
      split
      · exact ⟨str, rfl⟩
      · exact ⟨least, rfl⟩

/-- **The first of the children has been granted**, once nothing is left to
happen. -/
theorem Wakes.losesNoWake (wakes : world.Wakes) (ordered : world.Ordered) (kept : world.Kept) :
    world.LosesNoWake := by
  intro quiet id busy unrun
  obtain ⟨lock, _, _⟩ := quiet.threads id
  have late : (world.calls id).lock.unnamed = false := by
    rcases lock with here | here
    · exact absurd here busy
    · rw [here]
      rfl
  have named := wakes.named late
  obtain ⟨node, isNode⟩ := Option.ne_none_iff_exists'.mp named
  have unlocked : (world.calls id).unlock = .idle := by
    by_contra unlocking
    have runs := (kept id).unlocks unlocking
    omega
  have present := ordered.present id node isNode unlocked
  obtain ⟨least, isLeast⟩ := minStr_isSome (List.ne_nil_of_mem present)
  obtain ⟨listed, _⟩ := minStr_least isLeast
  obtain ⟨other, sameFile, isOther, undeleted⟩ := wakes.makers _ least listed
  have otherNamed : (world.calls other).node ≠ none := by
    rw [isOther]
    nofun
  have otherBusy : (world.calls other).lock ≠ .idle := by
    intro idle
    exact otherNamed (ordered.unnamed other (by rw [idle]; rfl))
  have isPath := (ordered.whole_plain isOther (wakes.plain other otherBusy)).1
  -- the call of the least child would be the first
  have runs : 0 < (world.calls other).runs := by
    by_contra unrunOther
    have notFirst := wakes.notFirst quiet other otherNamed (Nat.eq_zero_of_not_pos unrunOther)
    unfold isFirst at notFirst
    rw [sameFile, isLeast, isPath] at notFirst
    exact absurd (of_decide_eq_false notFirst) (not_not.mpr rfl)
  have still : (world.calls other).unlock = .idle := by
    rcases (quiet.threads other).2.2 with here | here
    · exact here
    · rw [here] at undeleted
      cases undeleted
  exact ⟨other, ⟨runs, still⟩, sameFile⟩

end ZooWorld

/-- What every run keeps in which the service serves. -/
theorem wakes_of_reachable {world : ZooWorld}
    (reached : zooWithoutNodes.ReachableVia (fun world event => zooServes world event = true)
      world) : world.Wakes ∧ world.Ordered ∧ world.Kept := by
  refine reached.invariant (fun world => world.Wakes ∧ world.Ordered ∧ world.Kept) ?_ ?_
  · rintro start ⟨initial, empty⟩
    refine ⟨⟨?_, ?_, ?_, ?_, ?_⟩, ZooWorld.ordered_initial initial, ?_⟩
    · intro id
      rw [initial.calls id]
      exact LockCall.wakeful_fresh
    · intro id armed
      rw [initial.calls id] at armed
      cases armed
    · intro filename name listed
      rw [empty filename] at listed
      cases listed
    · intro filename
      rw [empty filename]
      exact List.nodup_nil
    · intro id busy
      rw [initial.calls id] at busy
      exact absurd rfl busy
    · intro id
      rw [initial.calls id]
      exact LockCall.kept_fresh
  · rintro before event after _ ⟨wakes, ordered, kept⟩ serves stepped
    exact ⟨wakes.step ordered kept serves stepped, ordered.step stepped,
      kept.step (Bool.and_eq_true_iff.mp serves).1 stepped⟩

/-- Client 1 has the lock, client 2 waits. -/
def queued : List ZooEvent :=
  enqueues 0 1 [97] 0 ++ List.replicate 3 (.lock 0 true) ++ enqueues 1 2 [97] 1 ++
    [.lock 1 true] ++ watches 0 0 2

theorem init_withoutNodes : zooWithoutNodes.init emptyService :=
  ⟨initial_emptyService, fun _ => rfl⟩

end SimpleDfs.Zookeeper
