import SimpleDfs.Zookeeper.LockCalls

/-!
Contract: locks of many clients (`zookeeper/s_zookeeper.c`).

Owns: the order of the sequence nodes, that a call found to be the first stays
the first until it is unlocked, and exactly which reads let the callback of a
call run twice.

Does not own: that a call is ever granted.

`path_created` and the buffer of `s_zoo_unlock` cut the path of a long file name.
A name that is cut is none of the children, so its call is not granted; a path
that is cut is that of no sequence node, so no node is deleted.
-/

set_option autoImplicit false

namespace SimpleDfs.Zookeeper

open SimpleDfs.Library

/-! ## Names -/

theorem sequenceName_lt {seq other : Nat} (less : seq < other) (small : other < 10 ^ 10) :
    sequenceName seq < sequenceName other :=
  zeroPadded_lt 10 less small

/-- The loop keeps the least name so far. -/
theorem minStr_loop {names : List Name} :
    ∀ {start least : Name},
      names.foldl
        (fun least str =>
          match least with
          | none => some str
          | some least => if str < least then some str else some least)
        (some start) = some least →
      (least = start ∨ least ∈ names) ∧ ¬ start < least ∧ ∀ name ∈ names, ¬ name < least := by
  induction names with
  | nil =>
      intro start least found
      cases found
      exact ⟨Or.inl rfl, lt_irrefl _, fun _ listed => absurd listed List.not_mem_nil⟩
  | cons str rest inductionHypothesis =>
      intro start least found
      rw [List.foldl_cons] at found
      dsimp only at found
      split at found
      next less =>
        obtain ⟨origin, notBelow, below⟩ := inductionHypothesis found
        refine ⟨?_, fun smaller => notBelow (less.trans smaller), ?_⟩
        · rcases origin with rfl | listed
          · exact Or.inr List.mem_cons_self
          · exact Or.inr (List.mem_cons_of_mem str listed)
        · intro name listed
          rcases List.mem_cons.mp listed with rfl | later
          · exact notBelow
          · exact below name later
      next notLess =>
        obtain ⟨origin, notBelow, below⟩ := inductionHypothesis found
        refine ⟨origin.imp_right (List.mem_cons_of_mem str), notBelow, ?_⟩
        intro name listed
        rcases List.mem_cons.mp listed with rfl | later
        · exact fun smaller => notBelow ((not_lt.mp notLess).trans_lt smaller)
        · exact below name later

/-- The first of the children is one of them, and none is less. -/
theorem minStr_least {names : List Name} {least : Name} (found : minStr names = some least) :
    least ∈ names ∧ ∀ name ∈ names, ¬ name < least := by
  cases names with
  | nil => cases found
  | cons first rest =>
      obtain ⟨origin, notBelow, below⟩ := minStr_loop found
      refine ⟨List.mem_cons.mpr origin, ?_⟩
      intro name listed
      rcases List.mem_cons.mp listed with rfl | later
      · exact notBelow
      · exact below name later

theorem splitPath_none {path : Name} (noSlash : 47 ∉ path) : splitPath path = none := by
  induction path with
  | nil => rfl
  | cons char rest inductionHypothesis =>
      obtain ⟨other, absent⟩ := not_or.mp (fun same => noSlash (List.mem_cons.mpr same))
      rw [splitPath, inductionHypothesis absent]
      exact if_neg fun same => other same.symm

/-- A path is split at its last slash. -/
theorem splitPath_append (directory : Name) {last : Name} (noSlash : 47 ∉ last) :
    splitPath (directory ++ 47 :: last) = some (directory, last) := by
  induction directory with
  | nil =>
      rw [List.nil_append, splitPath, splitPath_none noSlash]
      rfl
  | cons char rest inductionHypothesis =>
      rw [List.cons_append, splitPath, inductionHypothesis]

theorem eq_of_splitPath {path directory last : Name}
    (split : splitPath path = some (directory, last)) : path = directory ++ 47 :: last := by
  induction path generalizing directory with
  | nil => cases split
  | cons char rest inductionHypothesis =>
      rw [splitPath] at split
      cases inner : splitPath rest with
      | some parts =>
          rw [inner] at split
          obtain ⟨rfl, rfl⟩ := Prod.mk.inj (Option.some.inj split)
          rw [inductionHypothesis inner]
          rfl
      | none =>
          rw [inner] at split
          dsimp only at split
          split at split
          next isSlash =>
            obtain ⟨rfl, rfl⟩ := Prod.mk.inj (Option.some.inj split)
            rw [isSlash]
            rfl
          next => cases split

/-! ## The order of the nodes -/

/-- The length that `s_zoo_lock` takes. -/
def Fits (filename : Name) : Prop :=
  filename.length + lockRootLen + 1 < maxFilenameLen - 1

/-- No node is made yet. -/
def LockPoint.unnamed : LockPoint → Bool
  | .idle => true
  | .createParent => true
  | .createNode => true
  | _ => false

/-- A node is made next. -/
def LockPoint.creating : LockPoint → Bool
  | .createParent => true
  | .createNode => true
  | _ => false

namespace LockCall

/-- A thread has found the call to be the first. -/
def IsChosen (call : LockCall) : Prop :=
  0 < call.deciding + call.granted

/-- What `path_created` holds of the name of a node. -/
def cutName (filename node : Name) : Name :=
  node.take (maxFilenameLen - 1 - (lockRootLen + 1 + filename.length + 1))

/-- A later state of the call, which has the same node. -/
structure Continues (before after : LockCall) : Prop where
  node : after.node = before.node
  lockPath : after.lockPath = before.lockPath
  filename : after.filename = before.filename
  unlock : after.unlock = before.unlock
  lock : after.lock = before.lock ∨ (after.lock.unnamed = false ∧ after.lock.creating = false)

/-- The service has answered, and the call is the first of the children. -/
def FoundFirst (call : LockCall) (children : Option (List Name)) : Prop :=
  ∃ names, children = some names ∧ isFirst names call.lockPath = true

variable {call after : LockCall} {children : Option (List Name)} {watch : Nat}

theorem tryLock_cases (call : LockCall) (children : Option (List Name)) :
    ((call.tryLock children).1 = call ∨ (call.tryLock children).1 = call.arm) ∧
      ((call.tryLock children).2 = true → call.FoundFirst children) := by
  cases children with
  | none => exact ⟨Or.inl rfl, nofun⟩
  | some names => exact ⟨Or.inr rfl, fun found => ⟨names, rfl, found⟩⟩

theorem isChosen_tryLock : (call.tryLock children).1.IsChosen ↔ call.IsChosen := by
  rcases (tryLock_cases call children).1 with same | armed
  · rw [same]
  · obtain ⟨_, _, deciding, granted⟩ := @tally_arm call
    rw [armed, IsChosen, deciding, granted]
    rfl

theorem continues_tryLock : Continues call (call.tryLock children).1 := by
  rcases (tryLock_cases call children).1 with same | armed
  · rw [same]
    exact ⟨rfl, rfl, rfl, rfl, Or.inl rfl⟩
  · rw [armed]
    exact ⟨rfl, rfl, rfl, rfl, Or.inl rfl⟩

/-- `s_zoo_lock` goes on to a point that is no decision. -/
theorem chosen_of_goTo {point : LockPoint}
    (idle : point.deciding = false ∧ point.granting = false) (chosen : (call.goTo point).IsChosen) :
    call.IsChosen := by
  obtain ⟨_, _, deciding, granted⟩ := @tally_goTo call point
  rw [idle.1] at deciding
  rw [idle.2] at granted
  unfold IsChosen at chosen ⊢
  simp only [Bool.toNat_false] at deciding granted
  omega

/-- `s_zoo_lock` finds a call the first only by its query. -/
theorem chosen_of_lockStep (stepped : call.lockStep children = some after) :
    Continues call after ∧ (after.IsChosen → call.IsChosen ∨ call.FoundFirst children) := by
  unfold lockStep at stepped
  split at stepped
  next here =>
    have isAfter : after = (call.tryLock children).1.goTo
        (if (call.tryLock children).2 then .clearCallback else .returned) :=
      (Option.some.inj stepped).symm
    obtain ⟨node, lockPath, filename, unlock, _⟩ := @continues_tryLock call children
    rw [isAfter]
    refine ⟨⟨node, lockPath, filename, unlock, Or.inr ?_⟩, ?_⟩
    · cases found : (call.tryLock children).2 <;> exact ⟨rfl, rfl⟩
    · intro chosen
      by_cases found : (call.tryLock children).2 = true
      · exact Or.inr ((tryLock_cases call children).2 found)
      · rw [if_neg found] at chosen
        exact Or.inl (isChosen_tryLock.mp (chosen_of_goTo ⟨rfl, rfl⟩ chosen))
  next here =>
    cases stepped
    refine ⟨⟨rfl, rfl, rfl, rfl, Or.inr ⟨rfl, rfl⟩⟩, fun _ => Or.inl ?_⟩
    have moved := (@tally_goTo call .runCallback).2.2.1
    rw [here] at moved
    simp only [LockPoint.deciding, Bool.toNat_true, Bool.toNat_false] at moved
    unfold IsChosen
    omega
  next here =>
    cases stepped
    refine ⟨⟨rfl, rfl, rfl, rfl, Or.inr ⟨rfl, rfl⟩⟩, fun _ => Or.inl ?_⟩
    have moved := (@tally_goTo call .returned).2.2.2
    rw [here] at moved
    simp only [LockPoint.granting, Bool.toNat_true, Bool.toNat_false] at moved
    unfold IsChosen
    omega
  next => cases stepped

/-- A watcher that goes on to a point that is no decision. -/
theorem chosen_of_moveTo {old new : WatchPoint} (found : call.watches[watch]? = some old)
    (chosen : (call.moveTo watch new).IsChosen)
    (decides : new.deciding.toNat + new.granting.toNat ≤ old.deciding.toNat + old.granting.toNat) :
    call.IsChosen := by
  obtain ⟨_, _, deciding, granted⟩ := tally_moveTo found new
  unfold IsChosen at chosen ⊢
  omega

theorem continues_moveTo (call : LockCall) (watch : Nat) (point : WatchPoint) :
    Continues call (call.moveTo watch point) :=
  ⟨rfl, rfl, rfl, rfl, Or.inl rfl⟩

theorem chosen_of_fire (stepped : call.fire watch = some after) :
    Continues call after ∧ (after.IsChosen → call.IsChosen) := by
  unfold fire at stepped
  split at stepped
  next found =>
    cases stepped
    exact ⟨continues_moveTo call watch _, fun chosen => chosen_of_moveTo found chosen le_rfl⟩
  next => cases stepped

/-- A watcher finds a call the first only by its query. -/
theorem chosen_of_watcherStep (stepped : call.watcherStep watch children = some after) :
    Continues call after ∧ (after.IsChosen → call.IsChosen ∨ call.FoundFirst children) := by
  unfold watcherStep at stepped
  split at stepped
  next found =>
    cases stepped
    refine ⟨continues_moveTo call watch _, fun chosen => Or.inl ?_⟩
    split at chosen <;> exact chosen_of_moveTo found chosen le_rfl
  next found =>
    cases stepped
    refine ⟨continues_moveTo call watch _, fun chosen => Or.inl ?_⟩
    split at chosen <;> exact chosen_of_moveTo found chosen le_rfl
  next found =>
    have isAfter : after = (call.tryLock children).1.moveTo watch
        (if (call.tryLock children).2 then .takeCallback else .returned) :=
      (Option.some.inj stepped).symm
    obtain ⟨node, lockPath, filename, unlock, lock⟩ := @continues_tryLock call children
    rw [isAfter]
    refine ⟨⟨node, lockPath, filename, unlock, lock⟩, fun chosen => ?_⟩
    by_cases first : (call.tryLock children).2 = true
    · exact Or.inr ((tryLock_cases call children).2 first)
    · left
      have foundStill : (call.tryLock children).1.watches[watch]? = some .getChildren := by
        rcases (tryLock_cases call children).1 with same | armed
        · rw [same]
          exact found
        · rw [armed, arm, List.getElem?_append_left (List.getElem?_eq_some_iff.mp found).1, found]
      rw [if_neg first] at chosen
      exact isChosen_tryLock.mp (chosen_of_moveTo foundStill chosen le_rfl)
  next found =>
    cases stepped
    exact ⟨continues_moveTo call watch _, fun chosen => Or.inl (chosen_of_moveTo found chosen le_rfl)⟩
  next found =>
    cases stepped
    refine ⟨⟨rfl, rfl, rfl, rfl, Or.inl rfl⟩, fun chosen => Or.inl ?_⟩
    exact @chosen_of_moveTo call watch _ _ found chosen le_rfl
  next found =>
    cases stepped
    refine ⟨⟨rfl, rfl, rfl, rfl, Or.inl rfl⟩, fun _ => Or.inl ?_⟩
    exact Nat.add_pos_right _ (Nat.add_pos_left (count_pos found LockPoint.granting rfl) _)
  next found =>
    cases stepped
    exact ⟨continues_moveTo call watch _,
      fun chosen => Or.inl (chosen_of_moveTo found chosen (by decide))⟩
  next => cases stepped

end LockCall

/-- What the nodes keep, in every run. -/
structure ZooWorld.Ordered (world : ZooWorld) : Prop where
  children : ∀ filename, ∀ name ∈ world.children filename, IsChild filename name
  unnamed : ∀ id, (world.calls id).lock.unnamed = true → (world.calls id).node = none
  short : ∀ id, (world.calls id).lock.creating = true → Fits (world.calls id).filename
  numbered : ∀ id node, (world.calls id).node = some node → Fits (world.calls id).filename ∧
    ∃ seq, seq < world.nextSeq (world.calls id).filename ∧ seq < 10 ^ 10 ∧ node = sequenceName seq
  path : ∀ id, (world.calls id).lockPath =
    (world.calls id).node.map (LockCall.cutName (world.calls id).filename)
  distinct : ∀ id other node, (world.calls id).filename = (world.calls other).filename →
    (world.calls id).node = some node → (world.calls other).node = some node → id = other
  present : ∀ id node, (world.calls id).node = some node → (world.calls id).unlock = .idle →
    node ∈ world.children (world.calls id).filename
  buffers : ∀ client path directory last, world.buf client = some path →
    splitPath path = some (directory, last) → last.length = 10 →
    ∃ id, (world.calls id).filename = directory ∧ (world.calls id).node = some last ∧
      (world.calls id).unlock ≠ .idle
  whole : ∀ id, (world.calls id).IsChosen →
    ∃ node, (world.calls id).node = some node ∧ (world.calls id).lockPath = some node
  first : ∀ id other node rival, id ≠ other →
    (world.calls id).filename = (world.calls other).filename →
    (world.calls id).node = some node → (world.calls other).node = some rival →
    (world.calls id).IsChosen → (world.calls id).unlock = .idle →
    (world.calls other).unlock = .idle → node < rival

namespace ZooWorld

variable {world : ZooWorld}

theorem Ordered.tenDigits (ordered : world.Ordered) {id : Nat} {node : Name}
    (named : (world.calls id).node = some node) : node.length = 10 ∧ 47 ∉ node := by
  obtain ⟨_, seq, _, _, rfl⟩ := ordered.numbered id node named
  refine ⟨zeroPadded_length 10 seq, ?_⟩
  intro slash
  have digit := digit_of_mem slash
  omega

/-- A call that is found to be the first has its whole name, and no child is
less. -/
theorem Ordered.isFirst (ordered : world.Ordered) {id : Nat}
    (found : isFirst (world.children (world.calls id).filename) (world.calls id).lockPath = true) :
    ∃ node, (world.calls id).node = some node ∧ (world.calls id).lockPath = some node ∧
      ∀ name ∈ world.children (world.calls id).filename, ¬ name < node := by
  unfold Zookeeper.isFirst at found
  split at found
  next => cases found
  next least isLeast =>
    have isPath := of_decide_eq_true found
    obtain ⟨member, below⟩ := minStr_least isLeast
    have path := ordered.path id
    rw [isPath] at path
    obtain ⟨node, named, cut⟩ := Option.map_eq_some_iff.mp path.symm
    obtain ⟨fits, _⟩ := ordered.numbered id node named
    have ten := (ordered.tenDigits named).1
    -- a name that is cut would be that of no child
    have whole : LockCall.cutName (world.calls id).filename node = node := by
      have child := ordered.children _ least member
      unfold Fits at fits
      unfold IsChild at child
      unfold LockCall.cutName at cut ⊢
      apply List.take_of_length_le
      rw [← cut, List.length_take, ten] at child
      unfold lockRootLen maxFilenameLen at *
      omega
    have same : least = node := cut.symm.trans whole
    subst same
    exact ⟨least, named, isPath, below⟩

/-- How a step changes a call, but for the creation of its node. -/
structure CallMove (world : ZooWorld) (before after : LockCall) : Prop where
  node : after.node = before.node
  lockPath : after.lockPath = before.lockPath
  filename : before.node ≠ none → after.filename = before.filename
  unlock : after.unlock = .idle → before.unlock = .idle
  unnamed : after.lock.unnamed = true → before.lock.unnamed = true
  short : after.lock.creating = true → Fits after.filename
  chosen : after.IsChosen →
    before.IsChosen ∨ Zookeeper.isFirst (world.children before.filename) before.lockPath = true

/-- **A step that creates no node of a call** keeps the order. -/
theorem Ordered.moved {before after : ZooWorld} (ordered : before.Ordered)
    (moves : ∀ id, CallMove before (before.calls id) (after.calls id))
    (nextSeq : after.nextSeq = before.nextSeq) (buf : after.buf = before.buf)
    (children : ∀ filename, ∀ name ∈ after.children filename, IsChild filename name)
    (present : ∀ id node, (before.calls id).node = some node →
      (before.calls id).unlock = .idle → node ∈ after.children (before.calls id).filename) :
    after.Ordered := by
  have named : ∀ {id node}, (after.calls id).node = some node →
      (before.calls id).node = some node ∧
        (after.calls id).filename = (before.calls id).filename := by
    intro id node named
    have same := (moves id).node.symm.trans named
    refine ⟨same, (moves id).filename ?_⟩
    rw [same]
    nofun
  refine ⟨children, ?_, fun id => (moves id).short, ?_, ?_, ?_, ?_, ?_, ?_, ?_⟩
  · intro id unnamed
    rw [(moves id).node]
    exact ordered.unnamed id ((moves id).unnamed unnamed)
  · intro id node isNode
    obtain ⟨old, same⟩ := named isNode
    rw [same, nextSeq]
    exact ordered.numbered id node old
  · intro id
    rw [(moves id).lockPath, ordered.path id, (moves id).node]
    cases old : (before.calls id).node with
    | none => rfl
    | some node => rw [(moves id).filename (old ▸ nofun)]
  · intro id other node sameFile isNode isOther
    obtain ⟨first, sameFirst⟩ := named isNode
    obtain ⟨second, sameSecond⟩ := named isOther
    exact ordered.distinct id other node (sameFirst ▸ sameSecond ▸ sameFile) first second
  · intro id node isNode locked
    obtain ⟨old, same⟩ := named isNode
    rw [same]
    exact present id node old ((moves id).unlock locked)
  · intro client path directory last held split ten
    rw [buf] at held
    obtain ⟨id, isFile, isNode, unlocking⟩ := ordered.buffers client path directory last held split ten
    refine ⟨id, ?_, (moves id).node.trans isNode, fun locked => unlocking ((moves id).unlock locked)⟩
    rw [(moves id).filename (isNode ▸ nofun)]
    exact isFile
  · intro id chosen
    rw [(moves id).node, (moves id).lockPath]
    rcases (moves id).chosen chosen with before | found
    · exact ordered.whole id before
    · obtain ⟨node, isNode, isPath, _⟩ := ordered.isFirst found
      exact ⟨node, isNode, isPath⟩
  · intro id other node rival different sameFile isNode isRival chosen locked otherLocked
    obtain ⟨first, sameFirst⟩ := named isNode
    obtain ⟨second, sameSecond⟩ := named isRival
    have file : (before.calls id).filename = (before.calls other).filename :=
      sameFirst ▸ sameSecond ▸ sameFile
    rcases (moves id).chosen chosen with before | found
    · exact ordered.first id other node rival different file first second before
        ((moves id).unlock locked) ((moves other).unlock otherLocked)
    · obtain ⟨least, isLeast, _, below⟩ := ordered.isFirst found
      cases first.symm.trans isLeast
      have there := ordered.present other rival second ((moves other).unlock otherLocked)
      rw [← file] at there
      have apart : rival ≠ node := by
        rintro rfl
        exact different (ordered.distinct id other rival file first second)
      exact lt_of_le_of_ne (not_lt.mp (below rival there)) apart.symm

theorem Ordered.stay (ordered : world.Ordered) (id : Nat) :
    CallMove world (world.calls id) (world.calls id) :=
  ⟨rfl, rfl, fun _ => rfl, fun locked => locked, fun unnamed => unnamed, ordered.short id, Or.inl⟩

theorem Ordered.setCall (ordered : world.Ordered) {id : Nat} {call : LockCall}
    (move : CallMove world (world.calls id) call) : (world.setCall id call).Ordered := by
  refine ordered.moved ?_ rfl rfl ordered.children ordered.present
  intro other
  unfold ZooWorld.setCall
  dsimp only
  rw [Function.update_apply]
  split
  next same => exact same ▸ move
  next => exact ordered.stay other

/-- A node has other children, among them the nodes of all calls that are not
unlocked. -/
theorem Ordered.setChildren (ordered : world.Ordered) {filename : Name} {children : List Name}
    (isChild : ∀ name ∈ children, IsChild filename name)
    (present : ∀ id node, (world.calls id).node = some node → (world.calls id).unlock = .idle →
      (world.calls id).filename = filename → node ∈ children) :
    (world.setChildren filename children).Ordered := by
  refine ordered.moved ?_ rfl rfl ?_ ?_
  · intro id
    obtain ⟨node, lockPath, file, unlock, unnamed, short, _⟩ := ordered.stay id
    unfold ZooWorld.setChildren
    dsimp only
    split
    · refine ⟨node, lockPath, file, unlock, unnamed, short, ?_⟩
      obtain ⟨_, _, deciding, granted⟩ := @LockCall.tally_change (world.calls id)
      unfold LockCall.IsChosen
      rw [deciding, granted]
      exact Or.inl
    · exact ordered.stay id
  · intro other name listed
    unfold ZooWorld.setChildren at listed
    dsimp only at listed
    rw [Function.update_apply] at listed
    split at listed
    next same => exact same ▸ isChild name listed
    next => exact ordered.children other name listed
  · intro id node isNode locked
    unfold ZooWorld.setChildren
    dsimp only
    rw [Function.update_apply]
    split
    next same => exact present id node isNode locked same
    next => exact ordered.present id node isNode locked

theorem setChildren_node (world : ZooWorld) (filename : Name) (children : List Name) (id : Nat) :
    ((world.setChildren filename children).calls id).node = (world.calls id).node := by
  unfold ZooWorld.setChildren
  dsimp only
  split <;> rfl

theorem setChildren_filename (world : ZooWorld) (filename : Name) (children : List Name)
    (id : Nat) :
    ((world.setChildren filename children).calls id).filename = (world.calls id).filename := by
  unfold ZooWorld.setChildren
  dsimp only
  split <;> rfl

/-- One more child. -/
theorem Ordered.addChild (ordered : world.Ordered) {filename name : Name}
    (isChild : IsChild filename name) :
    (world.setChildren filename (world.children filename ++ [name])).Ordered := by
  apply ordered.setChildren
  · intro other listed
    rcases List.mem_append.mp listed with before | isNew
    · exact ordered.children filename other before
    · exact List.mem_singleton.mp isNew ▸ isChild
  · rintro id node isNode locked rfl
    exact List.mem_append_left _ (ordered.present id node isNode locked)

theorem Ordered.createParent (ordered : world.Ordered) {filename : Name} (fits : Fits filename) :
    (world.createParent filename).Ordered := by
  unfold ZooWorld.createParent
  split
  · exact ordered
  next directory last split =>
    split
    · exact ordered
    · apply ordered.addChild
      right
      unfold Fits at fits
      rw [eq_of_splitPath split, List.length_append, List.length_cons] at fits
      omega

/-- The path in a buffer of `s_zoo_unlock` is deleted. -/
theorem Ordered.deleteNode (ordered : world.Ordered) {client : Nat} {path : Name}
    (held : world.buf client = some path) : (world.deleteNode path).Ordered := by
  unfold ZooWorld.deleteNode
  split
  · exact ordered
  next directory last split =>
    split
    · apply ordered.setChildren
      · exact fun name listed => ordered.children directory name (List.mem_of_mem_erase listed)
      · rintro id node isNode locked rfl
        have there := ordered.present id node isNode locked
        have ten := (ordered.tenDigits isNode).1
        apply (List.mem_erase_of_ne _).mpr there
        -- the node of the path belongs to a call that is being unlocked
        rintro rfl
        obtain ⟨other, sameFile, sameNode, unlocking⟩ :=
          ordered.buffers client path _ node held split ten
        have same := ordered.distinct other id node sameFile sameNode isNode
        exact unlocking (same ▸ locked)
    · exact ordered

theorem Ordered.raise (ordered : world.Ordered) {nextSeq : Name → Nat}
    (more : ∀ filename, world.nextSeq filename ≤ nextSeq filename) :
    ({ world with nextSeq := nextSeq } : ZooWorld).Ordered := by
  refine ⟨ordered.children, ordered.unnamed, ordered.short, ?_, ordered.path, ordered.distinct,
    ordered.present, ordered.buffers, ordered.whole, ordered.first⟩
  intro id node isNode
  obtain ⟨fits, seq, before, small, same⟩ := ordered.numbered id node isNode
  exact ⟨fits, seq, before.trans_le (more _), small, same⟩

/-- A call gets the node that was made last. -/
theorem Ordered.name (ordered : world.Ordered) {after : ZooWorld} {id : Nat} {call : LockCall}
    {seq : Nat} (new : after.calls id = call)
    (old : ∀ {other}, other ≠ id → after.calls other = world.calls other)
    (children : after.children = world.children) (nextSeq : after.nextSeq = world.nextSeq)
    (buf : after.buf = world.buf)
    (unnamed : (world.calls id).node = none) (fits : Fits call.filename)
    (node : call.node = some (sequenceName seq))
    (path : call.lockPath = some (LockCall.cutName call.filename (sequenceName seq)))
    (lock : call.lock = .getChildren) (unchosen : ¬ call.IsChosen)
    (last : seq < world.nextSeq call.filename) (small : seq < 10 ^ 10)
    (there : sequenceName seq ∈ world.children call.filename)
    (greatest : ∀ other node, (world.calls other).filename = call.filename →
      (world.calls other).node = some node → node < sequenceName seq) :
    after.Ordered := by
  rw [← children] at there
  rw [← nextSeq] at last
  constructor
  · rw [children]
    exact ordered.children
  · intro other
    by_cases same : other = id
    · rw [same, new, lock]
      nofun
    · rw [old same]
      exact ordered.unnamed other
  · intro other
    by_cases same : other = id
    · rw [same, new, lock]
      nofun
    · rw [old same]
      exact ordered.short other
  · intro other name
    by_cases same : other = id
    · rw [same, new, node]
      intro isName
      exact ⟨fits, seq, last, small, (Option.some.inj isName).symm⟩
    · rw [old same, nextSeq]
      exact ordered.numbered other name
  · intro other
    by_cases same : other = id
    · rw [same, new, node]
      exact path
    · rw [old same]
      exact ordered.path other
  · intro first second name
    by_cases isFirst : first = id <;> by_cases isSecond : second = id
    · exact fun _ _ _ => isFirst.trans isSecond.symm
    · rw [isFirst, new, old isSecond, node]
      intro sameFile isName isOther
      cases isName
      exact absurd (greatest second _ sameFile.symm isOther) (lt_irrefl _)
    · rw [isSecond, new, old isFirst, node]
      intro sameFile isOther isName
      cases isName
      exact absurd (greatest first _ sameFile isOther) (lt_irrefl _)
    · rw [old isFirst, old isSecond]
      exact ordered.distinct first second name
  · intro other name
    by_cases same : other = id
    · rw [same, new, node]
      intro isName _
      exact Option.some.inj isName ▸ there
    · rw [old same, children]
      exact ordered.present other name
  · intro client buffer directory name held split ten
    rw [buf] at held
    obtain ⟨owner, sameFile, isNode, unlocking⟩ :=
      ordered.buffers client buffer directory name held split ten
    have different : owner ≠ id := by
      rintro rfl
      rw [unnamed] at isNode
      cases isNode
    refine ⟨owner, ?_⟩
    rw [old different]
    exact ⟨sameFile, isNode, unlocking⟩
  · intro other
    by_cases same : other = id
    · rw [same, new]
      exact fun chosen => absurd chosen unchosen
    · rw [old same]
      exact ordered.whole other
  · intro first second name rival different
    by_cases isFirst : first = id
    · rw [isFirst, new]
      exact fun _ _ _ chosen => absurd chosen unchosen
    · by_cases isSecond : second = id
      · rw [isSecond, new, old isFirst, node]
        intro sameFile isName isRival _ _ _
        cases isRival
        exact greatest first name sameFile isName
      · rw [old isFirst, old isSecond]
        exact ordered.first first second name rival different

/-! ## Steps -/

theorem Ordered.goesOn (ordered : world.Ordered) {id : Nat} {after : LockCall}
    (continues : LockCall.Continues (world.calls id) after)
    (chosen : after.IsChosen → (world.calls id).IsChosen ∨
      Zookeeper.isFirst (world.children (world.calls id).filename) (world.calls id).lockPath =
        true) : (world.setCall id after).Ordered := by
  obtain ⟨node, lockPath, filename, unlock, lock⟩ := continues
  apply ordered.setCall
  refine ⟨node, lockPath, fun _ => filename, fun locked => unlock ▸ locked, ?_, ?_, chosen⟩
  · rcases lock with same | ⟨late, _⟩
    · rw [same]
      exact fun unnamed => unnamed
    · rw [late]
      nofun
  · rcases lock with same | ⟨_, late⟩
    · rw [same, filename]
      exact ordered.short id
    · rw [late]
      nofun

/-- A step in front of the query. -/
theorem Ordered.goTo (ordered : world.Ordered) {id : Nat} (point : LockPoint)
    (unnamed : point.unnamed = true → (world.calls id).lock.unnamed = true)
    (short : point.creating = true → Fits (world.calls id).filename)
    (idle : point.deciding = false ∧ point.granting = false) :
    (world.setCall id ((world.calls id).goTo point)).Ordered := by
  apply ordered.setCall
  exact ⟨rfl, rfl, fun _ => rfl, fun locked => locked, unnamed, short,
    fun chosen => Or.inl (LockCall.chosen_of_goTo idle chosen)⟩

/-- `s_zoo_lock` returns without a node. -/
theorem Ordered.returns (ordered : world.Ordered) (id : Nat) :
    (world.setCall id ((world.calls id).goTo .returned)).Ordered :=
  ordered.goTo .returned nofun nofun ⟨rfl, rfl⟩

theorem Ordered.start (ordered : world.Ordered) {id : Nat} (here : (world.calls id).lock = .idle)
    (client : Nat) (filename : Name) :
    (world.setCall id ((world.calls id).start client filename)).Ordered := by
  have none : (world.calls id).node = none := ordered.unnamed id (by rw [here]; rfl)
  apply ordered.setCall
  refine ⟨rfl, rfl, fun named => absurd none named, fun locked => locked, fun _ => by rw [here]; rfl,
    ?_, fun chosen => Or.inl ?_⟩
  · intro creating
    unfold LockCall.start LockCall.goTo at creating ⊢
    dsimp only at creating ⊢
    unfold Fits
    split at creating
    · cases creating
    · omega
  · refine LockCall.chosen_of_goTo ?_ chosen
    split <;> exact ⟨rfl, rfl⟩

/-- `s_zoo_unlock` starts or goes on. -/
theorem Ordered.unlocks (ordered : world.Ordered) {id : Nat} {after : LockCall}
    (same : after.node = (world.calls id).node ∧ after.lockPath = (world.calls id).lockPath ∧
      after.filename = (world.calls id).filename ∧ after.lock = (world.calls id).lock ∧
      after.watches = (world.calls id).watches ∧ after.runs = (world.calls id).runs)
    (unlocking : after.unlock ≠ .idle) : (world.setCall id after).Ordered := by
  obtain ⟨node, lockPath, filename, lock, watches, runs⟩ := same
  apply ordered.setCall
  refine ⟨node, lockPath, fun _ => filename, fun locked => absurd locked unlocking, ?_, ?_, ?_⟩
  · rw [lock]
    exact fun unnamed => unnamed
  · rw [lock, filename]
    exact ordered.short id
  · unfold LockCall.IsChosen LockCall.deciding LockCall.granted LockCall.count
    rw [lock, watches, runs]
    exact Or.inl

/-- The buffer of `s_zoo_unlock` holds a path that is that of the call's node, or
of no sequence node. -/
theorem Ordered.setBuf (ordered : world.Ordered) {id : Nat}
    (chosen : (world.calls id).IsChosen) (unlocking : (world.calls id).unlock ≠ .idle) :
    ({ world with
      buf := Function.update world.buf (world.calls id).client (world.calls id).unlockPath } :
        ZooWorld).Ordered := by
  refine ⟨ordered.children, ordered.unnamed, ordered.short, ordered.numbered, ordered.path,
    ordered.distinct, ordered.present, ?_, ordered.whole, ordered.first⟩
  intro client path directory last held split ten
  dsimp only at held
  rw [Function.update_apply] at held
  split at held
  · obtain ⟨node, isNode, isPath⟩ := ordered.whole id chosen
    obtain ⟨tenDigits, noSlash⟩ := ordered.tenDigits isNode
    have whole : LockCall.cutName (world.calls id).filename node = node := by
      have cut := ordered.path id
      rw [isPath, isNode] at cut
      exact (Option.some.inj cut).symm
    have lengths := congrArg List.length whole
    unfold LockCall.cutName at lengths
    rw [List.length_take, tenDigits] at lengths
    unfold LockCall.unlockPath at held
    rw [isPath] at held
    unfold lockRootLen maxFilenameLen at lengths held
    have parts : path = (world.calls id).filename ++
        47 :: node.take (247 - (world.calls id).filename.length) := by
      have room : 256 - 1 - 1 - (5 + 1) - (world.calls id).filename.length =
          247 - (world.calls id).filename.length + 1 := by omega
      rw [← Option.some.inj held]
      dsimp only
      rw [List.take_append, List.take_of_length_le (by omega), room,
        List.take_succ_cons]
    rw [parts, splitPath_append _ fun slash => noSlash (List.mem_of_mem_take slash)] at split
    obtain ⟨rfl, rfl⟩ := Prod.mk.inj (Option.some.inj split)
    rw [List.length_take, tenDigits] at ten
    refine ⟨id, rfl, ?_, unlocking⟩
    rw [isNode, List.take_of_length_le (by omega)]
  · exact ordered.buffers client path directory last held split ten

/-- A call is given the node that the service makes for it. -/
theorem Ordered.createNode (ordered : world.Ordered) {id seq : Nat}
    (here : (world.calls id).lock = .createNode)
    (admits : world.Admits (world.calls id).filename seq) :
    ((world.setCall id ((world.calls id).created (sequenceName seq))).createNode
      (world.calls id).filename seq).Ordered := by
  obtain ⟨greater, small, _⟩ := admits
  have none : (world.calls id).node = none := ordered.unnamed id (by rw [here]; rfl)
  have fits : Fits (world.calls id).filename := ordered.short id (by rw [here]; rfl)
  have child : IsChild (world.calls id).filename (sequenceName seq) :=
    Or.inl (zeroPadded_length 10 seq)
  have nodes := setChildren_node world (world.calls id).filename
    (world.children (world.calls id).filename ++ [sequenceName seq])
  have filenames := setChildren_filename world (world.calls id).filename
    (world.children (world.calls id).filename ++ [sequenceName seq])
  -- the service has the node, no call knows it yet
  have made := @Ordered.raise _ (ordered.addChild child)
    (Function.update world.nextSeq (world.calls id).filename (seq + 1)) (by
      intro filename
      rw [Function.update_apply]
      split
      next same =>
        rw [same]
        exact greater.trans (Nat.le_succ seq)
      next => exact le_rfl)
  refine @Ordered.name _ made _ id ((world.calls id).created (sequenceName seq)).change seq
    ?_ ?_ rfl rfl rfl ?_ fits rfl rfl rfl ?_ ?_ small ?_ ?_
  · simp only [ZooWorld.createNode, ZooWorld.setChildren, ZooWorld.setCall, Function.update_self]
    exact if_pos rfl
  · intro other different
    simp only [ZooWorld.createNode, ZooWorld.setChildren, ZooWorld.setCall,
      Function.update_of_ne different]
  · exact (nodes id).trans none
  · intro chosen
    obtain ⟨_, _, deciding, granted⟩ :=
      @LockCall.tally_change ((world.calls id).created (sequenceName seq))
    unfold LockCall.IsChosen at chosen
    rw [deciding, granted] at chosen
    obtain ⟨node, isNode, _⟩ := ordered.whole id
      (@LockCall.chosen_of_goTo _ .getChildren ⟨rfl, rfl⟩ chosen)
    rw [none] at isNode
    cases isNode
  · show seq < Function.update world.nextSeq _ (seq + 1) (world.calls id).filename
    rw [Function.update_self]
    exact Nat.lt_succ_self seq
  · show _ ∈ Function.update world.children _ _ (world.calls id).filename
    rw [Function.update_self]
    exact List.mem_append_right _ (List.mem_singleton_self _)
  · intro other node sameFile isNode
    have file : (world.calls other).filename = (world.calls id).filename :=
      (filenames other).symm.trans sameFile
    obtain ⟨_, before, less, _, rfl⟩ :=
      ordered.numbered other node ((nodes other).symm.trans isNode)
    rw [file] at less
    exact sequenceName_lt (less.trans_le greater) small

theorem answer_eq_some {filename : Name} {ok : Bool} {names : List Name}
    (answered : world.answer filename ok = some names) : names = world.children filename := by
  unfold answer at answered
  split at answered
  · exact (Option.some.inj answered).symm
  · cases answered

/-- **One step keeps the order**, whatever its reads are. -/
theorem Ordered.step (ordered : world.Ordered) {event : ZooEvent} {after : ZooWorld}
    (stepped : world.step event = some after) : after.Ordered := by
  cases event with
  | callLock id client filename =>
      simp only [ZooWorld.step] at stepped
      split at stepped
      next here =>
        cases stepped
        exact ordered.start here client filename
      next => cases stepped
  | createParent id ok =>
      simp only [ZooWorld.step] at stepped
      split at stepped
      next here =>
        have fits : Fits (world.calls id).filename := ordered.short id (by rw [here]; rfl)
        split at stepped
        · cases stepped
          exact (ordered.goTo .createNode (fun _ => by rw [here]; rfl) (fun _ => fits)
            ⟨rfl, rfl⟩).createParent fits
        · cases stepped
          exact ordered.returns id
      next => cases stepped
  | createNode id seq =>
      simp only [ZooWorld.step] at stepped
      split at stepped
      next here =>
        split at stepped
        · cases stepped
          exact ordered.returns id
        · split at stepped
          next admits =>
            cases stepped
            exact ordered.createNode here admits
          next => cases stepped
      next => cases stepped
  | lock id ok =>
      obtain ⟨call, moved, rfl⟩ := Option.map_eq_some_iff.mp stepped
      obtain ⟨continues, chosen⟩ := LockCall.chosen_of_lockStep moved
      refine ordered.goesOn continues fun isChosen => (chosen isChosen).imp_right ?_
      rintro ⟨names, answered, first⟩
      exact answer_eq_some answered ▸ first
  | fire id watch =>
      obtain ⟨call, moved, rfl⟩ := Option.map_eq_some_iff.mp stepped
      obtain ⟨continues, chosen⟩ := LockCall.chosen_of_fire moved
      exact ordered.goesOn continues fun isChosen => Or.inl (chosen isChosen)
  | watcher id watch ok =>
      obtain ⟨call, moved, rfl⟩ := Option.map_eq_some_iff.mp stepped
      obtain ⟨continues, chosen⟩ := LockCall.chosen_of_watcherStep moved
      refine ordered.goesOn continues fun isChosen => (chosen isChosen).imp_right ?_
      rintro ⟨names, answered, first⟩
      exact answer_eq_some answered ▸ first
  | callUnlock id =>
      simp only [ZooWorld.step] at stepped
      split at stepped
      next granted =>
        cases stepped
        have chosen : (world.calls id).IsChosen :=
          Nat.add_pos_right _ (Nat.add_pos_right _ granted.1)
        have unlocking := @Ordered.unlocks _ ordered id { world.calls id with unlock := .delete }
          ⟨rfl, rfl, rfl, rfl, rfl, rfl⟩ (by simp)
        have new : (world.setCall id { world.calls id with unlock := .delete }).calls id =
            { world.calls id with unlock := .delete } := Function.update_self ..
        have buffered := @Ordered.setBuf _ unlocking id (by rw [new]; exact chosen)
          (by rw [new]; simp)
        rw [new] at buffered
        exact buffered
      next => cases stepped
  | deleteNode id ok =>
      simp only [ZooWorld.step] at stepped
      split at stepped
      next here =>
        have unlocked := @Ordered.unlocks _ ordered id { world.calls id with unlock := .free }
          ⟨rfl, rfl, rfl, rfl, rfl, rfl⟩ (by simp)
        split at stepped
        · cases stepped
          exact unlocked
        next path held =>
          cases stepped
          split
          · exact unlocked.deleteNode held
          · exact unlocked
      next => cases stepped
  | freeElem id =>
      simp only [ZooWorld.step] at stepped
      split at stepped
      next here =>
        cases stepped
        exact ordered.unlocks ⟨rfl, rfl, rfl, rfl, rfl, rfl⟩ (by simp)
      next => cases stepped

theorem ordered_initial (initial : world.Initial) : world.Ordered := by
  obtain ⟨calls, children, buf⟩ := initial
  have none : ∀ id, (world.calls id).node = none := by
    intro id
    rw [calls id]
    rfl
  have unchosen : ∀ id, ¬ (world.calls id).IsChosen := by
    intro id
    rw [calls id]
    unfold LockCall.IsChosen
    decide
  refine ⟨children, fun id _ => none id, ?_, ?_, ?_, ?_, ?_, ?_, ?_, ?_⟩
  · intro id
    rw [calls id]
    nofun
  · intro id node isNode
    rw [none id] at isNode
    cases isNode
  · intro id
    rw [calls id]
    rfl
  · intro id other node _ isNode
    rw [none id] at isNode
    cases isNode
  · intro id node isNode
    rw [none id] at isNode
    cases isNode
  · intro client path directory last held
    rw [buf client] at held
    cases held
  · exact fun id chosen => absurd chosen (unchosen id)
  · exact fun id _ _ _ _ _ _ _ chosen => absurd chosen (unchosen id)

/-- The order holds in every run. -/
theorem ordered_of_reachable {admitted : ZooWorld → ZooEvent → Prop}
    (reached : zooSystem.ReachableVia admitted world) : world.Ordered := by
  apply reached.invariant ZooWorld.Ordered
  · exact fun _ initial => ordered_initial initial
  · exact fun _ _ _ _ ordered _ stepped => ordered.step stepped

theorem kept_of_reachable
    (reached : zooSystem.ReachableVia (fun world event => readsSettled world event = true) world) :
    world.Kept := by
  apply reached.invariant ZooWorld.Kept
  · intro start initial id
    rw [initial.calls id]
    exact LockCall.kept_fresh
  · exact fun _ _ _ _ kept settled stepped => kept.step settled stepped

/-- **The first call stays the first**: in every run, two calls for a file name
are not both granted and not unlocked. -/
theorem Ordered.alone (ordered : world.Ordered) {first second : Nat}
    (holds : (world.calls first).Holds) (other : (world.calls second).Holds)
    (sameFile : (world.calls first).filename = (world.calls second).filename) : first = second := by
  by_contra different
  have chosen : ∀ {id}, (world.calls id).Holds → (world.calls id).IsChosen :=
    fun held => Nat.add_pos_right _ (Nat.add_pos_right _ held.1)
  obtain ⟨node, isNode, _⟩ := ordered.whole first (chosen holds)
  obtain ⟨rival, isRival, _⟩ := ordered.whole second (chosen other)
  have below := ordered.first first second node rival different sameFile isNode isRival
    (chosen holds) holds.2 other.2
  have above := ordered.first second first rival node (Ne.symm different) sameFile.symm isRival
    isNode (chosen other) other.2 holds.2
  exact lt_asymm below above

end ZooWorld

/-- **Locks are granted once and exclusively** in every run in which no watcher
reads `elem->callback` while another thread that has found the call the first is
still to write NULL, nor after the element is freed. -/
theorem grants_once_exclusively {world : ZooWorld}
    (reached : zooSystem.ReachableVia (fun world event => readsSettled world event = true) world) :
    world.GrantsExclusively where
  once := by
    intro id
    have grants := (ZooWorld.kept_of_reachable reached id).balanced.2.1
    unfold LockCall.granted at grants
    omega
  alone := fun _ _ holds other sameFile =>
    (ZooWorld.ordered_of_reachable reached).alone holds other sameFile

/-- A service without nodes. -/
def emptyService : ZooWorld where
  calls := fun _ => LockCall.fresh
  children := fun _ => []
  nextSeq := fun _ => 0
  buf := fun _ => none

theorem initial_emptyService : zooSystem.init emptyService :=
  ⟨fun _ => rfl, fun _ _ listed => absurd listed List.not_mem_nil, fun _ => rfl⟩

/-- A call up to its node. -/
def enqueues (id client : Nat) (filename : Name) (seq : Nat) : List ZooEvent :=
  [.callLock id client filename, .createParent id true, .createNode id (some seq)]

/-- The steps of a watcher from the event to the end. -/
def watches (id watch steps : Nat) : List ZooEvent :=
  .fire id watch :: List.replicate steps (.watcher id watch true)

/-- Client 1 has the lock, client 2 waits and gets it after the unlock. -/
def handOver : List ZooEvent :=
  enqueues 0 1 [97] 0 ++ List.replicate 3 (.lock 0 true) ++
    (enqueues 1 2 [97] 1 ++ [.lock 1 true] ++ watches 0 0 2 ++
      ([.callUnlock 0, .deleteNode 0 true, .freeElem 0] ++ watches 1 0 6))

theorem grants_once_exclusively_handOver :
    (zooSystem.outcome emptyService handOver).GrantsExclusively :=
  grants_once_exclusively
    (System.reachableVia_outcome initial_emptyService handOver (by decide +kernel))

example : ((zooSystem.outcome emptyService handOver).calls 1).runs = 1 := by decide +kernel

/-- Client 1 has found its call the first.  Before it writes NULL, client 2 makes
its node, and the watcher of client 1 runs from its event to its end. -/
def overtaken : List ZooEvent :=
  enqueues 0 1 [97] 0 ++ [.lock 0 true] ++ enqueues 1 2 [97] 1 ++ watches 0 0 6 ++
    List.replicate 2 (.lock 0 true)

/-- The callback runs twice. -/
theorem not_always_grants_once :
    ¬ ∀ world : ZooWorld, zooSystem.Reachable world → world.GrantsExclusively := by
  intro always
  have reached : zooSystem.Reachable (zooSystem.outcome emptyService overtaken) :=
    System.reachable_outcome initial_emptyService overtaken
  have once := (always _ reached).once 0
  revert once
  decide +kernel

end SimpleDfs.Zookeeper
