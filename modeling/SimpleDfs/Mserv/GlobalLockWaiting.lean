import SimpleDfs.Mserv.GlobalLockExclusion

/-!
Contract: no lost wake-up of the global lock.

Owns: the law that a waiting entry always meets a taken bit, what one turn of
the wake-up loop does to the entries it has passed, and the run theorem.

GLOBAL_UNLOCK is the only place where bits are cleared.  Its loop may grant
several waiters, and the mask only grows while it runs, so an entry that was
left waiting by its own turn still meets a taken bit at the end.

Does not own: mutual exclusion, which is lost in some runs in which this law
still holds.
-/

set_option autoImplicit false

namespace SimpleDfs.Mserv

open SimpleDfs.Common
open SimpleDfs.Library

/-- The entry of `lockId`, if it waits, waits for a bit that is taken. -/
def WaitsForTaken (mserv : MServer) (lockId : SId) : Prop :=
  ∀ elem, mserv.glockElems.lookup lockId = some elem → elem.isWaiting = true →
    mserv.glock &&& elem.lock ≠ 0#32

/-- Every bit of `before` is a bit of `after`. -/
def Mask.Below (before after : Mask) : Prop :=
  ∀ bit, before.getLsbD bit = true → after.getLsbD bit = true

theorem Mask.Below.refl (mask : Mask) : Mask.Below mask mask :=
  fun _ set => set

theorem Mask.Below.or (mask lock : Mask) : Mask.Below mask (mask ||| lock) := by
  intro bit set
  simp [set]

/-- A mask that meets `before` meets everything above it. -/
theorem Mask.Below.meets {before after lock : Mask} (below : Mask.Below before after)
    (meets : before &&& lock ≠ 0#32) : after &&& lock ≠ 0#32 := by
  intro apart
  apply meets
  rw [and_eq_zero_iff] at apart ⊢
  intro bit set
  exact apart bit (below bit set)

/-! ## One turn of the wake-up loop -/

/-- A turn clears no bit. -/
theorem glock_wakeTurn (active : Nat → Bool) (mserv : MServer) (current : SId) :
    Mask.Below mserv.glock (wakeLoop active mserv [current]).1.glock := by
  simp only [wakeLoop]
  split
  next => exact Mask.Below.refl _
  next elem found =>
    split
    next => exact Mask.Below.refl _
    next =>
      split
      next => exact Mask.Below.refl _
      next =>
        split
        next => exact Mask.Below.refl _
        next => exact Mask.Below.or _ _

/-- A turn writes to its own entry only. -/
theorem lookup_wakeTurn (active : Nat → Bool) (mserv : MServer) (current : SId) {other : SId}
    (different : other ≠ current) :
    (wakeLoop active mserv [current]).1.glockElems.lookup other =
      mserv.glockElems.lookup other := by
  simp only [wakeLoop]
  split
  next => rfl
  next elem found =>
    split
    next => rfl
    next =>
      split
      next => rfl
      next =>
        split
        next => exact AList.lookup_insert_ne different
        next => exact AList.lookup_insert_ne different

/-- After its turn an entry is granted, or waits for a taken bit. -/
theorem waitsForTaken_wakeTurn_self (active : Nat → Bool) (mserv : MServer) (current : SId) :
    WaitsForTaken (wakeLoop active mserv [current]).1 current := by
  intro later foundLater waiting
  simp only [wakeLoop] at foundLater ⊢
  split at foundLater
  next absent =>
    rw [absent] at foundLater
    cases foundLater
  next elem found =>
    split at foundLater
    next granted =>
      rw [found] at foundLater
      cases foundLater
      simp [waiting] at granted
    next notGranted =>
      split at foundLater
      next meets =>
        rw [found] at foundLater
        cases foundLater
        rw [if_neg notGranted, if_pos meets]
        exact meets
      next =>
        -- both remaining branches have cleared `is_waiting`
        split at foundLater <;>
        · rw [AList.lookup_insert] at foundLater
          cases foundLater
          cases waiting

/-- A turn forgets no other entry. -/
theorem waitsForTaken_wakeTurn (active : Nat → Bool) (mserv : MServer) (current : SId)
    {other : SId} (waits : WaitsForTaken mserv other) :
    WaitsForTaken (wakeLoop active mserv [current]).1 other := by
  by_cases same : other = current
  · rw [same]
    exact waitsForTaken_wakeTurn_self active mserv current
  · intro elem found waiting
    rw [lookup_wakeTurn active mserv current same] at found
    exact (glock_wakeTurn active mserv current).meets (waits elem found waiting)

/-! ## The whole loop -/

theorem waitsForTaken_wakeLoop {active : Nat → Bool} (keys : List SId) :
    ∀ {mserv : MServer}, (∀ lockId, lockId ∉ keys → WaitsForTaken mserv lockId) →
      ∀ lockId, WaitsForTaken (wakeLoop active mserv keys).1 lockId := by
  induction keys with
  | nil =>
      intro mserv outside lockId
      exact outside lockId List.not_mem_nil
  | cons current rest inductionHypothesis =>
      intro mserv outside
      rw [wakeLoop_cons]
      apply inductionHypothesis
      intro lockId notAhead
      by_cases same : lockId = current
      · rw [same]
        exact waitsForTaken_wakeTurn_self active mserv current
      · apply waitsForTaken_wakeTurn
        apply outside
        simp [same, notAhead]

/-! ## Runs -/

/-- One GLOBAL_LOCK request.  The mask grows, and the entry is parked only
behind a taken bit. -/
theorem waitsForTaken_sCoreMservGlock {mserv : MServer}
    (waits : ∀ lockId, WaitsForTaken mserv lockId) (client : Nat) (reqId : BitVec 32)
    (current : SId) (lock : Mask) (lockId : SId) :
    WaitsForTaken (sCoreMservGlock mserv client reqId current lock).1 lockId := by
  unfold sCoreMservGlock
  intro elem found waiting
  by_cases same : lockId = current
  · subst same
    split at found
    next =>
      rw [AList.lookup_insert] at found
      cases found
      cases waiting
    next meets =>
      rw [AList.lookup_insert] at found
      cases found
      rw [if_neg meets]
      exact meets
  · split at found
    next free =>
      rw [AList.lookup_insert_ne same] at found
      rw [if_pos free]
      exact (Mask.Below.or _ _).meets (waits lockId elem found waiting)
    next meets =>
      rw [AList.lookup_insert_ne same] at found
      rw [if_neg meets]
      exact waits lockId elem found waiting

/-- One GLOBAL_UNLOCK request.  The loop visits every entry that is left, in
whatever order the table is iterated. -/
theorem waitsForTaken_sCoreMservGlockUnlock {active : Nat → Bool} {order : IterOrder SId}
    {mserv : MServer} {client : Nat} {current : SId} {after : MServer × List GlockReply}
    (waits : ∀ lockId, WaitsForTaken mserv lockId)
    (handled : sCoreMservGlockUnlock active order mserv client current = some after)
    (lockId : SId) : WaitsForTaken after.1 lockId := by
  unfold sCoreMservGlockUnlock at handled
  split at handled
  next =>
    cases handled
    exact waits lockId
  next elem found =>
    split at handled
    next =>
      cases handled
      apply waitsForTaken_wakeLoop
      intro other absent held present
      rw [IterOrder.mem_arrange] at absent
      have inTable := AList.lookup_isSome.mp (Option.isSome_of_eq_some present)
      exact absurd (AList.mem_keys.mpr inTable) absent
    next => cases handled

/-- **No lost wake-up.**  In every reachable state each entry that is still
waiting has a mask that intersects `glock`. -/
theorem waiting_meets_glock {world : GlockWorld} (reached : glockSystem.Reachable world) :
    ∀ lockId elem, world.mserv.glockElems.lookup lockId = some elem → elem.isWaiting = true →
      world.mserv.glock &&& elem.lock ≠ 0#32 := by
  refine reached.invariant (fun world => ∀ lockId, WaitsForTaken world.mserv lockId) ?_ ?_
  · intro start initial lockId elem found
    rw [initial.1] at found
    cases found
  · intro before event after _ waits _ stepped
    cases event with
    | glock client reqId lockId lock =>
        cases stepped
        exact waitsForTaken_sCoreMservGlock waits client reqId lockId lock
    | unlock client lockId order =>
        change GlockWorld.step before (.unlock client lockId order) = some after at stepped
        rw [GlockWorld.step] at stepped
        split at stepped
        next => cases stepped
        next mserv replies handled =>
          cases stepped
          exact waitsForTaken_sCoreMservGlockUnlock waits handled
    | connection client established =>
        cases stepped
        exact waits

/-- Clients 2 and 3 wait for bit 0; the unlock of client 1 wakes one of them,
and the other waits for the bit just taken. -/
theorem waiting_meets_glock_two_waiters :
    ∃ world : GlockWorld, world.mserv.glock = 1#32 ∧
      (∃ lockId elem, world.mserv.glockElems.lookup lockId = some elem ∧
        elem.isWaiting = true) ∧
      ∀ lockId elem, world.mserv.glockElems.lookup lockId = some elem →
        elem.isWaiting = true → world.mserv.glock &&& elem.lock ≠ 0#32 := by
  have start : glockSystem.Reachable idleGlockWorld := System.ReachableVia.start ⟨rfl, rfl⟩
  have first := start.step (.glock 1 7#32 ⟨1, 1⟩ 1#32) trivial rfl
  have second := first.step (.glock 2 8#32 ⟨2, 1⟩ 1#32) trivial rfl
  have third := second.step (.glock 3 9#32 ⟨3, 1⟩ 1#32) trivial rfl
  have fourth := third.step (.unlock 1 ⟨1, 1⟩ IterOrder.natural) trivial rfl
  exact ⟨_, by decide, ⟨⟨2, 1⟩, _, rfl, rfl⟩, waiting_meets_glock fourth⟩

end SimpleDfs.Mserv
