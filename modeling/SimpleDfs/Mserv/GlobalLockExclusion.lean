import SimpleDfs.Mserv.GlobalLock

/-!
Contract: mutual exclusion of the global lock over whole runs.

Owns: what each handler does to the granted entries, the requests under which
mutual exclusion survives, the run theorem, and a run in which it is lost.

Three branches break the law.  A repeated GLOBAL_LOCK takes over an entry that
is still granted; GLOBAL_UNLOCK releases the mask of an entry that only waits;
the wake-up loop marks the entry of a vanished client as granted before it
finds the client missing.
-/

set_option autoImplicit false

namespace SimpleDfs.Mserv

open SimpleDfs.Common
open SimpleDfs.Library

/-! ## Holders of a bit after a table update -/

theorem holds_insert (mserv : MServer) (mask : Mask) (bit : Nat) (lockId current : SId)
    (elem : GlockElem) :
    Holds { glock := mask, glockElems := mserv.glockElems.insert current elem } bit lockId ↔
      if lockId = current then elem.isWaiting = false ∧ elem.lock.getLsbD bit = true
      else Holds mserv bit lockId := by
  unfold Holds Granted
  by_cases same : lockId = current
  · subst same
    simp [and_assoc]
  · simp [AList.lookup_insert_ne same, same]

theorem holds_erase (mserv : MServer) (mask : Mask) (bit : Nat) (lockId current : SId) :
    Holds { glock := mask, glockElems := mserv.glockElems.erase current } bit lockId ↔
      lockId ≠ current ∧ Holds mserv bit lockId := by
  unfold Holds Granted
  by_cases same : lockId = current
  · subst same
    simp
  · simp [AList.lookup_erase_ne same, same]

/-- Granting a mask that meets no granted one keeps mutual exclusion. -/
theorem bitExclusive_grant {mserv : MServer} {current : SId} (elem : GlockElem)
    (exclusive : BitExclusive mserv) (vacant : ∀ bit, ¬ Holds mserv bit current)
    (free : mserv.glock &&& elem.lock = 0#32) :
    BitExclusive { glock := mserv.glock ||| elem.lock
                   glockElems := mserv.glockElems.insert current
                     { elem with isWaiting := false } } := by
  rw [and_eq_zero_iff] at free
  refine ⟨fun bit => ?_, fun bit lockId other => ?_⟩
  · simp only [BitVec.getLsbD_or, Bool.or_eq_true, exclusive.held, holds_insert]
    constructor
    · rintro (⟨lockId, held⟩ | held)
      · have different : lockId ≠ current := fun same => vacant bit (same ▸ held)
        exact ⟨lockId, by simpa [different] using held⟩
      · exact ⟨current, by simpa using held⟩
    · rintro ⟨lockId, held⟩
      by_cases same : lockId = current
      · right
        simpa [same] using held
      · left
        exact ⟨lockId, by simpa [same] using held⟩
  · simp only [holds_insert]
    have apart : ∀ name, name ≠ current → Holds mserv bit name →
        elem.lock.getLsbD bit = true → False := fun name _ held inMask =>
      free bit ((exclusive.held bit).mpr ⟨name, held⟩) inMask
    by_cases first : lockId = current <;> by_cases second : other = current
    · intro _ _
      rw [first, second]
    · simp only [first, second, if_true, if_false, true_and]
      intro inMask held
      exact (apart other second held inMask).elim
    · simp only [first, second, if_true, if_false, true_and]
      intro held inMask
      exact (apart lockId first held inMask).elim
    · simp only [first, second, if_false]
      exact exclusive.unique bit lockId other

/-- Queueing a request under a name that holds no bit keeps mutual exclusion. -/
theorem bitExclusive_park {mserv : MServer} {current : SId} {elem : GlockElem}
    (exclusive : BitExclusive mserv) (vacant : ∀ bit, ¬ Holds mserv bit current)
    (waiting : elem.isWaiting = true) :
    BitExclusive { mserv with glockElems := mserv.glockElems.insert current elem } := by
  have sameHolders : ∀ bit lockId,
      Holds { mserv with glockElems := mserv.glockElems.insert current elem } bit lockId ↔
        Holds mserv bit lockId := by
    intro bit lockId
    rw [holds_insert]
    split
    next same =>
      subst same
      simp [waiting, vacant bit]
    next => rfl
  refine ⟨fun bit => ?_, fun bit lockId other => ?_⟩
  · simp only [sameHolders]
    exact exclusive.held bit
  · simp only [sameHolders]
    exact exclusive.unique bit lockId other

/-- Deleting an entry and clearing its mask keeps mutual exclusion, if the mask
cleared is one the entry holds or one that nobody holds. -/
theorem bitExclusive_release {mserv : MServer} {current : SId} {elem : GlockElem}
    (exclusive : BitExclusive mserv) (found : mserv.glockElems.lookup current = some elem)
    (owned : elem.isWaiting = true → mserv.glock &&& elem.lock = 0#32) :
    BitExclusive { glock := mserv.glock &&& ~~~elem.lock
                   glockElems := mserv.glockElems.erase current } := by
  -- a holder of `bit` is either the deleted entry or keeps its bit
  have cleared : ∀ bit lockId, Holds mserv bit lockId →
      (lockId = current ↔ elem.lock.getLsbD bit = true) := by
    intro bit lockId held
    have set : mserv.glock.getLsbD bit = true := (exclusive.held bit).mpr ⟨lockId, held⟩
    constructor
    · rintro rfl
      obtain ⟨holder, ⟨present, _⟩, inMask⟩ := held
      rw [found] at present
      cases present
      exact inMask
    · intro inMask
      cases waiting : elem.isWaiting with
      | true => exact ((and_eq_zero_iff _ _).mp (owned waiting) bit set inMask).elim
      | false => exact exclusive.unique bit lockId current held ⟨elem, ⟨found, waiting⟩, inMask⟩
  refine ⟨fun bit => ?_, fun bit lockId other => ?_⟩
  · simp only [holds_erase, BitVec.getLsbD_and, BitVec.getLsbD_not, Bool.and_eq_true,
      Bool.not_eq_true', decide_eq_true_eq]
    constructor
    · rintro ⟨set, _, outside⟩
      obtain ⟨lockId, held⟩ := (exclusive.held bit).mp set
      refine ⟨lockId, fun same => ?_, held⟩
      have inMask := (cleared bit lockId held).mp same
      rw [inMask] at outside
      cases outside
    · rintro ⟨lockId, different, held⟩
      have set := (exclusive.held bit).mpr ⟨lockId, held⟩
      refine ⟨set, BitVec.lt_of_getLsbD set, ?_⟩
      rw [← Bool.not_eq_true]
      exact fun inMask => different ((cleared bit lockId held).mpr inMask)
  · simp only [holds_erase]
    rintro ⟨_, held⟩ ⟨_, otherHeld⟩
    exact exclusive.unique bit lockId other held otherHeld

/-! ## The wake-up loop -/

theorem not_holds_of_waiting {mserv : MServer} {current : SId} {elem : GlockElem}
    (found : mserv.glockElems.lookup current = some elem) (waiting : elem.isWaiting = true)
    (bit : Nat) : ¬ Holds mserv bit current := by
  rintro ⟨holder, ⟨present, granted⟩, _⟩
  rw [found] at present
  cases present
  rw [waiting] at granted
  cases granted

/-- The loop serves its keys one after the other. -/
theorem wakeLoop_cons (active : Nat → Bool) (mserv : MServer) (current : SId)
    (rest : List SId) :
    (wakeLoop active mserv (current :: rest)).1 =
      (wakeLoop active (wakeLoop active mserv [current]).1 rest).1 := by
  simp only [wakeLoop]
  split
  next => rfl
  next elem found =>
    by_cases granted : (!elem.isWaiting) = true
    · rw [if_pos granted, if_pos granted]
    · rw [if_neg granted, if_neg granted]
      by_cases meets : mserv.glock &&& elem.lock ≠ 0#32
      · rw [if_pos meets, if_pos meets]
      · rw [if_neg meets, if_neg meets]
        by_cases gone : (!active elem.clientId) = true
        · rw [if_pos gone, if_pos gone]
        · rw [if_neg gone, if_neg gone]

/-- The waiting entry under `current` could be granted and its mask is not
empty, but its client is gone. -/
def VanishedAt (active : Nat → Bool) (mserv : MServer) (current : SId) : Prop :=
  ∃ elem, mserv.glockElems.lookup current = some elem ∧ elem.isWaiting = true ∧
    mserv.glock &&& elem.lock = 0#32 ∧ active elem.clientId = false ∧ elem.lock ≠ 0#32

/-- The loop takes its vanished-client branch for no entry with a mask. -/
def NeverVanished (active : Nat → Bool) : MServer → List SId → Prop
  | _, [] => True
  | mserv, current :: rest =>
      ¬ VanishedAt active mserv current ∧
        NeverVanished active (wakeLoop active mserv [current]).1 rest

/-- One turn of the loop keeps mutual exclusion outside the vanished-client
branch. -/
theorem bitExclusive_wakeTurn {active : Nat → Bool} {mserv : MServer} {current : SId}
    (exclusive : BitExclusive mserv) (present : ¬ VanishedAt active mserv current) :
    BitExclusive (wakeLoop active mserv [current]).1 := by
  simp only [wakeLoop]
  split
  next => exact exclusive
  next elem found =>
    split
    next => exact exclusive
    next notGranted =>
      have waiting : elem.isWaiting = true := by simpa using notGranted
      split
      next => exact exclusive
      next meets =>
        have free : mserv.glock &&& elem.lock = 0#32 := by simpa using meets
        have granted := bitExclusive_grant elem exclusive (not_holds_of_waiting found waiting) free
        split
        next gone =>
          -- the branch is harmless for an empty mask only
          have empty : elem.lock = 0#32 := by
            by_contra occupied
            exact present ⟨elem, found, waiting, free, by simpa using gone, occupied⟩
          have unchanged : mserv.glock ||| elem.lock = mserv.glock := by
            rw [empty, BitVec.or_zero]
          rw [unchanged] at granted
          exact granted
        next => exact granted

theorem bitExclusive_wakeLoop {active : Nat → Bool} (keys : List SId) :
    ∀ {mserv : MServer}, BitExclusive mserv → NeverVanished active mserv keys →
      BitExclusive (wakeLoop active mserv keys).1 := by
  induction keys with
  | nil =>
      intro mserv exclusive _
      exact exclusive
  | cons current rest inductionHypothesis =>
      intro mserv exclusive never
      rw [wakeLoop_cons]
      exact inductionHypothesis (bitExclusive_wakeTurn exclusive never.1) never.2

/-! ## Runs -/

/-- The requests that keep mutual exclusion in the state they meet.

A GLOBAL_LOCK names no entry that is granted with a non-empty mask.  A
GLOBAL_UNLOCK names an entry that is granted, or whose mask nobody holds, and
its wake-up loop meets no grantable entry of a vanished client. -/
def GlockAdmitted (world : GlockWorld) : GlockEvent → Prop
  | .glock _ _ lockId _ =>
      ∀ elem, Granted world.mserv lockId elem → elem.lock = 0#32
  | .unlock _ lockId order =>
      ∀ elem, world.mserv.glockElems.lookup lockId = some elem →
        (elem.isWaiting = true → world.mserv.glock &&& elem.lock = 0#32) ∧
          NeverVanished world.connected (releaseElem world.mserv lockId elem)
            (order.arrange (releaseElem world.mserv lockId elem).glockElems.keys)
  | .connection _ _ => True

theorem bitExclusive_initMserv : BitExclusive initMserv := by
  have nobody : ∀ bit lockId, ¬ Holds initMserv bit lockId := by
    rintro bit lockId ⟨elem, ⟨found, _⟩, _⟩
    cases found
  refine ⟨fun bit => ?_, fun bit lockId other held => (nobody bit lockId held).elim⟩
  constructor
  · intro set
    simp [initMserv] at set
  · rintro ⟨lockId, held⟩
    exact (nobody bit lockId held).elim

/-- One GLOBAL_LOCK request. -/
theorem bitExclusive_sCoreMservGlock {mserv : MServer} (exclusive : BitExclusive mserv)
    (client : Nat) (reqId : BitVec 32) {lockId : SId} (lock : Mask)
    (fresh : ∀ elem, Granted mserv lockId elem → elem.lock = 0#32) :
    BitExclusive (sCoreMservGlock mserv client reqId lockId lock).1 := by
  have vacant : ∀ bit, ¬ Holds mserv bit lockId := by
    rintro bit ⟨elem, granted, held⟩
    rw [fresh elem granted] at held
    simp at held
  unfold sCoreMservGlock
  split
  next free =>
    exact bitExclusive_grant
      { clientId := client, reqId := reqId, lock := lock, isWaiting := true }
      exclusive vacant free
  next => exact bitExclusive_park exclusive vacant rfl

/-- One GLOBAL_UNLOCK request. -/
theorem bitExclusive_sCoreMservGlockUnlock {world : GlockWorld} {client : Nat} {lockId : SId}
    {order : IterOrder SId} {after : MServer × List GlockReply}
    (exclusive : BitExclusive world.mserv)
    (admitted : GlockAdmitted world (.unlock client lockId order))
    (handled : sCoreMservGlockUnlock world.connected order world.mserv client lockId =
      some after) :
    BitExclusive after.1 := by
  unfold sCoreMservGlockUnlock at handled
  split at handled
  next =>
    cases handled
    exact exclusive
  next elem found =>
    obtain ⟨owned, never⟩ := admitted elem found
    split at handled
    next =>
      cases handled
      exact bitExclusive_wakeLoop _ (bitExclusive_release exclusive found owned) never
    next => cases handled

/-- **Mutual exclusion of the global lock.**  In every run whose requests are
admitted, granted masks are pairwise disjoint and `glock` is their union after
every handler. -/
theorem exclusive_of_admitted {world : GlockWorld}
    (reached : glockSystem.ReachableVia GlockAdmitted world) : Exclusive world.mserv := by
  rw [exclusive_iff_bitExclusive]
  refine reached.invariant (fun world => BitExclusive world.mserv) ?_ ?_
  · intro start initial
    rw [initial.1]
    exact bitExclusive_initMserv
  · intro before event after _ exclusive admitted stepped
    cases event with
    | glock client reqId lockId lock =>
        cases stepped
        exact bitExclusive_sCoreMservGlock exclusive client reqId lock admitted
    | unlock client lockId order =>
        change GlockWorld.step before (.unlock client lockId order) = some after at stepped
        rw [GlockWorld.step] at stepped
        split at stepped
        next => cases stepped
        next mserv replies handled =>
          cases stepped
          exact bitExclusive_sCoreMservGlockUnlock exclusive admitted handled
    | connection client established =>
        cases stepped
        exact exclusive

/-- Everybody connected, nothing locked. -/
def idleGlockWorld : GlockWorld where
  mserv := initMserv
  connected := fun _ => true
  replies := []

/-- Client 1 takes bit 0, client 2 waits for it and gets it. -/
theorem exclusive_of_admitted_handover :
    ∃ world : GlockWorld, Exclusive world.mserv ∧ world.mserv.glock = 1#32 ∧ world.replies =
      [{ client := 1, reqId := 7#32, body := .echo },
        { client := 2, reqId := 8#32, body := .granted ⟨2, 1⟩ }] := by
  have start : glockSystem.ReachableVia GlockAdmitted idleGlockWorld :=
    System.ReachableVia.start ⟨rfl, rfl⟩
  have first := start.step (.glock 1 7#32 ⟨1, 1⟩ 1#32)
    (by rintro elem ⟨found, _⟩; cases found) rfl
  have second := first.step (.glock 2 8#32 ⟨2, 1⟩ 1#32)
    (by rintro elem ⟨found, _⟩; cases found) rfl
  have third := second.step (.unlock 1 ⟨1, 1⟩ IterOrder.natural)
    (by
      intro elem found
      cases found
      refine And.intro (fun waiting => nomatch waiting) (And.intro ?_ trivial)
      rintro ⟨elem, found, _, _, gone, _⟩
      cases gone) rfl
  exact ⟨_, exclusive_of_admitted third, by decide, by decide⟩

/-- Mutual exclusion is lost in a run of one connected client: it requests an
id again while the id is granted, so the entry no longer accounts for bit 0. -/
theorem not_always_exclusive :
    ¬ ∀ world, glockSystem.Reachable world → Exclusive world.mserv := by
  intro always
  have start : glockSystem.Reachable idleGlockWorld := System.ReachableVia.start ⟨rfl, rfl⟩
  have first := start.step (.glock 1 7#32 ⟨1, 1⟩ 1#32) trivial rfl
  have second := first.step (.glock 1 8#32 ⟨1, 1⟩ 2#32) trivial rfl
  have exact := (always _ second).exact
  revert exact
  decide

end SimpleDfs.Mserv
