import SimpleDfs.Dserv.Ordering
import Mathlib.Order.Interval.Set.Infinite
import Mathlib.Data.Set.Finite.Lattice
import Mathlib.Data.Set.Finite.List

/-!
Contract: chained locks do not deadlock.

Owns: every waiting lock is held up by an unfinished sent lock; a server that
took an operation has told, or is telling, every earlier one; and a network
without requests and releases in flight has no waiting lock.

A waiting lock is held up by an operation that still has to reach a larger
server, so a largest server with a waiting lock cannot exist.

Does not own: the order in which operations are taken.
-/

set_option autoImplicit false

namespace SimpleDfs.Dserv

open SimpleDfs.Common
open SimpleDfs.Library

/-! ## Every waiting lock has a reason -/

/-- Every waiting lock meets an unfinished sent lock. -/
def Blocked (world : LockWorld) : Prop :=
  ∀ servId, ∀ lock ∈ (world.dservs servId).lockWaiting,
    ∃ sent ∈ (world.dservs servId).lockSent, MeetUnfinished sent.ahead lock.ahead

/-- The rescan ends with a conflict for every lock it leaves behind. -/
theorem rescan_conflict (core : Core) :
    ∀ (fuel : Nat) (dserv : Dserver), dserv.lockWaiting.length ≤ fuel →
      ∀ lock ∈ (rescan core fuel dserv).1.lockWaiting,
        ilockConflictAll core (rescan core fuel dserv).1 lock = true := by
  intro fuel
  induction fuel with
  | zero =>
      intro dserv enough lock member
      have empty : dserv.lockWaiting = [] := List.length_eq_zero_iff.mp (by omega)
      rw [rescan, empty] at member
      exact absurd member List.not_mem_nil
  | succ fuel inductionHypothesis =>
      intro dserv enough
      rw [rescan]
      split
      next none =>
        intro lock member
        have passed := List.find?_eq_none.mp none lock member
        simpa using passed
      next lock found =>
        apply inductionHypothesis
        rw [ilockTakeDone_lockWaiting]
        have member := List.mem_of_find?_eq_some found
        have shorter := List.length_eraseP_of_mem
          (p := fun lock => !ilockConflictAll core dserv lock) member
          (List.find?_eq_some_iff_append.mp found).1
        have occupied := List.length_pos_of_mem member
        dsimp only
        omega

theorem rescan_lockWaiting_of_unlock {core : Core} {dserv : Dserver} {sender : Int} {id : SId}
    (unknown : dserv.locks.lookup id = none) :
    sCoreDservLockUnlock core dserv sender id = (dserv, []) := by
  simp [sCoreDservLockUnlock, unknown]

/-- A lock handler leaves only blocked locks behind. -/
theorem blocked_sCoreDservLock {core : Core} {dserv after : Dserver} {pkt : LockPacket}
    {sends : Sends} (handled : sCoreDservLock core dserv pkt = some (after, sends)) :
    (∃ lock, after.lockWaiting = dserv.lockWaiting ++ [lock] ∧
        after.lockSent = dserv.lockSent ∧ ilockConflictAll core after lock = true) ∨
      (after.lockWaiting = dserv.lockWaiting ∧ dserv.lockSent ⊆ after.lockSent) := by
  unfold sCoreDservLock at handled
  dsimp only at handled
  split at handled
  next =>
    split at handled
    next conflict =>
      cases handled
      exact Or.inl ⟨_, rfl, rfl, conflict⟩
    next =>
      have first := congrArg Prod.fst (Option.some.inj handled)
      dsimp only at first
      rw [← first]
      right
      refine ⟨ilockTakeDone_lockWaiting _ _ _, ?_⟩
      rw [ilockTakeDone_lockSent]
      split
      · exact List.subset_append_left _ _
      · exact List.Subset.refl _
  next => cases handled

/-- What dispatching a packet does to the waiting locks: a new one has a
conflict, or the old ones stay with at least the old sent locks, or all of them
have just been rescanned. -/
theorem dispatch_waiting {core : Core} {dserv after : Dserver} {packet : Packet Peer LockBody}
    {sends : Sends} (handled : dispatch core dserv packet = some (after, sends)) :
    (∃ lock, after.lockWaiting = dserv.lockWaiting ++ [lock] ∧
        after.lockSent = dserv.lockSent ∧ ilockConflictAll core after lock = true) ∨
      (after.lockWaiting = dserv.lockWaiting ∧ dserv.lockSent ⊆ after.lockSent) ∨
      ∀ lock ∈ after.lockWaiting, ilockConflictAll core after lock = true := by
  unfold dispatch at handled
  split at handled
  next => exact (blocked_sCoreDservLock handled).imp_right Or.inl
  next => exact (blocked_sCoreDservLock handled).imp_right Or.inl
  next sender id _ _ =>
    have first := congrArg Prod.fst (Option.some.inj handled)
    dsimp only at first
    right
    rw [← first]
    cases found : dserv.locks.lookup id with
    | none =>
        rw [rescan_lockWaiting_of_unlock found]
        exact Or.inl ⟨rfl, List.Subset.refl _⟩
    | some ref =>
        right
        simp only [sCoreDservLockUnlock, found]
        exact rescan_conflict core _ _ le_rfl
  next =>
    cases handled
    exact Or.inr (Or.inl ⟨rfl, List.Subset.refl _⟩)

theorem blocked_step {world after : LockWorld} {event : LockEvent} (blocked : Blocked world)
    (invariantAfter : LockInvariant after) (stepped : lockSystem.step world event = some after) :
    Blocked after := by
  change world.step event = some after at stepped
  cases event with
  | submit op =>
      rw [LockWorld.step] at stepped
      split at stepped
      next => cases stepped
      next =>
        cases stepped
        exact blocked
  | deliver index junk =>
      rw [LockWorld.step] at stepped
      split at stepped
      next => cases stepped
      next packet rest taken =>
        split at stepped
        next =>
          cases stepped
          exact blocked
        next servId _ =>
          dsimp only at stepped
          split at stepped
          next => cases stepped
          next dserv sends handled =>
            cases stepped
            intro other lock member
            by_cases same : other = servId
            · subst same
              rw [LockWorld.update_dservs_same] at member ⊢
              have reason : ilockConflictAll (connectedCore other junk) dserv lock = true →
                  ∃ sent ∈ dserv.lockSent, MeetUnfinished sent.ahead lock.ahead := by
                intro conflict
                have known := invariantAfter.dservs other
                rw [LockWorld.update_dservs_same] at known
                exact (ilockConflictAll_iff known junk (known.waiting lock member)).mp conflict
              rcases dispatch_waiting handled with ⟨newest, waiting, sent, conflict⟩ |
                ⟨waiting, sent⟩ | conflicts
              · rw [waiting] at member
                rcases List.mem_append.mp member with old | new
                · rw [sent]
                  exact blocked other lock old
                · exact reason (List.mem_singleton.mp new ▸ conflict)
              · rw [waiting] at member
                obtain ⟨holder, inSent, meet⟩ := blocked other lock member
                exact ⟨holder, sent inSent, meet⟩
              · exact reason (conflicts lock member)
            · rw [LockWorld.update_dservs_ne _ same] at member ⊢
              exact blocked other lock member

theorem blocked_reachable {world : LockWorld} (reached : lockSystem.Reachable world) :
    Blocked world := by
  refine reached.invariant Blocked ?_ ?_
  · intro start initial
    rw [initial]
    exact fun _ _ member => absurd member List.not_mem_nil
  · intro before event after reachedBefore blocked _ stepped
    exact blocked_step blocked
      (lockInvariant_reachable (reachedBefore.step event trivial stepped)) stepped

/-! ## Releases are never lost -/

/-- The sent lock of operation `id` at `servId` has `later` marked. -/
def Marked (world : LockWorld) (servId later : Int) (id : SId) : Prop :=
  ∃ lock ∈ (world.dservs servId).lockSent, lock.id = id ∧
    ∃ elem ∈ lock.elems, elem.servId = later ∧ elem.finish = true

/-- A LOCK_UNLOCK of operation `id` is on its way from `later` to `servId`. -/
def Releasing (world : LockWorld) (servId later : Int) (id : SId) : Prop :=
  { src := .dserv later, dst := .dserv servId, body := .lockUnlock id } ∈ world.net

/-- Every server that took an operation has told the earlier ones or is about
to. -/
def Told (world : LockWorld) : Prop :=
  ∀ op ∈ world.submitted, ∀ servId ∈ op.servIds, ∀ later, servId < later →
    op.id ∈ (world.dservs later).taken →
      Releasing world servId later op.id ∨ Marked world servId later op.id

theorem Marked.of_lockSent {before after : LockWorld} {servId later : Int} {id : SId}
    (marked : Marked before servId later id)
    (sent : (before.dservs servId).lockSent ⊆ (after.dservs servId).lockSent) :
    Marked after servId later id := by
  obtain ⟨lock, inSent, rest⟩ := marked
  exact ⟨lock, sent inSent, rest⟩

/-- Marking keeps what was marked. -/
theorem marked_mark {world : LockWorld} (invariant : LockInvariant world) {rest : Sends}
    {servId sender : Int} {id : SId} (later : servId < sender) {target ahead : Int} {name : SId}
    (marked : Marked world target ahead name) :
    Marked ({ world with net := rest }.update servId ((world.dservs servId).mark sender id) [])
      target ahead name := by
  by_cases same : target = servId
  · subst same
    cases found : (world.dservs target).locks.lookup id with
    | none =>
        refine marked.of_lockSent ?_
        rw [LockWorld.update_dservs_same, Dserver.mark, found]
        exact List.Subset.refl _
    | some ref =>
        obtain ⟨lock, inSent, lockId, elem, inLock, elemName, finish⟩ := marked
        unfold Marked
        rw [LockWorld.update_dservs_same, mark_eq (invariant.dservs target) later found]
        refine ⟨_, List.mem_map_of_mem inSent, ?_⟩
        split
        · obtain ⟨kept, inMarked, keptName, keptFinish⟩ :=
            markFinish_keeps sender lock.elems true elem inLock finish
          exact ⟨lockId, kept, inMarked, keptName.trans elemName, keptFinish⟩
        · exact ⟨lockId, elem, inLock, elemName, finish⟩
  · refine marked.of_lockSent ?_
    rw [LockWorld.update_dservs_ne _ same]
    exact List.Subset.refl _

/-- Marking records the sender. -/
theorem marked_of_mark {world : LockWorld} (invariant : LockInvariant world) {rest : Sends}
    {servId sender : Int} {op : Operation} (submitted : op ∈ world.submitted)
    (named : servId ∈ op.servIds) (senderNamed : sender ∈ op.servIds) (later : servId < sender)
    (reached : op.id ∈ (world.dservs sender).taken) :
    Marked ({ world with net := rest }.update servId ((world.dservs servId).mark sender op.id) [])
      servId sender op.id := by
  have known := invariant.dservs servId
  have takenHere := invariant.taken_below submitted reached named (le_of_lt later)
  obtain ⟨owner, ownerSubmitted, sameId, keeps⟩ := known.taken op.id takenHere
  obtain rfl := invariant.op_unique ownerSubmitted submitted sameId
  obtain ⟨lock, inSent, lockId⟩ := keeps sender senderNamed later
  have found := known.located lock inSent
  rw [lockId] at found
  obtain ⟨holder, holderSubmitted, _, _, holderId, _, names, _⟩ := known.sent lock inSent
  obtain rfl := invariant.op_unique holderSubmitted submitted (holderId.symm.trans lockId)
  obtain ⟨elem, inMarked, elemName, finish⟩ :=
    markFinish_marks sender lock.elems true (by rw [names]; exact senderNamed)
  unfold Marked
  rw [LockWorld.update_dservs_same, mark_eq known later found]
  refine ⟨_, List.mem_map_of_mem inSent, ?_⟩
  rw [if_pos rfl]
  exact ⟨lockId, elem, inMarked, elemName, finish⟩

theorem told_take {world : LockWorld} (invariant : LockInvariant world) (told : Told world)
    {servId junk : Int} {lock : CoreLock} {front back : List CoreLock}
    (queued : (world.dservs servId).lockWaiting = front ++ lock :: back) :
    Told
      (world.update servId
        (ilockTakeDone (connectedCore servId junk)
          { world.dservs servId with lockWaiting := front ++ back } lock).1
        (ilockTakeDone (connectedCore servId junk)
          { world.dservs servId with lockWaiting := front ++ back } lock).2) := by
  have inWaiting : lock ∈ (world.dservs servId).lockWaiting := by
    rw [queued]
    exact List.mem_append_right _ List.mem_cons_self
  obtain ⟨op, submitted, stage, ref, here, rfl, _⟩ := invariant.waiting_stage inWaiting
  intro other member target named later behind taken
  have old : other.id ∈ (world.dservs later).taken ∨ later = servId ∧ other.id = op.id := by
    by_cases same : later = servId
    · subst same
      rw [LockWorld.update_dservs_same, ilockTakeDone_taken, createLock_id] at taken
      rcases List.mem_append.mp taken with before | now
      · exact Or.inl before
      · exact Or.inr ⟨rfl, List.mem_singleton.mp now⟩
    · rw [LockWorld.update_dservs_ne _ same] at taken
      exact Or.inl taken
  rcases old with before | ⟨rfl, sameId⟩
  · rcases told other member target named later behind before with releasing | marked
    · exact Or.inl (List.mem_append_left _ releasing)
    · refine Or.inr (marked.of_lockSent ?_)
      by_cases same : target = servId
      · rw [same, LockWorld.update_dservs_same, ilockTakeDone_lockSent]
        split
        · exact List.subset_append_left _ _
        · exact List.Subset.refl _
      · rw [LockWorld.update_dservs_ne _ same]
        exact List.Subset.refl _
  · -- the server that takes the operation now tells every earlier one
    obtain rfl := invariant.op_unique member submitted sameId
    left
    rw [Releasing, LockWorld.update_net, ilockTakeDone_sends, ilockUnlock_createLock]
    have earlier := (Operation.mem_before here target).mpr ⟨named, behind⟩
    exact List.mem_append_right _ (List.mem_append_left _ (List.mem_map_of_mem earlier))

theorem told_move {before after : LockWorld} (invariant : LockInvariant before)
    (told : Told before) (move : LockMove before after) : Told after := by
  cases move with
  | submit op fresh =>
      intro other member servId named later behind taken
      rcases List.mem_cons.mp member with rfl | old
      · exact absurd taken (invariant.unused fresh later).1
      · exact (told other old servId named later behind taken).imp_left
          (List.mem_append_left _)
  | receive packet rest pkt servId inFlight dst asks here =>
      intro other member target named later behind taken
      rw [park_update_taken] at taken
      rcases told other member target named later behind taken with releasing | marked
      · left
        rw [Releasing, LockWorld.update_net, List.append_nil]
        rcases List.mem_cons.mp (inFlight.mem_iff.mp releasing) with same | inRest
        · rcases asks with ⟨_, _, body⟩ | ⟨_, _, body⟩ <;>
            · rw [← same] at body
              cases body
        · exact inRest
      · refine Or.inr (marked.of_lockSent ?_)
        by_cases same : target = servId
        · rw [same, LockWorld.update_dservs_same, Dserver.park]
          exact List.Subset.refl _
        · rw [LockWorld.update_dservs_ne _ same]
          exact List.Subset.refl _
  | take servId junk lock front back queued free => exact told_take invariant told queued
  | unlock packet rest sender servId id inFlight src dst body =>
      have known := invariant.packets packet (inFlight.mem_iff.mpr List.mem_cons_self)
      unfold PacketKnown at known
      simp only [body] at known
      obtain ⟨op, submitted, source, destination, rfl, from_, to_, opNamed, senderNamed, later_,
        reached⟩ := known
      obtain rfl : source = sender := Peer.dserv.inj (from_.symm.trans src)
      obtain rfl : destination = servId := Peer.dserv.inj (to_.symm.trans dst)
      intro other member target named later behind taken
      rw [mark_update_taken] at taken
      rcases told other member target named later behind taken with releasing | marked
      · rcases List.mem_cons.mp (inFlight.mem_iff.mp releasing) with same | inRest
        · -- the release that arrives here
          rw [← same] at src dst body
          obtain rfl := Peer.dserv.inj src
          obtain rfl := Peer.dserv.inj dst
          obtain rfl := invariant.op_unique member submitted (LockBody.lockUnlock.inj body)
          exact Or.inr (marked_of_mark invariant submitted opNamed senderNamed later_ reached)
        · left
          rw [Releasing, LockWorld.update_net, List.append_nil]
          exact inRest
      · exact Or.inr (marked_mark invariant later_ marked)
  | ended packet rest id inFlight body =>
      intro other member target named later behind taken
      rcases told other member target named later behind taken with releasing | marked
      · rcases List.mem_cons.mp (inFlight.mem_iff.mp releasing) with same | inRest
        · rw [← same] at body
          cases body
        · exact Or.inl inRest
      · exact Or.inr marked

theorem told_reachable {world : LockWorld} (reached : lockSystem.Reachable world) :
    LockInvariant world ∧ Told world :=
  reachable_of_moves Told (fun _ member => absurd member List.not_mem_nil)
    (fun _ _ invariant told move => told_move invariant told move) reached

/-! ## No deadlock -/

theorem Quiet.not_releasing {world : LockWorld} (quiet : Quiet world) (servId later : Int)
    (id : SId) : ¬ Releasing world servId later id := by
  intro releasing
  obtain ⟨ended, body⟩ := quiet _ releasing
  cases body

theorem Quiet.no_request {world : LockWorld} (quiet : Quiet world) (id : SId) (servId : Int) :
    world.net.countP (carries id servId) = 0 := by
  refine List.countP_eq_zero.mpr fun packet member => ?_
  obtain ⟨ended, body⟩ := quiet packet member
  simp [carries, body]

/-- In a quiet network an operation that still has to reach a server waits
there. -/
theorem waiting_of_stage {world : LockWorld} (quiet : Quiet world) {op : Operation} {stage : Nat}
    {servId : Int} (progress : Progress world op stage) (here : op.At stage servId) :
    (world.dservs servId).lockWaiting ≠ [] := by
  intro empty
  have requests := progress.requests servId
  rw [Operation.At] at here
  rw [if_pos here, LockWorld.requestsAt, quiet.no_request, empty, List.countP_nil] at requests
  cases requests

/-- What holds up a waiting lock waits itself, at a larger server. -/
theorem waiting_above {world : LockWorld} (invariant : LockInvariant world) (told : Told world)
    (blocked : Blocked world) (quiet : Quiet world) {servId : Int}
    (waits : (world.dservs servId).lockWaiting ≠ []) :
    ∃ above, servId < above ∧ (world.dservs above).lockWaiting ≠ [] := by
  obtain ⟨lock, member⟩ := List.exists_mem_of_ne_nil _ waits
  obtain ⟨sent, inSent, elem, inAhead, _, _, _, unfinished, _, _⟩ := blocked servId lock member
  have known := invariant.dservs servId
  obtain ⟨op, submitted, stage, here, sentId, pos, names, _⟩ := known.sent sent inSent
  obtain ⟨named, behind⟩ :=
    (exists_ahead names pos here elem.servId).mp ⟨elem, inAhead, rfl⟩
  have takenHere : op.id ∈ (world.dservs servId).taken :=
    sentId ▸ known.sentOrder.subset (List.mem_map_of_mem inSent)
  -- had the blocking operation been taken ahead, its element would be marked
  have notTaken : op.id ∉ (world.dservs elem.servId).taken := by
    intro taken
    rcases told op submitted servId (Operation.mem_of_at here) elem.servId behind taken with
      releasing | ⟨holder, inSent', holderId, marked, inHolder, markedName, finish⟩
    · exact quiet.not_releasing _ _ _ releasing
    · have distinct : ((world.dservs servId).lockSent.map CoreLock.id).Nodup :=
        known.takenOnce.sublist known.sentOrder
      obtain rfl := List.inj_on_of_nodup_map distinct inSent' inSent
        (holderId.trans sentId.symm)
      have once : (holder.elems.map LockElem.servId).Nodup := by
        rw [names]
        exact op.increasing.nodup
      obtain rfl := List.inj_on_of_nodup_map once inHolder (List.mem_of_mem_drop inAhead)
        markedName
      rw [unfinished] at finish
      exact Bool.false_ne_true finish
  obtain ⟨reached, progress⟩ := invariant.progress op submitted
  cases next : op.servIds[reached]? with
  | none =>
      rw [progress.taken, List.take_of_length_le (List.getElem?_eq_none_iff.mp next)] at notTaken
      exact absurd named notTaken
  | some target =>
      rw [progress.taken, Operation.mem_before next] at takenHere
      exact ⟨target, takenHere.2, waiting_of_stage quiet progress next⟩

/-- Only servers that operations name have waiting locks. -/
theorem waiting_bounded {world : LockWorld} (invariant : LockInvariant world) :
    ∃ bound, ∀ servId, (world.dservs servId).lockWaiting ≠ [] → servId ≤ bound := by
  obtain ⟨bound, above⟩ := (List.finite_toSet (world.submitted.flatMap Operation.servIds)).bddAbove
  refine ⟨bound, fun servId waits => above ?_⟩
  obtain ⟨lock, member⟩ := List.exists_mem_of_ne_nil _ waits
  obtain ⟨op, submitted, _, _, here, _⟩ := (invariant.dservs servId).waiting lock member
  exact List.mem_flatMap.mpr ⟨op, submitted, Operation.mem_of_at here⟩

/-- **No deadlock.**  When no lock request and no release is in flight, no lock
waits anywhere and every submitted operation has been taken at all its
servers. -/
theorem no_deadlock {world : LockWorld} (reached : lockSystem.Reachable world)
    (quiet : Quiet world) :
    (∀ servId, (world.dservs servId).lockWaiting = []) ∧
      ∀ op ∈ world.submitted, ∀ servId ∈ op.servIds, op.id ∈ (world.dservs servId).taken := by
  obtain ⟨invariant, told⟩ := told_reachable reached
  have blocked := blocked_reachable reached
  have noneWaits : ∀ servId, (world.dservs servId).lockWaiting = [] := by
    by_contra someWaits
    rw [not_forall] at someWaits
    obtain ⟨largest, waits, greatest⟩ := Int.exists_greatest_of_bdd
      (P := fun servId => (world.dservs servId).lockWaiting ≠ [])
      (waiting_bounded invariant) someWaits
    obtain ⟨above, larger, waitsAbove⟩ := waiting_above invariant told blocked quiet waits
    exact absurd (greatest above waitsAbove) (not_le_of_gt larger)
  refine ⟨noneWaits, fun op submitted servId named => ?_⟩
  obtain ⟨stage, progress⟩ := invariant.progress op submitted
  cases next : op.servIds[stage]? with
  | none =>
      rw [progress.taken, List.take_of_length_le (List.getElem?_eq_none_iff.mp next)]
      exact named
  | some target => exact absurd (noneWaits target) (waiting_of_stage quiet progress next)

theorem no_deadlock_race :
    raceWorld.net ≠ [] ∧ (raceWorld.dservs 1).lockWaiting = [] ∧
      opSecond.id ∈ (raceWorld.dservs 2).taken := by
  have quiet : Quiet raceWorld := by
    have bodies : raceWorld.net.map Packet.body =
        [.lockEnd opFirst.id, .lockEnd opSecond.id] := rfl
    intro packet member
    have listed := List.mem_map_of_mem (f := Packet.body) member
    rw [bodies] at listed
    simp only [List.mem_cons, List.not_mem_nil, or_false] at listed
    rcases listed with first | second
    · exact ⟨_, first⟩
    · exact ⟨_, second⟩
  obtain ⟨noneWaits, allTaken⟩ := no_deadlock raceWorld_reached quiet
  exact ⟨by decide, noneWaits 1,
    allTaken opSecond (by simp [raceWorld_submitted]) 2 (by decide)⟩

end SimpleDfs.Dserv
