import SimpleDfs.Dserv.Invariant

/-!
Contract: the handlers' effect on locks as the invariant describes them.

Owns: the packets `ilock_unlock` and `ilock_next` send for the lock of an
operation, what LOCK_UNLOCK marks, and the fact that it never forgets a lock.

Does not own: the moves of the network.
-/

set_option autoImplicit false

namespace SimpleDfs.Dserv

open SimpleDfs.Common
open SimpleDfs.Library

/-! ## The handlers on described locks -/

section Described

variable (op : Operation) (stage ref : Nat)

@[simp] theorem createLock_id : (createLock ref (op.packet stage)).id = op.id := rfl

@[simp] theorem createLock_nextPos :
    (createLock ref (op.packet stage)).nextPos = stage + 1 := rfl

@[simp] theorem createLock_ref (pkt : LockPacket) : (createLock ref pkt).ref = ref := rfl

theorem createLock_names :
    (createLock ref (op.packet stage)).elems.map LockElem.servId = op.servIds := by
  simp [createLock, Operation.packet, Operation.servIds, Function.comp_def]

theorem createLock_unmarked :
    ∀ elem ∈ (createLock ref (op.packet stage)).elems, elem.finish = false := by
  intro elem member
  simp only [createLock, List.mem_map] at member
  obtain ⟨_, _, rfl⟩ := member
  rfl

theorem createLock_length :
    (createLock ref (op.packet stage)).elems.length = op.servIds.length := by
  rw [← createLock_names op stage ref, List.length_map]

/-- The packets `ilock_unlock` sends from server `servId`. -/
def unlockPackets (servId : Int) (id : SId) (earlier : List Int) : Sends :=
  earlier.map fun other => { src := .dserv servId, dst := .dserv other, body := .lockUnlock id }

theorem ilockUnlock_createLock (servId junk : Int) :
    ilockUnlock (connectedCore servId junk) (createLock ref (op.packet stage)) =
      unlockPackets servId op.id (op.servIds.take stage) := by
  have names := createLock_names op stage ref
  unfold ilockUnlock
  rw [createLock_nextPos]
  split
  next first =>
    have atFirst : stage = 0 := by omega
    rw [atFirst, List.take_zero]
    rfl
  next =>
    rw [unlockPackets, ← names, ← List.map_take, Nat.add_sub_cancel, List.map_map]
    simp [Core.send, connectedCore, List.map_eq_flatMap]

theorem ilockNext_last (servId junk : Int) (last : op.servIds[stage + 1]? = none) :
    ilockNext (connectedCore servId junk) (createLock ref (op.packet stage)) =
      ([{ src := .dserv servId, dst := .client op.clientId, body := .lockEnd op.id }], false) := by
  have passed : stage + 1 ≥ (createLock ref (op.packet stage)).elems.length := by
    rw [createLock_length]
    exact List.getElem?_eq_none_iff.mp last
  unfold ilockNext
  rw [createLock_nextPos, if_pos passed]
  rfl

theorem ilockNext_forward (servId junk : Int) {next : Int} (ahead : op.At (stage + 1) next) :
    ilockNext (connectedCore servId junk) (createLock ref (op.packet stage)) =
      ([{ src := .dserv servId, dst := .dserv next, body := .lockNext (op.packet (stage + 1)) }],
        true) := by
  obtain ⟨below, _⟩ := List.getElem?_eq_some_iff.mp ahead
  have remaining : ¬ stage + 1 ≥ (createLock ref (op.packet stage)).elems.length := by
    rw [createLock_length]
    omega
  have nextServ : (createLock ref (op.packet stage)).nextServ = next := by
    have named : (op.servs[stage + 1]?).map Prod.fst = some next := by
      rw [← List.getElem?_map]
      exact ahead
    show ((op.servs[stage + 1]?).map Prod.fst).getD (-1) = next
    rw [named, Option.getD_some]
  unfold ilockNext
  rw [createLock_nextPos, if_neg remaining, nextServ]
  rfl

end Described

/-! ## Marking a lock -/

theorem markFinish_names (servId : Int) (elems : List LockElem) :
    ∀ finish, (markFinish servId finish elems).1.map LockElem.servId =
      elems.map LockElem.servId := by
  induction elems with
  | nil => intro finish; rfl
  | cons head tail inductionHypothesis =>
      intro finish
      rw [markFinish]
      split
      · split
        · simp [inductionHypothesis]
        · rfl
      · simp [inductionHypothesis]

/-- Only elements of the sender are newly marked. -/
theorem markFinish_origin (servId : Int) (elems : List LockElem) :
    ∀ finish, ∀ elem ∈ (markFinish servId finish elems).1, elem.finish = true →
      elem.servId = servId ∨ elem ∈ elems := by
  induction elems with
  | nil =>
      intro finish elem member
      exact absurd member List.not_mem_nil
  | cons head tail inductionHypothesis =>
      intro finish elem member marked
      rw [markFinish] at member
      split at member
      next same =>
        split at member
        next =>
          rcases List.mem_cons.mp member with rfl | inTail
          · exact Or.inl same
          · exact (inductionHypothesis _ elem inTail marked).imp_right (List.mem_cons_of_mem head)
        next =>
          rcases List.mem_cons.mp member with rfl | inTail
          · exact Or.inl same
          · exact Or.inr (List.mem_cons_of_mem head inTail)
      next =>
        rcases List.mem_cons.mp member with rfl | inTail
        · exact Or.inr List.mem_cons_self
        · exact (inductionHypothesis _ elem inTail marked).imp_right (List.mem_cons_of_mem head)

/-- What was marked stays marked. -/
theorem markFinish_keeps (servId : Int) (elems : List LockElem) :
    ∀ finish, ∀ elem ∈ elems, elem.finish = true →
      ∃ kept ∈ (markFinish servId finish elems).1, kept.servId = elem.servId ∧
        kept.finish = true := by
  induction elems with
  | nil =>
      intro finish elem member
      exact absurd member List.not_mem_nil
  | cons head tail inductionHypothesis =>
      intro finish elem member marked
      rw [markFinish]
      split
      next same =>
        split
        next =>
          rcases List.mem_cons.mp member with rfl | inTail
          · exact ⟨_, List.mem_cons_self, rfl, rfl⟩
          · obtain ⟨kept, inMarked, facts⟩ := inductionHypothesis _ elem inTail marked
            exact ⟨kept, List.mem_cons_of_mem _ inMarked, facts⟩
        next =>
          rcases List.mem_cons.mp member with rfl | inTail
          · exact ⟨_, List.mem_cons_self, rfl, rfl⟩
          · exact ⟨elem, List.mem_cons_of_mem _ inTail, rfl, marked⟩
      next =>
        rcases List.mem_cons.mp member with rfl | inTail
        · exact ⟨elem, List.mem_cons_self, rfl, marked⟩
        · obtain ⟨kept, inMarked, facts⟩ := inductionHypothesis _ elem inTail marked
          exact ⟨kept, List.mem_cons_of_mem _ inMarked, facts⟩

/-- A listed sender ends up marked. -/
theorem markFinish_marks (servId : Int) (elems : List LockElem) :
    ∀ finish, servId ∈ elems.map LockElem.servId →
      ∃ elem ∈ (markFinish servId finish elems).1, elem.servId = servId ∧
        elem.finish = true := by
  induction elems with
  | nil =>
      intro finish named
      exact absurd named List.not_mem_nil
  | cons head tail inductionHypothesis =>
      intro finish named
      rw [markFinish]
      split
      next same =>
        split
        next => exact ⟨_, List.mem_cons_self, same, rfl⟩
        next => exact ⟨_, List.mem_cons_self, same, rfl⟩
      next different =>
        have behind : servId ∈ tail.map LockElem.servId := by
          rw [List.map_cons] at named
          exact (List.mem_cons.mp named).resolve_left fun same => different same.symm
        obtain ⟨elem, inMarked, facts⟩ := inductionHypothesis (finish && head.finish) behind
        exact ⟨elem, List.mem_cons_of_mem _ inMarked, facts⟩

theorem markFinish_false (servId : Int) (elems : List LockElem) :
    (markFinish servId false elems).2 = false := by
  induction elems with
  | nil => rfl
  | cons head tail inductionHypothesis =>
      rw [markFinish]
      split
      · simp
      · simpa using inductionHypothesis

/-- An unmarked element before the sender keeps the lock alive. -/
theorem markFinish_alive (servId : Int) {front back : List LockElem} {elem : LockElem}
    (unmarked : elem.finish = false) (different : elem.servId ≠ servId) :
    (∀ earlier ∈ front, earlier.servId ≠ servId) →
      ∀ finish, (markFinish servId finish (front ++ elem :: back)).2 = false := by
  induction front with
  | nil =>
      intro _ finish
      rw [List.nil_append, markFinish, if_neg different, unmarked, Bool.and_false]
      exact markFinish_false servId back
  | cons head tail inductionHypothesis =>
      intro apart finish
      rw [List.cons_append, markFinish, if_neg (apart head List.mem_cons_self)]
      exact inductionHypothesis
        (fun earlier member => apart earlier (List.mem_cons_of_mem head member)) _

/-- The lock of an operation is never forgotten: the server's own element stands
before every sender and is never marked. -/
theorem SentKnown.alive {world : LockWorld} {servId sender : Int} {lock : CoreLock}
    (known : SentKnown world servId lock) (later : servId < sender) :
    (markFinish sender true lock.elems).2 = false := by
  obtain ⟨op, _, stage, here, _, _, names, marked⟩ := known
  have found : (lock.elems.map LockElem.servId)[stage]? = some servId := by
    rw [names]
    exact here
  rw [List.getElem?_map, Option.map_eq_some_iff] at found
  obtain ⟨elem, atStage, self⟩ := found
  have split := split_at_getElem? atStage
  have unmarked : elem.finish = false := by
    by_contra finished
    have reached := marked elem (List.mem_of_getElem? atStage) (by simpa using finished)
    omega
  rw [split]
  apply markFinish_alive sender unmarked (by omega)
  intro earlier member
  have named : earlier.servId ∈ op.servIds.take stage := by
    rw [← names, ← List.map_take]
    exact List.mem_map_of_mem member
  have below := ((Operation.mem_before here earlier.servId).mp named).2
  omega

end SimpleDfs.Dserv
