import SimpleDfs.Common.SArray
import SimpleDfs.Common.SQueue

/-!
Contract: the runs of a queue and its user (`common/s_queue.c`).

Owns: the sizes of a queue's memory, the calls of a user, the list that a queue
stands for, and when a queue answers as the list does.

Does not own: the ring of slots.

The user fills the slot of a push at once, and reads through the pointers that
peeks and pops return until the next push.  Sizes are `int`s, as those of the
growing arrays are, and the offset of a slot is less than the size of its memory.
Memory is there when it is asked for.
-/

set_option autoImplicit false

namespace SimpleDfs.Common

variable {Elem : Type}

/-! ## The calls -/

/-- `s_queue_create`. -/
def createQueue (elemSize : Nat) (elemNum : Int32) (junk : Nat → Elem) :
    Option (SQueue Elem) := do
  let q := sQueueCreate elemNum.toInt.toNat junk
  let _ ← asInt (elemSize * q.total)
  return q

/-- `s_queue_push`, with the element its caller fills in. -/
def pushQueue (elemSize : Nat) (q : SQueue Elem) (junk : Nat → Elem) (elem : Elem) :
    Option (SQueue Elem) := do
  if (q.last + 1) % q.total = q.first then
    let sz ← asInt (q.total * 2)
    let _ ← asInt (elemSize * sz)
    return sQueuePush q junk elem
  else
    return sQueuePush q junk elem

/-- The slot that `s_queue_peek` points to, and that `s_queue_pop` returns. -/
def peekSlot (q : SQueue Elem) : Option Nat :=
  if sQueueEmpty q then none else some q.first

/-- What a user does; `junk` is the new memory of an expansion, and a read is
through one of the pointers that the user has. -/
inductive QueueCall (Elem : Type) where
  | push (elem : Elem) (junk : Nat → Elem)
  | pop
  | peek
  | empty
  | clear
  | read (index : Nat)

/-- What a user gets. -/
inductive QueueAnswer (Elem : Type) where
  | done
  | pointer (found : Bool)
  | empty (holds : Bool)
  | value (elem : Option Elem)

/-- A queue, and the results of the peeks and pops since the last push, the
latest first. -/
structure QueueUser (Elem : Type) where
  q : SQueue Elem
  pointers : List (Option Nat)

/-- One call. -/
def QueueUser.turn (elemSize : Nat) (user : QueueUser Elem) :
    QueueCall Elem → Option (QueueAnswer Elem × QueueUser Elem)
  | .push elem junk => do
      let q ← pushQueue elemSize user.q junk elem
      return (.done, { q := q, pointers := [] })
  | .pop =>
      some (.pointer (peekSlot user.q).isSome,
        { q := sQueuePop user.q, pointers := peekSlot user.q :: user.pointers })
  | .peek =>
      some (.pointer (peekSlot user.q).isSome,
        { user with pointers := peekSlot user.q :: user.pointers })
  | .empty => some (.empty (sQueueEmpty user.q), user)
  | .clear => some (.done, { user with q := sQueueClear user.q })
  | .read index => some (.value (user.pointers[index]?.join.map user.q.slots), user)

/-- One call after the other. -/
def QueueUser.run (elemSize : Nat) :
    QueueUser Elem → List (QueueCall Elem) → Option (List (QueueAnswer Elem) × QueueUser Elem)
  | user, [] => some ([], user)
  | user, call :: calls => do
      let (answer, user) ← user.turn elemSize call
      let (answers, user) ← QueueUser.run elemSize user calls
      return (answer :: answers, user)

/-- The answers of a new queue, and the elements left in it. -/
def useQueue (elemSize : Nat) (elemNum : Int32) (junk : Nat → Elem)
    (calls : List (QueueCall Elem)) : Option (List (QueueAnswer Elem) × List Elem) := do
  let q ← createQueue elemSize elemNum junk
  let (answers, user) ← QueueUser.run elemSize { q := q, pointers := [] } calls
  return (answers, queued user.q)

/-! ## The list -/

/-- A list of elements, the oldest first, and what peeks and pops returned
since the last push. -/
structure ListQueue (Elem : Type) where
  elems : List Elem
  returned : List (Option Elem)

/-- One call, of a list. -/
def ListQueue.turn (list : ListQueue Elem) :
    QueueCall Elem → QueueAnswer Elem × ListQueue Elem
  | .push elem _ => (.done, { elems := list.elems ++ [elem], returned := [] })
  | .pop =>
      (.pointer list.elems.head?.isSome,
        { elems := list.elems.tail, returned := list.elems.head? :: list.returned })
  | .peek =>
      (.pointer list.elems.head?.isSome,
        { list with returned := list.elems.head? :: list.returned })
  | .empty => (.empty list.elems.isEmpty, list)
  | .clear => (.done, { list with elems := [] })
  | .read index => (.value list.returned[index]?.join, list)

/-- One call after the other, of a list. -/
def ListQueue.run : ListQueue Elem → List (QueueCall Elem) →
    List (QueueAnswer Elem) × ListQueue Elem
  | list, [] => ([], list)
  | list, call :: calls =>
      let (answer, list) := list.turn call
      let (answers, list) := ListQueue.run list calls
      (answer :: answers, list)

/-- A new list. -/
def ListQueue.new : ListQueue Elem :=
  { elems := [], returned := [] }

/-- The most elements that wait at one time. -/
def ListQueue.mostWaiting : ListQueue Elem → List (QueueCall Elem) → Nat
  | list, [] => list.elems.length
  | list, call :: calls => max list.elems.length ((list.turn call).2.mostWaiting calls)

/-- The queue answers as the list does, and holds its elements. -/
def ActsAsList (elemSize : Nat) (elemNum : Int32) (junk : Nat → Elem)
    (calls : List (QueueCall Elem)) : Prop :=
  let (answers, list) := ListQueue.new.run calls
  useQueue elemSize elemNum junk calls = some (answers, list.elems)

/-! ## One call -/

/-- The memory of a queue: the numbers of its slots and its bytes are `int`s. -/
def BlockFits (elemSize total : Nat) : Prop :=
  total < 2 ^ 31 ∧ elemSize * total < 2 ^ 31

theorem BlockFits.mono {elemSize total larger : Nat} (fits : BlockFits elemSize larger)
    (below : total ≤ larger) : BlockFits elemSize total :=
  ⟨below.trans_lt fits.1, (Nat.mul_le_mul_left elemSize below).trans_lt fits.2⟩

/-- A queue and its user stand for a list. -/
structure StandsFor (user : QueueUser Elem) (list : ListQueue Elem) : Prop where
  ring : RingQueue user.q
  elems : queued user.q = list.elems
  returned : list.returned = user.pointers.map fun pointer => pointer.map user.q.slots

variable {elemSize : Nat} {user : QueueUser Elem} {list : ListQueue Elem}

theorem peekSlot_map (q : SQueue Elem) : (peekSlot q).map q.slots = sQueuePeek q := by
  unfold peekSlot sQueuePeek
  split
  · rfl
  · rfl

theorem StandsFor.peek (stands : StandsFor user list) :
    (peekSlot user.q).map user.q.slots = list.elems.head? := by
  rw [peekSlot_map, sQueuePeek_eq stands.ring, stands.elems]

theorem StandsFor.found (stands : StandsFor user list) :
    (peekSlot user.q).isSome = list.elems.head?.isSome := by
  rw [← stands.peek, Option.isSome_map]

theorem StandsFor.empty (stands : StandsFor user list) :
    sQueueEmpty user.q = list.elems.isEmpty := by
  have found := stands.found
  unfold peekSlot at found
  cases elems : list.elems with
  | nil =>
      rw [elems] at found
      by_contra differs
      rw [if_neg (by simpa using differs)] at found
      cases found
  | cons elem rest =>
      rw [elems] at found
      by_contra differs
      rw [if_pos (by simpa using differs)] at found
      cases found

theorem StandsFor.pop (stands : StandsFor user list) :
    RingQueue (sQueuePop user.q) ∧ queued (sQueuePop user.q) = list.elems.tail := by
  cases elems : list.elems with
  | nil =>
      have none : sQueuePop user.q = user.q := by
        unfold sQueuePop
        rw [stands.empty, elems]
        rfl
      rw [none, stands.elems, elems]
      exact ⟨stands.ring, rfl⟩
  | cons elem rest => exact sQueuePop_cons stands.ring (stands.elems.trans elems)

/-- A pop leaves the memory as it is. -/
theorem sQueuePop_memory (q : SQueue Elem) :
    (sQueuePop q).total = q.total ∧ (sQueuePop q).slots = q.slots := by
  unfold sQueuePop
  split
  · exact ⟨rfl, rfl⟩
  · exact ⟨rfl, rfl⟩

/-- A full queue has one free slot. -/
theorem full_length {q : SQueue Elem} (ring : RingQueue q)
    (full : (q.last + 1) % q.total = q.first) : (queued q).length + 1 = q.total := by
  have first := ring.first
  have last := ring.last
  rw [between_length ring _ q.first ring.first (between_queued ring)]
  rw [next_slot last] at full
  unfold gap
  split at full
  · split
    · omega
    · omega
  · split
    · omega
    · omega

theorem sQueuePush_total (q : SQueue Elem) (junk : Nat → Elem) (elem : Elem) :
    (sQueuePush q junk elem).total =
      if (q.last + 1) % q.total = q.first then q.total * 2 else q.total := by
  unfold sQueuePush
  split
  · rfl
  · rfl

/-- The push of a full queue has a result when the double memory fits. -/
theorem pushQueue_full (elemSize : Nat) {q : SQueue Elem} (full : (q.last + 1) % q.total = q.first)
    (junk : Nat → Elem) (elem : Elem) :
    (BlockFits elemSize (q.total * 2) →
      pushQueue elemSize q junk elem = some (sQueuePush q junk elem)) ∧
    (¬ BlockFits elemSize (q.total * 2) → pushQueue elemSize q junk elem = none) := by
  unfold pushQueue
  rw [if_pos full]
  constructor
  · intro fits
    rw [asInt_of_lt fits.1, Option.bind_eq_bind, Option.bind_some, asInt_of_lt fits.2]
    rfl
  · intro large
    by_cases number : q.total * 2 < 2 ^ 31
    · have bytes : 2 ^ 31 ≤ elemSize * (q.total * 2) :=
        Nat.not_lt.mp fun small => large ⟨number, small⟩
      rw [asInt_of_lt number, Option.bind_eq_bind, Option.bind_some, asInt_of_ge bytes]
      rfl
    · rw [asInt_of_ge (Nat.not_lt.mp number)]
      rfl

/-- What one call does: it answers as the list does in the same memory, or it
is the push of a full queue, which doubles the memory or has no result. -/
def TurnsLike (elemSize : Nat) (user : QueueUser Elem) (list : ListQueue Elem)
    (call : QueueCall Elem) : Prop :=
  (∃ after, user.turn elemSize call = some ((list.turn call).1, after) ∧
    StandsFor after (list.turn call).2 ∧
    (after.q.total = user.q.total ∨
      after.q.total = user.q.total * 2 ∧ BlockFits elemSize (user.q.total * 2) ∧
        (list.turn call).2.elems.length = user.q.total)) ∨
  (user.turn elemSize call = none ∧ ¬ BlockFits elemSize (user.q.total * 2) ∧
    (list.turn call).2.elems.length = user.q.total)

theorem StandsFor.push (stands : StandsFor user list) (elemSize : Nat) (elem : Elem)
    (junk : Nat → Elem) : TurnsLike elemSize user list (.push elem junk) := by
  obtain ⟨ring, elems⟩ := sQueuePush_spec stands.ring junk elem
  have total := sQueuePush_total user.q junk elem
  have pushed : StandsFor { q := sQueuePush user.q junk elem, pointers := [] }
      (list.turn (.push elem junk)).2 :=
    ⟨ring, elems.trans (by rw [stands.elems]; rfl), rfl⟩
  by_cases full : (user.q.last + 1) % user.q.total = user.q.first
  · have length : (list.turn (.push elem junk)).2.elems.length = user.q.total := by
      rw [← full_length stands.ring full, stands.elems]
      exact List.length_append
    obtain ⟨expands, overflows⟩ := pushQueue_full elemSize full junk elem
    rw [if_pos full] at total
    by_cases fits : BlockFits elemSize (user.q.total * 2)
    · refine .inl ⟨_, ?_, pushed, .inr ⟨total, fits, length⟩⟩
      dsimp only [QueueUser.turn]
      rw [expands fits]
      rfl
    · refine .inr ⟨?_, fits, length⟩
      dsimp only [QueueUser.turn]
      rw [overflows fits]
      rfl
  · rw [if_neg full] at total
    refine .inl ⟨_, ?_, pushed, .inl total⟩
    have room : pushQueue elemSize user.q junk elem = some (sQueuePush user.q junk elem) :=
      if_neg full
    dsimp only [QueueUser.turn]
    rw [room]
    rfl

/-- **Each call** of a queue turns the list it stands for. -/
theorem StandsFor.turn (stands : StandsFor user list) (elemSize : Nat) (call : QueueCall Elem) :
    TurnsLike elemSize user list call := by
  cases call with
  | push elem junk => exact stands.push elemSize elem junk
  | pop =>
      obtain ⟨ring, elems⟩ := stands.pop
      obtain ⟨total, slots⟩ := sQueuePop_memory user.q
      refine .inl ⟨{ q := sQueuePop user.q, pointers := peekSlot user.q :: user.pointers }, ?_,
        ⟨ring, elems, ?_⟩, .inl total⟩
      · dsimp only [QueueUser.turn, ListQueue.turn]
        rw [stands.found]
      · dsimp only [ListQueue.turn]
        rw [slots, List.map_cons, stands.peek, stands.returned]
  | peek =>
      refine .inl ⟨{ user with pointers := peekSlot user.q :: user.pointers }, ?_,
        ⟨stands.ring, stands.elems, ?_⟩, .inl rfl⟩
      · dsimp only [QueueUser.turn, ListQueue.turn]
        rw [stands.found]
      · dsimp only [ListQueue.turn]
        rw [List.map_cons, stands.peek, stands.returned]
  | empty =>
      refine .inl ⟨user, ?_, stands, .inl rfl⟩
      dsimp only [QueueUser.turn, ListQueue.turn]
      rw [stands.empty]
  | clear =>
      obtain ⟨ring, elems⟩ := ringQueue_clear stands.ring
      exact .inl ⟨_, rfl, ⟨ring, elems, stands.returned⟩, .inl rfl⟩
  | read index =>
      refine .inl ⟨user, ?_, stands, .inl rfl⟩
      dsimp only [QueueUser.turn, ListQueue.turn]
      rw [stands.returned, List.getElem?_map]
      cases user.pointers[index]? with
      | none => rfl
      | some pointer => rfl

/-! ## Runs -/

theorem ListQueue.length_le_mostWaiting (list : ListQueue Elem) (calls : List (QueueCall Elem)) :
    list.elems.length ≤ list.mostWaiting calls := by
  cases calls with
  | nil => exact Nat.le_refl _
  | cons call calls => exact Nat.le_max_left _ _

/-- A memory is `base` doubled a number of times. -/
theorem doubled_le {base doubled most : Nat} (below : base * 2 ^ doubled < base * 2 ^ most) :
    base * 2 ^ doubled * 2 ≤ base * 2 ^ most := by
  have fewer : doubled < most := by
    by_contra more
    have larger : base * 2 ^ most ≤ base * 2 ^ doubled :=
      Nat.mul_le_mul_left base (Nat.pow_le_pow_right (by decide) (Nat.not_lt.mp more))
    omega
  rw [Nat.mul_assoc, ← Nat.pow_succ]
  exact Nat.mul_le_mul_left base (Nat.pow_le_pow_right (by decide) fewer)

/-- **A run within a memory that fits** answers as the list does. -/
theorem StandsFor.run {base most : Nat} (fits : BlockFits elemSize (base * 2 ^ most))
    (calls : List (QueueCall Elem)) :
    ∀ {user : QueueUser Elem} {list : ListQueue Elem} {doubled : Nat}, StandsFor user list →
      user.q.total = base * 2 ^ doubled → list.mostWaiting calls < base * 2 ^ most →
      ∃ after, user.run elemSize calls = some ((list.run calls).1, after) ∧
        StandsFor after (list.run calls).2 := by
  induction calls with
  | nil => exact fun stands _ _ => ⟨_, rfl, stands⟩
  | cons call calls inductionHypothesis =>
      intro user list doubled stands total waiting
      have rest : (list.turn call).2.mostWaiting calls < base * 2 ^ most :=
        (Nat.le_max_right _ _).trans_lt waiting
      have near := ((list.turn call).2.length_le_mostWaiting calls).trans_lt rest
      -- a full queue below the largest memory can be doubled
      have doubles : (list.turn call).2.elems.length = user.q.total →
          user.q.total * 2 ≤ base * 2 ^ most := by
        intro length
        rw [length, total] at near
        rw [total]
        exact doubled_le near
      rcases stands.turn elemSize call with
        ⟨after, turned, standsAfter, memory⟩ | ⟨_, large, length⟩
      · have totalAfter : ∃ doubled, after.q.total = base * 2 ^ doubled := by
          rcases memory with same | ⟨twice, _, _⟩
          · exact ⟨doubled, same.trans total⟩
          · refine ⟨doubled + 1, ?_⟩
            rw [twice, total, Nat.mul_assoc, Nat.pow_succ]
        obtain ⟨doubledAfter, totalAfter⟩ := totalAfter
        obtain ⟨last, ran, standsLast⟩ := inductionHypothesis standsAfter totalAfter rest
        refine ⟨last, ?_, standsLast⟩
        unfold QueueUser.run
        rw [turned, Option.bind_eq_bind, Option.bind_some]
        dsimp only
        rw [ran]
        rfl
      · exact absurd (fits.mono (doubles length)) large

/-- **A run that has a result** stays within a memory that fits. -/
theorem StandsFor.room {base : Nat} (calls : List (QueueCall Elem)) :
    ∀ {user : QueueUser Elem} {list : ListQueue Elem} {doubled : Nat}, StandsFor user list →
      user.q.total = base * 2 ^ doubled → BlockFits elemSize (base * 2 ^ doubled) →
      (user.run elemSize calls).isSome →
      ∃ most, doubled ≤ most ∧ list.mostWaiting calls < base * 2 ^ most ∧
        BlockFits elemSize (base * 2 ^ most) := by
  induction calls with
  | nil =>
      intro user list doubled stands total fits _
      refine ⟨doubled, Nat.le_refl _, ?_, fits⟩
      rw [← total]
      exact (congrArg List.length stands.elems).symm.trans_lt (queued_length_lt stands.ring)
  | cons call calls inductionHypothesis =>
      intro user list doubled stands total fits ran
      have waiting : list.elems.length < base * 2 ^ doubled := by
        rw [← total, ← stands.elems]
        exact queued_length_lt stands.ring
      unfold QueueUser.run at ran
      rcases stands.turn elemSize call with
        ⟨after, turned, standsAfter, memory⟩ | ⟨stops, _, _⟩
      · have memoryAfter : ∃ later, doubled ≤ later ∧ after.q.total = base * 2 ^ later ∧
            BlockFits elemSize (base * 2 ^ later) := by
          rcases memory with same | ⟨twice, fitsTwice, _⟩
          · exact ⟨doubled, Nat.le_refl _, same.trans total, fits⟩
          · have sizes : user.q.total * 2 = base * 2 ^ (doubled + 1) := by
              rw [total, Nat.mul_assoc, Nat.pow_succ]
            exact ⟨doubled + 1, Nat.le_succ _, twice.trans sizes, sizes ▸ fitsTwice⟩
        obtain ⟨later, more, totalAfter, fitsAfter⟩ := memoryAfter
        have ranAfter : (after.run elemSize calls).isSome := by
          rw [turned, Option.bind_eq_bind, Option.bind_some] at ran
          dsimp only at ran
          by_contra fails
          rw [Option.not_isSome_iff_eq_none.mp fails] at ran
          cases ran
        obtain ⟨most, above, room, fitsMost⟩ :=
          inductionHypothesis standsAfter totalAfter fitsAfter ranAfter
        refine ⟨most, more.trans above, Nat.max_lt.mpr ⟨?_, room⟩, fitsMost⟩
        exact waiting.trans_le
          (Nat.mul_le_mul_left base (Nat.pow_le_pow_right (by decide) (more.trans above)))
      · rw [stops] at ran
        cases ran

/-- The slots of a new queue. -/
def createdTotal (elemNum : Int32) : Nat :=
  max elemNum.toInt.toNat 16

theorem createdTotal_lt (elemNum : Int32) : createdTotal elemNum < 2 ^ 31 := by
  have number := elemNum.toInt_lt
  unfold createdTotal
  omega

theorem createQueue_of_fits {elemNum : Int32} (fits : BlockFits elemSize (createdTotal elemNum))
    (junk : Nat → Elem) :
    createQueue elemSize elemNum junk = some (sQueueCreate elemNum.toInt.toNat junk) := by
  have bytes : asInt (elemSize * (sQueueCreate elemNum.toInt.toNat junk).total) =
      some (elemSize * createdTotal elemNum) := asInt_of_lt fits.2
  dsimp only [createQueue]
  rw [bytes]
  rfl

theorem createQueue_of_large {elemNum : Int32} (large : ¬ BlockFits elemSize (createdTotal elemNum))
    (junk : Nat → Elem) : createQueue elemSize elemNum junk = none := by
  have bytes : asInt (elemSize * (sQueueCreate elemNum.toInt.toNat junk).total) = none :=
    asInt_of_ge (Nat.not_lt.mp fun small => large ⟨createdTotal_lt elemNum, small⟩)
  dsimp only [createQueue]
  rw [bytes]
  rfl

/-- A new queue stands for the new list. -/
theorem standsFor_create (elemNum : Nat) (junk : Nat → Elem) :
    StandsFor { q := sQueueCreate elemNum junk, pointers := [] } ListQueue.new := by
  obtain ⟨ring, elems⟩ := ringQueue_create elemNum junk
  exact ⟨ring, elems, rfl⟩

/-- **A queue acts as a list exactly when its memory fits**: its first slots,
doubled until there are more than elements wait. -/
theorem actsAsList_iff (elemSize : Nat) (elemNum : Int32) (junk : Nat → Elem)
    (calls : List (QueueCall Elem)) :
    ActsAsList elemSize elemNum junk calls ↔
      ∃ doubled, ListQueue.new.mostWaiting calls < createdTotal elemNum * 2 ^ doubled ∧
        BlockFits elemSize (createdTotal elemNum * 2 ^ doubled) := by
  have stands := standsFor_create elemNum.toInt.toNat junk
  have total : (sQueueCreate elemNum.toInt.toNat junk).total = createdTotal elemNum * 2 ^ 0 :=
    (Nat.mul_one _).symm
  dsimp only [ActsAsList, useQueue]
  constructor
  · intro acts
    by_cases fits : BlockFits elemSize (createdTotal elemNum)
    · rw [createQueue_of_fits fits, Option.bind_eq_bind, Option.bind_some] at acts
      have ran : (QueueUser.run elemSize
          { q := sQueueCreate elemNum.toInt.toNat junk, pointers := [] } calls).isSome := by
        by_contra fails
        rw [Option.not_isSome_iff_eq_none.mp fails] at acts
        cases acts
      obtain ⟨most, _, room, fitsMost⟩ :=
        stands.room calls total ((Nat.mul_one (createdTotal elemNum)).symm ▸ fits) ran
      exact ⟨most, room, fitsMost⟩
    · rw [createQueue_of_large fits] at acts
      cases acts
  · rintro ⟨doubled, room, fits⟩
    have first : BlockFits elemSize (createdTotal elemNum) :=
      fits.mono (Nat.le_mul_of_pos_right _ (Nat.two_pow_pos doubled))
    obtain ⟨after, ran, standsAfter⟩ := stands.run fits calls total room
    rw [createQueue_of_fits first, Option.bind_eq_bind, Option.bind_some, ran,
      Option.bind_eq_bind, Option.bind_some, standsAfter.elems]
    rfl

/-- A queue of `2 ^ 29` elements of eight bytes, and one push. -/
theorem not_always_actsAsList :
    ¬ ∀ (elemSize : Nat) (elemNum : Int32) (junk : Nat → Bool) (calls : List (QueueCall Bool)),
      ActsAsList elemSize elemNum junk calls := by
  intro always
  have acts := always 8 536870912 (fun _ => false) [.push true fun _ => false]
  have large : createQueue 8 536870912 (fun _ => false) = none := by decide
  dsimp only [ActsAsList, useQueue] at acts
  rw [large] at acts
  cases acts

end SimpleDfs.Common
