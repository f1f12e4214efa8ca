import Mathlib.Data.List.Nodup
import Mathlib.Order.Nat
import SimpleDfs.Lockfree.MsQueue

/-!
Contract: the lock-free queue is first in, first out in every interleaving.

Owns: the chain of linked nodes with the places of head and tail, what a thread
knows about the chain from its earlier reads, and their preservation by every
access.

Does not own: progress of the threads.
-/

set_option autoImplicit false

namespace SimpleDfs.Lockfree

open SimpleDfs.Library

/-! ## The chain -/

/-- A pointer leads to a place in the chain. -/
def PointsAt (chain : List Nat) (pointer : MsPointer) (place : Nat) : Prop :=
  ∃ n, pointer.ptr = some n ∧ chain[place]? = some n

/-- All nodes that were ever linked, in this order, with the places of head and
tail.  The first node holds no value. -/
structure Chained (world : MsWorld) (chain : List Nat) (head tail : Nat) : Prop where
  nodup : chain.Nodup
  allocated : ∀ n ∈ chain, n < world.unused
  next : ∀ place n, chain[place]? = some n → (world.nodes n).next.ptr = chain[place + 1]?
  headAt : PointsAt chain world.head head
  tailAt : PointsAt chain world.tail tail
  order : head ≤ tail
  linked : world.linked = chain.tail.map fun n => (world.nodes n).ival
  popped : world.popped = world.linked.take head

/-- The node a thread is about to link. -/
def Pc.fresh : Pc → Option Nat
  | .pushReadTail n => some n
  | .pushReadNext n _ => some n
  | .pushRecheck n _ _ => some n
  | .pushLink n _ _ => some n
  | .pushHelp n _ _ => some n
  | _ => none

/-- A node that is allocated and not linked. -/
def Unlinked (world : MsWorld) (chain : List Nat) (n : Nat) : Prop :=
  n < world.unused ∧ n ∉ chain ∧ (world.nodes n).next.ptr = none

/-- What a pointer that was read behind a place says about the chain. -/
def Follows (chain : List Nat) (next : MsPointer) (place : Nat) : Prop :=
  ∀ n, next.ptr = some n → chain[place + 1]? = some n

/-- What a thread knows from its earlier reads. -/
def Knows (world : MsWorld) (chain : List Nat) (head tail : Nat) (sawEmpty : Bool) : Pc → Prop
  | .idle => True
  | .crashed => False
  | .pushReadTail _ => True
  | .pushReadNext _ t => ∃ j, j ≤ tail ∧ PointsAt chain t j
  | .pushRecheck _ t next => ∃ j, j ≤ tail ∧ PointsAt chain t j ∧ Follows chain next j
  | .pushLink _ t next => ∃ j, j ≤ tail ∧ PointsAt chain t j ∧ next.ptr = none
  | .pushHelp _ t next => ∃ j, j ≤ tail ∧ PointsAt chain t j ∧ PointsAt chain next (j + 1)
  | .pushSwing n t => ∃ j, j ≤ tail ∧ PointsAt chain t j ∧ chain[j + 1]? = some n
  | .popReadHead => True
  | .popReadTail h => ∃ i, i ≤ head ∧ PointsAt chain h i
  | .popReadNext h t => ∃ i j, i ≤ head ∧ i ≤ j ∧ j ≤ tail ∧ PointsAt chain h i ∧ PointsAt chain t j
  | .popRecheck h t next => ∃ i j, i ≤ head ∧ i ≤ j ∧ j ≤ tail ∧ PointsAt chain h i ∧
      PointsAt chain t j ∧ Follows chain next i ∧ (next.ptr = none → i = j ∧ sawEmpty = true)
  | .popHelp t next => ∃ j, j ≤ tail ∧ PointsAt chain t j ∧ PointsAt chain next (j + 1)
  | .popReadIval h next => ∃ i, i ≤ head ∧ i < tail ∧ PointsAt chain h i ∧
      PointsAt chain next (i + 1)
  | .popSwing h next ret => ∃ i, i ≤ head ∧ i < tail ∧ PointsAt chain h i ∧
      PointsAt chain next (i + 1) ∧ ∀ n, next.ptr = some n → (world.nodes n).ival = ret

/-- The invariant: a chain, what every thread knows about it, and the nodes the
threads own. -/
structure MsSound (world : MsWorld) (chain : List Nat) (head tail : Nat) : Prop where
  chained : Chained world chain head tail
  knows : ∀ thread,
    Knows world chain head tail (world.threads thread).sawEmpty (world.threads thread).pc
  fresh : ∀ thread n, (world.threads thread).pc.fresh = some n → Unlinked world chain n
  owner : ∀ thread other n, (world.threads thread).pc.fresh = some n →
    (world.threads other).pc.fresh = some n → thread = other
  exits : ∀ exit ∈ world.emptyExits, exit = true

section

variable {world after : MsWorld} {chain longer : List Nat} {head tail head' tail' : Nat}

theorem PointsAt.inside {pointer : MsPointer} {place : Nat} (points : PointsAt chain pointer place) :
    place < chain.length := by
  obtain ⟨n, _, found⟩ := points
  exact (List.getElem?_eq_some_iff.mp found).1

theorem getElem?_grows (grows : chain <+: longer) {place n : Nat}
    (found : chain[place]? = some n) : longer[place]? = some n := by
  obtain ⟨more, rfl⟩ := grows
  rw [List.getElem?_append_left (List.getElem?_eq_some_iff.mp found).1]
  exact found

theorem PointsAt.grows {pointer : MsPointer} {place : Nat} (points : PointsAt chain pointer place)
    (grows : chain <+: longer) : PointsAt longer pointer place := by
  obtain ⟨n, isNode, found⟩ := points
  exact ⟨n, isNode, getElem?_grows grows found⟩

/-- Two pointers to one place, or one pointer to two places. -/
theorem Chained.place_unique (chained : Chained world chain head tail) {left right : MsPointer}
    {i j : Nat} (first : PointsAt chain left i) (second : PointsAt chain right j)
    (same : left.ptr = right.ptr) : i = j := by
  obtain ⟨n, isFirst, atFirst⟩ := first
  obtain ⟨m, isSecond, atSecond⟩ := second
  have equal : n = m := by
    rw [isFirst, isSecond] at same
    exact Option.some.inj same
  rw [equal] at atFirst
  exact (List.getElem?_inj (List.getElem?_eq_some_iff.mp atFirst).1 chained.nodup).mp
    (atFirst.trans atSecond.symm)

/-- What a pointer to a place reads behind it. -/
theorem Chained.read_next (chained : Chained world chain head tail) {pointer : MsPointer}
    {place n : Nat} (points : PointsAt chain pointer place) (isNode : pointer.ptr = some n) :
    (world.nodes n).next.ptr = chain[place + 1]? := by
  obtain ⟨m, same, found⟩ := points
  rw [isNode] at same
  cases Option.some.inj same
  exact chained.next place n found

/-- What a thread knows stays true while the chain grows and head and tail move
on. -/
theorem Knows.mono {sawEmpty sawEmpty' : Bool} {pc : Pc}
    (knows : Knows world chain head tail sawEmpty pc) (grows : chain <+: longer)
    (headMoves : head ≤ head') (tailMoves : tail ≤ tail')
    (values : ∀ n ∈ chain, (after.nodes n).ival = (world.nodes n).ival)
    (saw : sawEmpty = true → sawEmpty' = true) :
    Knows after longer head' tail' sawEmpty' pc := by
  cases pc with
  | idle => trivial
  | crashed => exact knows
  | pushReadTail n => trivial
  | pushReadNext n t =>
      obtain ⟨j, low, points⟩ := knows
      exact ⟨j, low.trans tailMoves, points.grows grows⟩
  | pushRecheck n t next =>
      obtain ⟨j, low, points, follows⟩ := knows
      exact ⟨j, low.trans tailMoves, points.grows grows,
        fun m isNext => getElem?_grows grows (follows m isNext)⟩
  | pushLink n t next =>
      obtain ⟨j, low, points, last⟩ := knows
      exact ⟨j, low.trans tailMoves, points.grows grows, last⟩
  | pushHelp n t next =>
      obtain ⟨j, low, points, behind⟩ := knows
      exact ⟨j, low.trans tailMoves, points.grows grows, behind.grows grows⟩
  | pushSwing n t =>
      obtain ⟨j, low, points, behind⟩ := knows
      exact ⟨j, low.trans tailMoves, points.grows grows, getElem?_grows grows behind⟩
  | popReadHead => trivial
  | popReadTail h =>
      obtain ⟨i, low, points⟩ := knows
      exact ⟨i, low.trans headMoves, points.grows grows⟩
  | popReadNext h t =>
      obtain ⟨i, j, low, between, high, first, second⟩ := knows
      exact ⟨i, j, low.trans headMoves, between, high.trans tailMoves, first.grows grows,
        second.grows grows⟩
  | popRecheck h t next =>
      obtain ⟨i, j, low, between, high, first, second, follows, last⟩ := knows
      exact ⟨i, j, low.trans headMoves, between, high.trans tailMoves, first.grows grows,
        second.grows grows, fun m isNext => getElem?_grows grows (follows m isNext),
        fun isLast => (last isLast).imp_right saw⟩
  | popHelp t next =>
      obtain ⟨j, low, points, behind⟩ := knows
      exact ⟨j, low.trans tailMoves, points.grows grows, behind.grows grows⟩
  | popReadIval h next =>
      obtain ⟨i, low, high, points, behind⟩ := knows
      exact ⟨i, low.trans headMoves, high.trans_le tailMoves, points.grows grows,
        behind.grows grows⟩
  | popSwing h next ret =>
      obtain ⟨i, low, high, points, behind, value⟩ := knows
      refine ⟨i, low.trans headMoves, high.trans_le tailMoves, points.grows grows,
        behind.grows grows, ?_⟩
      intro n isNode
      obtain ⟨m, same, found⟩ := behind
      rw [isNode] at same
      cases Option.some.inj same
      rw [values n (List.mem_of_getElem? found)]
      exact value n isNode

end

/-! ## One step -/

/-- What an access of a thread leaves: it may link a node, move the head or the
tail. -/
structure Outcome (before : MsWorld) (thread : Nat) (chain : List Nat) (head tail : Nat)
    (after : MsWorld) (pc : Pc) (longer : List Nat) (head' tail' : Nat) : Prop where
  chained : Chained after longer head' tail'
  grows : chain <+: longer
  headMoves : head ≤ head'
  tailMoves : tail ≤ tail'
  threads : after.threads = before.threads
  values : ∀ n ∈ chain, (after.nodes n).ival = (before.nodes n).ival
  others : ∀ other n, other ≠ thread → (before.threads other).pc.fresh = some n →
    Unlinked after longer n
  fresh : ∀ n, pc.fresh = some n → Unlinked after longer n ∧
    ∀ other, other ≠ thread → (before.threads other).pc.fresh ≠ some n
  knows : Knows after longer head' tail'
    ((before.threads thread).sawEmpty || after.isEmpty) pc
  exits : ∀ exit ∈ after.emptyExits, exit = true

/-- The other threads see an access of one thread. -/
theorem Outcome.sound {before after : MsWorld} {thread : Nat} {chain longer : List Nat}
    {head tail head' tail' : Nat} {pc : Pc} (sound : MsSound before chain head tail)
    (outcome : Outcome before thread chain head tail after pc longer head' tail')
    {state : Thread} (isPc : state.pc = pc)
    (known : Knows after longer head' tail' (state.sawEmpty || after.isEmpty) pc) :
    MsSound (after.place thread state).observe longer head' tail' := by
  have chained : Chained (after.place thread state).observe longer head' tail' := by
    obtain ⟨nodup, allocated, next, headAt, tailAt, order, linked, popped⟩ := outcome.chained
    exact ⟨nodup, allocated, next, headAt, tailAt, order, linked, popped⟩
  have here : ((after.place thread state).observe.threads thread) =
      { state with sawEmpty := state.sawEmpty || after.isEmpty } := by
    unfold MsWorld.observe MsWorld.place
    dsimp only
    rw [Function.update_self]
    rfl
  have there : ∀ other, other ≠ thread → ((after.place thread state).observe.threads other) =
      { before.threads other with
        sawEmpty := (before.threads other).sawEmpty || after.isEmpty } := by
    intro other different
    unfold MsWorld.observe MsWorld.place
    dsimp only
    rw [Function.update_of_ne different, outcome.threads]
    rfl
  refine ⟨chained, ?_, ?_, ?_, outcome.exits⟩
  · intro other
    by_cases same : other = thread
    · rw [same, here, isPc]
      exact known.mono (List.prefix_refl _) (le_refl _) (le_refl _) (fun _ _ => rfl) id
    · rw [there other same]
      refine (sound.knows other).mono outcome.grows outcome.headMoves outcome.tailMoves
        outcome.values ?_
      intro already
      rw [Bool.or_eq_true]
      exact Or.inl already
  · intro other n isFresh
    by_cases same : other = thread
    · rw [same, here, isPc] at isFresh
      exact (outcome.fresh n isFresh).1
    · rw [there other same] at isFresh
      exact outcome.others other n same isFresh
  · intro left right n first second
    by_cases sameLeft : left = thread
    · by_cases sameRight : right = thread
      · exact sameLeft.trans sameRight.symm
      · rw [sameLeft, here, isPc] at first
        rw [there right sameRight] at second
        exact absurd second ((outcome.fresh n first).2 right sameRight)
    · by_cases sameRight : right = thread
      · rw [sameRight, here, isPc] at second
        rw [there left sameLeft] at first
        exact absurd first ((outcome.fresh n second).2 left sameLeft)
      · rw [there left sameLeft] at first
        rw [there right sameRight] at second
        exact sound.owner left right n first second

section

variable {world : MsWorld} {chain : List Nat} {head tail thread : Nat}

/-- An access that only reads. -/
theorem outcome_read (sound : MsSound world chain head tail) {pc : Pc}
    (kept : ∀ n, pc.fresh = some n → (world.threads thread).pc.fresh = some n)
    (knows : Knows world chain head tail ((world.threads thread).sawEmpty || world.isEmpty) pc) :
    Outcome world thread chain head tail world pc chain head tail where
  chained := sound.chained
  grows := List.prefix_refl _
  headMoves := le_refl _
  tailMoves := le_refl _
  threads := rfl
  values := fun _ _ => rfl
  others := fun other n _ isFresh => sound.fresh other n isFresh
  fresh := by
    intro n isFresh
    have own := kept n isFresh
    refine ⟨sound.fresh thread n own, ?_⟩
    intro other different shared
    exact different (sound.owner other thread n shared own)
  knows := knows
  exits := sound.exits

/-- A compare and swap that moves the tail to the next node, or fails. -/
theorem outcome_tail (sound : MsSound world chain head tail) {pc : Pc} {t : MsPointer} {j n : Nat}
    (points : PointsAt chain t j) (behind : chain[j + 1]? = some n) (tag : BitVec 32)
    (kept : ∀ n, pc.fresh = some n → (world.threads thread).pc.fresh = some n)
    (knows : ∀ world tail, Knows world chain head tail
      ((world.threads thread).sawEmpty || world.isEmpty) pc) :
    ∃ tail', Outcome world thread chain head tail
      { world with tail := casPointer world.tail t { ptr := some n, tag := tag } } pc chain head
      tail' := by
  have chained := sound.chained
  have swapped : ∃ tail', tail ≤ tail' ∧
      PointsAt chain (casPointer world.tail t { ptr := some n, tag := tag }) tail' := by
    unfold casPointer
    split
    next same =>
      have place := chained.place_unique chained.tailAt points (congrArg MsPointer.ptr same)
      exact ⟨j + 1, by omega, n, rfl, behind⟩
    next => exact ⟨tail, le_refl _, chained.tailAt⟩
  obtain ⟨tail', moves, tailAt⟩ := swapped
  have same := outcome_read sound kept (knows world tail)
  refine ⟨tail', ?_, List.prefix_refl _, le_refl _, moves, rfl, fun _ _ => rfl, same.others,
    same.fresh, knows _ tail', sound.exits⟩
  exact ⟨chained.nodup, chained.allocated, chained.next, chained.headAt, tailAt,
    chained.order.trans moves, chained.linked, chained.popped⟩

/-- Linking a node behind the last one. -/
theorem outcome_link (sound : MsSound world chain head tail) {n addr j : Nat} {t next : MsPointer}
    (own : (world.threads thread).pc.fresh = some n) (low : j ≤ tail) (points : PointsAt chain t j)
    (isAddr : t.ptr = some addr) (same : (world.nodes addr).next = next) (last : next.ptr = none) :
    Outcome world thread chain head tail
      { world with
        nodes := Function.update world.nodes addr
          { world.nodes addr with next := { ptr := some n, tag := next.tag + 1 } }
        linked := world.linked ++ [(world.nodes n).ival] }
      (.pushSwing n t) (chain ++ [n]) head tail := by
  have chained := sound.chained
  obtain ⟨allocated, new, unlinked⟩ := sound.fresh thread n own
  -- the node that is read to be last is the last of the chain
  have behind := chained.read_next points isAddr
  rw [same, last] at behind
  have isLast : j + 1 = chain.length := by
    have beyond := List.getElem?_eq_none_iff.mp behind.symm
    have inside := points.inside
    omega
  have grows : chain <+: chain ++ [n] := List.prefix_append _ _
  have atAddr : chain[j]? = some addr := by
    obtain ⟨m, isNode, found⟩ := points
    rw [isAddr] at isNode
    rw [Option.some.inj isNode]
    exact found
  have addrIn : addr ∈ chain := List.mem_of_getElem? atAddr
  have values : ∀ m, (Function.update world.nodes addr
      { world.nodes addr with next := { ptr := some n, tag := next.tag + 1 } } m).ival =
      (world.nodes m).ival := by
    intro m
    by_cases here : m = addr
    · rw [here, Function.update_self]
    · rw [Function.update_of_ne here]
  have unlinkedAfter : ∀ m, m ∉ chain → (Function.update world.nodes addr
      { world.nodes addr with next := { ptr := some n, tag := next.tag + 1 } } m) =
      world.nodes m := by
    intro m outside
    refine Function.update_of_ne ?_ _ _
    rintro rfl
    exact outside addrIn
  have added : (chain ++ [n])[j + 1]? = some n := by
    rw [isLast, List.getElem?_append_right (le_refl _), Nat.sub_self]
    rfl
  constructor
  · have headInside := chained.headAt.inside
    have length : world.linked.length = chain.length - 1 := by
      rw [chained.linked, List.length_map, List.length_tail]
    refine ⟨?_, ?_, ?_, chained.headAt.grows grows, chained.tailAt.grows grows, chained.order, ?_, ?_⟩
    · rw [List.nodup_append]
      refine ⟨chained.nodup, List.nodup_singleton n, ?_⟩
      intro left member right isNew
      rw [List.mem_singleton.mp isNew]
      exact fun equal => new (equal ▸ member)
    · intro m member
      rcases List.mem_append.mp member with old | isNew
      · exact chained.allocated m old
      · rw [List.mem_singleton.mp isNew]
        exact allocated
    · intro place m found
      by_cases inside : place < chain.length
      · rw [List.getElem?_append_left inside] at found
        by_cases here : m = addr
        · have place_eq : place = j := (List.getElem?_inj inside chained.nodup).mp
            (found.trans (here ▸ atAddr.symm))
          rw [here, place_eq, added]
          dsimp only
          rw [Function.update_self]
        · have old := chained.next place m found
          have notLast : place + 1 < chain.length := by
            by_contra beyond
            have place_eq : place = j := by omega
            rw [place_eq, atAddr] at found
            exact here (Option.some.inj found).symm
          dsimp only
          rw [Function.update_of_ne here, old, List.getElem?_append_left notLast]
      · have place_eq : place = chain.length := by
          have bound := (List.getElem?_eq_some_iff.mp found).1
          rw [List.length_append, List.length_singleton] at bound
          omega
        rw [place_eq, ← isLast, added] at found
        cases Option.some.inj found
        dsimp only
        rw [unlinkedAfter n new, unlinked, place_eq]
        exact (List.getElem?_eq_none (by rw [List.length_append, List.length_singleton])).symm
    · dsimp only
      have nonempty : chain ≠ [] := by
        rintro rfl
        exact absurd addrIn List.not_mem_nil
      rw [List.tail_append_of_ne_nil nonempty, List.map_append, chained.linked]
      simp only [values, List.map_cons, List.map_nil]
    · dsimp only
      rw [List.take_append_of_le_length (by omega)]
      exact chained.popped
  · exact grows
  · exact le_refl _
  · exact le_refl _
  · rfl
  · exact fun m _ => values m
  · intro other m different isFresh
    obtain ⟨allocatedOther, newOther, unlinkedOther⟩ := sound.fresh other m isFresh
    refine ⟨allocatedOther, ?_, ?_⟩
    · intro member
      rcases List.mem_append.mp member with old | isNew
      · exact newOther old
      · rw [List.mem_singleton.mp isNew] at isFresh
        exact different (sound.owner other thread n isFresh own)
    · dsimp only
      rw [unlinkedAfter m newOther]
      exact unlinkedOther
  · exact fun m absent => nomatch absent
  · exact ⟨j, low, points.grows grows, added⟩
  · exact sound.exits

/-- Moving the head to the next node pops its value. -/
theorem outcome_head (sound : MsSound world chain head tail) {h next : MsPointer} {i n : Nat}
    {ret : Int} (high : i < tail) (points : PointsAt chain h i) (isNext : next.ptr = some n)
    (behind : chain[i + 1]? = some n) (value : (world.nodes n).ival = ret) (same : world.head = h) :
    ∃ head', Outcome world thread chain head tail
      { world with
        head := { ptr := next.ptr, tag := h.tag + 1 }
        popped := world.popped ++ [ret] } .idle chain head' tail := by
  have chained := sound.chained
  have place := chained.place_unique chained.headAt points (congrArg MsPointer.ptr same)
  have here : world.linked[head]? = some ret := by
    rw [chained.linked, List.getElem?_map, List.getElem?_tail, place, behind]
    exact congrArg some value
  have taken : world.popped ++ [ret] = world.linked.take (head + 1) := by
    obtain ⟨inside, equal⟩ := List.getElem?_eq_some_iff.mp here
    rw [List.take_succ_eq_append_getElem inside, equal, chained.popped]
  refine ⟨head + 1, ?_, List.prefix_refl _, Nat.le_succ _, le_refl _, rfl, fun _ _ => rfl, ?_, ?_,
    trivial, sound.exits⟩
  · refine ⟨chained.nodup, chained.allocated, chained.next, ?_, chained.tailAt, ?_, chained.linked,
      taken⟩
    · rw [place]
      exact ⟨n, isNext, behind⟩
    · omega
  · exact fun other m _ isFresh => sound.fresh other m isFresh
  · exact fun m absent => nomatch absent

/-- Nothing is behind the head when its `next` is null: the queue is empty. -/
theorem isEmpty_of_last (sound : MsSound world chain head tail) {h : MsPointer} {i j : Nat}
    (low : i ≤ head) (between : i ≤ j) (high : j ≤ tail) (points : PointsAt chain h i) {addr : Nat}
    (isAddr : h.ptr = some addr) (last : (world.nodes addr).next.ptr = none) :
    i = j ∧ world.isEmpty = true := by
  have chained := sound.chained
  have behind := chained.read_next points isAddr
  rw [last] at behind
  have beyond := List.getElem?_eq_none_iff.mp behind.symm
  have inside := chained.tailAt.inside
  have order := chained.order
  have length : world.linked.length = chain.length - 1 := by
    rw [chained.linked, List.length_map, List.length_tail]
  refine ⟨by omega, ?_⟩
  unfold MsWorld.isEmpty
  rw [decide_eq_true_iff, chained.popped]
  exact List.take_of_length_le (by omega)

/-- **Every access of a thread** leads from a sound world to a sound one. -/
theorem outcome_threadStep (sound : MsSound world chain head tail) :
    ∃ longer head' tail',
      Outcome world thread chain head tail
        (threadStep world (world.threads thread).sawEmpty (world.threads thread).pc).1
        (threadStep world (world.threads thread).sawEmpty (world.threads thread).pc).2
        longer head' tail' := by
  have chained := sound.chained
  have knows := sound.knows thread
  have read : ∀ pc : Pc, (∀ n, pc.fresh = some n → (world.threads thread).pc.fresh = some n) →
      Knows world chain head tail ((world.threads thread).sawEmpty || world.isEmpty) pc →
      ∃ longer head' tail', Outcome world thread chain head tail world pc longer head' tail' :=
    fun pc kept known => ⟨chain, head, tail, outcome_read sound kept known⟩
  generalize isPc : (world.threads thread).pc = pc at knows read ⊢
  cases pc with
  | idle => exact read _ (fun _ => id) trivial
  | crashed => exact knows.elim
  | pushReadTail n => exact read _ (fun _ => id) ⟨tail, le_refl _, chained.tailAt⟩
  | pushReadNext n t =>
      obtain ⟨j, low, points⟩ := knows
      obtain ⟨addr, isAddr, found⟩ := points
      unfold threadStep
      dsimp only
      rw [isAddr]
      refine read _ (fun _ => id) ⟨j, low, ⟨addr, isAddr, found⟩, ?_⟩
      intro m isNext
      rw [← chained.next j addr found]
      exact isNext
  | pushRecheck n t next =>
      obtain ⟨j, low, points, follows⟩ := knows
      unfold threadStep
      dsimp only
      split
      next =>
        split
        next last => exact read _ (fun _ => id) ⟨j, low, points, last⟩
        next more =>
          obtain ⟨m, isNext⟩ := Option.ne_none_iff_exists'.mp more
          exact read _ (fun _ => id) ⟨j, low, points, m, isNext, follows m isNext⟩
      next => exact read _ (fun _ => id) trivial
  | pushLink n t next =>
      obtain ⟨j, low, points, last⟩ := knows
      have own : (world.threads thread).pc.fresh = some n := by
        rw [isPc]
        rfl
      obtain ⟨addr, isAddr, found⟩ := points
      unfold threadStep
      dsimp only
      rw [isAddr]
      dsimp only
      split
      next same =>
        exact ⟨_, _, _, outcome_link sound own low ⟨addr, isAddr, found⟩ isAddr same last⟩
      next => exact read _ (fun _ => id) trivial
  | pushHelp n t next =>
      obtain ⟨j, low, points, m, isNext, behind⟩ := knows
      unfold threadStep
      dsimp only
      rw [isNext]
      obtain ⟨tail', outcome⟩ := @outcome_tail world chain head tail thread sound (.pushReadTail n)
        t j m points behind (t.tag + 1) (fun _ isFresh => isPc ▸ isFresh) (fun _ _ => trivial)
      exact ⟨_, _, _, outcome⟩
  | pushSwing n t =>
      obtain ⟨j, low, points, behind⟩ := knows
      unfold threadStep
      obtain ⟨tail', outcome⟩ := @outcome_tail world chain head tail thread sound .idle
        t j n points behind (t.tag + 1) (fun _ isFresh => nomatch isFresh) (fun _ _ => trivial)
      exact ⟨_, _, _, outcome⟩
  | popReadHead => exact read _ (fun _ => id) ⟨head, le_refl _, chained.headAt⟩
  | popReadTail h =>
      obtain ⟨i, low, points⟩ := knows
      exact read _ (fun _ => id)
        ⟨i, tail, low, low.trans chained.order, le_refl _, points, chained.tailAt⟩
  | popReadNext h t =>
      obtain ⟨i, j, low, between, high, points, second⟩ := knows
      have first := points
      obtain ⟨addr, isAddr, found⟩ := points
      unfold threadStep
      dsimp only
      rw [isAddr]
      refine read _ (fun _ => id) ⟨i, j, low, between, high, first, second, ?_, ?_⟩
      · intro m isNext
        rw [← chained.next i addr found]
        exact isNext
      · intro last
        obtain ⟨same, empty⟩ := isEmpty_of_last sound low between high first isAddr last
        rw [empty, Bool.or_true]
        exact ⟨same, rfl⟩
  | popRecheck h t next =>
      obtain ⟨i, j, low, between, high, first, second, follows, last⟩ := knows
      unfold threadStep
      dsimp only
      split
      next =>
        split
        next same =>
          have place := chained.place_unique first second same
          split
          next isLast =>
            obtain ⟨chainedAfter, grows, headMoves, tailMoves, threads, values, others, fresh, known,
              _⟩ := @outcome_read world chain head tail thread sound .idle
                (fun _ absent => nomatch absent) trivial
            refine ⟨chain, head, tail, ?_, grows, headMoves, tailMoves, threads, values, others,
              fresh, known, ?_⟩
            · obtain ⟨nodup, allocated, next, headAt, tailAt, order, linked, popped⟩ := chainedAfter
              exact ⟨nodup, allocated, next, headAt, tailAt, order, linked, popped⟩
            · intro exit member
              rcases List.mem_append.mp member with earlier | here
              · exact sound.exits exit earlier
              · rw [List.mem_singleton.mp here]
                exact (last isLast).2
          next more =>
            obtain ⟨m, isNext⟩ := Option.ne_none_iff_exists'.mp more
            exact read _ (fun _ => id) ⟨j, high, second, m, isNext, place ▸ follows m isNext⟩
        next different =>
          have apart : i ≠ j := by
            rintro rfl
            obtain ⟨n, isNode, atFirst⟩ := first
            obtain ⟨m, isOther, atSecond⟩ := second
            rw [atFirst] at atSecond
            rw [isNode, isOther, Option.some.inj atSecond] at different
            exact different rfl
          cases isNext : next.ptr with
          | none => exact absurd (last isNext).1 apart
          | some m =>
              exact read _ (fun _ => id) ⟨i, low, by omega, first, m, isNext, follows m isNext⟩
      next => exact read _ (fun _ => id) trivial
  | popHelp t next =>
      obtain ⟨j, low, points, m, isNext, behind⟩ := knows
      unfold threadStep
      dsimp only
      rw [isNext]
      obtain ⟨tail', outcome⟩ := @outcome_tail world chain head tail thread sound .popReadHead
        t j m points behind (t.tag + 1) (fun _ isFresh => nomatch isFresh) (fun _ _ => trivial)
      exact ⟨_, _, _, outcome⟩
  | popReadIval h next =>
      obtain ⟨i, low, high, points, m, isNext, behind⟩ := knows
      unfold threadStep
      dsimp only
      rw [isNext]
      refine read _ (fun _ => id) ⟨i, low, high, points, ⟨m, isNext, behind⟩, ?_⟩
      intro n isNode
      rw [isNext] at isNode
      rw [Option.some.inj isNode]
  | popSwing h next ret =>
      obtain ⟨i, low, high, points, behind, value⟩ := knows
      obtain ⟨m, isNext, found⟩ := behind
      unfold threadStep
      dsimp only
      split
      next same =>
        obtain ⟨head', outcome⟩ := @outcome_head world chain head tail thread sound h next i m ret
          high points isNext found (value m isNext) same
        exact ⟨_, _, _, outcome⟩
      next => exact read _ (fun _ => id) trivial

/-- A call of `ms_queue_push` allocates a node. -/
theorem outcome_push (sound : MsSound world chain head tail) (v : Int) :
    Outcome world thread chain head tail
      { world with
        nodes := Function.update world.nodes world.unused (newNode v)
        unused := world.unused + 1 }
      (.pushReadTail world.unused) chain head tail := by
  have chained := sound.chained
  have old : ∀ m, m < world.unused →
      Function.update world.nodes world.unused (newNode v) m = world.nodes m :=
    fun m below => Function.update_of_ne (by omega) _ _
  have values : ∀ m ∈ chain,
      (Function.update world.nodes world.unused (newNode v) m).ival = (world.nodes m).ival := by
    intro m member
    rw [old m (chained.allocated m member)]
  constructor
  · refine ⟨chained.nodup, ?_, ?_, chained.headAt, chained.tailAt, chained.order, ?_, chained.popped⟩
    · exact fun m member => Nat.lt_succ_of_lt (chained.allocated m member)
    · intro place m found
      dsimp only
      rw [old m (chained.allocated m (List.mem_of_getElem? found))]
      exact chained.next place m found
    · rw [chained.linked]
      refine List.map_congr_left ?_
      exact fun m member => (values m (List.mem_of_mem_tail member)).symm
  · exact List.prefix_refl _
  · exact le_refl _
  · exact le_refl _
  · rfl
  · exact values
  · intro other m _ isFresh
    obtain ⟨allocated, new, unlinked⟩ := sound.fresh other m isFresh
    refine ⟨Nat.lt_succ_of_lt allocated, new, ?_⟩
    dsimp only
    rw [old m allocated]
    exact unlinked
  · intro m isFresh
    cases Option.some.inj isFresh
    refine ⟨⟨Nat.lt_succ_self _, ?_, ?_⟩, ?_⟩
    · exact fun member => absurd (chained.allocated _ member) (lt_irrefl _)
    · dsimp only
      rw [Function.update_self]
      rfl
    · intro other _ shared
      exact absurd (sound.fresh other _ shared).1 (lt_irrefl _)
  · trivial
  · exact sound.exits

end

/-! ## Runs -/

theorem sound_step {before after : MsWorld} {event : MsEvent} {chain : List Nat} {head tail : Nat}
    (sound : MsSound before chain head tail) (stepped : before.step event = some after) :
    ∃ longer head' tail', MsSound after longer head' tail' := by
  cases event with
  | push thread v =>
      unfold MsWorld.step at stepped
      dsimp only at stepped
      split at stepped
      · cases Option.some.inj stepped
        exact ⟨chain, head, tail, (outcome_push sound v).sound sound rfl trivial⟩
      · cases stepped
  | pop thread =>
      unfold MsWorld.step at stepped
      dsimp only at stepped
      split at stepped
      · cases Option.some.inj stepped
        have outcome := @outcome_read before chain head tail thread sound .popReadHead
          (fun _ absent => nomatch absent) trivial
        exact ⟨chain, head, tail, outcome.sound sound rfl trivial⟩
      · cases stepped
  | step thread =>
      unfold MsWorld.step at stepped
      dsimp only at stepped
      split at stepped
      · cases stepped
      · cases Option.some.inj stepped
        obtain ⟨longer, head', tail', outcome⟩ := @outcome_threadStep before chain head tail thread sound
        exact ⟨longer, head', tail', outcome.sound sound rfl outcome.knows⟩

theorem sound_msQueueCreate (memory : Nat → MsNode) : MsSound (msQueueCreate memory) [0] 0 0 := by
  refine ⟨?_, fun _ => trivial, (fun _ _ absent => nomatch absent),
    (fun _ _ _ absent => nomatch absent), fun _ absent => absurd absent List.not_mem_nil⟩
  refine ⟨List.nodup_singleton 0, ?_, ?_, ⟨0, rfl, rfl⟩, ⟨0, rfl, rfl⟩, le_refl _, rfl, rfl⟩
  · intro n member
    rw [List.mem_singleton.mp member]
    exact Nat.one_pos
  · intro place n found
    cases place with
    | zero =>
        cases Option.some.inj found
        rfl
    | succ place => cases found

/-- **The queue is first in, first out** in every interleaving: what was popped
is the beginning of what was linked, a thread that finds the queue empty has
seen it empty, and no thread follows a null pointer. -/
theorem ms_queue_linearizes {world : MsWorld} (reached : msSystem.Reachable world) :
    world.popped <+: world.linked ∧ (∀ exit ∈ world.emptyExits, exit = true) ∧
      ∀ thread, (world.threads thread).pc ≠ .crashed := by
  have invariant : ∃ chain head tail, MsSound world chain head tail := by
    refine reached.invariant (fun world => ∃ chain head tail, MsSound world chain head tail) ?_ ?_
    · rintro start ⟨memory, rfl⟩
      exact ⟨[0], 0, 0, sound_msQueueCreate memory⟩
    · rintro before event after _ ⟨chain, head, tail, sound⟩ _ stepped
      exact sound_step sound stepped
  obtain ⟨chain, head, tail, sound⟩ := invariant
  refine ⟨?_, sound.exits, ?_⟩
  · rw [sound.chained.popped]
    exact List.take_prefix _ _
  · intro thread crashed
    have knows := sound.knows thread
    rw [crashed] at knows
    exact knows

/-- A thread takes some steps. -/
def stepsOf (thread count : Nat) : List MsEvent :=
  List.replicate count (MsEvent.step thread)

/-- Thread 2 finds the queue empty and thread 0 links a node; before it moves the
tail on, thread 1 pushes and has to help it, and thread 2 pops. -/
def threeThreads : MsWorld :=
  msSystem.outcome (msQueueCreate fun _ => newNode 0)
    (MsEvent.pop 2 :: stepsOf 2 3 ++ MsEvent.push 0 5 :: stepsOf 0 4 ++ stepsOf 2 1 ++
      MsEvent.push 1 7 :: stepsOf 1 9 ++ stepsOf 0 1 ++ MsEvent.pop 2 :: stepsOf 2 6)

theorem ms_queue_linearizes_threeThreads :
    threeThreads.linked = [5, 7] ∧ threeThreads.popped = [5] ∧ threeThreads.emptyExits = [true] ∧
      threeThreads.popped <+: threeThreads.linked := by
  have initial : msSystem.init (msQueueCreate fun _ => newNode 0) := ⟨_, rfl⟩
  have reached : msSystem.Reachable threeThreads := System.reachable_outcome initial _
  exact ⟨by decide +kernel, by decide +kernel, by decide +kernel, (ms_queue_linearizes reached).1⟩

end SimpleDfs.Lockfree
