import Mathlib.Logic.Function.Basic
import Mathlib.Data.List.Basic
import Mathlib.Tactic.Common

/-!
Contract: the ring buffer `s_queue` (`common/s_queue.c`).

Owns: `SQueue`, its operations with the expansion of a full queue, and the list
of elements a queue holds.

Does not own: what the elements are.

One slot always stays free, so a queue whose indices meet is empty.
-/

set_option autoImplicit false

namespace SimpleDfs.Common

universe u

/-- `struct s_queue`; `slots` is the memory at `p`. -/
structure SQueue (Elem : Type u) where
  total : Nat
  first : Nat
  last : Nat
  slots : Nat → Elem

variable {Elem : Type u}

/-- `s_queue_create`. -/
def sQueueCreate (elemNum : Nat) (junk : Nat → Elem) : SQueue Elem where
  total := max elemNum 16
  first := 0
  last := 0
  slots := junk

/-- `s_queue_empty`. -/
def sQueueEmpty (q : SQueue Elem) : Bool :=
  q.last == q.first

/-- `s_queue_peek`. -/
def sQueuePeek (q : SQueue Elem) : Option Elem :=
  if sQueueEmpty q then none else some (q.slots q.first)

/-- `s_queue_pop`. -/
def sQueuePop (q : SQueue Elem) : SQueue Elem :=
  if sQueueEmpty q then q else { q with first := (q.first + 1) % q.total }

/-- `s_queue_clear`. -/
def sQueueClear (q : SQueue Elem) : SQueue Elem :=
  { q with first := 0, last := 0 }

/-- Write through the pointer that `s_queue_peek` returned. -/
def sQueueSetFirst (q : SQueue Elem) (elem : Elem) : SQueue Elem :=
  { q with slots := Function.update q.slots q.first elem }

/-- The loop of `s_queue_push` that copies a full queue, with the index behind
the last copy. -/
def copyLoop (q : SQueue Elem) : Nat → Nat → Nat → (Nat → Elem) → Nat × (Nat → Elem)
  | 0, _, i, p => (i, p)
  | fuel + 1, first, i, p =>
      if first = q.last then (i, p)
      else
        copyLoop q fuel ((first + 1) % q.total) (i + 1) (Function.update p i (q.slots first))

/-- The expansion of a full queue; `junk` is the new memory. -/
def expandQueue (q : SQueue Elem) (junk : Nat → Elem) : SQueue Elem :=
  let (i, p) := copyLoop q q.total q.first 0 junk
  { total := q.total * 2, first := 0, last := i, slots := p }

/-- `s_queue_push`, with the element its caller fills in. -/
def sQueuePush (q : SQueue Elem) (junk : Nat → Elem) (elem : Elem) : SQueue Elem :=
  let q := if (q.last + 1) % q.total = q.first then expandQueue q junk else q
  { q with
    slots := Function.update q.slots q.last elem
    last := (q.last + 1) % q.total }

/-! ## What a queue holds -/

/-- The elements from a slot on, up to the last. -/
def walkQueue (q : SQueue Elem) : Nat → Nat → List Elem
  | 0, _ => []
  | fuel + 1, first =>
      if first = q.last then []
      else q.slots first :: walkQueue q fuel ((first + 1) % q.total)

/-- The elements of a queue, the next to pop first. -/
def queued (q : SQueue Elem) : List Elem :=
  walkQueue q q.total q.first

/-- The indices are slots, and there are at least two. -/
structure RingQueue (q : SQueue Elem) : Prop where
  two : 2 ≤ q.total
  first : q.first < q.total
  last : q.last < q.total

/-- The slots from `first` to the last hold the elements. -/
def Between (q : SQueue Elem) : Nat → List Elem → Prop
  | first, [] => first = q.last
  | first, elem :: rest =>
      first ≠ q.last ∧ q.slots first = elem ∧ Between q ((first + 1) % q.total) rest

/-- The number of slots between two indices of a ring. -/
def gap (total first last : Nat) : Nat :=
  if first ≤ last then last - first else last + total - first

theorem next_slot {total slot : Nat} (inside : slot < total) :
    (slot + 1) % total = if slot + 1 = total then 0 else slot + 1 := by
  split
  next wraps => rw [wraps, Nat.mod_self]
  next => exact Nat.mod_eq_of_lt (by omega)

theorem next_lt {total : Nat} (slot : Nat) (two : 2 ≤ total) : (slot + 1) % total < total :=
  Nat.mod_lt _ (by omega)

/-- The walk from a slot ends at the last one and lists the slots between. -/
theorem between_walkQueue {q : SQueue Elem} (ring : RingQueue q) (fuel : Nat) :
    ∀ first, first < q.total → gap q.total first q.last ≤ fuel →
      Between q first (walkQueue q fuel first) := by
  have last := ring.last
  induction fuel with
  | zero =>
      intro first inside near
      unfold gap at near
      show first = q.last
      split at near
      · omega
      · omega
  | succ fuel inductionHypothesis =>
      intro first inside near
      unfold walkQueue
      by_cases met : first = q.last
      · rw [if_pos met]
        exact met
      · rw [if_neg met]
        refine ⟨met, rfl, inductionHypothesis _ (next_lt first ring.two) ?_⟩
        rw [next_slot inside]
        unfold gap at near ⊢
        split
        · split at near
          · split <;> omega
          · split <;> omega
        · split at near
          · split <;> omega
          · split <;> omega

theorem between_queued {q : SQueue Elem} (ring : RingQueue q) : Between q q.first (queued q) := by
  have first := ring.first
  have last := ring.last
  refine between_walkQueue ring q.total q.first ring.first ?_
  unfold gap
  split
  · omega
  · omega

/-- The list between a slot and the last is as long as the gap. -/
theorem between_length {q : SQueue Elem} (ring : RingQueue q) (elems : List Elem) :
    ∀ first, first < q.total → Between q first elems →
      elems.length = gap q.total first q.last := by
  have last := ring.last
  induction elems with
  | nil =>
      intro first _ between
      have met : first = q.last := between
      unfold gap
      rw [met, if_pos (Nat.le_refl _), List.length_nil]
      omega
  | cons elem rest inductionHypothesis =>
      intro first inside between
      obtain ⟨unmet, _, behind⟩ := between
      have length := inductionHypothesis _ (next_lt first ring.two) behind
      rw [next_slot inside] at length
      rw [List.length_cons, length]
      unfold gap
      split
      · split
        · split <;> omega
        · split <;> omega
      · split
        · split <;> omega
        · split <;> omega

/-- The walk finds every list that stands between a slot and the last. -/
theorem walkQueue_eq {q : SQueue Elem} (elems : List Elem) :
    ∀ first fuel, elems.length ≤ fuel → Between q first elems →
      walkQueue q fuel first = elems := by
  induction elems with
  | nil =>
      intro first fuel _ between
      have met : first = q.last := between
      cases fuel with
      | zero => rfl
      | succ fuel => exact if_pos met
  | cons elem rest inductionHypothesis =>
      intro first fuel enough between
      obtain ⟨unmet, here, behind⟩ := between
      cases fuel with
      | zero => exact absurd enough (by simp)
      | succ fuel =>
          unfold walkQueue
          rw [if_neg unmet, here]
          rw [List.length_cons] at enough
          rw [inductionHypothesis _ fuel (by omega) behind]

theorem queued_length_lt {q : SQueue Elem} (ring : RingQueue q) : (queued q).length < q.total := by
  have first := ring.first
  have last := ring.last
  rw [between_length ring _ q.first ring.first (between_queued ring)]
  unfold gap
  split
  · omega
  · omega

theorem queued_eq {q : SQueue Elem} (ring : RingQueue q) {elems : List Elem}
    (between : Between q q.first elems) : queued q = elems := by
  have first := ring.first
  have last := ring.last
  refine walkQueue_eq elems q.first q.total ?_ between
  rw [between_length ring elems q.first ring.first between]
  unfold gap
  split
  · omega
  · omega

/-! ## The operations -/

theorem ringQueue_create (elemNum : Nat) (junk : Nat → Elem) :
    RingQueue (sQueueCreate elemNum junk) ∧ queued (sQueueCreate elemNum junk) = [] := by
  have ring : RingQueue (sQueueCreate elemNum junk) := by
    have large : 16 ≤ max elemNum 16 := Nat.le_max_right _ _
    exact ⟨by unfold sQueueCreate; dsimp only; omega, by unfold sQueueCreate; dsimp only; omega,
      by unfold sQueueCreate; dsimp only; omega⟩
  exact ⟨ring, queued_eq ring rfl⟩

theorem ringQueue_clear {q : SQueue Elem} (ring : RingQueue q) :
    RingQueue (sQueueClear q) ∧ queued (sQueueClear q) = [] := by
  have two := ring.two
  have cleared : RingQueue (sQueueClear q) :=
    ⟨two, show 0 < q.total by omega, show 0 < q.total by omega⟩
  exact ⟨cleared, queued_eq cleared rfl⟩

/-- `s_queue_peek` returns the first element. -/
theorem sQueuePeek_eq {q : SQueue Elem} (ring : RingQueue q) :
    sQueuePeek q = (queued q).head? := by
  have between := between_queued ring
  unfold sQueuePeek sQueueEmpty
  cases elems : queued q with
  | nil =>
      rw [elems] at between
      have met : q.first = q.last := between
      rw [met]
      simp
  | cons elem rest =>
      rw [elems] at between
      obtain ⟨unmet, here, _⟩ := between
      rw [if_neg (by simpa using Ne.symm unmet), here]
      rfl

/-- `s_queue_pop` removes the first element. -/
theorem sQueuePop_cons {q : SQueue Elem} (ring : RingQueue q) {elem : Elem} {rest : List Elem}
    (elems : queued q = elem :: rest) :
    RingQueue (sQueuePop q) ∧ queued (sQueuePop q) = rest := by
  have between := between_queued ring
  rw [elems] at between
  obtain ⟨unmet, _, behind⟩ := between
  have popped : sQueuePop q = { q with first := (q.first + 1) % q.total } := by
    unfold sQueuePop sQueueEmpty
    exact if_neg (by simpa using Ne.symm unmet)
  have moved : RingQueue { q with first := (q.first + 1) % q.total } :=
    ⟨ring.two, next_lt q.first ring.two, ring.last⟩
  have same : ∀ (elems : List Elem) (slot first : Nat), Between q slot elems →
      Between { q with first := first } slot elems := by
    intro elems
    induction elems with
    | nil => exact fun _ _ met => met
    | cons _ _ inductionHypothesis =>
        exact fun _ first between =>
          ⟨between.1, between.2.1, inductionHypothesis _ first between.2.2⟩
  rw [popped]
  exact ⟨moved, queued_eq moved (same rest _ _ behind)⟩

/-- A slot that the walk does not visit does not matter. -/
theorem between_update {q : SQueue Elem} (ring : RingQueue q) {slot : Nat} (elem : Elem)
    (elems : List Elem) :
    ∀ first, first < q.total → Between q first elems →
      elems.length < gap q.total slot q.last →
      Between { q with slots := Function.update q.slots slot elem } first elems := by
  induction elems with
  | nil => exact fun first _ met _ => met
  | cons here rest inductionHypothesis =>
      intro first inside between apart
      have length := between_length ring _ first inside between
      obtain ⟨unmet, found, behind⟩ := between
      have different : first ≠ slot := by
        rintro rfl
        omega
      refine ⟨unmet, ?_, inductionHypothesis _ (next_lt first ring.two) behind ?_⟩
      · exact (Function.update_of_ne different _ _).trans found
      · rw [List.length_cons] at apart
        omega

/-- Writing to the first element. -/
theorem sQueueSetFirst_cons {q : SQueue Elem} (ring : RingQueue q) {elem : Elem}
    {rest : List Elem} (elems : queued q = elem :: rest) (written : Elem) :
    RingQueue (sQueueSetFirst q written) ∧ queued (sQueueSetFirst q written) = written :: rest := by
  have between := between_queued ring
  rw [elems] at between
  have length := between_length ring _ q.first ring.first between
  obtain ⟨unmet, _, behind⟩ := between
  have ringAfter : RingQueue (sQueueSetFirst q written) := ⟨ring.two, ring.first, ring.last⟩
  rw [List.length_cons] at length
  refine ⟨ringAfter, queued_eq ringAfter ⟨unmet, Function.update_self _ _ _, ?_⟩⟩
  exact between_update ring written rest _ (next_lt q.first ring.two) behind (by omega)

/-- Filling the free slot behind the last element. -/
theorem between_append {q : SQueue Elem} (ring : RingQueue q) (elem : Elem) (elems : List Elem) :
    ∀ first, first < q.total → Between q first elems → (q.last + 1) % q.total ≠ first →
      Between { q with
        slots := Function.update q.slots q.last elem
        last := (q.last + 1) % q.total } first (elems ++ [elem]) := by
  have last := ring.last
  have two := ring.two
  induction elems with
  | nil =>
      intro first _ met free
      have here : first = q.last := met
      refine ⟨Ne.symm free, ?_, ?_⟩
      · dsimp only
        rw [here, Function.update_self]
      · show (first + 1) % q.total = (q.last + 1) % q.total
        rw [here]
  | cons here rest inductionHypothesis =>
      intro first inside between free
      obtain ⟨unmet, found, behind⟩ := between
      refine ⟨Ne.symm free, ?_, inductionHypothesis _ (next_lt first two) behind ?_⟩
      · exact (Function.update_of_ne unmet _ _).trans found
      · rw [next_slot inside, next_slot last]
        split
        · split <;> omega
        · split <;> omega

/-- The copies of the elements, one behind the other. -/
theorem copyLoop_spec {q : SQueue Elem} (elems : List Elem) :
    ∀ (fuel first i : Nat) (p : Nat → Elem), elems.length ≤ fuel → Between q first elems →
      (copyLoop q fuel first i p).1 = i + elems.length ∧
        (∀ slot, slot < i → (copyLoop q fuel first i p).2 slot = p slot) ∧
        ∀ index, (copied : index < elems.length) →
          (copyLoop q fuel first i p).2 (i + index) = elems[index] := by
  induction elems with
  | nil =>
      intro fuel first i p _ met
      have stops : copyLoop q fuel first i p = (i, p) := by
        cases fuel with
        | zero => rfl
        | succ fuel => exact if_pos met
      rw [stops]
      exact ⟨rfl, fun _ _ => rfl, fun _ copied => absurd copied (Nat.not_lt_zero _)⟩
  | cons elem rest inductionHypothesis =>
      intro fuel first i p enough between
      obtain ⟨unmet, here, behind⟩ := between
      cases fuel with
      | zero => exact absurd enough (by simp)
      | succ fuel =>
          rw [List.length_cons] at enough
          obtain ⟨count, kept, copies⟩ := inductionHypothesis fuel ((first + 1) % q.total) (i + 1)
            (Function.update p i (q.slots first)) (by omega) behind
          unfold copyLoop
          rw [if_neg unmet]
          refine ⟨?_, ?_, ?_⟩
          · rw [count, List.length_cons]
            omega
          · intro slot below
            rw [kept slot (by omega), Function.update_of_ne (by omega)]
          · intro index copied
            cases index with
            | zero =>
                refine (kept i (by omega)).trans ?_
                rw [Function.update_self, here]
                rfl
            | succ index =>
                have moved : i + (index + 1) = i + 1 + index := by omega
                rw [List.length_cons] at copied
                rw [moved, copies index (by omega)]
                rfl

/-- Elements that stand one behind the other, up to the last. -/
theorem between_straight {q : SQueue Elem} (elems : List Elem) :
    ∀ first, first + elems.length = q.last → q.last < q.total →
      (∀ index, (inside : index < elems.length) → q.slots (first + index) = elems[index]) →
      Between q first elems := by
  induction elems with
  | nil => exact fun first met _ _ => met
  | cons elem rest inductionHypothesis =>
      intro first ends inside holds
      rw [List.length_cons] at ends
      refine ⟨by omega, holds 0 (by simp), ?_⟩
      rw [Nat.mod_eq_of_lt (by omega)]
      refine inductionHypothesis (first + 1) (by omega) inside ?_
      intro index below
      have moved : first + 1 + index = first + (index + 1) := by omega
      rw [moved, holds (index + 1) (by rw [List.length_cons]; omega)]
      rfl

/-- The expansion keeps the elements and makes room. -/
theorem expandQueue_spec {q : SQueue Elem} (ring : RingQueue q) (junk : Nat → Elem) :
    RingQueue (expandQueue q junk) ∧ queued (expandQueue q junk) = queued q ∧
      ((expandQueue q junk).last + 1) % (expandQueue q junk).total ≠ (expandQueue q junk).first := by
  have short := queued_length_lt ring
  have two := ring.two
  obtain ⟨count, _, copies⟩ := copyLoop_spec (queued q) q.total q.first 0 junk (by omega)
    (between_queued ring)
  rw [Nat.zero_add] at count
  have last : (expandQueue q junk).last = (queued q).length := count
  have total : (expandQueue q junk).total = q.total * 2 := rfl
  have first : (expandQueue q junk).first = 0 := rfl
  have ringAfter : RingQueue (expandQueue q junk) := by
    constructor
    · omega
    · omega
    · omega
  refine ⟨ringAfter, queued_eq ringAfter ?_, ?_⟩
  · rw [first]
    exact between_straight (queued q) 0 (by omega) (by omega) copies
  · rw [last, total, first, Nat.mod_eq_of_lt (by omega)]
    omega

/-- **`s_queue_push` appends**, whether the queue is full or not. -/
theorem sQueuePush_spec {q : SQueue Elem} (ring : RingQueue q) (junk : Nat → Elem) (elem : Elem) :
    RingQueue (sQueuePush q junk elem) ∧ queued (sQueuePush q junk elem) = queued q ++ [elem] := by
  have append : ∀ q : SQueue Elem, RingQueue q → (q.last + 1) % q.total ≠ q.first →
      RingQueue { q with
        slots := Function.update q.slots q.last elem, last := (q.last + 1) % q.total } ∧
      queued { q with
        slots := Function.update q.slots q.last elem, last := (q.last + 1) % q.total } =
          queued q ++ [elem] := by
    intro q ring free
    have ringAfter : RingQueue { q with
        slots := Function.update q.slots q.last elem, last := (q.last + 1) % q.total } :=
      ⟨ring.two, ring.first, next_lt q.last ring.two⟩
    exact ⟨ringAfter, queued_eq ringAfter
      (between_append ring elem (queued q) q.first ring.first (between_queued ring) free)⟩
  unfold sQueuePush
  by_cases full : (q.last + 1) % q.total = q.first
  · obtain ⟨ringExpanded, same, free⟩ := expandQueue_spec ring junk
    rw [if_pos full, ← same]
    exact append _ ringExpanded free
  · rw [if_neg full]
    exact append q ring full

end SimpleDfs.Common
