import SimpleDfs.Library.Tally
import SimpleDfs.Lockfree.Linearization

/-!
Contract: calls of the lock-free queue end (`lockfree/s_ms_queue.c`).

Owns: how many more accesses a thread needs while nobody else changes the queue,
how often the queue changes, and from both a bound on the accesses of a run; and
what the calls have done once they have returned.

An access that fails to link a node or to move the head or tail fails because
another access did.

Does not own: the order of the values.
-/

set_option autoImplicit false

namespace SimpleDfs.Lockfree

open SimpleDfs.Library

/-! ## Statements -/

def MsEvent.thread : MsEvent → Nat
  | .push thread _ => thread
  | .pop thread => thread
  | .step thread => thread

def MsEvent.isStep : MsEvent → Bool
  | .step _ => true
  | _ => false

def MsEvent.isPop : MsEvent → Bool
  | .pop _ => true
  | _ => false

/-- The value a call pushes. -/
def MsEvent.value : MsEvent → Option Int
  | .push _ v => some v
  | _ => none

/-- The values that calls pushed. -/
def pushedValues (events : List MsEvent) : List Int :=
  events.filterMap MsEvent.value

/-- The `next` behind a pointer. -/
def MsWorld.behind (world : MsWorld) (pointer : MsPointer) : Option MsPointer :=
  pointer.ptr.map fun addr => (world.nodes addr).next

/-- The accesses a thread still needs until it returns or changes the queue, while
nobody else changes it. -/
def MsWorld.left (world : MsWorld) : Pc → Nat
  | .idle => 0
  | .crashed => 0
  | .pushReadTail _ => 5
  | .pushReadNext _ tail => if tail = world.tail then 4 else 8
  | .pushRecheck _ tail next =>
      if tail = world.tail ∧ world.behind tail = some next then 3 else 7
  | .pushLink _ tail next => if world.behind tail = some next then 2 else 6
  | .pushHelp _ tail _ => if tail = world.tail then 1 else 6
  | .pushSwing _ _ => 1
  | .popReadHead => 6
  | .popReadTail head => if head = world.head then 5 else 10
  | .popReadNext head tail => if head = world.head ∧ tail = world.tail then 4 else 9
  | .popRecheck head tail _ => if head = world.head ∧ tail = world.tail then 3 else 8
  | .popHelp tail _ => if tail = world.tail then 1 else 7
  | .popReadIval head _ => if head = world.head then 2 else 8
  | .popSwing head _ _ => if head = world.head then 1 else 7

/-- Whether the thread is about to link a node with the value. -/
def MsWorld.brings (world : MsWorld) (v : Int) (pc : Pc) : Nat :=
  match pc.fresh with
  | none => 0
  | some n => if (world.nodes n).ival = v then 1 else 0

/-- Whether the thread is in `ms_queue_pop`. -/
def Pc.popping : Pc → Nat
  | .popReadHead => 1
  | .popReadTail _ => 1
  | .popReadNext _ _ => 1
  | .popRecheck _ _ _ => 1
  | .popHelp _ _ => 1
  | .popReadIval _ _ => 1
  | .popSwing _ _ _ => 1
  | _ => 0

/-- The sum over the threads. -/
def MsWorld.total (world : MsWorld) (threads : Nat) (count : Pc → Nat) : Nat :=
  ((List.range threads).map fun thread => count (world.threads thread).pc).sum

/-- What a run of so many threads has come to. -/
structure Account (threads : Nat) (past : List MsEvent) (world : MsWorld) : Prop where
  others : ∀ thread, threads ≤ thread → (world.threads thread).pc = .idle
  spent : ∃ chain head tail, MsSound world chain head tail ∧
    past.countP MsEvent.isStep + world.total threads world.left + (10 * threads + 1) ≤
      10 * threads * past.countP (fun event => !event.isStep) +
        (10 * threads + 1) * (chain.length + head + tail)
  pushed : ∀ v, world.linked.count v + world.total threads (world.brings v) =
    (pushedValues past).count v
  popped : world.popped.length + world.emptyExits.length + world.total threads Pc.popping =
    past.countP MsEvent.isPop

/-! ## One access -/

section

variable {world after : MsWorld} {chain : List Nat} {head tail thread : Nat}

theorem MsWorld.left_le (world : MsWorld) (pc : Pc) : world.left pc ≤ 10 := by
  unfold MsWorld.left
  split <;> (try split) <;> omega

theorem MsWorld.left_congr (sameHead : after.head = world.head) (sameTail : after.tail = world.tail)
    (sameNodes : after.nodes = world.nodes) (pc : Pc) : after.left pc = world.left pc := by
  unfold MsWorld.left MsWorld.behind
  rw [sameHead, sameTail, sameNodes]

/-- No access writes the value of a node. -/
theorem threadStep_ival (world : MsWorld) (sawEmpty : Bool) (pc : Pc) (n : Nat) :
    ((threadStep world sawEmpty pc).1.nodes n).ival = (world.nodes n).ival := by
  cases pc with
  | pushLink fresh tail next =>
      unfold threadStep
      dsimp only
      split
      next => rfl
      next addr _ =>
        split
        next =>
          dsimp only
          by_cases same : n = addr
          · rw [same, Function.update_self]
          · rw [Function.update_of_ne same]
        next => rfl
  | _ =>
      unfold threadStep
      dsimp only
      repeat' split
      all_goals rfl

theorem MsWorld.brings_congr {pc : Pc} {v : Int}
    (values : ∀ n, pc.fresh = some n → (after.nodes n).ival = (world.nodes n).ival) :
    after.brings v pc = world.brings v pc := by
  unfold MsWorld.brings
  split
  next => rfl
  next n isFresh => rw [values n isFresh]

/-- A thread links its value, or still brings it. -/
theorem threadStep_linked {sawEmpty : Bool} {pc : Pc} (v : Int)
    (alive : (threadStep world sawEmpty pc).2 ≠ .crashed) :
    (threadStep world sawEmpty pc).1.linked.count v +
        world.brings v (threadStep world sawEmpty pc).2 =
      world.linked.count v + world.brings v pc := by
  revert alive
  cases pc with
  | pushLink n tail next =>
      unfold threadStep
      dsimp only
      split
      next => exact fun alive => absurd rfl alive
      next =>
        split
        next =>
          intro _
          dsimp only
          rw [List.count_append, List.count_singleton]
          unfold MsWorld.brings Pc.fresh
          dsimp only
          simp only [beq_iff_eq, Nat.add_zero]
        next => exact fun _ => rfl
  | _ =>
      unfold threadStep
      dsimp only
      repeat' split
      all_goals first
        | exact fun _ => rfl
        | exact fun alive => absurd rfl alive

/-- A thread pops a value or finds the queue empty, or is still at it. -/
theorem threadStep_popped {sawEmpty : Bool} {pc : Pc}
    (alive : (threadStep world sawEmpty pc).2 ≠ .crashed) :
    (threadStep world sawEmpty pc).1.popped.length +
        (threadStep world sawEmpty pc).1.emptyExits.length +
        (threadStep world sawEmpty pc).2.popping =
      world.popped.length + world.emptyExits.length + pc.popping := by
  revert alive
  cases pc with
  | popRecheck head tail next =>
      unfold threadStep
      dsimp only
      split
      next =>
        split
        next =>
          split
          next =>
            intro _
            dsimp only
            rw [List.length_append]
            rfl
          next => exact fun _ => rfl
        next => exact fun _ => rfl
      next => exact fun _ => rfl
  | popSwing head next ret =>
      unfold threadStep
      dsimp only
      split
      next =>
        intro _
        dsimp only
        rw [List.length_append, List.length_singleton]
        exact Nat.add_right_comm _ 1 _
      next => exact fun _ => rfl
  | _ =>
      unfold threadStep
      dsimp only
      repeat' split
      all_goals first
        | exact fun _ => rfl
        | exact fun alive => absurd rfl alive

/-- The chain is as long as what was linked and the first node. -/
theorem Chained.linked_length (chained : Chained world chain head tail) :
    world.linked.length + 1 = chain.length := by
  have inside := chained.tailAt.inside
  rw [chained.linked, List.length_map, List.length_tail]
  omega

/-- The head is behind what was popped. -/
theorem Chained.popped_length (chained : Chained world chain head tail) :
    world.popped.length = head := by
  have inside := chained.tailAt.inside
  have order := chained.order
  have length := chained.linked_length
  rw [chained.popped, List.length_take]
  omega

section

variable {pc : Pc} {longer : List Nat} {head' tail' : Nat}

theorem Outcome.length_le
    (outcome : Outcome world thread chain head tail after pc longer head' tail') :
    chain.length ≤ longer.length :=
  outcome.grows.length_le

/-- A compare and swap has moved the tail. -/
theorem Outcome.tail_lt
    (outcome : Outcome world thread chain head tail after pc longer head' tail')
    (chained : Chained world chain head tail) {j n : Nat} (points : PointsAt chain world.tail j)
    (behind : chain[j + 1]? = some n) (moved : after.tail.ptr = some n) : tail < tail' := by
  have before := chained.place_unique chained.tailAt points rfl
  have place : PointsAt longer after.tail (j + 1) :=
    ⟨n, moved, getElem?_grows outcome.grows behind⟩
  have now := outcome.chained.place_unique outcome.chained.tailAt place rfl
  omega

end

/-- The access moves the queue on. -/
def Moves (world : MsWorld) (thread : Nat) (chain : List Nat) (head tail : Nat) (after : MsWorld)
    (pc : Pc) : Prop :=
  ∀ longer head' tail', Outcome world thread chain head tail after pc longer head' tail' →
    chain.length + head + tail < longer.length + head' + tail'

/-- The access leaves the queue as it is, and the thread needs fewer. -/
structure Spends (world after : MsWorld) (before pc : Pc) : Prop where
  head : after.head = world.head
  tail : after.tail = world.tail
  nodes : after.nodes = world.nodes
  left : world.left pc < world.left before

/-- Moving the tail on works, or another thread has moved it. -/
theorem swing_cases (sound : MsSound world chain head tail) {before pc : Pc} {t : MsPointer}
    {j n : Nat} (points : PointsAt chain t j) (behind : chain[j + 1]? = some n) (tag : BitVec 32)
    (fewer : t ≠ world.tail → world.left pc < world.left before) :
    Spends world { world with tail := casPointer world.tail t { ptr := some n, tag := tag } }
        before pc ∨
      Moves world thread chain head tail
        { world with tail := casPointer world.tail t { ptr := some n, tag := tag } } pc := by
  by_cases same : world.tail = t
  · right
    intro longer head' tail' outcome
    have moved : casPointer world.tail t { ptr := some n, tag := tag } =
        { ptr := some n, tag := tag } := if_pos same
    have later := outcome.tail_lt sound.chained (same ▸ points) behind
      (congrArg MsPointer.ptr moved)
    have length := outcome.length_le
    have headMoves := outcome.headMoves
    omega
  · left
    exact ⟨rfl, if_neg same, rfl, fewer fun equal => same equal.symm⟩

/-- **Every access** brings its thread nearer to its return or moves the queue on. -/
theorem access_cases (sound : MsSound world chain head tail)
    (live : (world.threads thread).pc ≠ .idle) :
    Spends world
        (threadStep world (world.threads thread).sawEmpty (world.threads thread).pc).1
        (world.threads thread).pc
        (threadStep world (world.threads thread).sawEmpty (world.threads thread).pc).2 ∨
      Moves world thread chain head tail
        (threadStep world (world.threads thread).sawEmpty (world.threads thread).pc).1
        (threadStep world (world.threads thread).sawEmpty (world.threads thread).pc).2 := by
  have chained := sound.chained
  have knows := sound.knows thread
  have read : ∀ before pc : Pc, world.left pc < world.left before →
      Spends world world before pc ∨ Moves world thread chain head tail world pc :=
    fun before pc fewer => Or.inl ⟨rfl, rfl, rfl, fewer⟩
  generalize (world.threads thread).sawEmpty = sawEmpty at knows ⊢
  generalize (world.threads thread).pc = pc at knows live ⊢
  cases pc with
  | idle => exact absurd rfl live
  | crashed => exact knows.elim
  | pushReadTail n =>
      unfold threadStep
      apply read
      simp only [MsWorld.left, if_pos]
      decide
  | pushReadNext n t =>
      obtain ⟨j, _, addr, isAddr, _⟩ := knows
      unfold threadStep
      dsimp only
      rw [isAddr]
      have found : world.behind t = some (world.nodes addr).next := by
        rw [MsWorld.behind, isAddr]
        rfl
      apply read
      simp only [MsWorld.left, found, and_true]
      split <;> omega
  | pushRecheck n t next =>
      unfold threadStep
      dsimp only
      split
      next here =>
        split <;>
          · apply read
            simp only [MsWorld.left, here, true_and, if_pos]
            split <;> omega
      next moved =>
        apply read
        simp only [MsWorld.left, moved, false_and, if_false]
        decide
  | pushLink n t next =>
      obtain ⟨j, _, ⟨addr, isAddr, _⟩, _⟩ := knows
      unfold threadStep
      dsimp only
      rw [isAddr]
      dsimp only
      split
      next =>
        right
        intro longer head' tail' outcome
        have grown := outcome.chained.linked_length
        have length := chained.linked_length
        have headMoves := outcome.headMoves
        have tailMoves := outcome.tailMoves
        rw [List.length_append, List.length_singleton] at grown
        omega
      next changed =>
        have other : ¬ world.behind t = some next := by
          rw [MsWorld.behind, isAddr]
          exact fun equal => changed (Option.some.inj equal)
        apply read
        simp only [MsWorld.left, other, if_false]
        decide
  | pushHelp n t next =>
      obtain ⟨j, _, points, m, isNext, behind⟩ := knows
      unfold threadStep
      dsimp only
      rw [isNext]
      apply swing_cases sound points behind
      intro moved
      simp only [MsWorld.left, moved, if_false]
      decide
  | pushSwing n t =>
      obtain ⟨j, _, points, behind⟩ := knows
      unfold threadStep
      apply swing_cases sound points behind
      intro _
      simp only [MsWorld.left]
      decide
  | popReadHead =>
      unfold threadStep
      apply read
      simp only [MsWorld.left, if_pos]
      decide
  | popReadTail h =>
      unfold threadStep
      apply read
      simp only [MsWorld.left, and_true]
      split <;> omega
  | popReadNext h t =>
      obtain ⟨_, _, _, _, _, ⟨addr, isAddr, _⟩, _⟩ := knows
      unfold threadStep
      dsimp only
      rw [isAddr]
      apply read
      simp only [MsWorld.left]
      split <;> omega
  | popRecheck h t next =>
      unfold threadStep
      dsimp only
      split
      next here =>
        split
        next =>
          split
          next =>
            left
            refine ⟨rfl, rfl, rfl, ?_⟩
            simp only [MsWorld.left]
            split <;> decide
          next =>
            apply read
            simp only [MsWorld.left, here, true_and]
            split <;> omega
        next =>
          apply read
          simp only [MsWorld.left, here, true_and, if_true]
          split <;> omega
      next moved =>
        apply read
        simp only [MsWorld.left, moved, false_and, if_false]
        decide
  | popHelp t next =>
      obtain ⟨j, _, points, m, isNext, behind⟩ := knows
      unfold threadStep
      dsimp only
      rw [isNext]
      apply swing_cases sound points behind
      intro moved
      simp only [MsWorld.left, moved, if_false]
      decide
  | popReadIval h next =>
      obtain ⟨_, _, _, _, m, isNext, _⟩ := knows
      unfold threadStep
      dsimp only
      rw [isNext]
      apply read
      simp only [MsWorld.left]
      split <;> omega
  | popSwing h next ret =>
      unfold threadStep
      dsimp only
      split
      next =>
        right
        intro longer head' tail' outcome
        have now := outcome.chained.popped_length
        have before := chained.popped_length
        have length := outcome.length_le
        have tailMoves := outcome.tailMoves
        rw [List.length_append, List.length_singleton] at now
        omega
      next moved =>
        have other : ¬ h = world.head := fun equal => moved equal.symm
        apply read
        simp only [MsWorld.left, other, if_false]
        decide

end

/-! ## One step of a run -/

section

variable {threads : Nat} {past : List MsEvent} {world after : MsWorld} {event : MsEvent}

/-- One thread counts differently. -/
theorem total_exchange {thread : Nat} (small : thread < threads) {before later : Pc → Nat}
    {less more : Nat}
    (changed : later (after.threads thread).pc + less = before (world.threads thread).pc + more)
    (others : ∀ other, other ≠ thread →
      later (after.threads other).pc = before (world.threads other).pc) :
    after.total threads later + less = world.total threads before + more :=
  sum_map_exchange List.nodup_range (List.mem_range.mpr small) changed
    fun other _ apart => others other apart

theorem total_left_le (world : MsWorld) (threads : Nat) :
    world.total threads world.left ≤ 10 * threads := by
  have most := @sum_map_le _ (List.range threads)
    (fun thread => world.left (world.threads thread).pc) 10 fun _ _ => world.left_le _
  rw [List.length_range, Nat.mul_comm] at most
  exact most

@[simp] theorem observe_pc (world : MsWorld) (thread other : Nat) (state : Thread) :
    ((world.place thread state).observe.threads other).pc =
      if other = thread then state.pc else (world.threads other).pc := by
  unfold MsWorld.observe MsWorld.place
  dsimp only
  rw [Function.update_apply]
  split <;> rfl

theorem pushedValues_append (past : List MsEvent) (event : MsEvent) :
    pushedValues (past ++ [event]) = pushedValues past ++ event.value.toList := by
  unfold pushedValues
  rw [List.filterMap_append]
  cases value : event.value with
  | none => rw [List.filterMap_cons_none value, List.filterMap_nil, Option.toList_none]
  | some v => rw [List.filterMap_cons_some value, List.filterMap_nil, Option.toList_some]

/-- A thread begins a call. -/
theorem Account.call (account : Account threads past world) {thread : Nat}
    (small : thread < threads) (idle : (world.threads thread).pc = .idle) {base : MsWorld} {pc : Pc}
    (isCall : event.isStep = false) (sameThreads : base.threads = world.threads)
    (sameLinked : base.linked = world.linked) (samePopped : base.popped = world.popped)
    (sameExits : base.emptyExits = world.emptyExits)
    (sound : ∀ chain head tail, MsSound world chain head tail →
      MsSound (base.place thread { pc := pc, sawEmpty := false }).observe chain head tail)
    (values : ∀ n < world.unused, (base.nodes n).ival = (world.nodes n).ival)
    (brought : ∀ v, base.brings v pc = event.value.toList.count v)
    (begun : pc.popping = if event.isPop then 1 else 0) :
    Account threads (past ++ [event])
      (base.place thread { pc := pc, sawEmpty := false }).observe := by
  obtain ⟨chain, head, tail, soundBefore, spent⟩ := account.spent
  have here : ((base.place thread { pc := pc, sawEmpty := false }).observe.threads thread).pc =
      pc := by
    rw [observe_pc, if_pos rfl]
  have there : ∀ other, other ≠ thread →
      ((base.place thread { pc := pc, sawEmpty := false }).observe.threads other).pc =
        (world.threads other).pc := by
    intro other apart
    rw [observe_pc, if_neg apart, sameThreads]
  refine ⟨?_, ⟨chain, head, tail, sound chain head tail soundBefore, ?_⟩, ?_, ?_⟩
  · intro other large
    rw [there other (by omega)]
    exact account.others other large
  · have most := total_left_le (base.place thread { pc := pc, sawEmpty := false }).observe threads
    have steps : (past ++ [event]).countP MsEvent.isStep = past.countP MsEvent.isStep := by
      rw [List.countP_append, List.countP_singleton, isCall]
      rfl
    have calls : (past ++ [event]).countP (fun event => !event.isStep) =
        past.countP (fun event => !event.isStep) + 1 := by
      rw [List.countP_append, List.countP_singleton, isCall]
      rfl
    rw [steps, calls, Nat.mul_succ]
    omega
  · intro v
    have exchanged := @total_exchange threads world
      (base.place thread { pc := pc, sawEmpty := false }).observe thread small (world.brings v)
      (base.brings v) 0 (event.value.toList.count v)
      (by rw [here, idle, brought, Nat.add_comm]; rfl) (by
        intro other apart
        rw [there other apart]
        apply MsWorld.brings_congr
        intro n isFresh
        exact values n (soundBefore.fresh other n isFresh).1)
    have pushed := account.pushed v
    have same : (base.place thread { pc := pc, sawEmpty := false }).observe.linked =
        world.linked := sameLinked
    rw [pushedValues_append, List.count_append, ← pushed, Nat.add_assoc, ← exchanged, same]
    rfl
  · have exchanged := @total_exchange threads world
      (base.place thread { pc := pc, sawEmpty := false }).observe thread small Pc.popping
      Pc.popping 0 (if event.isPop then 1 else 0)
      (by rw [here, idle, begun, Nat.add_comm]; rfl)
      (by intro other apart; rw [there other apart])
    have popped := account.popped
    have pops : (past ++ [event]).countP MsEvent.isPop =
        past.countP MsEvent.isPop + if event.isPop then 1 else 0 := by
      rw [List.countP_append, List.countP_singleton]
    have same : (base.place thread { pc := pc, sawEmpty := false }).observe.popped =
        world.popped := samePopped
    have exits : (base.place thread { pc := pc, sawEmpty := false }).observe.emptyExits =
        world.emptyExits := sameExits
    rw [pops, same, exits]
    omega

theorem threadStep_threads (world : MsWorld) (sawEmpty : Bool) (pc : Pc) :
    (threadStep world sawEmpty pc).1.threads = world.threads := by
  cases pc <;>
    · unfold threadStep
      dsimp only
      repeat' split
      all_goals rfl

/-- A thread takes an access of its call. -/
theorem Account.access (account : Account threads past world) {thread : Nat}
    (small : thread < threads) (live : (world.threads thread).pc ≠ .idle) {done : MsWorld × Pc}
    (isDone : threadStep world (world.threads thread).sawEmpty (world.threads thread).pc = done) :
    Account threads (past ++ [.step thread])
      (done.1.place thread { world.threads thread with pc := done.2 }).observe := by
  obtain ⟨chain, head, tail, sound, spent⟩ := account.spent
  obtain ⟨longer, head', tail', outcome⟩ := @outcome_threadStep world chain head tail thread sound
  have cases := access_cases sound live
  have alive : done.2 ≠ .crashed := by
    intro crashed
    have knows := outcome.knows
    rw [isDone, crashed] at knows
    exact knows
  have sameThreads := threadStep_threads world (world.threads thread).sawEmpty
    (world.threads thread).pc
  have values := threadStep_ival world (world.threads thread).sawEmpty (world.threads thread).pc
  have linked := fun v => @threadStep_linked world (world.threads thread).sawEmpty
    (world.threads thread).pc v (isDone ▸ alive)
  have popped := @threadStep_popped world (world.threads thread).sawEmpty
    (world.threads thread).pc (isDone ▸ alive)
  rw [isDone] at outcome cases sameThreads values popped
  simp only [isDone] at linked
  generalize isAfter : (done.1.place thread
    { world.threads thread with pc := done.2 }).observe = after
  have here : (after.threads thread).pc = done.2 := by
    rw [← isAfter, observe_pc, if_pos rfl]
  have there : ∀ other, other ≠ thread →
      (after.threads other).pc = (world.threads other).pc := by
    intro other apart
    rw [← isAfter, observe_pc, if_neg apart, sameThreads]
  have soundAfter : MsSound after longer head' tail' :=
    isAfter ▸ outcome.sound sound rfl outcome.knows
  have steps : (past ++ [MsEvent.step thread]).countP MsEvent.isStep =
      past.countP MsEvent.isStep + 1 := by
    rw [List.countP_append]
    rfl
  have calls : (past ++ [MsEvent.step thread]).countP (fun event => !event.isStep) =
      past.countP (fun event => !event.isStep) := by
    rw [List.countP_append]
    rfl
  have pops : (past ++ [MsEvent.step thread]).countP MsEvent.isPop = past.countP MsEvent.isPop := by
    rw [List.countP_append]
    rfl
  refine ⟨?_, ⟨longer, head', tail', soundAfter, ?_⟩, ?_, ?_⟩
  · intro other large
    rw [there other (by omega)]
    exact account.others other large
  · rw [steps, calls]
    rcases cases with spends | moves
    · -- the queue stays, and this thread needs fewer accesses
      have same : ∀ pc, after.left pc = world.left pc := by
        intro pc
        rw [← isAfter]
        exact MsWorld.left_congr spends.head spends.tail spends.nodes pc
      have exchanged := @total_exchange threads world after thread small world.left after.left
        (world.left (world.threads thread).pc - world.left done.2) 0
        (by rw [here, same]; have fewer := spends.left; omega)
        (by intro other apart; rw [there other apart, same])
      have fewer := spends.left
      have grows : (10 * threads + 1) * (chain.length + head + tail) ≤
          (10 * threads + 1) * (longer.length + head' + tail') := by
        apply Nat.mul_le_mul_left
        have length := outcome.length_le
        have headMoves := outcome.headMoves
        have tailMoves := outcome.tailMoves
        omega
      omega
    · -- the queue moves on, which pays for every thread
      have most := total_left_le after threads
      have grows : (10 * threads + 1) * (chain.length + head + tail + 1) ≤
          (10 * threads + 1) * (longer.length + head' + tail') :=
        Nat.mul_le_mul_left _ (moves longer head' tail' outcome)
      rw [Nat.mul_succ] at grows
      omega
  · intro v
    have same : ∀ pc, after.brings v pc = world.brings v pc := by
      intro pc
      rw [← isAfter]
      exact MsWorld.brings_congr fun n _ => values n
    have exchanged := @total_exchange threads world after thread small (world.brings v)
      (after.brings v) (world.brings v (world.threads thread).pc) (world.brings v done.2)
      (by rw [here, same, Nat.add_comm])
      (by intro other apart; rw [there other apart, same])
    have pushed := account.pushed v
    have here := linked v
    have counted : after.linked.count v = done.1.linked.count v := by
      rw [← isAfter]
      rfl
    rw [pushedValues_append, List.count_append]
    have nothing : List.count v (MsEvent.step thread).value.toList = 0 := rfl
    omega
  · have exchanged := @total_exchange threads world after thread small Pc.popping Pc.popping
      (world.threads thread).pc.popping done.2.popping
      (by rw [here, Nat.add_comm])
      (by intro other apart; rw [there other apart])
    have before := account.popped
    have counted : after.popped.length + after.emptyExits.length =
        done.1.popped.length + done.1.emptyExits.length := by
      rw [← isAfter]
      rfl
    omega

theorem Account.step (account : Account threads past world) (small : event.thread < threads)
    (stepped : world.step event = some after) : Account threads (past ++ [event]) after := by
  cases event with
  | push thread v =>
      unfold MsWorld.step at stepped
      dsimp only at stepped
      split at stepped
      next idle =>
        cases Option.some.inj stepped
        have small : thread < threads := small
        refine account.call small idle rfl ?_ ?_ ?_ ?_ ?_ ?_ ?_ ?_
        · rfl
        · rfl
        · rfl
        · rfl
        · exact fun chain head tail sound => (outcome_push sound v).sound sound rfl trivial
        · intro n old
          dsimp only
          rw [Function.update_of_ne (by omega)]
        · intro other
          have one : List.count other [v] = if v = other then 1 else 0 := by
            rw [List.count_singleton]
            simp only [beq_iff_eq]
          unfold MsWorld.brings Pc.fresh
          simp only [Function.update_self]
          exact one.symm
        · rfl
      next => cases stepped
  | pop thread =>
      unfold MsWorld.step at stepped
      dsimp only at stepped
      split at stepped
      next idle =>
        cases Option.some.inj stepped
        have small : thread < threads := small
        refine account.call small idle rfl rfl rfl rfl rfl ?_ ?_ ?_ ?_
        · intro chain head tail sound
          have outcome := @outcome_read world chain head tail thread sound .popReadHead
            (fun n absent => absurd absent (Option.some_ne_none n).symm) trivial
          exact outcome.sound sound rfl trivial
        · exact fun _ _ => rfl
        · exact fun _ => rfl
        · rfl
      next => cases stepped
  | step thread =>
      unfold MsWorld.step at stepped
      dsimp only at stepped
      split at stepped
      next => cases stepped
      next live =>
        cases Option.some.inj stepped
        exact account.access small (fun idle => live (Or.inl idle)) rfl

end

/-! ## Runs -/

theorem total_idle {threads : Nat} {world : MsWorld}
    (returned : ∀ thread, (world.threads thread).pc = .idle) (count : Pc → Nat)
    (zero : count .idle = 0) : world.total threads count = 0 := by
  have most := @sum_map_le _ (List.range threads)
    (fun thread => count (world.threads thread).pc) 0 (by
      intro thread _
      rw [returned thread, zero])
  rw [Nat.mul_zero] at most
  exact Nat.le_zero.mp most

theorem account_msQueueCreate (threads : Nat) (memory : Nat → MsNode) :
    Account threads [] (msQueueCreate memory) := by
  refine ⟨fun _ _ => rfl, ⟨[0], 0, 0, sound_msQueueCreate memory, ?_⟩, ?_, ?_⟩
  · rw [total_idle (fun _ => rfl) (msQueueCreate memory).left rfl]
    simp
  · intro v
    rw [total_idle (fun _ => rfl) ((msQueueCreate memory).brings v) rfl]
    rfl
  · rw [total_idle (fun _ => rfl) Pc.popping rfl]
    rfl

theorem Account.run {threads : Nat} {after : MsWorld} :
    ∀ {events past : List MsEvent} {world : MsWorld}, Account threads past world →
      (∀ event ∈ events, event.thread < threads) → msSystem.run world events = some after →
        Account threads (past ++ events) after
  | [], past, world, account, _, ran => by
      cases ran
      rw [List.append_nil]
      exact account
  | event :: events, past, world, account, few, ran => by
      rw [System.run] at ran
      split at ran
      next => cases ran
      next next stepped =>
        have later := Account.run (account.step (few event List.mem_cons_self) stepped)
          (fun other member => few other (List.mem_cons_of_mem event member)) ran
        rw [List.append_assoc] at later
        exact later

section

variable {threads : Nat} {events : List MsEvent} {world : MsWorld}

theorem Account.linked_le (account : Account threads events world) :
    world.linked.length ≤ (pushedValues events).length := by
  apply List.Subperm.length_le
  rw [List.subperm_ext_iff]
  intro v _
  have pushed := account.pushed v
  omega

/-- The accesses are bounded by the calls. -/
theorem Account.bounded (account : Account threads events world) :
    events.countP MsEvent.isStep ≤
      10 * threads * events.countP (fun event => !event.isStep) +
        3 * (10 * threads + 1) * (pushedValues events).length := by
  obtain ⟨chain, head, tail, sound, spent⟩ := account.spent
  have length := sound.chained.linked_length
  have inside := sound.chained.tailAt.inside
  have order := sound.chained.order
  have linked := account.linked_le
  have rank : (10 * threads + 1) * (chain.length + head + tail) ≤
      (10 * threads + 1) * (3 * (pushedValues events).length + 1) :=
    Nat.mul_le_mul_left _ (by omega)
  have spread : (10 * threads + 1) * (3 * (pushedValues events).length + 1) =
      3 * (10 * threads + 1) * (pushedValues events).length + (10 * threads + 1) := by
    rw [Nat.mul_succ, Nat.mul_left_comm, Nat.mul_assoc]
  omega

/-- A thread in a call has a next access. -/
theorem Account.unstuck (account : Account threads events world) {thread : Nat}
    (live : (world.threads thread).pc ≠ .idle) :
    (msSystem.step world (.step thread)).isSome = true := by
  obtain ⟨chain, head, tail, sound, _⟩ := account.spent
  have alive : (world.threads thread).pc ≠ .crashed := by
    intro crashed
    have knows := sound.knows thread
    rw [crashed] at knows
    exact knows
  change (world.step (.step thread)).isSome = true
  unfold MsWorld.step
  dsimp only
  rw [if_neg (not_or.mpr ⟨live, alive⟩)]
  rfl

end

/-- Both threads read the tail, thread 1 links its node, and thread 0 fails to link,
moves the tail on and tries again. -/
def twoPushers : List MsEvent :=
  MsEvent.push 0 5 :: MsEvent.push 1 7 :: stepsOf 0 3 ++ stepsOf 1 4 ++ stepsOf 0 10 ++ stepsOf 1 1

end SimpleDfs.Lockfree
