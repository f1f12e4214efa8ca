import Mathlib.Data.List.Nodup
import SimpleDfs.Common.LockQueue

/-!
Contract: the queues that are guarded by a lock are first in, first out in every
interleaving (`common/s_lock_queue.c`, `common/s_spinlock_queue.c`).

Owns: what the holder of a lock has done to the list of its queue so far, that
nobody else touches that list or an element of it, and the counter that gives
each element out once.

Does not own: that a thread ever gets a lock.

The lock of a queue guards its list, but not `c`, which all queues of a kind
share.  Two threads that push to different queues may get one element; with all
pushes to one queue they cannot.
-/

set_option autoImplicit false

namespace SimpleDfs.Common

open SimpleDfs.Library

variable {Item : Type}

theorem actsAsFifo_append {front back : List (LockqCall Item)}
    {contents middle after : List (Option Item)} (first : ActsAsFifo contents front middle)
    (second : ActsAsFifo middle back after) : ActsAsFifo contents (front ++ back) after := by
  induction front generalizing contents with
  | nil =>
      cases first
      exact second
  | cons call rest inductionHypothesis =>
      cases call with
      | push d => exact inductionHypothesis first
      | pop data => exact ⟨first.1, inductionHypothesis first.2⟩

/-! ## What the holder of a lock has done -/

namespace LockqPoint

/-- The element that the thread has and that is in no list. -/
def elem : LockqPoint Item → Option Nat
  | .writeData _ _ elem => some elem
  | .readTail _ _ elem => some elem
  | .delete _ elem _ => some elem
  | .readData _ elem => some elem
  | _ => none

/-- The writes to links that are still to come. -/
def writes : LockqPoint Item → List (LinkWrite LockqRef)
  | .insertTail _ _ writes => writes
  | .delete _ _ writes => writes
  | _ => []

/-- How the values in the list of the queue follow from its contents before the
call. -/
def Accounts (data : Nat → Option Item) (contents values : List (Option Item)) :
    LockqPoint Item → Prop
  | .insertTail _ d _ => values = contents ++ [d]
  | .delete _ elem _ => contents = data elem :: values
  | .readData _ elem => contents = data elem :: values
  | .popUnlock _ result => result = contents.head?.join ∧ values = contents.tail
  | _ => values = contents

/-- What the thread has read of the list, or written to its element. -/
def Knows (data : Nat → Option Item) (nodes : List Nat) : LockqPoint Item → Prop
  | .readTail _ d elem => data elem = d
  | .readFirst _ => nodes ≠ []
  | .readLinks _ elem => ∃ rest, nodes = elem :: rest
  | _ => True

/-- The thread has not begun to work on the list. -/
def calm : LockqPoint Item → Bool
  | .idle => true
  | .crashed => true
  | .pushLock _ _ => true
  | .readCount _ _ => true
  | .writeCount _ _ _ => true
  | .popLock _ => true
  | .testEmpty _ => true
  | _ => false

end LockqPoint

/-- The elements that a queue or the holder of its lock has. -/
def lockqElems (point : LockqPoint Item) (nodes : List Nat) : List Nat :=
  point.elem.toList ++ nodes

/-- The links that the holder of the lock of a queue may write to. -/
def lockqPlaces (q : Nat) (point : LockqPoint Item) (nodes : List Nat) : List LockqRef :=
  .head q :: (lockqElems point nodes).map .node

/-- A queue whose list has these elements once the writes to come are made. -/
structure QueueSound (links : Links LockqRef) (data : Nat → Option Item) (count : Nat)
    (log : List (LockqCall Item)) (q : Nat) (nodes : List Nat) (point : LockqPoint Item) :
    Prop where
  distinct : (lockqElems point nodes).Nodup
  below : ∀ elem ∈ lockqElems point nodes, elem < count
  ring : (links.after point.writes).IsRing (.head q) (nodes.map .node)
  places : ∀ write ∈ point.writes, write.place ∈ lockqPlaces q point nodes
  log : ∃ contents, ActsAsFifo [] log contents ∧ point.Accounts data contents (nodes.map data)
  knows : point.Knows data nodes

section Queue

variable {links later : Links LockqRef} {data written : Nat → Option Item} {count more : Nat}
variable {log : List (LockqCall Item)} {q : Nat} {nodes : List Nat} {point next : LockqPoint Item}

theorem calm_fields (calm : point.calm = true) : point.elem = none ∧ point.writes = [] ∧
    (∀ contents values, point.Accounts data contents values ↔ values = contents) ∧
    point.Knows data nodes := by
  cases point with
  | idle => exact ⟨rfl, rfl, fun _ _ => Iff.rfl, trivial⟩
  | crashed => exact ⟨rfl, rfl, fun _ _ => Iff.rfl, trivial⟩
  | pushLock q d => exact ⟨rfl, rfl, fun _ _ => Iff.rfl, trivial⟩
  | readCount q d => exact ⟨rfl, rfl, fun _ _ => Iff.rfl, trivial⟩
  | writeCount q d c => exact ⟨rfl, rfl, fun _ _ => Iff.rfl, trivial⟩
  | popLock q => exact ⟨rfl, rfl, fun _ _ => Iff.rfl, trivial⟩
  | testEmpty q => exact ⟨rfl, rfl, fun _ _ => Iff.rfl, trivial⟩
  | writeData q d elem => cases calm
  | readTail q d elem => cases calm
  | insertTail q d writes => cases calm
  | readFirst q => cases calm
  | readLinks q elem => cases calm
  | delete q elem writes => cases calm
  | readData q elem => cases calm
  | popUnlock q data => cases calm

/-- The holder of the lock has not begun to work on the list, before a step or
behind it. -/
theorem QueueSound.calm (sound : QueueSound links data count log q nodes point)
    (before : point.calm = true) (after : next.calm = true) :
    QueueSound links data count log q nodes next := by
  obtain ⟨elem, writes, accounts, _⟩ := @calm_fields Item data nodes point before
  obtain ⟨elem', writes', accounts', knows'⟩ := @calm_fields Item data nodes next after
  obtain ⟨contents, log, accounted⟩ := sound.log
  refine ⟨?_, ?_, ?_, ?_, ⟨contents, log, (accounts' _ _).mpr ((accounts _ _).mp accounted)⟩, knows'⟩
  · have distinct := sound.distinct
    unfold lockqElems at distinct ⊢
    rw [elem']
    rw [elem] at distinct
    exact distinct
  · have below := sound.below
    unfold lockqElems at below ⊢
    rw [elem']
    rw [elem] at below
    exact below
  · rw [writes']
    have ring := sound.ring
    rw [writes] at ring
    exact ring
  · rw [writes']
    exact fun write listed => absurd listed List.not_mem_nil

/-- The frame rule: what is done to links and elements of others. -/
theorem QueueSound.frame (sound : QueueSound links data count log q nodes point)
    (agree : ∀ place ∈ lockqPlaces q point nodes, links.Agree later place)
    (values : ∀ elem ∈ lockqElems point nodes, written elem = data elem) (grows : count ≤ more) :
    QueueSound later written more log q nodes point := by
  have listed : ∀ elem ∈ nodes, written elem = data elem := fun elem member =>
    values elem (List.mem_append_right _ member)
  have sameValues : nodes.map written = nodes.map data := List.map_congr_left listed
  refine ⟨sound.distinct, ?_, ?_, sound.places, ?_, ?_⟩
  · exact fun elem member => Nat.lt_of_lt_of_le (sound.below elem member) grows
  · apply sound.ring.agree
    intro place member
    apply Links.Agree.after
    apply agree
    rcases List.mem_cons.mp member with rfl | isNode
    · exact List.mem_cons_self
    · obtain ⟨elem, inNodes, rfl⟩ := List.mem_map.mp isNode
      exact List.mem_cons_of_mem _ (List.mem_map_of_mem (List.mem_append_right _ inNodes))
  · obtain ⟨contents, log, accounted⟩ := sound.log
    refine ⟨contents, log, ?_⟩
    rw [sameValues]
    cases point with
    | delete q elem writes =>
        have own := values elem (List.mem_append_left _ (List.mem_singleton.mpr rfl))
        show contents = written elem :: _
        rw [own]
        exact accounted
    | readData q elem =>
        have own := values elem (List.mem_append_left _ (List.mem_singleton.mpr rfl))
        show contents = written elem :: _
        rw [own]
        exact accounted
    | _ => exact accounted
  · have knows := sound.knows
    cases point with
    | readTail q d elem =>
        have own := values elem (List.mem_append_left _ (List.mem_singleton.mpr rfl))
        exact own.trans knows
    | _ => exact knows

/-! ### Steps of push -/

/-- The thread has a new element. -/
theorem QueueSound.fetched {d : Option Item} {elem : Nat}
    (sound : QueueSound links data elem log q nodes (.writeCount q d elem)) :
    QueueSound links data (elem + 1) log q nodes (.writeData q d elem) where
  distinct := List.nodup_cons.mpr
    ⟨fun member => Nat.lt_irrefl elem (sound.below elem member), sound.distinct⟩
  below := by
    intro other member
    rcases List.mem_cons.mp member with rfl | before
    · exact Nat.lt_succ_self other
    · exact Nat.lt_succ_of_lt (sound.below other before)
  ring := sound.ring
  places := fun _ listed => absurd listed List.not_mem_nil
  log := sound.log
  knows := trivial

theorem QueueSound.stored {d : Option Item} {elem : Nat}
    (sound : QueueSound links data count log q nodes (.writeData q d elem)) :
    QueueSound links (Function.update data elem d) count log q nodes (.readTail q d elem) where
  distinct := sound.distinct
  below := sound.below
  ring := sound.ring
  places := fun _ listed => absurd listed List.not_mem_nil
  log := by
    obtain ⟨contents, log, accounted⟩ := sound.log
    refine ⟨contents, log, ?_⟩
    have unlisted : elem ∉ nodes := (List.nodup_cons.mp sound.distinct).1
    have kept : nodes.map (Function.update data elem d) = nodes.map data := by
      apply List.map_congr_left
      intro other listed
      have apart : other ≠ elem := fun same => unlisted (same ▸ listed)
      exact Function.update_of_ne apart d data
    show nodes.map (Function.update data elem d) = contents
    rw [kept]
    exact accounted
  knows := by
    show Function.update data elem d elem = d
    exact Function.update_self elem d data

/-- The element is to be linked in at the tail. -/
theorem QueueSound.linking {d : Option Item} {elem : Nat}
    (sound : QueueSound links data count log q nodes (.readTail q d elem)) :
    QueueSound links data count log q (nodes ++ [elem])
      (.insertTail q d (LinkWrite.linking (.node elem) (links.prev (.head q)) (.head q))) where
  distinct := by
    have distinct := sound.distinct
    exact (List.perm_append_singleton elem nodes).nodup_iff.mpr distinct
  below := by
    intro other member
    apply sound.below
    exact (List.perm_append_singleton elem nodes).mem_iff.mp member
  ring := by
    have unlisted : elem ∉ nodes := (List.nodup_cons.mp sound.distinct).1
    have fresh : LinkRef.node elem ∉ LinkRef.head q :: nodes.map .node :=
      fun member => unlisted (Links.node_mem_ring.mp member)
    rw [List.map_append, List.map_singleton]
    exact sound.ring.push_back fresh
  places := by
    intro write listed
    have last := sound.ring.path.prev_mem (LinkRef.head q) List.mem_cons_self
    have inPlaces : ∀ place, place ∈ LinkRef.head q :: nodes.map .node →
        place ∈ LinkRef.head q :: (nodes ++ [elem]).map LinkRef.node := by
      intro place member
      rw [List.map_append, ← List.cons_append]
      exact List.mem_append_left _ member
    have self : LinkRef.node elem ∈ LinkRef.head q :: (nodes ++ [elem]).map LinkRef.node :=
      Links.node_mem_ring.mpr (List.mem_append_right _ (List.mem_singleton.mpr rfl))
    rcases LinkWrite.place_of_linking listed with atElem | atLast | atHead
    · rw [atElem]
      exact self
    · rw [atLast]
      exact inPlaces _ last
    · rw [atHead]
      exact List.mem_cons_self
  log := by
    obtain ⟨contents, log, accounted⟩ := sound.log
    refine ⟨contents, log, ?_⟩
    have stored : data elem = d := sound.knows
    show (nodes ++ [elem]).map data = contents ++ [d]
    rw [List.map_append, List.map_singleton, stored, accounted]
  knows := trivial

/-- A write to a link. -/
theorem QueueSound.wrote {write : LinkWrite LockqRef} {rest : List (LinkWrite LockqRef)}
    (sound : QueueSound links data count log q nodes point) (writes : point.writes = write :: rest)
    (next : (LockqPoint Item)) (same : next.elem = point.elem ∧ next.writes = rest ∧
      (∀ contents values, point.Accounts data contents values → next.Accounts data contents values) ∧
      next.Knows data nodes) :
    QueueSound (write.apply links) data count log q nodes next := by
  obtain ⟨elem, remaining, accounts, knows⟩ := same
  have elems : lockqElems next nodes = lockqElems point nodes := by
    unfold lockqElems
    rw [elem]
  refine ⟨?_, ?_, ?_, ?_, ?_, knows⟩
  · rw [elems]
    exact sound.distinct
  · rw [elems]
    exact sound.below
  · have ring := sound.ring
    rw [writes, Links.after_cons] at ring
    rw [remaining]
    exact ring
  · intro other listed
    rw [remaining] at listed
    unfold lockqPlaces
    rw [elems]
    apply sound.places
    rw [writes]
    exact List.mem_cons_of_mem write listed
  · obtain ⟨contents, log, accounted⟩ := sound.log
    exact ⟨contents, log, accounts _ _ accounted⟩

/-- The push returns. -/
theorem QueueSound.pushed {d : Option Item}
    (sound : QueueSound links data count log q nodes (.insertTail q d [])) :
    QueueSound links data count (log ++ [.push d]) q nodes .idle where
  distinct := sound.distinct
  below := sound.below
  ring := sound.ring
  places := fun _ listed => absurd listed List.not_mem_nil
  log := by
    obtain ⟨contents, log, accounted⟩ := sound.log
    exact ⟨contents ++ [d], actsAsFifo_append log rfl, accounted⟩
  knows := trivial

/-! ### Steps of pop -/

/-- The head points at itself exactly if the queue has no element. -/
theorem QueueSound.next_head (sound : QueueSound links data count log q nodes point)
    (settled : point.writes = []) : links.next (.head q) = .head q ↔ nodes = [] := by
  have ring := sound.ring
  rw [settled] at ring
  exact ring.next_head_iff.trans List.map_eq_nil_iff

theorem QueueSound.tested (sound : QueueSound links data count log q nodes (.testEmpty q)) :
    QueueSound links data count log q nodes
      (if links.next (.head q) = .head q then .popUnlock q none else .readFirst q) := by
  have isEmpty := sound.next_head rfl
  obtain ⟨contents, log, accounted⟩ := sound.log
  split
  next empty =>
    have noNodes := isEmpty.mp empty
    refine ⟨sound.distinct, sound.below, sound.ring, fun _ listed => absurd listed List.not_mem_nil,
      ⟨contents, log, ?_⟩, trivial⟩
    have noContents : [] = contents := by
      rw [noNodes] at accounted
      exact accounted
    rw [← noContents, noNodes]
    exact ⟨rfl, rfl⟩
  next filled =>
    exact ⟨sound.distinct, sound.below, sound.ring, fun _ listed => absurd listed List.not_mem_nil,
      ⟨contents, log, accounted⟩, fun noNodes => filled (isEmpty.mpr noNodes)⟩

/-- The first entry is an element of the queue. -/
theorem QueueSound.first (sound : QueueSound links data count log q nodes (.readFirst q)) :
    ∃ elem, links.next (.head q) = .node elem ∧
      QueueSound links data count log q nodes (.readLinks q elem) := by
  have filled : nodes ≠ [] := sound.knows
  cases shape : nodes with
  | nil => exact absurd shape filled
  | cons elem rest =>
      subst shape
      exact ⟨elem, sound.ring.next_head, sound.distinct, sound.below, sound.ring,
        fun _ listed => absurd listed List.not_mem_nil, sound.log, rest, rfl⟩

/-- The first element is to be unlinked. -/
theorem QueueSound.unlinking {elem : Nat} {rest : List Nat}
    (sound : QueueSound links data count log q (elem :: rest) (.readLinks q elem)) :
    QueueSound links data count log q rest (.delete q elem
      (LinkWrite.unlinking (.node elem) (links.prev (.node elem)) (links.next (.node elem)))) where
  distinct := sound.distinct
  below := sound.below
  ring := by
    have ring : links.IsRing (.head q) (.node elem :: rest.map .node) := sound.ring
    have apart := ring.prev_ne List.mem_cons_self
    show (links.after _).IsRing _ _
    rw [LockqPoint.writes, Links.after_unlinking apart]
    exact (@Links.IsRing.unlink _ _ links _ _ [] _ ring).1
  places := by
    intro write listed
    have ring : links.IsRing (.head q) (.node elem :: rest.map .node) := sound.ring
    rcases LinkWrite.place_of_unlinking listed with atElem | atPrev | atNext
    · rw [atElem]
      exact List.mem_cons_of_mem _ List.mem_cons_self
    · rw [atPrev]
      exact ring.path.prev_mem _ (List.mem_cons_of_mem _ List.mem_cons_self)
    · rw [atNext]
      exact ring.path.next_mem _ (List.mem_cons_of_mem _ List.mem_cons_self)
  log := by
    obtain ⟨contents, log, accounted⟩ := sound.log
    exact ⟨contents, log, Eq.symm accounted⟩
  knows := trivial

theorem QueueSound.unlinked {elem : Nat}
    (sound : QueueSound links data count log q nodes (.delete q elem [])) :
    QueueSound links data count log q nodes (.readData q elem) where
  distinct := sound.distinct
  below := sound.below
  ring := sound.ring
  places := fun _ listed => absurd listed List.not_mem_nil
  log := sound.log
  knows := trivial

/-- The data of the element is what the pop returns. -/
theorem QueueSound.read {elem : Nat}
    (sound : QueueSound links data count log q nodes (.readData q elem)) :
    QueueSound links data count log q nodes (.popUnlock q (data elem)) where
  distinct := (List.nodup_cons.mp sound.distinct).2
  below := fun other member => sound.below other (List.mem_cons_of_mem elem member)
  ring := sound.ring
  places := fun _ listed => absurd listed List.not_mem_nil
  log := by
    obtain ⟨contents, log, accounted⟩ := sound.log
    refine ⟨contents, log, ?_⟩
    have split : contents = data elem :: nodes.map data := accounted
    rw [split]
    exact ⟨rfl, rfl⟩
  knows := trivial

/-- The pop returns. -/
theorem QueueSound.popped {result : Option Item}
    (sound : QueueSound links data count log q nodes (.popUnlock q result)) :
    QueueSound links data count (log ++ [.pop result]) q nodes .idle where
  distinct := sound.distinct
  below := sound.below
  ring := sound.ring
  places := fun _ listed => absurd listed List.not_mem_nil
  log := by
    obtain ⟨contents, log, accounted⟩ := sound.log
    exact ⟨contents.tail, actsAsFifo_append log ⟨accounted.1, rfl⟩, accounted.2⟩
  knows := trivial

end Queue

/-! ## All queues -/

/-- The value of `c` that a thread has read and not written. -/
def LockqPoint.counted : LockqPoint Item → Option Nat
  | .writeCount _ _ c => some c
  | _ => none

/-- One thread at most is between its read of `c` and its write. -/
structure CountFits (threads : Nat → LockqPoint Item) (counting : Option Nat) (count : Nat) :
    Prop where
  read : ∀ thread c, (threads thread).counted = some c → counting = some thread ∧ c = count
  reader : ∀ thread, counting = some thread → (threads thread).counted.isSome = true

/-- A thread goes on that has not read `c`, to where it still has not. -/
theorem CountFits.update {threads : Nat → LockqPoint Item} {counting : Option Nat} {count : Nat}
    (fits : CountFits threads counting count) {thread : Nat} {point : LockqPoint Item}
    (before : (threads thread).counted = none) (after : point.counted = none) :
    CountFits (Function.update threads thread point) counting count where
  read := by
    intro other c counted
    by_cases same : other = thread
    · subst same
      rw [Function.update_self, after] at counted
      cases counted
    · rw [Function.update_of_ne same] at counted
      exact fits.read other c counted
  reader := by
    intro other counting
    have isReader := fits.reader other counting
    have apart : other ≠ thread := by
      rintro rfl
      rw [before] at isReader
      cases isReader
    rw [Function.update_of_ne apart]
    exact isReader

/-- The thread that has the lock of a queue, where it stands. -/
def LockqWorld.busy (world : LockqWorld Item) (q : Nat) : LockqPoint Item :=
  (world.holder q).elim .idle world.threads

/-- The invariant: each queue is sound and no element is in two. -/
structure LockqSound (world : LockqWorld Item) (lists : Nat → List Nat) : Prop where
  queues : ∀ q, QueueSound world.links world.data world.count (world.log q) q (lists q)
    (world.busy q)
  apart : ∀ q r elem, elem ∈ lockqElems (world.busy q) (lists q) →
    elem ∈ lockqElems (world.busy r) (lists r) → q = r
  holds : ∀ thread q, (world.threads thread).inside = some q → world.holder q = some thread
  holder : ∀ thread q, world.holder q = some thread →
    (world.threads thread).inside = some q ∨ world.threads thread = .crashed
  count : CountFits world.threads world.counting world.count
  safe : ∀ thread, world.threads thread = .crashed → maxBuf ≤ world.count

section

variable {world after : LockqWorld Item} {lists : Nat → List Nat} {thread q : Nat}
variable {point : LockqPoint Item} {nodes : List Nat}

theorem LockqSound.busy (sound : LockqSound world lists)
    (inside : (world.threads thread).inside = some q) : world.busy q = world.threads thread := by
  unfold LockqWorld.busy
  rw [sound.holds thread q inside]
  rfl

/-- A thread that works on one queue is not the holder of another. -/
theorem LockqSound.busy_other (sound : LockqSound world lists)
    (elsewhere : ∀ r, (world.threads thread).inside = some r → r = q)
    (awake : world.threads thread ≠ .crashed)
    (threads : after.threads = Function.update world.threads thread point) {other : Nat}
    (apart : other ≠ q) (holder : after.holder other = world.holder other) :
    after.busy other = world.busy other := by
  unfold LockqWorld.busy
  rw [holder]
  cases held : world.holder other with
  | none => rfl
  | some owner =>
      have notOwner : owner ≠ thread := by
        rintro rfl
        rcases sound.holder owner other held with inside | crashed
        · exact apart (elsewhere other inside)
        · exact awake crashed
      show after.threads owner = world.threads owner
      rw [threads, Function.update_of_ne notOwner]

/-- What a step of the holder of a lock, or of a thread that takes it, must keep:
it writes to the links and elements of its queue alone. -/
structure WorksOn (world after : LockqWorld Item) (lists : Nat → List Nat) (thread q : Nat)
    (nodes : List Nat) (point : LockqPoint Item) : Prop where
  threads : after.threads = Function.update world.threads thread point
  holders : ∀ other, other ≠ q → after.holder other = world.holder other
  logs : ∀ other, other ≠ q → after.log other = world.log other
  mine : after.holder q = some thread ∧ (point.inside = some q ∨ point = .crashed) ∨
    after.holder q = none ∧ point = .idle
  agree : ∀ place, place ∉ lockqPlaces q (world.busy q) (lists q) →
    world.links.Agree after.links place
  values : ∀ elem, elem ∉ lockqElems (world.busy q) (lists q) → after.data elem = world.data elem
  grows : world.count ≤ after.count
  sound : QueueSound after.links after.data after.count (after.log q) q nodes point
  elems : ∀ elem ∈ lockqElems point nodes,
    elem ∈ lockqElems (world.busy q) (lists q) ∨ world.count ≤ elem
  count : CountFits after.threads after.counting after.count
  safe : point = .crashed → maxBuf ≤ after.count

/-- **The step lemma**: a thread does a step of its call. -/
theorem LockqSound.works (sound : LockqSound world lists)
    (here : (world.threads thread).inside = some q ∨
      world.holder q = none ∧ (world.threads thread).inside = none)
    (awake : world.threads thread ≠ .crashed) (works : WorksOn world after lists thread q nodes point) :
    LockqSound after (Function.update lists q nodes) := by
  have elsewhere : ∀ r, (world.threads thread).inside = some r → r = q := by
    intro r inside
    rcases here with isHere | ⟨_, isNone⟩
    · rw [isHere] at inside
      exact (Option.some.inj inside).symm
    · rw [isNone] at inside
      cases inside
  have others : ∀ other, other ≠ q → after.busy other = world.busy other := fun other apart =>
    sound.busy_other elsewhere awake works.threads apart (works.holders other apart)
  have self : after.busy q = point := by
    unfold LockqWorld.busy
    rcases works.mine with ⟨holder, _⟩ | ⟨holder, idle⟩
    · rw [holder]
      show after.threads thread = point
      rw [works.threads, Function.update_self]
    · rw [holder, idle]
      rfl
  -- no other queue has a link or an element that is written to
  have notElem : ∀ other, other ≠ q → ∀ elem ∈ lockqElems (world.busy other) (lists other),
      elem ∉ lockqElems (world.busy q) (lists q) := fun other apart elem member again =>
    apart (sound.apart other q elem member again)
  have notNew : ∀ other, other ≠ q → ∀ elem ∈ lockqElems (world.busy other) (lists other),
      elem ∉ lockqElems point nodes := by
    intro other apart elem member again
    rcases works.elems elem again with before | new
    · exact notElem other apart elem member before
    · exact absurd ((sound.queues other).below elem member) (Nat.not_lt.mpr new)
  have notPlace : ∀ other, other ≠ q →
      ∀ place ∈ lockqPlaces other (world.busy other) (lists other),
        place ∉ lockqPlaces q (world.busy q) (lists q) := by
    intro other apart place member again
    cases place with
    | head list =>
        have isOther := Links.head_mem_ring.mp member
        have isHere := Links.head_mem_ring.mp again
        exact apart (isOther.symm.trans isHere)
    | node elem =>
        exact notElem other apart elem (Links.node_mem_ring.mp member)
          (Links.node_mem_ring.mp again)
  refine ⟨?_, ?_, ?_, ?_, works.count, ?_⟩
  · intro other
    by_cases apart : other = q
    · subst apart
      rw [Function.update_self, self]
      exact works.sound
    · rw [Function.update_of_ne apart, others other apart, works.logs other apart]
      exact (sound.queues other).frame
        (fun place member => works.agree place (notPlace other apart place member))
        (fun elem member => works.values elem (notElem other apart elem member)) works.grows
  · intro first second elem inFirst inSecond
    by_cases isFirst : first = q
    · by_cases isSecond : second = q
      · rw [isFirst, isSecond]
      · subst isFirst
        rw [Function.update_self, self] at inFirst
        rw [Function.update_of_ne isSecond, others second isSecond] at inSecond
        exact absurd inFirst (notNew second isSecond elem inSecond)
    · rw [Function.update_of_ne isFirst, others first isFirst] at inFirst
      by_cases isSecond : second = q
      · subst isSecond
        rw [Function.update_self, self] at inSecond
        exact absurd inSecond (notNew first isFirst elem inFirst)
      · rw [Function.update_of_ne isSecond, others second isSecond] at inSecond
        exact sound.apart first second elem inFirst inSecond
  · intro other r inside
    rw [works.threads] at inside
    by_cases same : other = thread
    · subst same
      rw [Function.update_self] at inside
      rcases works.mine with ⟨holder, isInside | crashed⟩ | ⟨_, idle⟩
      · rw [isInside] at inside
        rw [← Option.some.inj inside]
        exact holder
      · rw [crashed] at inside
        cases inside
      · rw [idle] at inside
        cases inside
    · rw [Function.update_of_ne same] at inside
      have held := sound.holds other r inside
      have apart : r ≠ q := by
        rintro rfl
        rcases here with isHere | ⟨isFree, _⟩
        · have again := sound.holds thread r isHere
          rw [held] at again
          exact same (Option.some.inj again)
        · rw [held] at isFree
          cases isFree
      rw [works.holders r apart]
      exact held
  · intro other r held
    rw [works.threads]
    by_cases apart : r = q
    · subst apart
      rcases works.mine with ⟨holder, isInside⟩ | ⟨holder, _⟩
      · rw [holder] at held
        rw [← Option.some.inj held, Function.update_self]
        exact isInside
      · rw [holder] at held
        cases held
    · rw [works.holders r apart] at held
      have before := sound.holder other r held
      have different : other ≠ thread := by
        rintro rfl
        rcases before with inside | crashed
        · exact apart (elsewhere r inside)
        · exact awake crashed
      rw [Function.update_of_ne different]
      exact before
  · intro other crashed
    rw [works.threads] at crashed
    by_cases same : other = thread
    · subst same
      rw [Function.update_self] at crashed
      exact works.safe crashed
    · rw [Function.update_of_ne same] at crashed
      exact Nat.le_trans (sound.safe other crashed) works.grows

/-- A thread that has no lock calls a function. -/
theorem LockqSound.calls (sound : LockqSound world lists)
    (idle : world.threads thread = .idle) (outside : point.inside = none)
    (calls : point.counted = none ∧ point ≠ .crashed) : LockqSound (world.goTo thread point) lists := by
  have notHolder : ∀ q, world.holder q ≠ some thread := by
    intro q held
    have place := sound.holder thread q held
    rw [idle] at place
    rcases place with inside | crashed
    · cases inside
    · cases crashed
  have busy : ∀ q, (world.goTo thread point).busy q = world.busy q := by
    intro q
    unfold LockqWorld.busy
    show (world.holder q).elim .idle (Function.update world.threads thread point) = _
    cases held : world.holder q with
    | none => rfl
    | some owner =>
        have different : owner ≠ thread := by
          rintro rfl
          exact notHolder q held
        exact world.goTo_other different point
  refine ⟨?_, ?_, ?_, ?_, ?_, ?_⟩
  · intro q
    rw [busy]
    exact sound.queues q
  · intro q r elem
    rw [busy, busy]
    exact sound.apart q r elem
  · intro other q inside
    by_cases same : other = thread
    · subst same
      rw [world.goTo_self, outside] at inside
      cases inside
    · rw [world.goTo_other same] at inside
      exact sound.holds other q inside
  · intro other q held
    have different : other ≠ thread := fun same => notHolder q (same ▸ held)
    rw [world.goTo_other different]
    exact sound.holder other q held
  · apply sound.count.update
    · rw [idle]
      rfl
    · exact calls.1
  · intro other crashed
    by_cases same : other = thread
    · subst same
      rw [world.goTo_self] at crashed
      exact absurd crashed calls.2
    · rw [world.goTo_other same] at crashed
      exact sound.safe other crashed

/-! ### The steps of a thread -/

/-- A step that writes nothing. -/
theorem LockqSound.moves (sound : LockqSound world lists)
    (inside : (world.threads thread).inside = some q)
    (quiet : (world.threads thread).counted = none ∧ point.counted = none)
    (next : point.inside = some q ∨ point = .crashed ∧ maxBuf ≤ world.count)
    (works : QueueSound world.links world.data world.count (world.log q) q nodes point)
    (elems : ∀ elem ∈ lockqElems point nodes,
      elem ∈ lockqElems (world.threads thread) (lists q)) :
    LockqSound (world.goTo thread point) (Function.update lists q nodes) := by
  have awake : world.threads thread ≠ .crashed := by
    intro crashed
    rw [crashed] at inside
    cases inside
  apply sound.works (Or.inl inside) awake
  exact {
    threads := rfl
    holders := fun _ _ => rfl
    logs := fun _ _ => rfl
    mine := Or.inl ⟨sound.holds thread q inside, next.imp_right And.left⟩
    agree := fun _ _ => Links.Agree.refl _ _
    values := fun _ _ => rfl
    grows := Nat.le_refl _
    sound := works
    elems := by
      intro elem member
      rw [sound.busy inside]
      exact Or.inl (elems elem member)
    count := sound.count.update quiet.1 quiet.2
    safe := by
      intro crashed
      rcases next with isInside | ⟨_, full⟩
      · rw [crashed] at isInside
        cases isInside
      · exact full }

/-- A thread takes the lock of a queue. -/
theorem LockqSound.locks (sound : LockqSound world lists)
    (outside : (world.threads thread).inside = none ∧ (world.threads thread).counted = none)
    (awake : world.threads thread ≠ .crashed)
    (next : point.inside = some q ∧ point.counted = none ∧ point.calm = true)
    (stepped : world.lock thread q point = some after) : ∃ lists, LockqSound after lists := by
  unfold LockqWorld.lock at stepped
  split at stepped
  next isFree =>
    cases stepped
    have idle : world.busy q = .idle := by
      unfold LockqWorld.busy
      rw [isFree]
      rfl
    have queue := sound.queues q
    rw [idle] at queue
    have noElem : point.elem = none := (@calm_fields Item world.data [] point next.2.2).1
    refine ⟨_, sound.works (Or.inr ⟨isFree, outside.1⟩) awake
      (?_ : WorksOn _ _ _ thread q (lists q) point)⟩
    exact {
      threads := rfl
      holders := fun other apart => Function.update_of_ne apart _ _
      logs := fun _ _ => rfl
      mine := Or.inl ⟨Function.update_self q _ _, Or.inl next.1⟩
      agree := fun _ _ => Links.Agree.refl _ _
      values := fun _ _ => rfl
      grows := Nat.le_refl _
      sound := queue.calm rfl next.2.2
      elems := by
        intro elem member
        rw [idle]
        unfold lockqElems at member ⊢
        rw [noElem] at member
        exact Or.inl member
      count := sound.count.update outside.2 next.2.1
      safe := by
        rintro rfl
        cases next.1 }
  next => cases stepped

/-- A thread releases the lock of its queue and returns. -/
theorem LockqSound.unlocks (sound : LockqSound world lists)
    (inside : (world.threads thread).inside = some q)
    (quiet : (world.threads thread).counted = none ∧ (world.threads thread).elem = none)
    {call : LockqCall Item}
    (works : QueueSound world.links world.data world.count (world.log q ++ [call]) q (lists q)
      .idle) : ∃ lists, LockqSound (world.unlock thread q call) lists := by
  have awake : world.threads thread ≠ .crashed := by
    intro crashed
    rw [crashed] at inside
    cases inside
  refine ⟨_, sound.works (Or.inl inside) awake
    (?_ : WorksOn _ _ _ thread q (lists q) .idle)⟩
  exact {
    threads := rfl
    holders := fun other apart => Function.update_of_ne apart _ _
    logs := fun other apart => Function.update_of_ne apart _ _
    mine := Or.inr ⟨Function.update_self q _ _, rfl⟩
    agree := fun _ _ => Links.Agree.refl _ _
    values := fun _ _ => rfl
    grows := Nat.le_refl _
    sound := by
      have log : (world.unlock thread q call).log q = world.log q ++ [call] :=
        Function.update_self q _ _
      rw [log]
      exact works
    elems := by
      intro elem member
      rw [sound.busy inside]
      unfold lockqElems at member ⊢
      rw [quiet.2]
      exact Or.inl member
    count := sound.count.update quiet.1 rfl
    safe := nofun }

/-- A thread writes to a link of its queue. -/
theorem LockqSound.writes (sound : LockqSound world lists)
    (inside : (world.threads thread).inside = some q)
    {write : LinkWrite LockqRef} {rest : List (LinkWrite LockqRef)}
    (writes : (world.threads thread).writes = write :: rest)
    (counted : (world.threads thread).counted = none ∧ point.counted = none)
    (next : point.inside = some q) (same : point.elem = (world.threads thread).elem ∧
      point.writes = rest ∧
      (∀ contents values, (world.threads thread).Accounts world.data contents values →
        point.Accounts world.data contents values) ∧ point.Knows world.data (lists q)) :
    ∃ lists, LockqSound { world.goTo thread point with links := write.apply world.links } lists := by
  have awake : world.threads thread ≠ .crashed := by
    intro crashed
    rw [crashed] at inside
    cases inside
  have queue := sound.queues q
  rw [sound.busy inside] at queue
  refine ⟨_, sound.works (Or.inl inside) awake
    (?_ : WorksOn _ _ _ thread q (lists q) point)⟩
  exact {
    threads := rfl
    holders := fun _ _ => rfl
    logs := fun _ _ => rfl
    mine := Or.inl ⟨sound.holds thread q inside, Or.inl next⟩
    agree := by
      intro place outside
      apply Links.agree_apply
      rintro rfl
      apply outside
      rw [sound.busy inside]
      apply queue.places
      rw [writes]
      exact List.mem_cons_self
    values := fun _ _ => rfl
    grows := Nat.le_refl _
    sound := queue.wrote writes point same
    elems := by
      intro elem member
      rw [sound.busy inside]
      unfold lockqElems at member ⊢
      rw [same.1] at member
      exact Or.inl member
    count := sound.count.update counted.1 counted.2
    safe := by
      rintro rfl
      cases next }

/-- A thread reads `c`, while no other is between its read and its write. -/
theorem LockqSound.readsCount (sound : LockqSound world lists) {d : Option Item}
    (here : world.threads thread = .readCount q d) (apart : world.counting = none) :
    ∃ lists, LockqSound
      { world.goTo thread (.writeCount q d world.count) with counting := some thread } lists := by
  have inside : (world.threads thread).inside = some q := by
    rw [here]
    rfl
  have queue := sound.queues q
  rw [sound.busy inside, here] at queue
  refine ⟨_, sound.works (Or.inl inside) (by rw [here]; nofun)
    (?_ : WorksOn _ _ _ thread q (lists q) (.writeCount q d world.count))⟩
  exact {
    threads := rfl
    holders := fun _ _ => rfl
    logs := fun _ _ => rfl
    mine := Or.inl ⟨sound.holds thread q inside, Or.inl rfl⟩
    agree := fun _ _ => Links.Agree.refl _ _
    values := fun _ _ => rfl
    grows := Nat.le_refl _
    sound := queue.calm rfl rfl
    elems := by
      intro elem member
      rw [sound.busy inside, here]
      exact Or.inl member
    count := by
      refine ⟨?_, ?_⟩
      · intro other c counted
        by_cases same : other = thread
        · subst same
          have isCount : (LockqPoint.writeCount q d world.count).counted = some c := by
            rw [← counted]
            exact congrArg LockqPoint.counted (world.goTo_self other _).symm
          exact ⟨rfl, (Option.some.inj isCount).symm⟩
        · have before : (world.threads other).counted = some c := by
            rw [← counted]
            exact congrArg LockqPoint.counted (world.goTo_other same _).symm
          have again := (sound.count.read other c before).1
          rw [apart] at again
          cases again
      · intro other isReader
        cases isReader
        exact (congrArg (fun point : LockqPoint Item => point.counted.isSome)
          (world.goTo_self thread (.writeCount q d world.count))).trans rfl
    safe := nofun }

/-- A thread writes `c` and has an element. -/
theorem LockqSound.writesCount (sound : LockqSound world lists) {d : Option Item} {c : Nat}
    (here : world.threads thread = .writeCount q d c) :
    ∃ lists, LockqSound
      { world.goTo thread (.writeData q d c) with count := c + 1, counting := none } lists := by
  have inside : (world.threads thread).inside = some q := by
    rw [here]
    rfl
  have counted : (world.threads thread).counted = some c := by
    rw [here]
    rfl
  obtain ⟨isReader, isCount⟩ := sound.count.read thread c counted
  have queue := sound.queues q
  rw [sound.busy inside, here, ← isCount] at queue
  refine ⟨_, sound.works (Or.inl inside) (by rw [here]; nofun)
    (?_ : WorksOn _ _ _ thread q (lists q) (.writeData q d c))⟩
  exact {
    threads := rfl
    holders := fun _ _ => rfl
    logs := fun _ _ => rfl
    mine := Or.inl ⟨sound.holds thread q inside, Or.inl rfl⟩
    agree := fun _ _ => Links.Agree.refl _ _
    values := fun _ _ => rfl
    grows := by
      rw [← isCount]
      exact Nat.le_succ c
    sound := queue.fetched
    elems := by
      intro elem member
      rw [sound.busy inside, here, ← isCount]
      rcases List.mem_cons.mp member with rfl | before
      · exact Or.inr (Nat.le_refl _)
      · exact Or.inl before
    count := by
      refine ⟨?_, nofun⟩
      intro other value isCounted
      by_cases same : other = thread
      · subst same
        have noCount : (LockqPoint.writeData q d c).counted = some value := by
          rw [← isCounted]
          exact congrArg LockqPoint.counted (world.goTo_self other _).symm
        cases noCount
      · have before : (world.threads other).counted = some value := by
          rw [← isCounted]
          exact congrArg LockqPoint.counted (world.goTo_other same _).symm
        have again := (sound.count.read other value before).1
        rw [isReader] at again
        exact absurd (Option.some.inj again).symm same
    safe := nofun }

/-- A thread writes to its element. -/
theorem LockqSound.writesData (sound : LockqSound world lists) {d : Option Item} {elem : Nat}
    (here : world.threads thread = .writeData q d elem) :
    ∃ lists, LockqSound { world.goTo thread (.readTail q d elem) with
      data := Function.update world.data elem d } lists := by
  have inside : (world.threads thread).inside = some q := by
    rw [here]
    rfl
  have queue := sound.queues q
  rw [sound.busy inside, here] at queue
  refine ⟨_, sound.works (Or.inl inside) (by rw [here]; nofun)
    (?_ : WorksOn _ _ _ thread q (lists q) (.readTail q d elem))⟩
  exact {
    threads := rfl
    holders := fun _ _ => rfl
    logs := fun _ _ => rfl
    mine := Or.inl ⟨sound.holds thread q inside, Or.inl rfl⟩
    agree := fun _ _ => Links.Agree.refl _ _
    values := by
      intro other outside
      rw [sound.busy inside, here] at outside
      have different : other ≠ elem := by
        rintro rfl
        exact outside List.mem_cons_self
      exact Function.update_of_ne different d world.data
    grows := Nat.le_refl _
    sound := queue.stored
    elems := by
      intro other member
      rw [sound.busy inside, here]
      exact Or.inl member
    count := sound.count.update (by rw [here]; rfl) rfl
    safe := nofun }

/-- The step of a thread, by the point it is at; it reads `c` only while no other
is between its read and its write. -/
theorem LockqSound.threadStep (sound : LockqSound world lists)
    (apart : ∀ q d, world.threads thread = .readCount q d → world.counting = none)
    (stepped : world.threadStep thread (world.threads thread) = some after) :
    ∃ lists, LockqSound after lists := by
  cases here : world.threads thread with
  | idle =>
      rw [here] at stepped
      cases stepped
  | crashed =>
      rw [here] at stepped
      cases stepped
  | pushLock q d =>
      rw [here] at stepped
      exact sound.locks (by rw [here]; exact ⟨rfl, rfl⟩) (by rw [here]; nofun) ⟨rfl, rfl, rfl⟩
        stepped
  | readCount q d =>
      rw [here] at stepped
      simp only [LockqWorld.threadStep] at stepped
      have inside : (world.threads thread).inside = some q := congrArg LockqPoint.inside here
      split at stepped
      next room =>
        cases stepped
        exact sound.readsCount here (apart q d here)
      next full =>
        cases stepped
        have queue := sound.queues q
        rw [sound.busy inside, here] at queue
        refine ⟨_, sound.moves inside ?_ (Or.inr ⟨rfl, Nat.not_lt.mp full⟩) (queue.calm rfl rfl) ?_⟩
        · rw [here]
          exact ⟨rfl, rfl⟩
        · rw [here]
          exact fun _ member => member
  | writeCount q d c =>
      rw [here] at stepped
      cases stepped
      exact sound.writesCount here
  | writeData q d elem =>
      rw [here] at stepped
      cases stepped
      exact sound.writesData here
  | readTail q d elem =>
      rw [here] at stepped
      cases stepped
      have inside : (world.threads thread).inside = some q := congrArg LockqPoint.inside here
      have queue := sound.queues q
      rw [sound.busy inside, here] at queue
      refine ⟨_, sound.moves inside ?_ (Or.inl rfl) queue.linking ?_⟩
      · rw [here]
        exact ⟨rfl, rfl⟩
      · rw [here]
        exact fun other member => (List.perm_append_singleton elem (lists q)).mem_iff.mp member
  | insertTail q d writes =>
      rw [here] at stepped
      have inside : (world.threads thread).inside = some q := congrArg LockqPoint.inside here
      cases writes with
      | nil =>
          cases stepped
          have queue := sound.queues q
          rw [sound.busy inside, here] at queue
          exact sound.unlocks inside (by rw [here]; exact ⟨rfl, rfl⟩) queue.pushed
      | cons write rest =>
          cases stepped
          refine sound.writes inside (congrArg LockqPoint.writes here) ?_ rfl ?_
          · rw [here]
            exact ⟨rfl, rfl⟩
          · rw [here]
            exact ⟨rfl, rfl, fun _ _ accounts => accounts, trivial⟩
  | popLock q =>
      rw [here] at stepped
      exact sound.locks (by rw [here]; exact ⟨rfl, rfl⟩) (by rw [here]; nofun) ⟨rfl, rfl, rfl⟩
        stepped
  | testEmpty q =>
      rw [here] at stepped
      cases stepped
      have inside : (world.threads thread).inside = some q := congrArg LockqPoint.inside here
      have queue := sound.queues q
      rw [sound.busy inside, here] at queue
      refine ⟨_, sound.moves inside ?_ (Or.inl ?_) queue.tested ?_⟩
      · rw [here]
        split <;> exact ⟨rfl, rfl⟩
      · split <;> rfl
      · rw [here]
        split <;> exact fun _ member => member
  | readFirst q =>
      rw [here] at stepped
      have inside : (world.threads thread).inside = some q := congrArg LockqPoint.inside here
      have queue := sound.queues q
      rw [sound.busy inside, here] at queue
      obtain ⟨elem, first, works⟩ := queue.first
      simp only [LockqWorld.threadStep, first] at stepped
      cases stepped
      refine ⟨_, sound.moves inside ?_ (Or.inl rfl) works ?_⟩
      · rw [here]
        exact ⟨rfl, rfl⟩
      · rw [here]
        exact fun _ member => member
  | readLinks q elem =>
      rw [here] at stepped
      cases stepped
      have inside : (world.threads thread).inside = some q := congrArg LockqPoint.inside here
      have queue := sound.queues q
      rw [sound.busy inside, here] at queue
      obtain ⟨rest, shape⟩ := queue.knows
      rw [shape] at queue
      refine ⟨_, sound.moves inside ?_ (Or.inl rfl) queue.unlinking ?_⟩
      · rw [here]
        exact ⟨rfl, rfl⟩
      · rw [here, shape]
        exact fun _ member => member
  | delete q elem writes =>
      rw [here] at stepped
      have inside : (world.threads thread).inside = some q := congrArg LockqPoint.inside here
      cases writes with
      | nil =>
          cases stepped
          have queue := sound.queues q
          rw [sound.busy inside, here] at queue
          refine ⟨_, sound.moves inside ?_ (Or.inl rfl) (queue.unlinked) ?_⟩
          · rw [here]
            exact ⟨rfl, rfl⟩
          · rw [here]
            exact fun _ member => member
      | cons write rest =>
          cases stepped
          refine sound.writes inside (congrArg LockqPoint.writes here) ?_ rfl ?_
          · rw [here]
            exact ⟨rfl, rfl⟩
          · rw [here]
            exact ⟨rfl, rfl, fun _ _ accounts => accounts, trivial⟩
  | readData q elem =>
      rw [here] at stepped
      cases stepped
      have inside : (world.threads thread).inside = some q := congrArg LockqPoint.inside here
      have queue := sound.queues q
      rw [sound.busy inside, here] at queue
      refine ⟨_, sound.moves inside ?_ (Or.inl rfl) queue.read ?_⟩
      · rw [here]
        exact ⟨rfl, rfl⟩
      · rw [here]
        exact fun _ member => List.mem_cons_of_mem elem member
  | popUnlock q data =>
      rw [here] at stepped
      cases stepped
      have inside : (world.threads thread).inside = some q := congrArg LockqPoint.inside here
      have queue := sound.queues q
      rw [sound.busy inside, here] at queue
      exact sound.unlocks inside (by rw [here]; exact ⟨rfl, rfl⟩) queue.popped

theorem LockqSound.step (sound : LockqSound world lists) {event : LockqEvent Item}
    (apart : countsApart world event = true) (stepped : world.step event = some after) :
    ∃ lists, LockqSound after lists := by
  cases event with
  | push thread q d =>
      simp only [LockqWorld.step] at stepped
      split at stepped
      next isIdle =>
        cases stepped
        have idle : world.threads thread = .idle := by
          cases here : world.threads thread <;> rw [here] at isIdle <;> first | rfl | cases isIdle
        exact ⟨lists, sound.calls idle rfl ⟨rfl, nofun⟩⟩
      next => cases stepped
  | pop thread q =>
      simp only [LockqWorld.step] at stepped
      split at stepped
      next isIdle =>
        cases stepped
        have idle : world.threads thread = .idle := by
          cases here : world.threads thread <;> rw [here] at isIdle <;> first | rfl | cases isIdle
        exact ⟨lists, sound.calls idle rfl ⟨rfl, nofun⟩⟩
      next => cases stepped
  | step thread =>
      refine sound.threadStep ?_ stepped
      intro q d here
      simp only [countsApart, here] at apart
      exact Option.isNone_iff_eq_none.mp apart

end

/-! ## Runs -/

theorem init_create (memory : Links LockqRef) :
    (lockqSystem Item).init (lockQueueCreate memory) :=
  ⟨memory, rfl⟩

theorem lockqSound_create (memory : Links LockqRef) :
    LockqSound (lockQueueCreate memory : LockqWorld Item) fun _ => [] where
  queues := fun _ =>
    { distinct := List.nodup_nil
      below := fun _ member => absurd member List.not_mem_nil
      ring := Links.isRing_nil_iff.mpr ⟨rfl, rfl⟩
      places := fun _ listed => absurd listed List.not_mem_nil
      log := ⟨[], rfl, rfl⟩
      knows := trivial }
  apart := fun _ _ _ member => absurd member List.not_mem_nil
  holds := nofun
  holder := nofun
  count := ⟨nofun, nofun⟩
  safe := nofun

theorem LockqSound.linearizes {world : LockqWorld Item} {lists : Nat → List Nat}
    (sound : LockqSound world lists) : world.Linearizes where
  alone := by
    intro first second q inFirst inSecond
    have holder := sound.holds first q inFirst
    rw [sound.holds second q inSecond] at holder
    exact (Option.some.inj holder).symm
  fifo := by
    intro q
    obtain ⟨contents, log, accounts⟩ := (sound.queues q).log
    refine ⟨contents, log, ?_⟩
    intro isFree
    have queue := sound.queues q
    have idle : world.busy q = .idle := by
      unfold LockqWorld.busy
      rw [isFree]
      rfl
    rw [idle] at queue accounts
    exact ⟨lists q, queue.ring, Eq.symm accounts⟩
  safe := sound.safe

theorem lists_of_reachable {world : LockqWorld Item}
    (reached : (lockqSystem Item).ReachableVia (fun world event => countsApart world event = true)
      world) : ∃ lists, LockqSound world lists := by
  refine reached.invariant (fun world => ∃ lists, LockqSound world lists) ?_ ?_
  · rintro start ⟨memory, rfl⟩
    exact ⟨_, lockqSound_create memory⟩
  · rintro before event after _ ⟨lists, sound⟩ apart stepped
    exact sound.step apart stepped

/-- **Any number of queues**: in a run in which no two threads count at once, all
of them are first in, first out. -/
theorem lock_queues_linearize {world : LockqWorld Item}
    (reached : (lockqSystem Item).ReachableVia (fun world event => countsApart world event = true)
      world) : world.Linearizes := by
  obtain ⟨lists, sound⟩ := lists_of_reachable reached
  exact sound.linearizes

/-- A run of two threads that push to two queues and pop from one. -/
def twoQueues : LockqWorld Nat :=
  (lockqSystem Nat).outcome (lockQueueCreate ⟨id, id⟩)
    ([.push 0 0 (some 1), .push 1 1 (some 2)] ++ List.replicate 10 (.step 0) ++
      List.replicate 10 (.step 1) ++ [.pop 0 1] ++ List.replicate 11 (.step 0))

theorem lock_queues_linearize_twoQueues :
    twoQueues.log 1 = [.push (some 2), .pop (some 2)] ∧ twoQueues.Linearizes :=
  ⟨rfl, lock_queues_linearize
    (System.reachableVia_outcome (init_create ⟨id, id⟩) _ (by decide +kernel))⟩

/-- Two threads that count at once get one element: what one has pushed to its
queue is popped from the queue of the other. -/
theorem lock_queues_mixed : ∃ world : LockqWorld Nat, (lockqSystem Nat).Reachable world ∧
    world.log 1 = [.push (some 2), .pop (some 1)] ∧ ¬ world.Linearizes := by
  refine ⟨(lockqSystem Nat).outcome (lockQueueCreate ⟨id, id⟩)
    ([.push 0 0 (some 1), .push 1 1 (some 2)] ++ List.replicate 2 (.step 0) ++
      List.replicate 4 (.step 1) ++ List.replicate 8 (.step 0) ++ List.replicate 6 (.step 1) ++
      [.pop 0 1] ++ List.replicate 11 (.step 0)), ?_, rfl, ?_⟩
  · exact System.reachable_outcome (init_create ⟨id, id⟩) _
  · intro linearizes
    obtain ⟨contents, fifo, _⟩ := linearizes.fifo 1
    have popped : some 1 = ([some 2] : List (Option Nat)).head?.join := fifo.1
    cases popped

/-! ## One queue -/

/-- The queue that a thread pushes to. -/
def LockqPoint.pushing : LockqPoint Item → Option Nat
  | .pushLock q _ => some q
  | .readCount q _ => some q
  | .writeCount q _ _ => some q
  | .writeData q _ _ => some q
  | .readTail q _ _ => some q
  | .insertTail q _ _ => some q
  | _ => none

/-- All threads that push do so to one queue. -/
def LockqWorld.PushesTo (world : LockqWorld Item) (q : Nat) : Prop :=
  ∀ thread queue, (world.threads thread).pushing = some queue → queue = q

section

variable {world after : LockqWorld Item} {lists : Nat → List Nat} {thread q : Nat}

theorem LockqWorld.PushesTo.goTo (pushes : world.PushesTo q) {point : LockqPoint Item}
    (threads : after.threads = (world.goTo thread point).threads)
    (next : ∀ queue, point.pushing = some queue → queue = q) : after.PushesTo q := by
  intro other queue pushing
  rw [threads] at pushing
  by_cases same : other = thread
  · subst same
    rw [world.goTo_self] at pushing
    exact next queue pushing
  · rw [world.goTo_other same] at pushing
    exact pushes other queue pushing

theorem LockqWorld.PushesTo.threadStep (pushes : world.PushesTo q)
    (stepped : world.threadStep thread (world.threads thread) = some after) :
    after.PushesTo q := by
  have own := pushes thread
  cases here : world.threads thread with
  | idle =>
      rw [here] at stepped
      cases stepped
  | crashed =>
      rw [here] at stepped
      cases stepped
  | pushLock queue d =>
      rw [here] at own stepped
      simp only [LockqWorld.threadStep, LockqWorld.lock] at stepped
      split at stepped
      · cases stepped
        exact pushes.goTo rfl own
      · cases stepped
  | readCount queue d =>
      rw [here] at own stepped
      simp only [LockqWorld.threadStep] at stepped
      split at stepped
      · cases stepped
        exact pushes.goTo rfl own
      · cases stepped
        exact pushes.goTo rfl nofun
  | writeCount queue d c =>
      rw [here] at own stepped
      cases stepped
      exact pushes.goTo rfl own
  | writeData queue d elem =>
      rw [here] at own stepped
      cases stepped
      exact pushes.goTo rfl own
  | readTail queue d elem =>
      rw [here] at own stepped
      cases stepped
      exact pushes.goTo rfl own
  | insertTail queue d writes =>
      rw [here] at own stepped
      cases writes with
      | nil =>
          cases stepped
          exact pushes.goTo rfl nofun
      | cons write rest =>
          cases stepped
          exact pushes.goTo rfl own
  | popLock queue =>
      rw [here] at stepped
      simp only [LockqWorld.threadStep, LockqWorld.lock] at stepped
      split at stepped
      · cases stepped
        exact pushes.goTo rfl nofun
      · cases stepped
  | testEmpty queue =>
      rw [here] at stepped
      cases stepped
      refine pushes.goTo rfl ?_
      split <;> nofun
  | readFirst queue =>
      rw [here] at stepped
      simp only [LockqWorld.threadStep] at stepped
      split at stepped
      · cases stepped
        exact pushes.goTo rfl nofun
      · cases stepped
        exact pushes.goTo rfl nofun
  | readLinks queue elem =>
      rw [here] at stepped
      cases stepped
      exact pushes.goTo rfl nofun
  | delete queue elem writes =>
      rw [here] at stepped
      cases writes with
      | nil =>
          cases stepped
          exact pushes.goTo rfl nofun
      | cons write rest =>
          cases stepped
          exact pushes.goTo rfl nofun
  | readData queue elem =>
      rw [here] at stepped
      cases stepped
      exact pushes.goTo rfl nofun
  | popUnlock queue data =>
      rw [here] at stepped
      cases stepped
      exact pushes.goTo rfl nofun

theorem LockqWorld.PushesTo.step (pushes : world.PushesTo q) {event : LockqEvent Item}
    (allowed : pushesTo q world event = true) (stepped : world.step event = some after) :
    after.PushesTo q := by
  cases event with
  | push thread queue d =>
      simp only [LockqWorld.step] at stepped
      split at stepped
      · cases stepped
        refine pushes.goTo rfl ?_
        intro other pushing
        rw [← Option.some.inj pushing]
        exact beq_iff_eq.mp allowed
      · cases stepped
  | pop thread queue =>
      simp only [LockqWorld.step] at stepped
      split at stepped
      · cases stepped
        exact pushes.goTo rfl nofun
      · cases stepped
  | step thread => exact pushes.threadStep stepped

/-- The lock of the one queue keeps the threads apart that count. -/
theorem LockqSound.countsApart (sound : LockqSound world lists) (pushes : world.PushesTo q)
    (event : LockqEvent Item) : countsApart world event = true := by
  cases event with
  | push thread queue d => rfl
  | pop thread queue => rfl
  | step thread =>
      unfold Common.countsApart
      dsimp only
      split
      next queue d here =>
        rw [Option.isNone_iff_eq_none]
        cases counting : world.counting with
        | none => rfl
        | some reader =>
            exfalso
            obtain ⟨c, isCount⟩ := Option.isSome_iff_exists.mp
              (sound.count.reader reader counting)
            have isHere : queue = q := pushes thread queue (by rw [here]; rfl)
            have holder := sound.holds thread queue (by rw [here]; rfl)
            cases there : world.threads reader with
            | writeCount other d' c' =>
                have isThere : other = q := pushes reader other (by rw [there]; rfl)
                have again := sound.holds reader other (by rw [there]; rfl)
                rw [isThere, ← isHere, holder] at again
                rw [Option.some.inj again, there] at here
                cases here
            | _ =>
                rw [there] at isCount
                cases isCount
      next => rfl

end

/-- **One queue that is pushed to**: it is first in, first out in every
interleaving of any number of threads. -/
theorem lock_queue_linearizes (q : Nat) {world : LockqWorld Item}
    (reached : (lockqSystem Item).ReachableVia (fun world event => pushesTo q world event = true)
      world) : world.Linearizes := by
  have sound : (∃ lists, LockqSound world lists) ∧ world.PushesTo q := by
    refine reached.invariant (fun world => (∃ lists, LockqSound world lists) ∧ world.PushesTo q)
      ?_ ?_
    · rintro start ⟨memory, rfl⟩
      exact ⟨⟨_, lockqSound_create memory⟩, nofun⟩
    · rintro before event after _ ⟨⟨lists, sound⟩, pushes⟩ allowed stepped
      exact ⟨sound.step (sound.countsApart pushes event) stepped, pushes.step allowed stepped⟩
  obtain ⟨⟨lists, sound⟩, _⟩ := sound
  exact sound.linearizes

/-- A run of two threads that push to one queue at once and pop from it. -/
def oneQueue : LockqWorld Nat :=
  (lockqSystem Nat).outcome (lockQueueCreate ⟨id, id⟩)
    ([.push 0 0 (some 1), .push 1 0 (some 2)] ++ List.replicate 10 (.step 0) ++
      List.replicate 10 (.step 1) ++ [.pop 0 0] ++ List.replicate 11 (.step 0))

theorem lock_queue_linearizes_oneQueue :
    oneQueue.log 0 = [.push (some 1), .push (some 2), .pop (some 1)] ∧ oneQueue.Linearizes :=
  ⟨rfl, lock_queue_linearizes 0
    (System.reachableVia_outcome (init_create ⟨id, id⟩) _ (by decide +kernel))⟩

end SimpleDfs.Common
