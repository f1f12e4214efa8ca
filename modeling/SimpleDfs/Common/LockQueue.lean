import SimpleDfs.Common.S1r1wQueue
import SimpleDfs.Library.LinkWrites

/-!
Contract: the queues that are guarded by a lock (`common/s_lock_queue.c`,
`common/s_spinlock_queue.c`).

Owns: the queues of one kind with the elements they share, the program points of
push and pop between two accesses to shared memory, and the interleavings of any
number of threads.

Does not own: memory orders, fairness of the locks.

Both kinds have the same code and differ in the lock; each has a `g_buf` of its
own with a counter `c` for all of its queues.
-/

set_option autoImplicit false

namespace SimpleDfs.Common

open SimpleDfs.Library

variable {Item : Type}

/-- A link of a queue: `elem_head` of a queue, or the `link` of an element. -/
abbrev LockqRef := LinkRef Nat Nat

/-- Where a thread stands in `s_lock_queue_push` or `s_lock_queue_pop`: what it
is about to access, with its local variables.  The point `crashed` is behind a
write outside of `g_buf` or through a pointer that is no element. -/
inductive LockqPoint (Item : Type) where
  | idle
  | crashed
  | pushLock (q : Nat) (d : Option Item)
  | readCount (q : Nat) (d : Option Item)
  | writeCount (q : Nat) (d : Option Item) (c : Nat)
  | writeData (q : Nat) (d : Option Item) (elem : Nat)
  | readTail (q : Nat) (d : Option Item) (elem : Nat)
  | insertTail (q : Nat) (d : Option Item) (writes : List (LinkWrite LockqRef))
  | popLock (q : Nat)
  | testEmpty (q : Nat)
  | readFirst (q : Nat)
  | readLinks (q : Nat) (elem : Nat)
  | delete (q : Nat) (elem : Nat) (writes : List (LinkWrite LockqRef))
  | readData (q : Nat) (elem : Nat)
  | popUnlock (q : Nat) (data : Option Item)

/-- A call that has returned. -/
inductive LockqCall (Item : Type) where
  | push (d : Option Item)
  | pop (data : Option Item)

/-- The queues of one kind with the elements of `g_buf`, and the threads.
`holder` is who has the lock of a queue, `counting` the thread that has read `c`
and not written it.  `log` has the calls of each queue in the order in which they
have released its lock. -/
structure LockqWorld (Item : Type) where
  links : Links LockqRef
  data : Nat → Option Item
  count : Nat
  holder : Nat → Option Nat
  threads : Nat → LockqPoint Item
  counting : Option Nat
  log : Nat → List (LockqCall Item)

namespace LockqWorld

def goTo (world : LockqWorld Item) (thread : Nat) (point : LockqPoint Item) : LockqWorld Item :=
  { world with threads := Function.update world.threads thread point }

theorem goTo_self (world : LockqWorld Item) (thread : Nat) (point : LockqPoint Item) :
    (world.goTo thread point).threads thread = point := by
  unfold goTo
  exact Function.update_self thread point world.threads

theorem goTo_other (world : LockqWorld Item) {thread other : Nat} (apart : other ≠ thread)
    (point : LockqPoint Item) : (world.goTo thread point).threads other = world.threads other := by
  unfold goTo
  exact Function.update_of_ne apart point world.threads

/-- Take the lock of a queue, if nobody has it. -/
def lock (world : LockqWorld Item) (thread q : Nat) (point : LockqPoint Item) :
    Option (LockqWorld Item) :=
  if world.holder q = none then
    some { world.goTo thread point with holder := Function.update world.holder q (some thread) }
  else none

/-- Release the lock of a queue and return. -/
def unlock (world : LockqWorld Item) (thread q : Nat) (call : LockqCall Item) :
    LockqWorld Item :=
  { world.goTo thread .idle with
    holder := Function.update world.holder q none
    log := Function.update world.log q (world.log q ++ [call]) }

/-- The next access of a thread. -/
def threadStep (world : LockqWorld Item) (thread : Nat) :
    LockqPoint Item → Option (LockqWorld Item)
  | .idle => none
  | .crashed => none
  | .pushLock q d => world.lock thread q (.readCount q d)
  -- `&g_buf[c++]`
  | .readCount q d =>
      if world.count < maxBuf then
        some { world.goTo thread (.writeCount q d world.count) with counting := some thread }
      else some (world.goTo thread .crashed)
  | .writeCount q d c =>
      some { world.goTo thread (.writeData q d c) with count := c + 1, counting := none }
  | .writeData q d elem =>
      some { world.goTo thread (.readTail q d elem) with
        data := Function.update world.data elem d }
  | .readTail q d elem =>
      some (world.goTo thread (.insertTail q d
        (LinkWrite.linking (.node elem) (world.links.prev (.head q)) (.head q))))
  | .insertTail q d [] => some (world.unlock thread q (.push d))
  | .insertTail q d (write :: rest) =>
      some { world.goTo thread (.insertTail q d rest) with links := write.apply world.links }
  | .popLock q => world.lock thread q (.testEmpty q)
  | .testEmpty q =>
      some (world.goTo thread
        (if world.links.next (.head q) = .head q then .popUnlock q none else .readFirst q))
  | .readFirst q =>
      match world.links.next (.head q) with
      | .node elem => some (world.goTo thread (.readLinks q elem))
      | .head _ => some (world.goTo thread .crashed)
  | .readLinks q elem =>
      some (world.goTo thread (.delete q elem
        (LinkWrite.unlinking (.node elem) (world.links.prev (.node elem))
          (world.links.next (.node elem)))))
  | .delete q elem [] => some (world.goTo thread (.readData q elem))
  | .delete q elem (write :: rest) =>
      some { world.goTo thread (.delete q elem rest) with links := write.apply world.links }
  -- `ifree_elem` returns at once
  | .readData q elem => some (world.goTo thread (.popUnlock q (world.data elem)))
  | .popUnlock q data => some (world.unlock thread q (.pop data))

end LockqWorld

/-- A thread calls push or pop, or takes its next step. -/
inductive LockqEvent (Item : Type) where
  | push (thread q : Nat) (d : Option Item)
  | pop (thread q : Nat)
  | step (thread : Nat)

def LockqPoint.isIdle : LockqPoint Item → Bool
  | .idle => true
  | _ => false

def LockqWorld.step (world : LockqWorld Item) : LockqEvent Item → Option (LockqWorld Item)
  | .push thread q d =>
      if (world.threads thread).isIdle then some (world.goTo thread (.pushLock q d)) else none
  | .pop thread q =>
      if (world.threads thread).isIdle then some (world.goTo thread (.popLock q)) else none
  | .step thread => world.threadStep thread (world.threads thread)

/-- `s_lock_queue_create`; the elements are static memory, of which nothing is
assumed. -/
def lockQueueCreate (memory : Links LockqRef) : LockqWorld Item where
  links :=
    { prev := fun place => match place with
        | .head q => .head q
        | .node elem => memory.prev (.node elem)
      next := fun place => match place with
        | .head q => .head q
        | .node elem => memory.next (.node elem) }
  data := fun _ => none
  count := 0
  holder := fun _ => none
  threads := fun _ => .idle
  counting := none
  log := fun _ => []

def lockqSystem (Item : Type) : System (LockqWorld Item) (LockqEvent Item) where
  init := fun world => ∃ memory, world = lockQueueCreate memory
  step := LockqWorld.step

/-! ## The properties -/

/-- The calls are those of a list that is pushed to at the end and popped from
the front; popping the empty list returns NULL. -/
def ActsAsFifo : List (Option Item) → List (LockqCall Item) → List (Option Item) → Prop
  | contents, [], after => after = contents
  | contents, .push d :: rest, after => ActsAsFifo (contents ++ [d]) rest after
  | contents, .pop data :: rest, after =>
      data = contents.head?.join ∧ ActsAsFifo contents.tail rest after

/-- The thread has the lock of a queue. -/
def LockqPoint.inside : LockqPoint Item → Option Nat
  | .idle => none
  | .crashed => none
  | .pushLock _ _ => none
  | .readCount q _ => some q
  | .writeCount q _ _ => some q
  | .writeData q _ _ => some q
  | .readTail q _ _ => some q
  | .insertTail q _ _ => some q
  | .popLock _ => none
  | .testEmpty q => some q
  | .readFirst q => some q
  | .readLinks q _ => some q
  | .delete q _ _ => some q
  | .readData q _ => some q
  | .popUnlock q _ => some q

/-- One thread at a time works on a queue, the calls that have returned are those
of a list, which is in memory while nobody has the lock, and a thread has crashed
only if `g_buf` is used up. -/
structure LockqWorld.Linearizes (world : LockqWorld Item) : Prop where
  alone : ∀ first second q, (world.threads first).inside = some q →
    (world.threads second).inside = some q → first = second
  fifo : ∀ q, ∃ contents, ActsAsFifo [] (world.log q) contents ∧
    (world.holder q = none → ∃ elems : List Nat,
      world.links.IsRing (.head q) (elems.map .node) ∧ contents = elems.map world.data)
  safe : ∀ thread, world.threads thread = .crashed → maxBuf ≤ world.count

/-- A thread reads `c` only when no other is between its read and its write. -/
def countsApart (world : LockqWorld Item) : LockqEvent Item → Bool
  | .step thread =>
      match world.threads thread with
      | .readCount _ _ => world.counting.isNone
      | _ => true
  | _ => true

/-- All pushes are to one queue. -/
def pushesTo (q : Nat) (_ : LockqWorld Item) : LockqEvent Item → Bool
  | .push _ queue _ => queue == q
  | _ => true

end SimpleDfs.Common
