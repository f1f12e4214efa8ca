import Mathlib.Logic.Function.Basic
import SimpleDfs.Library.Run

/-!
Contract: the queue of one reader and one writer (`common/s_1r1w_queue.c`).

Owns: the queue with its elements, the program points of `s_1r1w_queue_push` and
`s_1r1w_queue_pop` between two accesses to shared memory, and the interleavings
of one thread that pushes with one that pops.

Does not own: memory orders.

A read or write of `head`, `tail`, `last` or of the `prev` or `data` of an
element is one step.
-/

set_option autoImplicit false

namespace SimpleDfs.Common

open SimpleDfs.Library

variable {Item : Type}

/-- `MAX_BUF` of `iget_free_elem`. -/
def maxBuf : Nat := 10000000

/-- Where the writer stands in `s_1r1w_queue_push`: what it is about to access,
with its local variables.  A thread that follows a null pointer has `crashed`. -/
inductive PushPoint (Item : Type) where
  | idle
  | crashed
  | getFreeElem (d : Item)
  | writeData (elem : Nat) (d : Item)
  | readHead (elem : Nat)
  | firstHead (elem : Nat)
  | firstTail (elem : Nat)
  | readHeadAgain (elem : Nat)
  | writePrev (elem head : Nat)
  | writeHead (elem : Nat)

/-- Where the reader stands in `s_1r1w_queue_pop`. -/
inductive PopPoint where
  | idle
  | crashed
  | readTail
  | readLast
  | readLastAgain
  | readLastPrev (last : Nat)
  | refillTail (prev : Option Nat)
  | readTailAgain
  | takeTail
  | testLast (elem : Nat)
  | freeLast (elem : Nat)
  | writeLast (elem : Nat)
  | readPrev (elem : Nat)
  | writeTail (elem : Nat) (prev : Option Nat)
  | readData (elem : Nat)
  deriving DecidableEq

/-- `struct s_1r1w_queue` with the elements of `g_buf`, the first `used` of which
are given out, and its two threads.  A null pointer is `none`.  `pushed` has the
items of all calls of push, `results` what the calls of pop have returned. -/
structure S1r1wQueue (Item : Type) where
  prev : Nat → Option Nat
  data : Nat → Option Item
  used : Nat
  head : Option Nat
  tail : Option Nat
  last : Option Nat
  push : PushPoint Item
  pop : PopPoint
  pushed : List Item
  results : List (Option Item)

namespace S1r1wQueue

/-- `s_1r1w_queue_create`; the elements are static memory. -/
def create : S1r1wQueue Item where
  prev := fun _ => none
  data := fun _ => none
  used := 0
  head := none
  tail := none
  last := none
  push := .idle
  pop := .idle
  pushed := []
  results := []

/-- The next access of the writer. -/
def pushStep (q : S1r1wQueue Item) : PushPoint Item → Option (S1r1wQueue Item)
  | .idle => none
  | .crashed => none
  | .getFreeElem d =>
      if q.used < maxBuf then some { q with used := q.used + 1, push := .writeData q.used d }
      else none
  | .writeData elem d =>
      some { q with data := Function.update q.data elem (some d), push := .readHead elem }
  | .readHead elem =>
      match q.head with
      | none => some { q with push := .firstHead elem }
      | some _ => some { q with push := .readHeadAgain elem }
  | .firstHead elem => some { q with head := some elem, push := .firstTail elem }
  | .firstTail elem => some { q with tail := some elem, push := .idle }
  | .readHeadAgain elem =>
      match q.head with
      | none => some { q with push := .crashed }
      | some head => some { q with push := .writePrev elem head }
  | .writePrev elem head =>
      some { q with prev := Function.update q.prev head (some elem), push := .writeHead elem }
  | .writeHead elem => some { q with head := some elem, push := .idle }

/-- `return` of pop. -/
def finish (q : S1r1wQueue Item) (result : Option Item) : S1r1wQueue Item :=
  { q with pop := .idle, results := q.results ++ [result] }

/-- The next access of the reader. -/
def popStep (q : S1r1wQueue Item) : PopPoint → Option (S1r1wQueue Item)
  | .idle => none
  | .crashed => none
  | .readTail =>
      match q.tail with
      | none => some { q with pop := .readLast }
      | some _ => some { q with pop := .takeTail }
  | .readLast =>
      match q.last with
      | none => some { q with pop := .readTailAgain }
      | some _ => some { q with pop := .readLastAgain }
  | .readLastAgain =>
      match q.last with
      | none => some { q with pop := .crashed }
      | some last => some { q with pop := .readLastPrev last }
  | .readLastPrev last => some { q with pop := .refillTail (q.prev last) }
  | .refillTail prev => some { q with tail := prev, pop := .readTailAgain }
  | .readTailAgain =>
      match q.tail with
      | none => some (q.finish none)
      | some _ => some { q with pop := .takeTail }
  | .takeTail =>
      -- a null `elem` would be followed by `elem->prev`
      match q.tail with
      | none => some { q with pop := .crashed }
      | some elem => some { q with pop := .testLast elem }
  | .testLast elem =>
      match q.last with
      | none => some { q with pop := .writeLast elem }
      | some _ => some { q with pop := .freeLast elem }
  | .freeLast elem =>
      -- reads `last` once more; `ifree_elem` returns at once
      some { q with pop := .writeLast elem }
  | .writeLast elem => some { q with last := some elem, pop := .readPrev elem }
  | .readPrev elem => some { q with pop := .writeTail elem (q.prev elem) }
  | .writeTail elem prev => some { q with tail := prev, pop := .readData elem }
  | .readData elem => some (q.finish (q.data elem))

end S1r1wQueue

/-- A thread calls its function, or takes its next step. -/
inductive S1r1wEvent (Item : Type) where
  | push (d : Item)
  | pop
  | writer
  | reader

def S1r1wQueue.step (q : S1r1wQueue Item) : S1r1wEvent Item → Option (S1r1wQueue Item)
  | .push d =>
      match q.push with
      | .idle => some { q with push := .getFreeElem d, pushed := q.pushed ++ [d] }
      | _ => none
  | .pop =>
      match q.pop with
      | .idle => some { q with pop := .readTail }
      | _ => none
  | .writer => q.pushStep q.push
  | .reader => q.popStep q.pop

def s1r1wSystem (Item : Type) : System (S1r1wQueue Item) (S1r1wEvent Item) where
  init := fun q => q = S1r1wQueue.create
  step := S1r1wQueue.step

end SimpleDfs.Common
