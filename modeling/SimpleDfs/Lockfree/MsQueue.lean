import Mathlib.Logic.Function.Basic
import SimpleDfs.Library.Run

/-!
Contract: the lock-free queue of any number of threads
(`lockfree/s_ms_queue.c`).

Owns: nodes and pointers with tags, the program points of `ms_queue_push` and
`ms_queue_pop` between two accesses to shared memory, and their interleavings.

Does not own: memory orders; how nodes are allocated, but that each is new.

A read of `head`, `tail` or the `next` of a node is one step, and so is a
compare and swap of a pointer with its tag.
-/

set_option autoImplicit false

namespace SimpleDfs.Lockfree

open SimpleDfs.Library

/-- `struct ms_pointer`; a null pointer is `none`. -/
structure MsPointer where
  ptr : Option Nat
  tag : BitVec 32
  deriving DecidableEq, Repr

/-- `struct ms_node`. -/
structure MsNode where
  next : MsPointer
  ival : Int
  deriving DecidableEq, Repr

/-- Where a thread stands: what it is about to access, with its local
variables.  A thread that follows a null pointer has `crashed`. -/
inductive Pc where
  | idle
  | crashed
  | pushReadTail (n : Nat)
  | pushReadNext (n : Nat) (tail : MsPointer)
  | pushRecheck (n : Nat) (tail next : MsPointer)
  | pushLink (n : Nat) (tail next : MsPointer)
  | pushHelp (n : Nat) (tail next : MsPointer)
  | pushSwing (n : Nat) (tail : MsPointer)
  | popReadHead
  | popReadTail (head : MsPointer)
  | popReadNext (head tail : MsPointer)
  | popRecheck (head tail next : MsPointer)
  | popHelp (tail next : MsPointer)
  | popReadIval (head next : MsPointer)
  | popSwing (head next : MsPointer) (ret : Int)
  deriving DecidableEq, Repr

/-- A thread; `sawEmpty` is whether the queue has been empty since its call
began. -/
structure Thread where
  pc : Pc
  sawEmpty : Bool
  deriving DecidableEq, Repr

/-- The queue with its nodes, and the threads.  `linked` has the values in the
order their nodes were linked, `popped` the values in the order the head moved,
and `emptyExits` what threads had seen that found the queue empty. -/
structure MsWorld where
  nodes : Nat → MsNode
  unused : Nat
  head : MsPointer
  tail : MsPointer
  threads : Nat → Thread
  linked : List Int
  popped : List Int
  emptyExits : List Bool

/-- All values that were linked have been popped. -/
def MsWorld.isEmpty (world : MsWorld) : Bool :=
  decide (world.popped = world.linked)

/-- `CAS`: the pointer after a compare and swap. -/
def casPointer (current old new : MsPointer) : MsPointer :=
  if current = old then new else current

/-- The next access of a thread in `ms_queue_push` or `ms_queue_pop`. -/
def threadStep (world : MsWorld) (sawEmpty : Bool) : Pc → MsWorld × Pc
  | .idle => (world, .idle)
  | .crashed => (world, .crashed)
  | .pushReadTail n => (world, .pushReadNext n world.tail)
  | .pushReadNext n tail =>
      match tail.ptr with
      | none => (world, .crashed)
      | some addr => (world, .pushRecheck n tail (world.nodes addr).next)
  | .pushRecheck n tail next =>
      if tail = world.tail then
        if next.ptr = none then (world, .pushLink n tail next) else (world, .pushHelp n tail next)
      else (world, .pushReadTail n)
  | .pushLink n tail next =>
      match tail.ptr with
      | none => (world, .crashed)
      | some addr =>
          if (world.nodes addr).next = next then
            ({ world with
                nodes := Function.update world.nodes addr
                  { world.nodes addr with next := { ptr := some n, tag := next.tag + 1 } }
                linked := world.linked ++ [(world.nodes n).ival] },
              .pushSwing n tail)
          else (world, .pushReadTail n)
  | .pushHelp n tail next =>
      ({ world with tail := casPointer world.tail tail { ptr := next.ptr, tag := tail.tag + 1 } },
        .pushReadTail n)
  | .pushSwing n tail =>
      ({ world with tail := casPointer world.tail tail { ptr := some n, tag := tail.tag + 1 } },
        .idle)
  | .popReadHead => (world, .popReadTail world.head)
  | .popReadTail head => (world, .popReadNext head world.tail)
  | .popReadNext head tail =>
      match head.ptr with
      | none => (world, .crashed)
      | some addr => (world, .popRecheck head tail (world.nodes addr).next)
  | .popRecheck head tail next =>
      if head = world.head then
        if head.ptr = tail.ptr then
          if next.ptr = none then
            ({ world with emptyExits := world.emptyExits ++ [sawEmpty] }, .idle)
          else (world, .popHelp tail next)
        else (world, .popReadIval head next)
      else (world, .popReadHead)
  | .popHelp tail next =>
      ({ world with tail := casPointer world.tail tail { ptr := next.ptr, tag := tail.tag + 1 } },
        .popReadHead)
  | .popReadIval head next =>
      match next.ptr with
      | none => (world, .crashed)
      | some addr => (world, .popSwing head next (world.nodes addr).ival)
  | .popSwing head next ret =>
      if world.head = head then
        ({ world with
            head := { ptr := next.ptr, tag := head.tag + 1 }
            popped := world.popped ++ [ret] },
          .idle)
      else (world, .popReadHead)

/-- A thread calls `ms_queue_push` or `ms_queue_pop`, or takes its next step. -/
inductive MsEvent where
  | push (thread : Nat) (v : Int)
  | pop (thread : Nat)
  | step (thread : Nat)
  deriving DecidableEq, Repr

/-- Threads notice that the queue is empty. -/
def MsWorld.observe (world : MsWorld) : MsWorld :=
  { world with
    threads := fun thread =>
      { world.threads thread with
        sawEmpty := (world.threads thread).sawEmpty || world.isEmpty } }

/-- `_new_node` with the fields that `ms_queue_push` sets. -/
def newNode (v : Int) : MsNode where
  next := { ptr := none, tag := 0 }
  ival := v

/-- Put a thread somewhere. -/
def MsWorld.place (world : MsWorld) (thread : Nat) (state : Thread) : MsWorld :=
  { world with threads := Function.update world.threads thread state }

def MsWorld.step (world : MsWorld) : MsEvent → Option MsWorld
  | .push thread v =>
      if (world.threads thread).pc = .idle then
        let n := world.unused
        let world := { world with
          nodes := Function.update world.nodes n (newNode v), unused := n + 1 }
        some (world.place thread { pc := .pushReadTail n, sawEmpty := false }).observe
      else none
  | .pop thread =>
      if (world.threads thread).pc = .idle then
        some (world.place thread { pc := .popReadHead, sawEmpty := false }).observe
      else none
  | .step thread =>
      let state := world.threads thread
      if state.pc = .idle ∨ state.pc = .crashed then none
      else
        let (world, pc) := threadStep world state.sawEmpty state.pc
        some (world.place thread { state with pc := pc }).observe

/-- `ms_queue_create`: one node, which holds no value of the queue. -/
def msQueueCreate (memory : Nat → MsNode) : MsWorld where
  nodes := Function.update memory 0 (newNode 0)
  unused := 1
  head := { ptr := some 0, tag := 0 }
  tail := { ptr := some 0, tag := 0 }
  threads := fun _ => { pc := .idle, sawEmpty := false }
  linked := []
  popped := []
  emptyExits := []

def msSystem : System MsWorld MsEvent where
  init := fun world => ∃ memory, world = msQueueCreate memory
  step := MsWorld.step

end SimpleDfs.Lockfree
