import SimpleDfs.Net.Connection

/-!
Contract: which sequences of acquisitions and closes keep the connection pool
in order.

Owns: `PoolLaw`, what one close does to the links of the pool, the exact
sequences in which the law holds throughout, and a run in which a live
connection is handed out.

Both `irm_conn` and `iput_conn` insert the connection.  The second insertion
takes it for its own successor, so the connection closed last points at itself
and the rest of the pool is lost.

Does not own: the buffers of a connection.
-/

set_option autoImplicit false

namespace SimpleDfs.Net

open SimpleDfs.Common
open SimpleDfs.Library

/-- No connection is handed out twice; the pool is a ring that holds each closed
connection once, and `nconn_free` is its length. -/
structure PoolLaw (world : PoolWorld) : Prop where
  once : world.live.Nodup
  pool : ∃ nodes : List Nat, world.net.links.IsRing .connList (nodes.map ConnRef.conn) ∧
    nodes.Perm world.closed ∧ world.net.nconnFree = nodes.length

/-! ## One close -/

/-- The connection at `addr` is first in the pool and its own successor. -/
def SelfLinked (net : SNet) (addr : Nat) : Prop :=
  net.links.next .connList = .conn addr ∧ net.links.next (.conn addr) = .conn addr ∧
    net.links.prev (.conn addr) = .conn addr

/-- Inserting the first node of a list once more lets it point at itself. -/
theorem selfLinked_iputConn {net : SNet} {addr : Nat}
    (first : net.links.next .connList = .conn addr) : SelfLinked (iputConn net addr) addr := by
  simp only [SelfLinked, iputConn, sListInsert, first, Links.linkBetween_next,
    Links.linkBetween_prev]
  simp

/-- A close leaves the connection linked to itself, whatever the pool was. -/
theorem selfLinked_close (net : SNet) (removed : Bool) (addr : Nat) :
    SelfLinked (iputConn (irmConn net removed addr) addr) addr := by
  apply selfLinked_iputConn
  simp [irmConn, sListInsert, Links.linkBetween_next]

/-- A pool whose first connection is linked to itself is not a ring. -/
theorem SelfLinked.not_poolLaw {world : PoolWorld} {addr : Nat}
    (linked : SelfLinked world.net addr) : ¬ PoolLaw world := by
  intro law
  obtain ⟨nodes, ring, _⟩ := law.pool
  cases nodes with
  | nil =>
      have empty := ring.path.1
      rw [linked.1] at empty
      cases empty
  | cons node rest =>
      have first := ring.next_head
      rw [linked.1] at first
      apply ring.next_ne List.mem_cons_self
      rw [← first]
      exact linked.2.1

/-- An acquisition from such a pool hands the connection out and leaves the pool
as it is. -/
theorem SelfLinked.igetConn {net : SNet} {addr : Nat} (linked : SelfLinked net addr)
    (junk : Nat → UInt8) :
    (igetConn junk net).2 = addr ∧ SelfLinked (igetConn junk net).1 addr := by
  have alone : net.links.IsRing (.conn addr) [] := Links.isRing_nil_iff.mpr linked.2
  simp only [Net.igetConn, linked.1]
  refine ⟨trivial, ?_⟩
  simp only [SelfLinked, sListDel_of_alone alone, sListInit, Links.loop_next, Links.loop_prev]
  simp [linked.1]

/-- **A closed connection is handed out for ever.**  After a close, each of the
next two acquisitions returns the connection just closed. -/
theorem handed_out_twice (net : SNet) (removed : Bool) (addr : Nat) (junk again : Nat → UInt8) :
    let pool := iputConn (irmConn net removed addr) addr
    (igetConn junk pool).2 = addr ∧ (igetConn again (igetConn junk pool).1).2 = addr := by
  have linked := selfLinked_close net removed addr
  have first := linked.igetConn junk
  exact ⟨first.1, (first.2.igetConn again).1⟩

/-! ## Runs -/

/-- Nothing has been closed: the pool is empty and every connection is new. -/
structure Unclosed (world : PoolWorld) : Prop where
  empty : world.net.links.IsRing .connList []
  closed : world.closed = []
  free : world.net.nconnFree = 0
  once : world.live.Nodup
  allocated : ∀ addr ∈ world.live, addr < world.net.unused

theorem unclosed_emptyPool : Unclosed emptyPool where
  empty := isRing_sListInit _
  closed := rfl
  free := rfl
  once := List.nodup_nil
  allocated := fun _ member => absurd member List.not_mem_nil

theorem Unclosed.poolLaw {world : PoolWorld} (unclosed : Unclosed world) : PoolLaw world where
  once := unclosed.once
  pool := ⟨[], unclosed.empty, by rw [unclosed.closed], unclosed.free⟩

/-- Every acquisition from an empty pool allocates. -/
theorem unclosed_acquire {world after : PoolWorld} {junk : Nat → UInt8}
    (unclosed : Unclosed world) (stepped : world.step (.acquire junk) = some after) :
    Unclosed after := by
  have atHead := unclosed.empty.path.1
  simp only [PoolWorld.step, igetConn, atHead] at stepped
  cases stepped
  refine ⟨?_, ?_, unclosed.free, ?_, ?_⟩
  · apply unclosed.empty.changed (Links.changedAt_loop _ _)
    · simp
    · simp
  · simp [unclosed.closed]
  · refine List.nodup_cons.mpr ⟨fun member => ?_, unclosed.once⟩
    exact absurd (unclosed.allocated _ member) (Nat.lt_irrefl _)
  · intro addr member
    rcases List.mem_cons.mp member with rfl | old
    · exact Nat.lt_succ_self _
    · exact Nat.lt_succ_of_lt (unclosed.allocated addr old)

theorem unclosed_run {events : List PoolEvent} :
    ∀ {start world : PoolWorld}, Unclosed start →
      (∀ addr removed, PoolEvent.close addr removed ∉ events) →
      poolSystem.run start events = some world → Unclosed world := by
  induction events with
  | nil =>
      intro start world unclosed _ ran
      cases ran
      exact unclosed
  | cons event rest inductionHypothesis =>
      intro start world unclosed quiet ran
      rw [System.run] at ran
      split at ran
      next => cases ran
      next next stepped =>
        cases event with
        | acquire junk =>
            apply inductionHypothesis (unclosed_acquire unclosed stepped) _ ran
            exact fun addr removed member =>
              quiet addr removed (List.mem_cons_of_mem _ member)
        | close addr removed => exact absurd List.mem_cons_self (quiet addr removed)

/-- The pool right after a close. -/
theorem selfLinked_run {front : List PoolEvent} {addr : Nat} {removed : Bool}
    {start world : PoolWorld}
    (ran : poolSystem.run start (front ++ [.close addr removed]) = some world) :
    SelfLinked world.net addr := by
  rw [System.run_append] at ran
  obtain ⟨middle, _, last⟩ := Option.bind_eq_some_iff.mp ran
  rw [System.run] at last
  split at last
  next => cases last
  next next stepped =>
    cases last
    change PoolWorld.step middle (.close addr removed) = some world at stepped
    rw [PoolWorld.step] at stepped
    split at stepped
    next =>
      cases stepped
      exact selfLinked_close _ _ _
    next => cases stepped

/-- **When the connection pool is in order.**  The law holds in every state of a
run exactly if the run closes no connection. -/
theorem poolLaw_iff_no_close {events : List PoolEvent} {world : PoolWorld}
    (ran : poolSystem.run emptyPool events = some world) :
    (∀ front back middle, events = front ++ back → poolSystem.run emptyPool front = some middle →
        PoolLaw middle) ↔
      ∀ addr removed, PoolEvent.close addr removed ∉ events := by
  constructor
  · intro lawful addr removed member
    obtain ⟨front, back, split⟩ := List.append_of_mem member
    rw [List.append_cons] at split
    rw [split, System.run_append] at ran
    obtain ⟨middle, reached, _⟩ := Option.bind_eq_some_iff.mp ran
    exact (selfLinked_run reached).not_poolLaw (lawful _ _ middle split reached)
  · intro quiet front back middle split reached
    apply Unclosed.poolLaw
    apply unclosed_run unclosed_emptyPool _ reached
    intro addr removed member
    apply quiet addr removed
    rw [split]
    exact List.mem_append_left _ member

/-- Two acquisitions, whatever the memory held. -/
theorem poolLaw_iff_no_close_two_opened :
    (∀ front back middle, [PoolEvent.acquire fun _ => 0, .acquire fun _ => 7] = front ++ back →
        poolSystem.run emptyPool front = some middle → PoolLaw middle) ↔
      ∀ addr removed, PoolEvent.close addr removed ∉
        [PoolEvent.acquire fun _ => 0, .acquire fun _ => 7] :=
  poolLaw_iff_no_close rfl

/-- Open a connection and close it; the next two connections are one. -/
theorem not_always_poolLaw :
    ¬ ∀ events world, poolSystem.run emptyPool events = some world → PoolLaw world := by
  intro always
  have law := always
    [.acquire fun _ => 0, .close 0 true, .acquire fun _ => 0, .acquire fun _ => 0] _ rfl
  have twice := law.once
  revert twice
  decide

end SimpleDfs.Net
