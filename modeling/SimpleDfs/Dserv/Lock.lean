import SimpleDfs.Common.Id
import Mathlib.Data.List.TakeWhile
import Mathlib.Tactic.Common

/-!
Contract: a chained lock as a data server keeps it and the conflict test of two
locks (`core/s_core_lock.h`, `ilock_is_conflict` of `core/s_core_dserv.c`).

Owns: `LockElem`, `LockPacket`, `CoreLock`, the cursor walk `ilockIsConflict`
and what it decides on strictly increasing server lists.

Does not own: the lists a data server keeps its locks in.
-/

set_option autoImplicit false

namespace SimpleDfs.Dserv

open SimpleDfs.Common

/-- `struct s_core_lock_elem`. -/
structure LockElem where
  servId : Int
  id : SId
  finish : Bool
  deriving DecidableEq, Repr

/-- The body of a LOCK_START or LOCK_NEXT packet: position, client, operation
and the servers to visit, each with the data to write there. -/
structure LockPacket where
  curr : Nat
  clientId : Int
  id : SId
  servs : List (Int × SId)
  deriving DecidableEq, Repr

/-- `struct s_core_lock`.  `ref` stands for the address of the allocation;
`nserv` is the length of `elems`. -/
structure CoreLock where
  ref : Nat
  pkt : LockPacket
  id : SId
  clientId : Int
  nextPos : Nat
  nextServ : Int
  elems : List LockElem
  deriving DecidableEq, Repr

namespace CoreLock

/-- The elements of the servers the lock visits after this one. -/
def ahead (lock : CoreLock) : List LockElem :=
  lock.elems.drop lock.nextPos

end CoreLock

/-- The two cursors of `ilock_is_conflict`, each as the elements from it on.
`junk` is what the second inner loop reads past the end of the first list. -/
def conflictLoop (junk : Int) : Nat → List LockElem → List LockElem → Bool
  | 0, _, _ => false
  | _ + 1, [], _ => false
  | _ + 1, _ :: _, [] => false
  | fuel + 1, pa :: restA, pb :: restB =>
      if pa.servId = pb.servId then
        !(pa.finish || pb.finish)
      else
        let curA := (pa :: restA).dropWhile fun elem => decide (elem.servId < pb.servId)
        let bound := (curA.head?.map LockElem.servId).getD junk
        let curB := (pb :: restB).dropWhile fun elem => decide (bound > elem.servId)
        conflictLoop junk fuel curA curB

/-- `ilock_is_conflict`.  Every turn advances a cursor, so the lengths of the
two lists bound the number of turns. -/
def ilockIsConflict (junk : Int) (a b : CoreLock) : Bool :=
  conflictLoop junk (a.ahead.length + b.ahead.length) a.ahead b.ahead

/-! ## What the walk decides -/

/-- The server ids of the elements increase strictly. -/
def Increasing (elems : List LockElem) : Prop :=
  elems.Pairwise fun left right => left.servId < right.servId

/-- The two lists have a common server and neither has finished the smallest. -/
def MeetUnfinished (left right : List LockElem) : Prop :=
  ∃ a ∈ left, ∃ b ∈ right, a.servId = b.servId ∧ a.finish = false ∧ b.finish = false ∧
    ∀ c ∈ left, ∀ d ∈ right, c.servId = d.servId → a.servId ≤ c.servId

/-- Elements that meet nothing in the other list do not matter. -/
theorem meetUnfinished_append_left {skipped left right : List LockElem}
    (apart : ∀ a ∈ skipped, ∀ b ∈ right, a.servId ≠ b.servId) :
    MeetUnfinished (skipped ++ left) right ↔ MeetUnfinished left right := by
  constructor
  · intro ⟨a, inLeft, b, inRight, same, openA, openB, least⟩
    rcases List.mem_append.mp inLeft with skip | keep
    · exact (apart a skip b inRight same).elim
    · exact ⟨a, keep, b, inRight, same, openA, openB, fun c member =>
        least c (List.mem_append_right _ member)⟩
  · intro ⟨a, inLeft, b, inRight, same, openA, openB, least⟩
    refine ⟨a, List.mem_append_right _ inLeft, b, inRight, same, openA, openB, ?_⟩
    intro c member d inRight meet
    rcases List.mem_append.mp member with skip | keep
    · exact (apart c skip d inRight meet).elim
    · exact least c keep d inRight meet

theorem meetUnfinished_comm {left right : List LockElem} :
    MeetUnfinished left right ↔ MeetUnfinished right left := by
  have swap : ∀ {left right : List LockElem},
      MeetUnfinished left right → MeetUnfinished right left := by
    intro left right ⟨a, inLeft, b, inRight, same, openA, openB, least⟩
    refine ⟨b, inRight, a, inLeft, same.symm, openB, openA, ?_⟩
    intro d memberD c memberC meet
    have below := least c memberC d memberD meet.symm
    omega
  exact ⟨swap, swap⟩

theorem meetUnfinished_dropWhile_left {left right : List LockElem} {bound : Int}
    (above : ∀ b ∈ right, bound ≤ b.servId) :
    MeetUnfinished (left.dropWhile fun elem => decide (elem.servId < bound)) right ↔
      MeetUnfinished left right := by
  have split := List.takeWhile_append_dropWhile
    (p := fun elem : LockElem => decide (elem.servId < bound)) (l := left)
  conv_rhs => rw [← split]
  rw [meetUnfinished_append_left]
  intro a skipped b inRight same
  have small : a.servId < bound := by simpa using List.mem_takeWhile_imp skipped
  have large := above b inRight
  omega

theorem increasing_dropWhile {elems : List LockElem} (increasing : Increasing elems)
    (test : LockElem → Bool) : Increasing (elems.dropWhile test) :=
  List.Pairwise.sublist (List.dropWhile_sublist test) increasing

/-- Behind the head of an increasing list every server is larger. -/
theorem head_le_of_increasing {head : LockElem} {tail : List LockElem}
    (increasing : Increasing (head :: tail)) :
    ∀ elem ∈ head :: tail, head.servId ≤ elem.servId := by
  intro elem member
  rcases List.mem_cons.mp member with same | behind
  · rw [same]
  · have := (List.pairwise_cons.mp increasing).1 elem behind
    omega

theorem meetUnfinished_of_same_head {a b : LockElem} {restA restB : List LockElem}
    (increasingA : Increasing (a :: restA)) (increasingB : Increasing (b :: restB))
    (same : a.servId = b.servId) :
    MeetUnfinished (a :: restA) (b :: restB) ↔ a.finish = false ∧ b.finish = false := by
  have leastA := head_le_of_increasing increasingA
  have leastB := head_le_of_increasing increasingB
  constructor
  · intro ⟨c, inLeft, d, inRight, meet, openC, openD, least⟩
    have atHead : c.servId ≤ a.servId :=
      least a List.mem_cons_self b List.mem_cons_self same
    have isA : c = a := by
      rcases List.mem_cons.mp inLeft with equal | behind
      · exact equal
      · have := (List.pairwise_cons.mp increasingA).1 c behind
        omega
    have isB : d = b := by
      rcases List.mem_cons.mp inRight with equal | behind
      · exact equal
      · have := (List.pairwise_cons.mp increasingB).1 d behind
        omega
    exact ⟨isA ▸ openC, isB ▸ openD⟩
  · intro ⟨openA, openB⟩
    exact ⟨a, List.mem_cons_self, b, List.mem_cons_self, same, openA, openB,
      fun c member _ _ _ => leastA c member⟩

theorem not_meetUnfinished_nil_left (right : List LockElem) : ¬ MeetUnfinished [] right :=
  fun ⟨_, inLeft, _⟩ => List.not_mem_nil inLeft

theorem not_meetUnfinished_nil_right (left : List LockElem) : ¬ MeetUnfinished left [] :=
  fun ⟨_, _, _, inRight, _⟩ => List.not_mem_nil inRight

theorem length_dropWhile_le (test : LockElem → Bool) (elems : List LockElem) :
    (elems.dropWhile test).length ≤ elems.length :=
  (List.dropWhile_sublist test).length_le

/-- The second inner loop skips nothing that the first list still holds. -/
theorem meetUnfinished_dropWhile_right {left right : List LockElem}
    (increasing : Increasing left) (junk : Int) :
    MeetUnfinished left
        (right.dropWhile fun elem =>
          decide ((left.head?.map LockElem.servId).getD junk > elem.servId)) ↔
      MeetUnfinished left right := by
  cases left with
  | nil => simp [not_meetUnfinished_nil_left]
  | cons head tail =>
      rw [meetUnfinished_comm, @meetUnfinished_comm (head :: tail) right]
      exact meetUnfinished_dropWhile_left (head_le_of_increasing increasing)

/-- A turn that does not end the walk advances one of the cursors. -/
theorem cursors_advance {pa pb : LockElem} {restA restB : List LockElem} (junk : Int)
    (different : pa.servId ≠ pb.servId) :
    let curA := (pa :: restA).dropWhile fun elem => decide (elem.servId < pb.servId)
    let bound := (curA.head?.map LockElem.servId).getD junk
    let curB := (pb :: restB).dropWhile fun elem => decide (bound > elem.servId)
    curA.length + curB.length ≤ restA.length + restB.length + 1 := by
  intro curA bound curB
  by_cases below : pa.servId < pb.servId
  · have advanced : curA.length ≤ restA.length := by
      show ((pa :: restA).dropWhile _).length ≤ _
      rw [List.dropWhile_cons_of_pos (by simpa using below)]
      exact length_dropWhile_le _ _
    have bounded : curB.length ≤ restB.length + 1 := length_dropWhile_le _ (pb :: restB)
    omega
  · have stays : curA = pa :: restA := List.dropWhile_cons_of_neg (by simpa using below)
    have advanced : curB.length ≤ restB.length := by
      show ((pb :: restB).dropWhile _).length ≤ _
      have above : bound > pb.servId := by
        show (curA.head?.map LockElem.servId).getD junk > pb.servId
        rw [stays, List.head?_cons, Option.map_some, Option.getD_some]
        omega
      rw [List.dropWhile_cons_of_pos (by simpa using above)]
      exact length_dropWhile_le _ _
    rw [stays, List.length_cons]
    omega

/-- The walk over two increasing lists finds their smallest common server,
whatever it reads past the end of the first list. -/
theorem conflictLoop_iff (junk : Int) :
    ∀ (fuel : Nat) {left right : List LockElem}, Increasing left → Increasing right →
      left.length + right.length ≤ fuel →
      (conflictLoop junk fuel left right = true ↔ MeetUnfinished left right) := by
  intro fuel
  induction fuel with
  | zero =>
      intro left right _ _ enough
      have empty : left = [] := List.length_eq_zero_iff.mp (by omega)
      simp [conflictLoop, empty, not_meetUnfinished_nil_left]
  | succ fuel inductionHypothesis =>
      intro left right increasingA increasingB enough
      cases left with
      | nil => simp [conflictLoop, not_meetUnfinished_nil_left]
      | cons pa restA =>
          cases right with
          | nil => simp [conflictLoop, not_meetUnfinished_nil_right]
          | cons pb restB =>
              rw [conflictLoop]
              by_cases same : pa.servId = pb.servId
              · rw [if_pos same, meetUnfinished_of_same_head increasingA increasingB same]
                simp
              · rw [if_neg same]
                have shorter := @cursors_advance pa pb restA restB junk same
                rw [List.length_cons, List.length_cons] at enough
                rw [inductionHypothesis (increasing_dropWhile increasingA _)
                    (increasing_dropWhile increasingB _) (by omega),
                  meetUnfinished_dropWhile_right (increasing_dropWhile increasingA _),
                  meetUnfinished_dropWhile_left (head_le_of_increasing increasingB)]

/-- **The conflict test of two chained locks.** -/
theorem ilockIsConflict_iff (junk : Int) {a b : CoreLock} (increasingA : Increasing a.elems)
    (increasingB : Increasing b.elems) :
    ilockIsConflict junk a b = true ↔ MeetUnfinished a.ahead b.ahead :=
  conflictLoop_iff junk _ (increasingA.sublist (List.drop_sublist _ _))
    (increasingB.sublist (List.drop_sublist _ _)) le_rfl

end SimpleDfs.Dserv
