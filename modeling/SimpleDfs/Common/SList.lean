import SimpleDfs.Library.LinkRing

/-!
Contract: the intrusive lists of `include/s_list.h`.

Owns: `s_list_init`, `s_list_insert`, `s_list_insert_tail` and `s_list_del`,
one write after the other, and what each does to a well-formed list.

Does not own: the structures the links live in.
-/

set_option autoImplicit false

namespace SimpleDfs.Common

open SimpleDfs.Library

universe u

variable {Addr : Type u} [DecidableEq Addr]

/-- `s_list_init`. -/
def sListInit (links : Links Addr) (s : Addr) : Links Addr :=
  links.loop s

/-- `s_list_insert`: `elem` comes first behind the head. -/
def sListInsert (links : Links Addr) (head elem : Addr) : Links Addr :=
  links.linkBetween elem head (links.next head)

/-- `s_list_insert_tail`: `elem` comes last before the head. -/
def sListInsertTail (links : Links Addr) (head elem : Addr) : Links Addr :=
  links.linkBetween elem (links.prev head) head

/-- `s_list_del`: the neighbours of `s` skip it, and `s` is initialised. -/
def sListDel (links : Links Addr) (s : Addr) : Links Addr :=
  sListInit (links.bypass s) s

/-- `s_list_empty`. -/
def sListEmpty (links : Links Addr) (head : Addr) : Bool :=
  decide (links.next head = head)

section

variable {links : Links Addr} {head elem : Addr} {nodes : List Addr}

theorem sListEmpty_iff (ring : links.IsRing head nodes) :
    sListEmpty links head = true ↔ nodes = [] := by
  rw [sListEmpty, decide_eq_true_iff]
  exact ring.next_head_iff

theorem isRing_sListInit (s : Addr) : (sListInit links s).IsRing s [] := by
  rw [Links.isRing_nil_iff]
  constructor
  · simp [sListInit, Links.loop_next]
  · simp [sListInit, Links.loop_prev]

theorem isRing_sListInsert (ring : links.IsRing head nodes) (fresh : elem ∉ head :: nodes) :
    (sListInsert links head elem).IsRing head (elem :: nodes) :=
  ring.push_front fresh

theorem isRing_sListInsertTail (ring : links.IsRing head nodes) (fresh : elem ∉ head :: nodes) :
    (sListInsertTail links head elem).IsRing head (nodes ++ [elem]) :=
  ring.push_back fresh

theorem isRing_sListDel {front back : List Addr} (ring : links.IsRing head (front ++ elem :: back)) :
    (sListDel links elem).IsRing head (front ++ back) ∧ (sListDel links elem).IsRing elem [] :=
  ring.unlink

/-- The nodes outside a list keep their `next` when one is inserted. -/
theorem sListInsert_next {other : Addr} (notHead : other ≠ head) (notElem : other ≠ elem) :
    (sListInsert links head elem).next other = links.next other := by
  rw [sListInsert, Links.linkBetween_next, if_neg notHead, if_neg notElem]

/-- The nodes outside a list keep their `next` when one of it is deleted. -/
theorem sListDel_next {front back : List Addr} (ring : links.IsRing head (front ++ elem :: back))
    {other : Addr} (outside : other ∉ head :: (front ++ elem :: back)) :
    (sListDel links elem).next other = links.next other :=
  ring.unlink_next outside

/-- Deleting a node that is in no list initialises it. -/
theorem sListDel_of_alone (alone : links.IsRing elem []) :
    sListDel links elem = sListInit links elem := by
  rw [Links.isRing_nil_iff] at alone
  exact Links.bypass_of_loop alone.1 alone.2

end

end SimpleDfs.Common
