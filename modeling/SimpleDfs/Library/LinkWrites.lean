import SimpleDfs.Library.LinkFamily

/-!
Contract: writing to links one field at a time.

Owns: `LinkWrite`, lists of writes that are still to come, the writes that link a
node in and those that unlink it, and the frame rules of a list of writes.

Does not own: who makes the writes, and what stands between two of them.
-/

set_option autoImplicit false

namespace SimpleDfs.Library

universe u

/-- One write to a link: its `prev` or its `next`. -/
inductive LinkWrite (Addr : Type u) where
  | prev (node target : Addr)
  | next (node target : Addr)
  deriving DecidableEq

namespace LinkWrite

variable {Addr : Type u}

/-- The link that is written to. -/
def place : LinkWrite Addr → Addr
  | .prev node _ => node
  | .next node _ => node

/-- The writes of linking a node in between `left` and `right`. -/
def linking (node left right : Addr) : List (LinkWrite Addr) :=
  [.prev node left, .next node right, .next left node, .prev right node]

/-- The writes of unlinking a node from between `left` and `right`, which leave
it a list of its own. -/
def unlinking (node left right : Addr) : List (LinkWrite Addr) :=
  [.next left right, .prev right left, .next node node, .prev node node]

theorem place_of_linking {node left right : Addr} {write : LinkWrite Addr}
    (listed : write ∈ linking node left right) :
    write.place = node ∨ write.place = left ∨ write.place = right := by
  simp only [linking, List.mem_cons, List.not_mem_nil, or_false] at listed
  rcases listed with rfl | rfl | rfl | rfl
  · exact Or.inl rfl
  · exact Or.inl rfl
  · exact Or.inr (Or.inl rfl)
  · exact Or.inr (Or.inr rfl)

theorem place_of_unlinking {node left right : Addr} {write : LinkWrite Addr}
    (listed : write ∈ unlinking node left right) :
    write.place = node ∨ write.place = left ∨ write.place = right := by
  simp only [unlinking, List.mem_cons, List.not_mem_nil, or_false] at listed
  rcases listed with rfl | rfl | rfl | rfl
  · exact Or.inr (Or.inl rfl)
  · exact Or.inr (Or.inr rfl)
  · exact Or.inl rfl
  · exact Or.inl rfl

variable [DecidableEq Addr]

def apply (links : Links Addr) : LinkWrite Addr → Links Addr
  | .prev node target => links.setPrev node target
  | .next node target => links.setNext node target

end LinkWrite

namespace Links

variable {Addr : Type u} [DecidableEq Addr] {links other : Links Addr}

/-- The links after a list of writes. -/
def after (links : Links Addr) (writes : List (LinkWrite Addr)) : Links Addr :=
  writes.foldl LinkWrite.apply links

@[simp] theorem after_nil (links : Links Addr) : links.after [] = links := rfl

@[simp] theorem after_cons (links : Links Addr) (write : LinkWrite Addr)
    (rest : List (LinkWrite Addr)) : links.after (write :: rest) = (write.apply links).after rest :=
  rfl

theorem after_linking (links : Links Addr) (node left right : Addr) :
    links.after (LinkWrite.linking node left right) = links.linkBetween node left right :=
  rfl

theorem after_unlinking {node : Addr} (apart : links.prev node ≠ node) :
    links.after (LinkWrite.unlinking node (links.prev node) (links.next node)) =
      (links.bypass node).loop node := by
  have kept : (links.setNext (links.prev node) (links.next node)).next node = links.next node := by
    rw [setNext_next, if_neg (Ne.symm apart)]
  unfold bypass
  dsimp only
  rw [kept]
  rfl

/-- Two memories agree on a link. -/
def Agree (links other : Links Addr) (node : Addr) : Prop :=
  other.next node = links.next node ∧ other.prev node = links.prev node

omit [DecidableEq Addr] in
theorem Agree.refl (links : Links Addr) (node : Addr) : links.Agree links node :=
  ⟨rfl, rfl⟩

theorem Agree.setNext {node : Addr} (agree : links.Agree other node) (written target : Addr) :
    (links.setNext written target).Agree (other.setNext written target) node := by
  constructor
  · rw [setNext_next, setNext_next, agree.1]
  · exact agree.2

theorem Agree.setPrev {node : Addr} (agree : links.Agree other node) (written target : Addr) :
    (links.setPrev written target).Agree (other.setPrev written target) node := by
  constructor
  · exact agree.1
  · rw [setPrev_prev, setPrev_prev, agree.2]

/-- A link that two memories agree on is the same after the same writes. -/
theorem Agree.after {node : Addr} (agree : links.Agree other node)
    (writes : List (LinkWrite Addr)) : (links.after writes).Agree (other.after writes) node := by
  induction writes generalizing links other with
  | nil => exact agree
  | cons write rest inductionHypothesis =>
      apply inductionHypothesis
      cases write with
      | prev written target => exact agree.setPrev written target
      | next written target => exact agree.setNext written target

/-- A write leaves the other links. -/
theorem agree_apply (links : Links Addr) (write : LinkWrite Addr) {node : Addr}
    (apart : node ≠ write.place) : links.Agree (write.apply links) node := by
  cases write with
  | prev written target =>
      exact ⟨rfl, (setPrev_prev links written target node).trans (if_neg apart)⟩
  | next written target =>
      exact ⟨(setNext_next links written target node).trans (if_neg apart), rfl⟩

omit [DecidableEq Addr] in
/-- A ring only depends on the links of its head and nodes. -/
theorem IsRing.agree {head : Addr} {nodes : List Addr} (ring : links.IsRing head nodes)
    (agree : ∀ node ∈ head :: nodes, links.Agree other node) : other.IsRing head nodes :=
  ring.congr (fun node member => (agree node member).1) fun node member => (agree node member).2

end Links

end SimpleDfs.Library
