import Mathlib.Data.List.Basic
import Mathlib.Data.List.Nodup
import Mathlib.Logic.Function.Basic
import Mathlib.Tactic.Common

/-!
Contract: circular doubly linked lists whose links live inside the nodes.

Owns: `Links`, the `prev` and `next` fields of all nodes in memory; paths and
rings; what linking a node in and unlinking it do to the ring they touch; and
the frame rules for the rings they do not touch.

Does not own: who allocates the nodes, or which lists a program keeps.
-/

set_option autoImplicit false

namespace SimpleDfs.Library

universe u

/-- The links of every node in memory. -/
structure Links (Addr : Type u) where
  prev : Addr → Addr
  next : Addr → Addr

namespace Links

variable {Addr : Type u}

/-- `right` follows `left`, and knows it. -/
def Adjacent (links : Links Addr) (left right : Addr) : Prop :=
  links.next left = right ∧ links.prev right = left

/-- Walking from `first` passes `nodes` in turn and arrives at `last`. -/
def Path (links : Links Addr) : Addr → List Addr → Addr → Prop
  | first, [], last => links.Adjacent first last
  | first, node :: nodes, last => links.Adjacent first node ∧ links.Path node nodes last

/-- The nodes in the circular list of `head`, each once. -/
structure IsRing (links : Links Addr) (head : Addr) (nodes : List Addr) : Prop where
  distinct : (head :: nodes).Nodup
  path : links.Path head nodes head

/-! ## Paths -/

theorem path_append {links : Links Addr} {middle last : Addr} {back : List Addr} :
    ∀ {front : List Addr} {first : Addr},
      links.Path first (front ++ middle :: back) last ↔
        links.Path first front middle ∧ links.Path middle back last := by
  intro front
  induction front with
  | nil =>
      intro first
      exact Iff.rfl
  | cons head tail inductionHypothesis =>
      intro first
      rw [List.cons_append, Path, Path, inductionHypothesis, and_assoc]

/-- A path needs the `next` of all its nodes but the last and the `prev` of all
but the first. -/
theorem Path.congr {links other : Links Addr} {last : Addr} :
    ∀ {nodes : List Addr} {first : Addr}, links.Path first nodes last →
      (∀ node ∈ first :: nodes, other.next node = links.next node) →
      (∀ node ∈ last :: nodes, other.prev node = links.prev node) →
      other.Path first nodes last := by
  intro nodes
  induction nodes with
  | nil =>
      intro first path next prev
      exact ⟨(next first List.mem_cons_self).trans path.1,
        (prev last List.mem_cons_self).trans path.2⟩
  | cons head tail inductionHypothesis =>
      intro first path next prev
      refine ⟨⟨?_, ?_⟩, ?_⟩
      · exact (next first List.mem_cons_self).trans path.1.1
      · exact (prev head (List.mem_cons_of_mem last List.mem_cons_self)).trans path.1.2
      · apply inductionHypothesis path.2
        · intro node member
          exact next node (List.mem_cons_of_mem first member)
        · intro node member
          rcases List.mem_cons.mp member with same | inTail
          · exact prev node (same ▸ List.mem_cons_self)
          · exact prev node (List.mem_cons_of_mem last (List.mem_cons_of_mem head inTail))

/-- A path ends with the step to its last node. -/
theorem Path.last_step {links : Links Addr} {first last : Addr} {nodes : List Addr}
    (path : links.Path first nodes last) :
    (nodes = [] ∧ links.Adjacent first last) ∨
      ∃ front final, nodes = front ++ [final] ∧ links.Path first front final ∧
        links.Adjacent final last := by
  rcases List.eq_nil_or_concat nodes with empty | ⟨front, final, concat⟩
  · rw [empty] at path
    exact Or.inl ⟨empty, path⟩
  · rw [List.concat_eq_append] at concat
    rw [concat, path_append] at path
    exact Or.inr ⟨front, final, concat, path⟩

/-- Before each node of a path but the first stands a node of the path. -/
theorem Path.prev_mem {links : Links Addr} {last : Addr} :
    ∀ {nodes : List Addr} {first : Addr}, links.Path first nodes last →
      ∀ node ∈ last :: nodes, links.prev node ∈ first :: nodes := by
  intro nodes
  induction nodes with
  | nil =>
      intro first path node member
      rw [List.mem_singleton.mp member, path.2]
      exact List.mem_cons_self
  | cons head tail inductionHypothesis =>
      intro first path node member
      have inside := inductionHypothesis path.2
      rcases List.mem_cons.mp member with rfl | listed
      · exact List.mem_cons_of_mem first (inside node List.mem_cons_self)
      · rcases List.mem_cons.mp listed with rfl | inTail
        · rw [path.1.2]
          exact List.mem_cons_self
        · exact List.mem_cons_of_mem first (inside node (List.mem_cons_of_mem last inTail))

/-- Behind each node of a path but the last stands a node of the path. -/
theorem Path.next_mem {links : Links Addr} {last : Addr} :
    ∀ {nodes : List Addr} {first : Addr}, links.Path first nodes last →
      ∀ node ∈ first :: nodes, links.next node ∈ last :: nodes := by
  intro nodes
  induction nodes with
  | nil =>
      intro first path node member
      rw [List.mem_singleton.mp member, path.1]
      exact List.mem_cons_self
  | cons head tail inductionHypothesis =>
      intro first path node member
      rcases List.mem_cons.mp member with rfl | listed
      · rw [path.1.1]
        exact List.mem_cons_of_mem last List.mem_cons_self
      · have behind := inductionHypothesis path.2 node listed
        rcases List.mem_cons.mp behind with same | inTail
        · rw [same]
          exact List.mem_cons_self
        · exact List.mem_cons_of_mem last (List.mem_cons_of_mem head inTail)

/-- The node before a node of a path but the first points to it. -/
theorem Path.next_prev {links : Links Addr} {last : Addr} :
    ∀ {nodes : List Addr} {first : Addr}, links.Path first nodes last →
      ∀ node ∈ last :: nodes, links.next (links.prev node) = node := by
  intro nodes
  induction nodes with
  | nil =>
      intro first path node member
      rw [List.mem_singleton.mp member, path.2, path.1]
  | cons head tail inductionHypothesis =>
      intro first path node member
      have inside := inductionHypothesis path.2
      rcases List.mem_cons.mp member with rfl | listed
      · exact inside node List.mem_cons_self
      · rcases List.mem_cons.mp listed with rfl | inTail
        · rw [path.1.2, path.1.1]
        · exact inside node (List.mem_cons_of_mem last inTail)

/-! ## Rings -/

theorem isRing_nil_iff {links : Links Addr} {head : Addr} :
    links.IsRing head [] ↔ links.next head = head ∧ links.prev head = head :=
  ⟨fun ring => ring.path, fun path => ⟨List.nodup_singleton head, path⟩⟩

theorem IsRing.next_head {links : Links Addr} {head node : Addr} {nodes : List Addr}
    (ring : links.IsRing head (node :: nodes)) : links.next head = node :=
  ring.path.1.1

/-- The head points at itself exactly if its list is empty. -/
theorem IsRing.next_head_iff {links : Links Addr} {head : Addr} {nodes : List Addr}
    (ring : links.IsRing head nodes) : links.next head = head ↔ nodes = [] := by
  cases nodes with
  | nil => exact ⟨fun _ => rfl, fun _ => ring.path.1⟩
  | cons node rest =>
      rw [ring.next_head]
      have apart := (List.nodup_cons.mp ring.distinct).1
      constructor
      · intro same
        exact (apart (same ▸ List.mem_cons_self)).elim
      · intro empty
        cases empty

/-- No node of a ring points at itself, and the head only in the empty ring. -/
theorem IsRing.next_ne {links : Links Addr} {head : Addr} {nodes : List Addr}
    (ring : links.IsRing head nodes) {node : Addr} (member : node ∈ nodes) :
    links.next node ≠ node := by
  obtain ⟨front, back, split⟩ := List.append_of_mem member
  have path := ring.path
  have distinct := ring.distinct
  rw [split] at path distinct
  rw [path_append] at path
  cases back with
  | nil =>
      rw [path.2.1]
      intro same
      rw [same] at distinct
      simp at distinct
  | cons after rest =>
      rw [path.2.1.1]
      intro same
      rw [same] at distinct
      simp [List.nodup_append] at distinct

theorem IsRing.prev_ne {links : Links Addr} {head : Addr} {nodes : List Addr}
    (ring : links.IsRing head nodes) {node : Addr} (member : node ∈ nodes) :
    links.prev node ≠ node := by
  intro same
  have back := ring.path.next_prev node (List.mem_cons_of_mem head member)
  rw [same] at back
  exact ring.next_ne member back

theorem IsRing.congr {links other : Links Addr} {head : Addr} {nodes : List Addr}
    (ring : links.IsRing head nodes)
    (next : ∀ node ∈ head :: nodes, other.next node = links.next node)
    (prev : ∀ node ∈ head :: nodes, other.prev node = links.prev node) :
    other.IsRing head nodes :=
  ⟨ring.distinct, ring.path.congr next prev⟩

/-! ## Writing to links -/

section Write

variable [DecidableEq Addr]

def setPrev (links : Links Addr) (node target : Addr) : Links Addr :=
  { links with prev := Function.update links.prev node target }

def setNext (links : Links Addr) (node target : Addr) : Links Addr :=
  { links with next := Function.update links.next node target }

@[simp] theorem setPrev_next (links : Links Addr) (node target : Addr) :
    (links.setPrev node target).next = links.next := rfl

@[simp] theorem setNext_prev (links : Links Addr) (node target : Addr) :
    (links.setNext node target).prev = links.prev := rfl

theorem setPrev_prev (links : Links Addr) (node target other : Addr) :
    (links.setPrev node target).prev other = if other = node then target else links.prev other :=
  Function.update_apply links.prev node target other

theorem setNext_next (links : Links Addr) (node target other : Addr) :
    (links.setNext node target).next other = if other = node then target else links.next other :=
  Function.update_apply links.next node target other

/-- Let the node be a list of its own. -/
def loop (links : Links Addr) (node : Addr) : Links Addr :=
  (links.setNext node node).setPrev node node

/-- Link the node in between `left` and `right`. -/
def linkBetween (links : Links Addr) (node left right : Addr) : Links Addr :=
  (((links.setPrev node left).setNext node right).setNext left node).setPrev right node

/-- Let the neighbours of the node skip it, one field after the other. -/
def bypass (links : Links Addr) (node : Addr) : Links Addr :=
  let first := links.setNext (links.prev node) (links.next node)
  first.setPrev (first.next node) (first.prev node)

theorem loop_next (links : Links Addr) (node other : Addr) :
    (links.loop node).next other = if other = node then node else links.next other := by
  simp [loop, setNext_next]

theorem loop_prev (links : Links Addr) (node other : Addr) :
    (links.loop node).prev other = if other = node then node else links.prev other := by
  simp [loop, setPrev_prev]

theorem linkBetween_next (links : Links Addr) (node left right other : Addr) :
    (links.linkBetween node left right).next other =
      if other = left then node else if other = node then right else links.next other := by
  simp [linkBetween, setNext_next]

theorem linkBetween_prev (links : Links Addr) (node left right other : Addr) :
    (links.linkBetween node left right).prev other =
      if other = right then node else if other = node then left else links.prev other := by
  simp [linkBetween, setPrev_prev]

theorem bypass_next (links : Links Addr) (node other : Addr) :
    (links.bypass node).next other =
      if other = links.prev node then links.next node else links.next other := by
  simp [bypass, setNext_next]

/-- The second write of `bypass` goes to the `next` the first one has left. -/
theorem bypass_prev {links : Links Addr} {node : Addr} (apart : links.prev node ≠ node)
    (other : Addr) :
    (links.bypass node).prev other =
      if other = links.next node then links.prev node else links.prev other := by
  have kept : (links.setNext (links.prev node) (links.next node)).next node = links.next node := by
    rw [setNext_next, if_neg (Ne.symm apart)]
  simp only [bypass]
  rw [setPrev_prev, kept]
  rfl

/-- A node that is a list of its own need not be made one. -/
theorem loop_of_loop {links : Links Addr} {node : Addr} (next : links.next node = node)
    (prev : links.prev node = node) : links.loop node = links := by
  have sameNext : Function.update links.next node node = links.next :=
    Function.update_eq_self_iff.mpr next.symm
  have samePrev : Function.update links.prev node node = links.prev :=
    Function.update_eq_self_iff.mpr prev.symm
  simp only [loop, setNext, setPrev, sameNext, samePrev]

/-- A node that is a list of its own is its own neighbour. -/
theorem bypass_of_loop {links : Links Addr} {node : Addr} (next : links.next node = node)
    (prev : links.prev node = node) : (links.bypass node).loop node = links.loop node := by
  have sameNext : ∀ other, ((links.bypass node).loop node).next other =
      (links.loop node).next other := by
    intro other
    simp only [loop_next, bypass_next, next, prev]
    split <;> rfl
  have samePrev : ∀ other, ((links.bypass node).loop node).prev other =
      (links.loop node).prev other := by
    intro other
    simp only [loop_prev]
    split
    · rfl
    · simp [bypass, setPrev_prev, setNext_next, *]
  cases first : (links.bypass node).loop node
  cases second : links.loop node
  simp only [first, second] at sameNext samePrev
  rw [funext sameNext, funext samePrev]

/-- `other` has the `next` of `links` outside `nexts` and the `prev` outside
`prevs`. -/
structure ChangedAt (links other : Links Addr) (nexts prevs : List Addr) : Prop where
  next : ∀ node, node ∉ nexts → other.next node = links.next node
  prev : ∀ node, node ∉ prevs → other.prev node = links.prev node

omit [DecidableEq Addr] in
theorem Path.changed {links other : Links Addr} {nexts prevs : List Addr} {first last : Addr}
    {nodes : List Addr} (path : links.Path first nodes last)
    (change : links.ChangedAt other nexts prevs) (apartNext : ∀ node ∈ nexts, node ∉ first :: nodes)
    (apartPrev : ∀ node ∈ prevs, node ∉ last :: nodes) : other.Path first nodes last :=
  path.congr (fun node member => change.next node fun listed => apartNext node listed member)
    (fun node member => change.prev node fun listed => apartPrev node listed member)

omit [DecidableEq Addr] in
/-- A ring away from every write stays. -/
theorem IsRing.changed {links other : Links Addr} {nexts prevs : List Addr} {head : Addr}
    {nodes : List Addr} (ring : links.IsRing head nodes)
    (change : links.ChangedAt other nexts prevs) (apartNext : ∀ node ∈ nexts, node ∉ head :: nodes)
    (apartPrev : ∀ node ∈ prevs, node ∉ head :: nodes) : other.IsRing head nodes :=
  ⟨ring.distinct, ring.path.changed change apartNext apartPrev⟩

theorem changedAt_setNext (links : Links Addr) (node target : Addr) :
    links.ChangedAt (links.setNext node target) [node] [] where
  next := by
    intro other outside
    rw [List.mem_singleton] at outside
    rw [setNext_next, if_neg outside]
  prev := fun _ _ => rfl

theorem changedAt_loop (links : Links Addr) (node : Addr) :
    links.ChangedAt (links.loop node) [node] [node] where
  next := by
    intro other outside
    rw [List.mem_singleton] at outside
    rw [loop_next, if_neg outside]
  prev := by
    intro other outside
    rw [List.mem_singleton] at outside
    rw [loop_prev, if_neg outside]

theorem changedAt_linkBetween (links : Links Addr) (node left right : Addr) :
    links.ChangedAt (links.linkBetween node left right) [left, node] [right, node] where
  next := by
    intro other outside
    simp only [List.mem_cons, List.not_mem_nil, or_false, not_or] at outside
    rw [linkBetween_next, if_neg outside.1, if_neg outside.2]
  prev := by
    intro other outside
    simp only [List.mem_cons, List.not_mem_nil, or_false, not_or] at outside
    rw [linkBetween_prev, if_neg outside.1, if_neg outside.2]

theorem changedAt_unlink {links : Links Addr} {node : Addr} (apart : links.prev node ≠ node) :
    links.ChangedAt ((links.bypass node).loop node) [links.prev node, node]
      [links.next node, node] where
  next := by
    intro other outside
    simp only [List.mem_cons, List.not_mem_nil, or_false, not_or] at outside
    rw [loop_next, if_neg outside.2, bypass_next, if_neg outside.1]
  prev := by
    intro other outside
    simp only [List.mem_cons, List.not_mem_nil, or_false, not_or] at outside
    rw [loop_prev, if_neg outside.2, bypass_prev apart, if_neg outside.1]

/-! ## What linking and unlinking do to a ring -/

section Ring

variable {links : Links Addr} {head node : Addr} {nodes : List Addr}

/-- Link a new node in behind the head. -/
theorem IsRing.push_front (ring : links.IsRing head nodes) (fresh : node ∉ head :: nodes) :
    (links.linkBetween node head (links.next head)).IsRing head (node :: nodes) := by
  have change := changedAt_linkBetween links node head (links.next head)
  have notHead : node ≠ head := fun same => fresh (same ▸ List.mem_cons_self)
  have distinct : (head :: node :: nodes).Nodup :=
    (List.Perm.swap head node nodes).nodup_iff.mp (List.nodup_cons.mpr ⟨fresh, ring.distinct⟩)
  refine ⟨distinct, ?_⟩
  cases nodes with
  | nil =>
      rw [ring.path.1]
      refine ⟨⟨?_, ?_⟩, ?_, ?_⟩
      · simp [linkBetween_next]
      · simp [linkBetween_prev, notHead]
      · simp [linkBetween_next, notHead]
      · simp [linkBetween_prev]
  | cons first rest =>
      rw [ring.next_head] at change ⊢
      have notFirst : node ≠ first := by
        rintro rfl
        exact fresh (List.mem_cons_of_mem _ List.mem_cons_self)
      refine ⟨⟨?_, ?_⟩, ⟨?_, ?_⟩, ?_⟩
      · simp [linkBetween_next]
      · simp [linkBetween_prev, notFirst]
      · simp [linkBetween_next, notHead]
      · simp [linkBetween_prev]
      · have notAgain : first ≠ head := fun same =>
          (List.nodup_cons.mp ring.distinct).1 (same ▸ List.mem_cons_self)
        apply ring.path.2.changed change
        · simp_all
        · simp_all

/-- Link a new node in before the head. -/
theorem IsRing.push_back (ring : links.IsRing head nodes) (fresh : node ∉ head :: nodes) :
    (links.linkBetween node (links.prev head) head).IsRing head (nodes ++ [node]) := by
  have change := changedAt_linkBetween links node (links.prev head) head
  have notHead : node ≠ head := fun same => fresh (same ▸ List.mem_cons_self)
  have distinct : (head :: (nodes ++ [node])).Nodup := by
    rw [← List.cons_append, List.nodup_append]
    refine ⟨ring.distinct, List.nodup_singleton node, ?_⟩
    rintro old member new listed rfl
    exact fresh (List.mem_singleton.mp listed ▸ member)
  refine ⟨distinct, ?_⟩
  rcases ring.path.last_step with ⟨rfl, atHead⟩ | ⟨front, final, rfl, toFinal, atFinal⟩
  · rw [atHead.2]
    refine ⟨⟨?_, ?_⟩, ?_, ?_⟩
    · simp [linkBetween_next]
    · simp [linkBetween_prev, notHead]
    · simp [linkBetween_next, notHead]
    · simp [linkBetween_prev]
  · rw [atFinal.2] at change ⊢
    have notFinal : node ≠ final := by
      rintro rfl
      exact fresh (List.mem_cons_of_mem _ (List.mem_append_right _ List.mem_cons_self))
    rw [List.append_assoc, List.singleton_append, path_append]
    refine ⟨?_, ⟨?_, ?_⟩, ?_, ?_⟩
    · have once := ring.distinct
      have notAgain : final ≠ head := fun same =>
        (List.nodup_cons.mp once).1 (same ▸ List.mem_append_right _ List.mem_cons_self)
      have notBefore : final ∉ front := fun member =>
        (List.nodup_append.mp (List.nodup_cons.mp once).2).2.2 final member final
          List.mem_cons_self rfl
      apply toFinal.changed change
      · simp_all
      · simp_all
    · simp [linkBetween_next]
    · simp [linkBetween_prev, notHead]
    · simp [linkBetween_next, notFinal]
    · simp [linkBetween_prev]

/-- The neighbours of an unlinked node follow each other. -/
theorem adjacent_unlink (apartPrev : links.prev node ≠ node) (apartNext : links.next node ≠ node) :
    ((links.bypass node).loop node).Adjacent (links.prev node) (links.next node) := by
  constructor
  · rw [loop_next, if_neg apartPrev, bypass_next, if_pos rfl]
  · rw [loop_prev, if_neg apartNext, bypass_prev apartPrev, if_pos rfl]

/-- Take a node out of the ring; it becomes a list of its own. -/
theorem IsRing.unlink {front back : List Addr} (ring : links.IsRing head (front ++ node :: back)) :
    ((links.bypass node).loop node).IsRing head (front ++ back) ∧
      ((links.bypass node).loop node).IsRing node [] := by
  have moved : (node :: head :: (front ++ back)).Nodup := by
    have perm : (head :: (front ++ node :: back)).Perm (node :: head :: (front ++ back)) :=
      (List.perm_middle.cons head).trans (List.Perm.swap node head (front ++ back))
    exact perm.nodup_iff.mp ring.distinct
  obtain ⟨outside, distinct⟩ := List.nodup_cons.mp moved
  obtain ⟨before, after⟩ := path_append.mp ring.path
  have self : ((links.bypass node).loop node).IsRing node [] :=
    isRing_nil_iff.mpr ⟨by simp [loop_next], by simp [loop_prev]⟩
  refine ⟨⟨distinct, ?_⟩, self⟩
  -- the neighbours of the node are the ends of the two paths, or the head
  rcases before.last_step with ⟨rfl, fromHead⟩ | ⟨first, left, rfl, toLeft, fromLeft⟩
  · have apartPrev : links.prev node ≠ node := by
      rw [fromHead.2]
      exact fun same => outside (same ▸ List.mem_cons_self)
    have change := changedAt_unlink apartPrev
    have joined := @adjacent_unlink _ _ links node apartPrev
    cases back with
    | nil =>
        rw [fromHead.2, after.1] at joined
        exact joined fun same => outside (same ▸ List.mem_cons_self)
    | cons right rest =>
        rw [fromHead.2, after.1.1] at joined change
        refine ⟨joined fun same => outside (same ▸ by simp), ?_⟩
        have facts := moved
        simp only [List.nodup_cons, List.mem_cons, List.nil_append] at facts
        apply after.2.changed change <;> grind
  · have apartPrev : links.prev node ≠ node := by
      rw [fromLeft.2]
      exact fun same => outside (same ▸ by simp)
    have change := changedAt_unlink apartPrev
    have joined := @adjacent_unlink _ _ links node apartPrev
    have facts := moved
    simp only [List.nodup_cons, List.nodup_append, List.mem_cons, List.mem_append] at facts
    cases back with
    | nil =>
        rw [fromLeft.2, after.1] at joined change
        rw [List.append_nil, path_append]
        refine ⟨?_, joined fun same => outside (same ▸ List.mem_cons_self)⟩
        apply toLeft.changed change <;> grind
    | cons right rest =>
        rw [fromLeft.2, after.1.1] at joined change
        rw [List.append_assoc, List.singleton_append, path_append]
        refine ⟨?_, joined fun same => outside (same ▸ by simp), ?_⟩
        · apply toLeft.changed change <;> grind
        · apply after.2.changed change <;> grind

/-- Unlinking a node of a ring leaves the `next` of the nodes outside. -/
theorem IsRing.unlink_next {front back : List Addr}
    (ring : links.IsRing head (front ++ node :: back)) {other : Addr}
    (outside : other ∉ head :: (front ++ node :: back)) :
    ((links.bypass node).loop node).next other = links.next other := by
  have member : node ∈ front ++ node :: back := by simp
  have before := ring.path.prev_mem node (List.mem_cons_of_mem head member)
  have apart : other ≠ links.prev node := by
    rintro rfl
    exact outside before
  have notNode : other ≠ node := by
    rintro rfl
    exact outside (List.mem_cons_of_mem head member)
  rw [loop_next, if_neg notNode, bypass_next, if_neg apart]

end Ring

end Write

end Links

end SimpleDfs.Library
