import SimpleDfs.Library.LinkRing

/-!
Contract: several circular lists that share one kind of node, each node being
in one of them at most.

Owns: `LinkRef`, `IsFamily`, and what linking a node in, unlinking it and
initialising it do to all the lists at once and to the nodes that are in none.

Does not own: what being in a list means to a program.
-/

set_option autoImplicit false

namespace SimpleDfs.Library

universe u v

/-- Where a link points: to the head of a list or to a node. -/
inductive LinkRef (Head : Type u) (Node : Type v) where
  | head (list : Head)
  | node (element : Node)
  deriving DecidableEq

namespace Links

variable {Head : Type u} {Node : Type v}

/-- The rings of all heads, no node in two of them. -/
structure IsFamily (links : Links (LinkRef Head Node)) (lists : Head → List Node) : Prop where
  ring : ∀ list, links.IsRing (.head list) ((lists list).map .node)
  apart : ∀ list other node, node ∈ lists list → node ∈ lists other → list = other

/-- The node is a list of its own. -/
def Alone (links : Links (LinkRef Head Node)) (node : Node) : Prop :=
  links.IsRing (.node node) []

theorem node_mem_ring {list : Head} {nodes : List Node} {node : Node} :
    LinkRef.node node ∈ LinkRef.head list :: nodes.map .node ↔ node ∈ nodes := by
  simp

theorem head_mem_ring {list other : Head} {nodes : List Node} :
    (LinkRef.head other : LinkRef Head Node) ∈ LinkRef.head list :: nodes.map .node ↔
      other = list := by
  simp

section

variable {links : Links (LinkRef Head Node)} {lists : Head → List Node}

theorem IsFamily.nodup (family : links.IsFamily lists) (list : Head) : (lists list).Nodup :=
  (List.nodup_cons.mp (family.ring list).distinct).2.of_map _

/-- A node of a list is not a list of its own. -/
theorem IsFamily.not_alone (family : links.IsFamily lists) {list : Head} {node : Node}
    (member : node ∈ lists list) : ¬ links.Alone node := by
  intro alone
  apply (family.ring list).next_ne (List.mem_map_of_mem member)
  exact alone.path.1

theorem IsFamily.unlisted_of_alone (family : links.IsFamily lists) {node : Node}
    (alone : links.Alone node) (list : Head) : node ∉ lists list :=
  fun member => family.not_alone member alone

/-- What stands before or behind a node of one list is not in another. -/
theorem IsFamily.outside_other (family : links.IsFamily lists) {list other : Head}
    (different : other ≠ list) {place : LinkRef Head Node}
    (member : place ∈ LinkRef.head list :: (lists list).map .node) :
    place ∉ LinkRef.head other :: (lists other).map .node := by
  intro again
  cases place with
  | head origin =>
      rw [head_mem_ring] at member again
      exact different (again.symm.trans member)
  | node node =>
      rw [node_mem_ring] at member again
      exact different (family.apart _ _ _ again member)

theorem IsFamily.prev_mem (family : links.IsFamily lists) {list : Head} {node : Node}
    (member : node ∈ lists list) :
    links.prev (.node node) ∈ LinkRef.head list :: (lists list).map .node :=
  (family.ring list).path.prev_mem _ (node_mem_ring.mpr member)

theorem IsFamily.next_mem (family : links.IsFamily lists) {list : Head} {node : Node}
    (member : node ∈ lists list) :
    links.next (.node node) ∈ LinkRef.head list :: (lists list).map .node :=
  (family.ring list).path.next_mem _ (node_mem_ring.mpr member)

/-- The lists only depend on the links of their heads and nodes. -/
theorem IsFamily.congr {other : Links (LinkRef Head Node)} (family : links.IsFamily lists)
    (heads : ∀ list, other.next (.head list) = links.next (.head list) ∧
      other.prev (.head list) = links.prev (.head list))
    (nodes : ∀ list, ∀ node ∈ lists list, other.next (.node node) = links.next (.node node) ∧
      other.prev (.node node) = links.prev (.node node)) : other.IsFamily lists where
  ring := by
    intro list
    have same : ∀ place ∈ LinkRef.head list :: (lists list).map .node,
        other.next place = links.next place ∧ other.prev place = links.prev place := by
      intro place member
      cases place with
      | head origin => exact heads origin
      | node node => exact nodes list node (node_mem_ring.mp member)
    exact (family.ring list).congr (fun place member => (same place member).1)
      fun place member => (same place member).2
  apart := family.apart

end

section

variable [DecidableEq Head] [DecidableEq Node]

/-- The lists without one node. -/
def without (lists : Head → List Node) (node : Node) : Head → List Node :=
  fun list => (lists list).erase node

/-- The lists with a node at the end of one. -/
def withLast (lists : Head → List Node) (list : Head) (node : Node) : Head → List Node :=
  Function.update lists list (lists list ++ [node])

variable {links : Links (LinkRef Head Node)} {lists : Head → List Node}

omit [DecidableEq Head] in
theorem IsFamily.mem_without (family : links.IsFamily lists) {list : Head} {node other : Node} :
    other ∈ without lists node list ↔ other ≠ node ∧ other ∈ lists list :=
  (family.nodup list).mem_erase_iff

omit [DecidableEq Node] in
theorem mem_withLast {list other : Head} {node member : Node} :
    member ∈ withLast lists list node other ↔
      member ∈ lists other ∨ other = list ∧ member = node := by
  by_cases same : other = list
  · subst same
    simp [withLast]
  · simp [withLast, same]

omit [DecidableEq Head] in
theorem without_of_unlisted {node : Node} (unlisted : ∀ list, node ∉ lists list) :
    without lists node = lists :=
  funext fun list => List.erase_of_not_mem (unlisted list)

/-! ## Initialising -/

theorem alone_loop (links : Links (LinkRef Head Node)) (node : Node) :
    (links.loop (.node node)).Alone node :=
  isRing_nil_iff.mpr ⟨by simp [loop_next], by simp [loop_prev]⟩

/-- Initialising a node that is in no list leaves the lists. -/
theorem IsFamily.loop (family : links.IsFamily lists) {node : Node}
    (unlisted : ∀ list, node ∉ lists list) :
    (links.loop (.node node)).IsFamily lists where
  ring := by
    intro list
    have outside : LinkRef.node node ∉ LinkRef.head list :: (lists list).map .node :=
      fun member => unlisted list (node_mem_ring.mp member)
    apply (family.ring list).changed (changedAt_loop links _)
    · intro place written
      rw [List.mem_singleton.mp written]
      exact outside
    · intro place written
      rw [List.mem_singleton.mp written]
      exact outside
  apart := family.apart

theorem Alone.loop_other {node other : Node} (alone : links.Alone other)
    (different : other ≠ node) : (links.loop (.node node)).Alone other := by
  apply IsRing.changed alone (changedAt_loop links _)
  · simpa using Ne.symm different
  · simpa using Ne.symm different

/-! ## Linking in -/

/-- Link a node that is in no list in at the end of one. -/
theorem IsFamily.link (family : links.IsFamily lists) {list : Head} {node : Node}
    (unlisted : ∀ list, node ∉ lists list) :
    (links.linkBetween (.node node) (links.prev (.head list)) (.head list)).IsFamily
      (withLast lists list node) where
  ring := by
    intro other
    by_cases same : other = list
    · subst same
      rw [withLast, Function.update_self, List.map_append, List.map_singleton]
      apply (family.ring other).push_back
      exact fun member => unlisted other (node_mem_ring.mp member)
    · rw [withLast, Function.update_of_ne same]
      have self : LinkRef.node node ∉ LinkRef.head other :: (lists other).map .node :=
        fun member => unlisted other (node_mem_ring.mp member)
      have last : links.prev (.head list) ∈ LinkRef.head list :: (lists list).map .node :=
        (family.ring list).path.prev_mem _ List.mem_cons_self
      apply (family.ring other).changed (changedAt_linkBetween links _ _ _)
      · intro place written
        rcases List.mem_pair.mp written with rfl | rfl
        · exact family.outside_other same last
        · exact self
      · intro place written
        rcases List.mem_pair.mp written with rfl | rfl
        · exact fun member => same (head_mem_ring.mp member).symm
        · exact self
  apart := by
    intro first second member inFirst inSecond
    rcases mem_withLast.mp inFirst with old | ⟨rfl, rfl⟩ <;>
      rcases mem_withLast.mp inSecond with old' | ⟨rfl, new⟩
    · exact family.apart _ _ _ old old'
    · exact absurd (new ▸ old) (unlisted _)
    · exact absurd old' (unlisted _)
    · rfl

/-- Linking a node in leaves the others that are on their own. -/
theorem IsFamily.alone_link (family : links.IsFamily lists) {list : Head} {node other : Node}
    (alone : links.Alone other) (different : other ≠ node) :
    (links.linkBetween (.node node) (links.prev (.head list)) (.head list)).Alone other := by
  have last : links.prev (.head list) ∈ LinkRef.head list :: (lists list).map .node :=
    (family.ring list).path.prev_mem _ List.mem_cons_self
  apply IsRing.changed alone (changedAt_linkBetween links _ _ _)
  · intro place written
    rw [List.mem_singleton]
    rintro rfl
    rcases List.mem_pair.mp written with atLast | atNode
    · rw [← atLast] at last
      exact family.not_alone (node_mem_ring.mp last) alone
    · exact different (LinkRef.node.inj atNode)
  · intro place written
    rw [List.mem_singleton]
    rintro rfl
    rcases List.mem_pair.mp written with atHead | atNode
    · cases atHead
    · exact different (LinkRef.node.inj atNode)

/-! ## Unlinking -/

/-- Unlink a node of a list. -/
theorem IsFamily.unlink_listed (family : links.IsFamily lists) {list : Head} {node : Node}
    (member : node ∈ lists list) :
    ((links.bypass (.node node)).loop (.node node)).IsFamily (without lists node) ∧
      ((links.bypass (.node node)).loop (.node node)).Alone node := by
  obtain ⟨front, back, split⟩ := List.append_of_mem member
  have ring := family.ring list
  rw [split, List.map_append, List.map_cons] at ring
  obtain ⟨shorter, alone⟩ := ring.unlink
  have notFront : node ∉ front := by
    have distinct := family.nodup list
    rw [split] at distinct
    exact fun again => (List.nodup_append.mp distinct).2.2 node again node List.mem_cons_self rfl
  have erased : (lists list).erase node = front ++ back := by
    rw [split, List.erase_append_right _ notFront, List.erase_cons_head]
  refine ⟨⟨?_, ?_⟩, alone⟩
  · intro other
    by_cases same : other = list
    · subst same
      rw [without, erased, List.map_append]
      exact shorter
    · have elsewhere : node ∉ lists other := fun again => same (family.apart _ _ _ again member)
      rw [without, List.erase_of_not_mem elsewhere]
      have self : LinkRef.node node ∉ LinkRef.head other :: (lists other).map .node :=
        fun again => elsewhere (node_mem_ring.mp again)
      have before := family.outside_other same (family.prev_mem member)
      have behind := family.outside_other same (family.next_mem member)
      have apart := (family.ring list).prev_ne (List.mem_map_of_mem member)
      apply (family.ring other).changed (changedAt_unlink apart)
      · intro place written
        rcases List.mem_pair.mp written with rfl | rfl
        · exact before
        · exact self
      · intro place written
        rcases List.mem_pair.mp written with rfl | rfl
        · exact behind
        · exact self
  · intro first second other inFirst inSecond
    exact family.apart first second other (List.mem_of_mem_erase inFirst)
      (List.mem_of_mem_erase inSecond)

/-- Unlink a node, whether it is in a list or on its own. -/
theorem IsFamily.unlink (family : links.IsFamily lists) {node : Node}
    (place : (∃ list, node ∈ lists list) ∨ links.Alone node) :
    ((links.bypass (.node node)).loop (.node node)).IsFamily (without lists node) ∧
      ((links.bypass (.node node)).loop (.node node)).Alone node := by
  rcases place with ⟨list, member⟩ | alone
  · exact family.unlink_listed member
  · have unlisted := family.unlisted_of_alone alone
    rw [bypass_of_loop alone.path.1 alone.path.2, without_of_unlisted unlisted]
    exact ⟨family.loop unlisted, alone_loop links node⟩

/-- Unlinking a node leaves the others that are on their own. -/
theorem IsFamily.alone_unlink (family : links.IsFamily lists) {node other : Node}
    (place : (∃ list, node ∈ lists list) ∨ links.Alone node) (alone : links.Alone other) :
    ((links.bypass (.node node)).loop (.node node)).Alone other := by
  by_cases same : other = node
  · rw [same]
    exact (family.unlink place).2
  · rcases place with ⟨list, member⟩ | selfAlone
    · have outside : LinkRef.node other ∉ LinkRef.head list :: (lists list).map .node :=
        fun again => family.not_alone (node_mem_ring.mp again) alone
      have apart := (family.ring list).prev_ne (List.mem_map_of_mem member)
      apply IsRing.changed alone (changedAt_unlink apart)
      · intro place written
        rw [List.mem_singleton]
        rintro rfl
        rcases List.mem_pair.mp written with atPrev | atSelf
        · exact outside (atPrev ▸ family.prev_mem member)
        · exact same (LinkRef.node.inj atSelf)
      · intro place written
        rw [List.mem_singleton]
        rintro rfl
        rcases List.mem_pair.mp written with atNext | atSelf
        · exact outside (atNext ▸ family.next_mem member)
        · exact same (LinkRef.node.inj atSelf)
    · rw [bypass_of_loop selfAlone.path.1 selfAlone.path.2]
      exact alone.loop_other same

end

end Links

end SimpleDfs.Library
