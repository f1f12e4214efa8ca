import SimpleDfs.Common.SHash
import SimpleDfs.Library.SlotMap

/-!
Contract: how the nodes of a hash table are linked.

Owns: `Shape`, a free list of exactly the unused nodes and one thread from each
main position through exactly the nodes of its keys; and what each group of
writes of `s_hash_set` and `s_hash_del` does to the shape and to the slots.

Does not own: the order in which the operations make these writes.
-/

set_option autoImplicit false

namespace SimpleDfs.Common

open SimpleDfs.Library

universe u

variable {Value : Type u}

/-- What the node holds. -/
def SHash.slots (H : SHash Value) (index : Nat) : Option (SHashKey × Value) :=
  if index < H.nelemAlloc then (H.key index).map fun key => (key, H.val index) else none

/-- `spare` is a node in reserve: unused, and not on the free list. -/
structure Shape (H : SHash Value) (spare : Option Nat) (free : List Nat)
    (chains : Nat → List Nat) : Prop where
  ring : H.links.IsRing .free (free.map .node)
  free_iff : ∀ index, index ∈ free ↔
    index < H.nelemAlloc ∧ H.key index = none ∧ spare ≠ some index
  walk : ∀ pos, chains pos = [] ∨ H.links.Walk (.node pos) ((chains pos).map .node) .null
  distinct : ∀ pos, (chains pos).Nodup
  chain_iff : ∀ pos index, index ∈ chains pos ↔
    index < H.nelemAlloc ∧ ∃ key, H.key index = some key ∧ mainPos H.nelemAlloc key = pos

theorem mem_map_node {index : Nat} {nodes : List Nat} :
    SLinkPtr.node index ∈ nodes.map .node ↔ index ∈ nodes := by
  simp

section Slots

variable {H : SHash Value} {index : Nat}

theorem slots_of_key {key : SHashKey} (inside : index < H.nelemAlloc)
    (used : H.key index = some key) : H.slots index = some (key, H.val index) := by
  rw [SHash.slots, if_pos inside, used]
  rfl

theorem slots_of_unused (unused : H.key index = none) : H.slots index = none := by
  rw [SHash.slots, unused]
  split <;> rfl

theorem slots_some {key : SHashKey} {value : Value} (holds : H.slots index = some (key, value)) :
    index < H.nelemAlloc ∧ H.key index = some key ∧ H.val index = value := by
  rw [SHash.slots] at holds
  split at holds
  · rename_i inside
    cases used : H.key index with
    | none =>
        rw [used] at holds
        cases holds
    | some held =>
        rw [used] at holds
        cases holds
        exact ⟨inside, rfl, rfl⟩
  · cases holds

/-- A key written to a node shows up in its slot. -/
theorem slots_setKey (inside : index < H.nelemAlloc) (key : SHashKey) (links : Links SLinkPtr) :
    ({ H with links := links, key := Function.update H.key index (some key) } : SHash Value).slots =
      Function.update H.slots index (some (key, H.val index)) := by
  funext other
  by_cases same : other = index
  · subst same
    rw [Function.update_self]
    exact slots_of_key inside (Function.update_self other (some key) H.key)
  · simp [SHash.slots, Function.update_of_ne same]

/-- Clearing the key of a node clears its slot. -/
theorem slots_clearKey (links : Links SLinkPtr) :
    ({ H with links := links, key := Function.update H.key index none } : SHash Value).slots =
      Function.update H.slots index none := by
  funext other
  by_cases same : other = index
  · subst same
    rw [Function.update_self]
    exact slots_of_unused (Function.update_self other none H.key)
  · simp [SHash.slots, Function.update_of_ne same]

theorem slots_writeVal {key : SHashKey} (inside : index < H.nelemAlloc)
    (used : H.key index = some key) (value : Value) :
    (writeVal H index value).slots = Function.update H.slots index (some (key, value)) := by
  funext other
  by_cases same : other = index
  · subst same
    simp [SHash.slots, writeVal, inside, used]
  · simp [SHash.slots, writeVal, Function.update_of_ne same]

/-- Copying a node and clearing the original moves its slot. -/
theorem slots_copyNode {target source : Nat} (targetInside : target < H.nelemAlloc)
    (sourceInside : source < H.nelemAlloc) (links : Links SLinkPtr) :
    ({ copyNode H target source with
        links := links
        key := Function.update (copyNode H target source).key source none } : SHash Value).slots =
      Function.update (Function.update H.slots target (H.slots source)) source none := by
  funext other
  by_cases atSource : other = source
  · subst atSource
    rw [Function.update_self]
    apply slots_of_unused
    simp
  · rw [Function.update_of_ne atSource]
    by_cases atTarget : other = target
    · subst atTarget
      simp [SHash.slots, copyNode, Function.update_of_ne atSource, targetInside, sourceInside]
    · simp [SHash.slots, copyNode, Function.update_of_ne atSource, Function.update_of_ne atTarget]

end Slots

namespace Shape

variable {H : SHash Value} {spare : Option Nat} {free : List Nat} {chains : Nat → List Nat}

theorem used_of_chain (shape : Shape H spare free chains) {pos index : Nat}
    (member : index ∈ chains pos) : index < H.nelemAlloc ∧ H.key index ≠ none := by
  obtain ⟨inside, key, used, _⟩ := (shape.chain_iff pos index).mp member
  refine ⟨inside, ?_⟩
  rw [used]
  exact Option.some_ne_none key

theorem not_free_of_chain (shape : Shape H spare free chains) {pos index : Nat}
    (member : index ∈ chains pos) : index ∉ free := fun listed =>
  (shape.used_of_chain member).2 ((shape.free_iff index).mp listed).2.1

/-- An unused node is on no chain. -/
theorem not_chain_of_unused (shape : Shape H spare free chains) {index : Nat}
    (unused : H.key index = none) (pos : Nat) : index ∉ chains pos := fun member =>
  (shape.used_of_chain member).2 unused

/-- A node is on the chain of one main position. -/
theorem chain_unique (shape : Shape H spare free chains) {first second index : Nat}
    (inFirst : index ∈ chains first) (inSecond : index ∈ chains second) : first = second := by
  obtain ⟨_, key, used, main⟩ := (shape.chain_iff first index).mp inFirst
  obtain ⟨_, other, used', main'⟩ := (shape.chain_iff second index).mp inSecond
  rw [used] at used'
  cases used'
  exact main.symm.trans main'

/-- A chain begins at its main position. -/
theorem head_eq (shape : Shape H spare free chains) {pos first : Nat} {rest : List Nat}
    (chain : chains pos = first :: rest) : first = pos := by
  rcases shape.walk pos with empty | walk
  · rw [empty] at chain
    cases chain
  · rw [chain] at walk
    injection walk.1 with same
    exact same.symm

theorem walk_of_chain (shape : Shape H spare free chains) {pos index : Nat}
    (member : index ∈ chains pos) :
    H.links.Walk (.node pos) ((chains pos).map .node) .null := by
  rcases shape.walk pos with empty | walk
  · rw [empty] at member
    cases member
  · exact walk

theorem free_nodup (shape : Shape H spare free chains) : free.Nodup :=
  (List.nodup_cons.mp shape.ring.distinct).2.of_map

/-- The walks need the `next` of the nodes in use only. -/
theorem walk_congr (shape : Shape H spare free chains) {links : Links SLinkPtr}
    (same : ∀ index, index < H.nelemAlloc → H.key index ≠ none →
      links.next (.node index) = H.links.next (.node index)) (pos : Nat) :
    chains pos = [] ∨ links.Walk (.node pos) ((chains pos).map .node) .null := by
  rcases shape.walk pos with empty | walk
  · exact Or.inl empty
  · refine Or.inr (walk.congr ?_)
    intro node member
    obtain ⟨index, listed, rfl⟩ := List.mem_map.mp member
    have used := shape.used_of_chain listed
    exact same index used.1 used.2

/-- Take a node off the free list. -/
theorem takeOff {front back : List Nat} {index : Nat}
    (shape : Shape H none (front ++ index :: back) chains) :
    Shape { H with links := sListDel H.links (.node index) } (some index) (front ++ back)
      chains where
  ring := by
    have ring := shape.ring
    rw [List.map_append, List.map_cons] at ring
    rw [List.map_append]
    exact (isRing_sListDel ring).1
  free_iff := by
    intro other
    have once := shape.free_nodup
    have listed := shape.free_iff other
    simp only [List.mem_append, List.mem_cons] at listed ⊢
    simp only [List.nodup_append, List.nodup_cons, List.mem_cons] at once
    grind
  walk := by
    apply shape.walk_congr
    intro other _ used
    have ring := shape.ring
    have apart : SLinkPtr.node other ∉
        SLinkPtr.free :: (front ++ index :: back).map SLinkPtr.node := by
      simp only [List.mem_cons, reduceCtorEq, false_or]
      rw [mem_map_node]
      exact fun listed => used ((shape.free_iff other).mp listed).2.1
    rw [List.map_append, List.map_cons] at ring apart
    exact sListDel_next ring apart
  distinct := shape.distinct
  chain_iff := shape.chain_iff

/-- Put the spare node back on the free list. -/
theorem giveBack {index : Nat} (shape : Shape H (some index) free chains)
    (inside : index < H.nelemAlloc) (unused : H.key index = none) :
    Shape { H with links := sListInsert H.links .free (.node index) } none (index :: free)
      chains where
  ring := by
    apply isRing_sListInsert shape.ring
    simp only [List.mem_cons, reduceCtorEq, false_or]
    rw [mem_map_node, shape.free_iff]
    simp
  free_iff := by
    intro other
    rw [List.mem_cons, shape.free_iff]
    grind
  walk := by
    apply shape.walk_congr
    intro other _ used
    apply sListInsert_next
    · simp
    · rintro same
      injection same with same
      rw [same] at used
      exact used unused
  distinct := shape.distinct
  chain_iff := shape.chain_iff

/-- Let the spare node, at the main position of a key that has no chain, hold
the key. -/
theorem placeAlone {index : Nat} {key : SHashKey} (shape : Shape H (some index) free chains)
    (inside : index < H.nelemAlloc) (unused : H.key index = none)
    (main : mainPos H.nelemAlloc key = index) (empty : chains index = []) :
    Shape { H with
        links := H.links.setNext (.node index) .null
        key := Function.update H.key index (some key) } none free
      (Function.update chains index [index]) where
  ring := by
    apply shape.ring.changed (Links.changedAt_setNext H.links _ _)
    · intro node member
      rw [List.mem_singleton.mp member]
      simp only [List.mem_cons, reduceCtorEq, false_or]
      rw [mem_map_node, shape.free_iff]
      simp
    · intro node member
      cases member
  free_iff := by
    intro other
    rw [shape.free_iff]
    by_cases same : other = index
    · subst same
      simp
    · simp [Function.update_of_ne same, Ne.symm same]
  walk := by
    intro pos
    by_cases same : pos = index
    · subst same
      rw [Function.update_self]
      refine Or.inr ⟨rfl, ?_⟩
      rw [Links.setNext_next, if_pos rfl]
      rfl
    · rw [Function.update_of_ne same]
      rcases shape.walk pos with gone | walk
      · exact Or.inl gone
      · refine Or.inr (walk.setNext ?_)
        rw [mem_map_node]
        exact shape.not_chain_of_unused unused pos
  distinct := by
    intro pos
    by_cases same : pos = index
    · subst same
      rw [Function.update_self]
      exact List.nodup_singleton pos
    · rw [Function.update_of_ne same]
      exact shape.distinct pos
  chain_iff := by
    intro pos other
    have listed := shape.chain_iff pos other
    by_cases atPos : pos = index
    · subst atPos
      rw [empty] at listed
      rw [Function.update_self, List.mem_singleton]
      by_cases same : other = pos
      · subst same
        simp [inside, main]
      · simp only [Function.update_of_ne same, ← listed]
        simp [same]
    · rw [Function.update_of_ne atPos, listed]
      by_cases same : other = index
      · subst same
        simp [unused, main, Ne.symm atPos]
      · simp [Function.update_of_ne same]

/-- The spare node is on no chain and not on the free list. -/
theorem spare_apart {index : Nat} (shape : Shape H (some index) free chains)
    (unused : H.key index = none) : index ∉ free ∧ ∀ pos, index ∉ chains pos := by
  refine ⟨?_, shape.not_chain_of_unused unused⟩
  rw [shape.free_iff]
  exact fun listed => listed.2.2 rfl

/-- Writes to the `next` of nodes that are not free, and to the `prev` of the
spare node, leave the free list. -/
theorem ring_changed (shape : Shape H spare free chains) {links : Links SLinkPtr}
    {nexts prevs : List Nat}
    (change : H.links.ChangedAt links (nexts.map .node) (prevs.map .node))
    (apartNext : ∀ index ∈ nexts, index ∉ free) (apartPrev : ∀ index ∈ prevs, index ∉ free) :
    links.IsRing .free (free.map .node) := by
  apply shape.ring.changed change
  · intro node member
    obtain ⟨index, listed, rfl⟩ := List.mem_map.mp member
    simpa using apartNext index listed
  · intro node member
    obtain ⟨index, listed, rfl⟩ := List.mem_map.mp member
    simpa using apartPrev index listed

/-- Let the spare node hold the key and link it in behind the main position. -/
theorem placeBehind {index pos : Nat} {key : SHashKey} {rest : List Nat}
    (shape : Shape H (some index) free chains) (inside : index < H.nelemAlloc)
    (unused : H.key index = none) (chain : chains pos = pos :: rest)
    (main : mainPos H.nelemAlloc key = pos) :
    Shape { H with
        links := (H.links.setNext (.node index) (H.links.next (.node pos))).setNext (.node pos)
          (.node index)
        key := Function.update H.key index (some key) } none free
      (Function.update chains pos (pos :: index :: rest)) := by
  have apart := shape.spare_apart unused
  have outside : index ∉ pos :: rest := chain ▸ apart.2 pos
  have notPos : index ≠ pos := fun same => outside (same ▸ List.mem_cons_self)
  have atPos : pos ∈ chains pos := chain ▸ List.mem_cons_self
  constructor
  · have change : H.links.ChangedAt ((H.links.setNext (.node index)
        (H.links.next (.node pos))).setNext (.node pos) (.node index))
        ([index, pos].map .node) (([] : List Nat).map .node) := by
      constructor
      · intro node listed
        simp only [List.map_cons, List.map_nil, List.mem_cons, List.not_mem_nil, or_false,
          not_or] at listed
        rw [Links.setNext_next, if_neg listed.2, Links.setNext_next, if_neg listed.1]
      · intro node _
        rfl
    apply shape.ring_changed change
    · have posUsed := shape.not_free_of_chain atPos
      simp [apart.1, posUsed]
    · simp
  · intro other
    rw [shape.free_iff]
    by_cases same : other = index
    · subst same
      simp
    · simp [Function.update_of_ne same, Ne.symm same]
  · intro other
    by_cases same : other = pos
    · subst same
      have walk := shape.walk_of_chain atPos
      rw [chain] at walk
      rw [Function.update_self]
      refine Or.inr ⟨rfl, ?_⟩
      rw [Links.setNext_next, if_pos rfl]
      refine ⟨rfl, ?_⟩
      rw [Links.setNext_next, if_neg (by simpa using notPos), Links.setNext_next, if_pos rfl]
      have notAgain : other ∉ rest := by
        have once := shape.distinct other
        rw [chain] at once
        exact (List.nodup_cons.mp once).1
      apply Links.Walk.setNext
      · apply Links.Walk.setNext walk.2
        rw [mem_map_node]
        exact fun member => outside (List.mem_cons_of_mem other member)
      · rw [mem_map_node]
        exact notAgain
    · rw [Function.update_of_ne same]
      rcases shape.walk other with empty | walk
      · exact Or.inl empty
      · refine Or.inr (Links.Walk.setNext (Links.Walk.setNext walk ?_) ?_)
        · rw [mem_map_node]
          exact apart.2 other
        · rw [mem_map_node]
          exact fun member => same (shape.chain_unique member atPos)
  · intro other
    by_cases same : other = pos
    · subst same
      have once := shape.distinct other
      rw [chain] at once
      rw [Function.update_self]
      grind
    · rw [Function.update_of_ne same]
      exact shape.distinct other
  · intro place other
    have listed := shape.chain_iff place other
    by_cases atPlace : place = pos
    · subst atPlace
      rw [chain] at listed
      rw [Function.update_self]
      by_cases same : other = index
      · subst same
        simp [inside, main]
      · simp only [Function.update_of_ne same, ← listed]
        simp [same]
    · rw [Function.update_of_ne atPlace, listed]
      by_cases same : other = index
      · subst same
        simp [unused, main, Ne.symm atPlace]
      · simp [Function.update_of_ne same]

/-- Move a node of a chain, not its first, to the spare node. -/
theorem relocate {target source before pos : Nat} {front back : List Nat}
    (shape : Shape H (some target) free chains) (inside : target < H.nelemAlloc)
    (unused : H.key target = none) (chain : chains pos = front ++ before :: source :: back) :
    Shape { copyNode H target source with
        links := (copyNode H target source).links.setNext (.node before) (.node target)
        key := Function.update (copyNode H target source).key source none } (some source) free
      (Function.update chains pos (front ++ before :: target :: back)) := by
  have apart := shape.spare_apart unused
  have sourceMember : source ∈ chains pos := by simp [chain]
  have beforeMember : before ∈ chains pos := by simp [chain]
  have outside : target ∉ front ++ before :: source :: back := chain ▸ apart.2 pos
  have once := shape.distinct pos
  rw [chain] at once
  simp only [List.nodup_append, List.nodup_cons, List.mem_cons] at once
  simp only [List.mem_append, List.mem_cons, not_or] at outside
  have next : ∀ other, ((copyNode H target source).links.setNext (.node before)
      (.node target)).next other =
        if other = .node before then .node target
        else if other = .node target then H.links.next (.node source) else H.links.next other := by
    intro other
    simp only [Links.setNext_next, copyNode, Links.setPrev_next]
  constructor
  · have change : H.links.ChangedAt ((copyNode H target source).links.setNext (.node before)
        (.node target)) ([before, target].map .node) ([target].map .node) := by
      constructor
      · intro node listed
        simp only [List.map_cons, List.map_nil, List.mem_cons, List.not_mem_nil, or_false,
          not_or] at listed
        rw [next, if_neg listed.1, if_neg listed.2]
      · intro node listed
        simp only [List.map_cons, List.map_nil, List.mem_cons, List.not_mem_nil, or_false]
          at listed
        simp [copyNode, Links.setPrev_prev, listed]
    apply shape.ring_changed change
    · have beforeUsed := shape.not_free_of_chain beforeMember
      simp [apart.1, beforeUsed]
    · simp [apart.1]
  · intro other
    have sourceUsed := (shape.used_of_chain sourceMember).2
    rw [shape.free_iff]
    by_cases atSource : other = source
    · subst atSource
      simp [sourceUsed]
    · by_cases atTarget : other = target
      · subst atTarget
        simp [Function.update_of_ne atSource, copyNode, sourceUsed]
      · simp [Function.update_of_ne atSource, copyNode, Function.update_of_ne atTarget,
          Ne.symm atTarget, Ne.symm atSource]
  · intro other
    by_cases same : other = pos
    · subst same
      have walk := shape.walk_of_chain sourceMember
      rw [chain, List.map_append, List.map_cons, List.map_cons, Links.walk_append] at walk
      obtain ⟨middle, toBefore, atBefore, atSource, onward⟩ := walk
      rw [Function.update_self, List.map_append, List.map_cons, List.map_cons, Links.walk_append]
      refine Or.inr ⟨middle, ?_, atBefore, ?_⟩
      · apply toBefore.congr
        intro node member
        obtain ⟨index, listed, rfl⟩ := List.mem_map.mp member
        rw [next]
        grind
      · rw [next, if_pos rfl]
        refine ⟨rfl, ?_⟩
        rw [next, if_neg (by simpa using Ne.symm (Ne.symm outside.2.1)), if_pos rfl]
        apply onward.congr
        intro node member
        obtain ⟨index, listed, rfl⟩ := List.mem_map.mp member
        rw [next]
        grind
    · rw [Function.update_of_ne same]
      rcases shape.walk other with empty | walk
      · exact Or.inl empty
      · refine Or.inr (walk.congr ?_)
        intro node member
        obtain ⟨index, listed, rfl⟩ := List.mem_map.mp member
        have notBefore : index ≠ before := fun equal =>
          same (shape.chain_unique (equal ▸ listed) beforeMember)
        have notTarget : index ≠ target := fun equal => apart.2 other (equal ▸ listed)
        rw [next, if_neg (by simpa using notBefore), if_neg (by simpa using notTarget)]
  · intro other
    by_cases same : other = pos
    · subst same
      rw [Function.update_self]
      simp only [List.nodup_append, List.nodup_cons, List.mem_cons]
      grind
    · rw [Function.update_of_ne same]
      exact shape.distinct other
  · intro place other
    have listed := shape.chain_iff place other
    have sourceListed := shape.chain_iff place source
    by_cases atSource : other = source
    · subst atSource
      by_cases atPlace : place = pos
      · subst atPlace
        rw [Function.update_self]
        simp
        grind
      · rw [Function.update_of_ne atPlace]
        have absent : other ∉ chains place := fun member =>
          atPlace (shape.chain_unique member sourceMember)
        simp [absent]
    · by_cases atTarget : other = target
      · subst atTarget
        simp only [Function.update_of_ne atSource, copyNode, Function.update_self]
        by_cases atPlace : place = pos
        · subst atPlace
          have sourceKey := (sourceListed.mp sourceMember).2
          simp [inside, sourceKey]
        · have notHere : source ∉ chains place := fun member =>
            atPlace (shape.chain_unique member sourceMember)
          rw [sourceListed] at notHere
          have sourceInside := (shape.used_of_chain sourceMember).1
          rw [Function.update_of_ne atPlace]
          simp only [apart.2 place, inside, true_and, false_iff]
          exact fun held => notHere ⟨sourceInside, held⟩
      · simp only [Function.update_of_ne atSource, copyNode, Function.update_of_ne atTarget,
          ← listed]
        by_cases atPlace : place = pos
        · subst atPlace
          rw [Function.update_self, chain]
          simp [atSource, atTarget]
        · rw [Function.update_of_ne atPlace]

/-- Let the node before one of a chain skip it, and clear its key. -/
theorem dropBehind {index before pos : Nat} {front back : List Nat}
    (shape : Shape H none free chains) (chain : chains pos = front ++ before :: index :: back) :
    Shape { H with
        links := H.links.setNext (.node before) (H.links.next (.node index))
        key := Function.update H.key index none } (some index) free
      (Function.update chains pos (front ++ before :: back)) := by
  have member : index ∈ chains pos := by simp [chain]
  have beforeMember : before ∈ chains pos := by simp [chain]
  have once := shape.distinct pos
  rw [chain] at once
  simp only [List.nodup_append, List.nodup_cons, List.mem_cons] at once
  have used := shape.used_of_chain member
  constructor
  · have change : H.links.ChangedAt (H.links.setNext (.node before)
        (H.links.next (.node index))) ([before].map .node) (([] : List Nat).map .node) :=
      Links.changedAt_setNext H.links (.node before) _
    apply shape.ring_changed change
    · simpa using shape.not_free_of_chain beforeMember
    · simp
  · intro other
    rw [shape.free_iff]
    by_cases same : other = index
    · subst same
      simp [used.2]
    · simp [Function.update_of_ne same, Ne.symm same]
  · intro other
    by_cases same : other = pos
    · subst same
      have walk := shape.walk_of_chain member
      rw [chain, List.map_append, List.map_cons, List.map_cons] at walk
      rw [Function.update_self, List.map_append, List.map_cons]
      refine Or.inr (walk.redirect ?_ ?_)
      · rw [mem_map_node]
        grind
      · rw [Links.walk_append] at walk
        obtain ⟨_, _, _, _, onward⟩ := walk
        apply onward.setNext
        rw [mem_map_node]
        grind
    · rw [Function.update_of_ne same]
      rcases shape.walk other with empty | walk
      · exact Or.inl empty
      · refine Or.inr (walk.setNext ?_)
        rw [mem_map_node]
        exact fun listed => same (shape.chain_unique listed beforeMember)
  · intro other
    by_cases same : other = pos
    · subst same
      rw [Function.update_self]
      simp only [List.nodup_append, List.nodup_cons, List.mem_cons]
      grind
    · rw [Function.update_of_ne same]
      exact shape.distinct other
  · intro place other
    have listed := shape.chain_iff place other
    by_cases same : other = index
    · subst same
      have gone : other ∉ Function.update chains pos (front ++ before :: back) place := by
        by_cases atPlace : place = pos
        · subst atPlace
          rw [Function.update_self]
          simp only [List.mem_append, List.mem_cons]
          grind
        · rw [Function.update_of_ne atPlace]
          exact fun inside => atPlace (shape.chain_unique inside member)
      simp [gone]
    · simp only [Function.update_of_ne same, ← listed]
      by_cases atPlace : place = pos
      · subst atPlace
        rw [Function.update_self, chain]
        simp [same]
      · rw [Function.update_of_ne atPlace]

/-- Clear the key of the only node of a chain. -/
theorem dropAlone {pos : Nat} (shape : Shape H none free chains) (chain : chains pos = [pos]) :
    Shape { H with key := Function.update H.key pos none } (some pos) free
      (Function.update chains pos []) := by
  have member : pos ∈ chains pos := by simp [chain]
  have used := shape.used_of_chain member
  constructor
  · exact shape.ring
  · intro other
    rw [shape.free_iff]
    by_cases same : other = pos
    · subst same
      simp [used.2]
    · simp [Function.update_of_ne same, Ne.symm same]
  · intro other
    by_cases same : other = pos
    · subst same
      exact Or.inl (Function.update_self other [] chains)
    · rw [Function.update_of_ne same]
      exact shape.walk other
  · intro other
    by_cases same : other = pos
    · subst same
      rw [Function.update_self]
      exact List.nodup_nil
    · rw [Function.update_of_ne same]
      exact shape.distinct other
  · intro place other
    have listed := shape.chain_iff place other
    by_cases same : other = pos
    · subst same
      by_cases atPlace : place = other
      · subst atPlace
        simp
      · have gone : other ∉ chains place := fun inside =>
          atPlace (shape.chain_unique inside member)
        simp [Function.update_of_ne atPlace, gone]
    · simp only [Function.update_of_ne same, ← listed]
      by_cases atPlace : place = pos
      · subst atPlace
        rw [Function.update_self, chain]
        simp [same]
      · rw [Function.update_of_ne atPlace]

/-- Copy the second node of a chain over the first, and clear its key. -/
theorem copyBack {pos after : Nat} {rest : List Nat} (shape : Shape H none free chains)
    (chain : chains pos = pos :: after :: rest) :
    Shape { copyNode H pos after with
        key := Function.update (copyNode H pos after).key after none } (some after) free
      (Function.update chains pos (pos :: rest)) := by
  have posMember : pos ∈ chains pos := by simp [chain]
  have member : after ∈ chains pos := by simp [chain]
  have once := shape.distinct pos
  rw [chain] at once
  simp only [List.nodup_cons, List.mem_cons] at once
  have posUsed := shape.used_of_chain posMember
  have used := shape.used_of_chain member
  have afterKey := ((shape.chain_iff pos after).mp member).2
  have apart : pos ≠ after := by grind
  have next : ∀ other, (copyNode H pos after).links.next other =
      if other = .node pos then H.links.next (.node after) else H.links.next other := by
    intro other
    simp only [Links.setNext_next, copyNode, Links.setPrev_next]
  constructor
  · have change : H.links.ChangedAt (copyNode H pos after).links ([pos].map .node)
        ([pos].map .node) := by
      constructor
      · intro node listed
        rw [next, if_neg (by simpa using listed)]
      · intro node listed
        simp only [List.map_cons, List.map_nil, List.mem_cons, List.not_mem_nil, or_false]
          at listed
        simp [copyNode, Links.setPrev_prev, listed]
    apply shape.ring_changed change
    · simpa using shape.not_free_of_chain posMember
    · simpa using shape.not_free_of_chain posMember
  · intro other
    rw [shape.free_iff]
    by_cases atAfter : other = after
    · subst atAfter
      simp [used.2]
    · by_cases atPos : other = pos
      · subst atPos
        simp [Function.update_of_ne atAfter, copyNode, used.2, posUsed.2]
      · simp [Function.update_of_ne atAfter, copyNode, Function.update_of_ne atPos,
          Ne.symm atAfter]
  · intro other
    by_cases same : other = pos
    · subst same
      have walk := shape.walk_of_chain posMember
      rw [chain] at walk
      rw [Function.update_self]
      refine Or.inr ⟨rfl, ?_⟩
      rw [next, if_pos rfl]
      apply walk.2.2.congr
      intro node listed
      obtain ⟨index, inRest, rfl⟩ := List.mem_map.mp listed
      rw [next]
      grind
    · rw [Function.update_of_ne same]
      rcases shape.walk other with empty | walk
      · exact Or.inl empty
      · refine Or.inr (walk.congr ?_)
        intro node listed
        obtain ⟨index, inside, rfl⟩ := List.mem_map.mp listed
        have notPos : index ≠ pos := fun equal =>
          same (shape.chain_unique (equal ▸ inside) posMember)
        rw [next, if_neg (by simpa using notPos)]
  · intro other
    by_cases same : other = pos
    · subst same
      rw [Function.update_self]
      grind
    · rw [Function.update_of_ne same]
      exact shape.distinct other
  · intro place other
    have listed := shape.chain_iff place other
    by_cases atAfter : other = after
    · subst atAfter
      have gone : other ∉ Function.update chains pos (pos :: rest) place := by
        by_cases atPlace : place = pos
        · subst atPlace
          rw [Function.update_self]
          grind
        · rw [Function.update_of_ne atPlace]
          exact fun inside => atPlace (shape.chain_unique inside member)
      simp [gone]
    · by_cases atPos : other = pos
      · subst atPos
        simp only [Function.update_of_ne atAfter, copyNode, Function.update_self]
        by_cases atPlace : place = other
        · subst atPlace
          simp [posUsed.1, afterKey]
        · have notHere : after ∉ chains place := fun inside =>
            atPlace (shape.chain_unique inside member)
          have notPos : other ∉ chains place := fun inside =>
            atPlace (shape.chain_unique inside posMember)
          rw [shape.chain_iff] at notHere
          rw [Function.update_of_ne atPlace]
          simp only [notPos, posUsed.1, true_and, false_iff]
          exact fun held => notHere ⟨used.1, held⟩
      · simp only [Function.update_of_ne atAfter, copyNode, Function.update_of_ne atPos, ← listed]
        by_cases atPlace : place = pos
        · subst atPlace
          rw [Function.update_self, chain]
          simp [atPos, atAfter]
        · rw [Function.update_of_ne atPlace]

end Shape

end SimpleDfs.Common
