import SimpleDfs.Common.SHashPlace

/-!
Contract: the hash table is a finite map.

Owns: the growth of a table, deletion and iteration; and the theorem about any
sequence of operations on a new table.

Does not own: the writes to the nodes, which `SHashShape` follows.
-/

set_option autoImplicit false

namespace SimpleDfs.Common

open SimpleDfs.Library

universe u

variable {Value : Type u}

/-! ## Growth -/

/-- A table that has taken in a key represents the map with whatever is written
to its slot. -/
theorem TakenIn.written {H : SHash Value} {slot nelemAlloc room : Nat} {key : SHashKey}
    {map : SHashKey → Option Value} (taken : TakenIn H slot nelemAlloc room key map)
    (value : Value) : Holds (writeVal H slot value) room (assign iequal map key (some value)) := by
  have written := holds_written taken.2.2 taken.2.1 (iequal_refl key) value
  rw [assign_assign] at written
  exact written

/-- A table without free nodes uses all of them. -/
theorem free_list_empty {H : SHash Value} {map : SHashKey → Option Value}
    (holds : Holds H 0 map) :
    H.links.next .free = .free ∧ ∀ index < H.nelemAlloc, H.key index ≠ none := by
  obtain ⟨free, chains, shape, length⟩ := holds.shape
  have empty := List.length_eq_zero_iff.mp length
  have ring := shape.ring
  rw [empty] at ring
  refine ⟨ring.path.1, ?_⟩
  intro index inside unused
  have listed := (shape.free_iff index).mpr ⟨inside, unused, by simp⟩
  rw [empty] at listed
  cases listed

theorem free_list_first {H : SHash Value} {room : Nat} {map : SHashKey → Option Value}
    (holds : Holds H (room + 1) map) :
    ∃ index, H.links.next .free = .node index := by
  obtain ⟨free, chains, shape, length⟩ := holds.shape
  cases free with
  | nil => cases length
  | cons index rest =>
      have ring := shape.ring
      rw [List.map_cons] at ring
      exact ⟨index, ring.next_head⟩

theorem igetFreeNode_room [Inhabited Value] {H : SHash Value} {room depth : Nat}
    {map : SHashKey → Option Value} (holds : Holds H (room + 1) map) :
    ∃ reserved index, igetFreeNode (depth + 1) H = some (reserved, index) ∧
      reserved.nelemAlloc = H.nelemAlloc ∧ Reserves reserved index room map := by
  obtain ⟨free, chains, shape, length⟩ := holds.shape
  cases free with
  | nil => cases length
  | cons index rest =>
      have first : H.links.next .free = .node index := by
        have ring := shape.ring
        rw [List.map_cons] at ring
        exact ring.next_head
      have listed := (shape.free_iff index).mp List.mem_cons_self
      refine ⟨{ H with links := sListDel H.links (.node index) }, index, ?_, rfl, ?_⟩
      · simp only [igetFreeNode, first]
      · exact ⟨holds.positive, listed.1, listed.2.1,
          ⟨rest, chains, @Shape.takeOff _ _ _ [] rest index shape, Nat.succ.inj length⟩,
          holds.represents⟩

/-- `s_hash_set` over a table with a free node. -/
theorem setWith_room [Inhabited Value] {H : SHash Value} {room depth : Nat}
    {map : SHashKey → Option Value} (holds : Holds H (room + 1) map) (key : SHashKey) :
    ∃ grown slot, setWith (igetFreeNode (depth + 1)) H key = some (grown, slot) ∧
      grown.nelemAlloc = H.nelemAlloc ∧ ∃ left, room ≤ left ∧
        ∀ value, Holds (writeVal grown slot value) left (assign iequal map key (some value)) := by
  rcases sHashGet_spec holds key with ⟨index, held, found, slot, same⟩ | ⟨missing, absent⟩
  · refine ⟨H, index, by simp only [setWith, found], rfl, room + 1, Nat.le_succ room, ?_⟩
    exact fun value => holds_written holds slot same value
  · obtain ⟨reserved, index, taken, size, reserves⟩ := @igetFreeNode_room _ _ _ _ depth _ holds
    obtain ⟨grown, slot, placed, takenIn⟩ := placeKey_spec reserves absent
    refine ⟨grown, slot, ?_, takenIn.1.trans size, room, Nat.le_refl room, takenIn.written⟩
    simp only [setWith, missing, taken, Option.bind_some]
    exact placed

/-- The free list of a new table, in the order of the array from the back. -/
theorem isRing_freeNodes {links : Links SLinkPtr} (ring : links.IsRing .free []) (count : Nat) :
    (freeNodes count links).IsRing .free ((List.range count).reverse.map .node) := by
  induction count with
  | zero => exact ring
  | succ count inductionHypothesis =>
      rw [List.range_succ, List.reverse_append, List.reverse_singleton, List.singleton_append,
        List.map_cons]
      apply isRing_sListInsert inductionHypothesis
      simp

/-- A new table is empty, and all its nodes are free. -/
theorem holds_newNodes [Inhabited Value] {nelemAlloc : Nat} (positive : 0 < nelemAlloc) :
    Holds (newNodes nelemAlloc : SHash Value) nelemAlloc fun _ => none := by
  have shape : Shape (newNodes nelemAlloc : SHash Value) none (List.range nelemAlloc).reverse
      fun _ => [] := by
    constructor
    · exact isRing_freeNodes (isRing_sListInit SLinkPtr.free) nelemAlloc
    · simp [newNodes]
    · exact fun _ => Or.inl rfl
    · exact fun _ => List.nodup_nil
    · simp [newNodes]
  refine ⟨positive, ⟨_, _, shape, by simp⟩, ?_⟩
  have nothing : (newNodes nelemAlloc : SHash Value).slots = fun _ => none := by
    funext index
    exact slots_of_unused rfl
  rw [nothing]
  exact represents_empty

/-- What the slots below `count` hold. -/
def firstSlots (H : SHash Value) (count index : Nat) : Option (SHashKey × Value) :=
  if index < count then H.slots index else none

theorem firstSlots_succ (H : SHash Value) (count : Nat) :
    firstSlots H (count + 1) = Function.update (firstSlots H count) count (H.slots count) := by
  funext index
  by_cases same : index = count
  · subst same
    simp [firstSlots]
  · rw [Function.update_of_ne same]
    simp only [firstSlots]
    split <;> split <;> first | rfl | omega

theorem firstSlots_all (H : SHash Value) : firstSlots H H.nelemAlloc = H.slots := by
  funext index
  by_cases inside : index < H.nelemAlloc
  · rw [firstSlots, if_pos inside]
  · rw [firstSlots, if_neg inside, SHash.slots, if_neg inside]

/-- The first slots of a table represent a map if all of them do. -/
theorem absent_firstSlots {H : SHash Value} {map part : SHashKey → Option Value} {count : Nat}
    {key : SHashKey} {value : Value} (represents : Represents iequal H.slots map)
    (first : Represents iequal (firstSlots H count) part)
    (holds : H.slots count = some (key, value)) : part key = none := by
  rw [first.absent_iff]
  intro index held other atIndex
  rw [firstSlots] at atIndex
  split at atIndex
  · rename_i below
    apply Bool.eq_false_iff.mpr
    intro same
    have only := represents.distinct index count held key other value atIndex holds same
    omega
  · cases atIndex

/-- The growth sets the keys of the old nodes below `count`; a free node is left
for each of the others and more. -/
theorem reinsert_spec [Inhabited Value] {old : SHash Value} {map : SHashKey → Option Value}
    {depth : Nat} (positive : 0 < old.nelemAlloc) (represents : Represents iequal old.slots map)
    {count : Nat} (inside : count ≤ old.nelemAlloc) :
    ∃ grown, reinsert (igetFreeNode (depth + 1)) old count (newNodes (old.nelemAlloc * 2)) =
        some grown ∧ ∃ room part, old.nelemAlloc * 2 ≤ room + count ∧ Holds grown room part ∧
          Represents iequal (firstSlots old count) part := by
  induction count with
  | zero =>
      refine ⟨_, rfl, _, _, Nat.le_refl _, holds_newNodes (by omega), ?_⟩
      have nothing : firstSlots old 0 = fun _ => none := by
        funext index
        rw [firstSlots, if_neg (Nat.not_lt_zero index)]
      rw [nothing]
      exact represents_empty
  | succ count inductionHypothesis =>
      obtain ⟨filled, done, room, part, enough, holds, first⟩ :=
        inductionHypothesis (Nat.le_of_succ_le inside)
      rw [reinsert, done, Option.bind_some]
      rw [firstSlots_succ]
      cases used : old.key count with
      | none =>
          have empty : Function.update (firstSlots old count) count (old.slots count) =
              firstSlots old count := by
            have unused : firstSlots old count count = old.slots count := by
              rw [slots_of_unused used, firstSlots, if_neg (Nat.lt_irrefl count)]
            rw [← unused, Function.update_eq_self]
          rw [empty]
          exact ⟨filled, rfl, room, part, by omega, holds, first⟩
      | some key =>
          have slot := slots_of_key inside used
          have absent := absent_firstSlots represents first slot
          have unused : firstSlots old count count = none := by
            rw [firstSlots, if_neg (Nat.lt_irrefl count)]
          obtain ⟨more, rfl⟩ : ∃ more, room = more + 1 := ⟨room - 1, by omega⟩
          obtain ⟨grown, place, set, size, left, atLeast, written⟩ :=
            @setWith_room _ _ _ _ depth _ holds key
          refine ⟨writeVal grown place (old.val count), ?_, left, _, by omega,
            written (old.val count), ?_⟩
          · dsimp only
            rw [set]
            rfl
          · rw [slot]
            exact first.put iequal_equivalent (old.val count) unused absent

/-- `i_get_free_node` reserves a node, and the table represents the same map. -/
theorem igetFreeNode_spec [Inhabited Value] {H : SHash Value} {room depth : Nat}
    {map : SHashKey → Option Value} (holds : Holds H room map) :
    ∃ reserved index left, igetFreeNode (depth + 2) H = some (reserved, index) ∧
      Reserves reserved index left map := by
  cases room with
  | succ room =>
      obtain ⟨reserved, index, taken, _, reserves⟩ := @igetFreeNode_room _ _ _ _ (depth + 1) _ holds
      exact ⟨reserved, index, room, taken, reserves⟩
  | zero =>
      have full := (free_list_empty holds).1
      obtain ⟨grown, done, room, part, enough, held, first⟩ :=
        @reinsert_spec _ _ _ _ depth holds.positive holds.represents _ (Nat.le_refl _)
      rw [firstSlots_all] at first
      rw [first.unique holds.represents] at held
      have positive := holds.positive
      obtain ⟨more, rfl⟩ : ∃ more, room = more + 1 := ⟨room - 1, by omega⟩
      obtain ⟨reserved, index, taken, _, reserves⟩ := @igetFreeNode_room _ _ _ _ depth _ held
      refine ⟨reserved, index, more, ?_, reserves⟩
      rw [igetFreeNode]
      simp only [full, done, Option.bind_some]
      exact taken

/-- `s_hash_set` returns the slot of the key. -/
theorem sHashSet_spec [Inhabited Value] {H : SHash Value} {room : Nat}
    {map : SHashKey → Option Value} (holds : Holds H room map) (key : SHashKey) :
    ∃ grown slot left, sHashSet H key = some (grown, slot) ∧
      ∀ value, Holds (writeVal grown slot value) left (assign iequal map key (some value)) := by
  rcases sHashGet_spec holds key with ⟨index, held, found, slot, same⟩ | ⟨missing, absent⟩
  · refine ⟨H, index, room, by simp only [sHashSet, setWith, found], ?_⟩
    exact fun value => holds_written holds slot same value
  · obtain ⟨reserved, index, left, taken, reserves⟩ := @igetFreeNode_spec _ _ _ _ 0 _ holds
    obtain ⟨grown, slot, placed, takenIn⟩ := placeKey_spec reserves absent
    refine ⟨grown, slot, left, ?_, takenIn.written⟩
    simp only [sHashSet, setWith, missing, taken, Option.bind_some]
    exact placed

/-! ## Deletion -/

/-- The loop of `s_hash_del` leaves the table if no node of its walk has the
key. -/
theorem delLoop_missing {H : SHash Value} {main : Nat} {key : SHashKey} : ∀ {nodes : List Nat}
    {fuel : Nat} {prev : Option Nat} {first : SLinkPtr},
    H.links.Walk first (nodes.map .node) .null →
      (∀ index ∈ nodes, H.key index ≠ none ∧ holdsKey H key index = false) →
      nodes.length < fuel → delLoop H main key fuel prev first = some H := by
  intro nodes
  induction nodes with
  | nil =>
      intro fuel prev first walk _ enough
      cases fuel with
      | zero => cases enough
      | succ fuel =>
          rw [show first = .null from walk]
          rfl
  | cons head tail inductionHypothesis =>
      intro fuel prev first walk differ enough
      cases fuel with
      | zero => cases enough
      | succ fuel =>
          have atHead := differ head List.mem_cons_self
          rw [walk.1]
          rw [holdsKey] at atHead
          simp only [delLoop]
          cases held : H.key head with
          | none => exact absurd held atHead.1
          | some nodeKey =>
              rw [held] at atHead
              simp only [atHead.2, Bool.false_eq_true, if_false]
              apply inductionHypothesis walk.2
              · exact fun index member => differ index (List.mem_cons_of_mem head member)
              · simpa using enough

/-- The loop of `s_hash_del` arrives at the first node with the key, and has the
node before it at hand. -/
theorem delLoop_reach {H : SHash Value} {main index fuel : Nat} {key : SHashKey}
    {back : List Nat} : ∀ {front : List Nat} {prev : Option Nat} {first : SLinkPtr},
    H.links.Walk first ((front ++ index :: back).map .node) .null →
      (∀ other ∈ front, H.key other ≠ none ∧ holdsKey H key other = false) →
      delLoop H main key (front.length + fuel) prev first =
        delLoop H main key fuel (front.getLast?.or prev) (.node index) := by
  intro front
  induction front with
  | nil =>
      intro prev first walk _
      rw [walk.1]
      simp
  | cons head tail inductionHypothesis =>
      intro prev first walk differ
      have atHead := differ head List.mem_cons_self
      have last : (head :: tail).getLast?.or prev = tail.getLast?.or (some head) := by
        rw [List.getLast?_cons]
        cases tail.getLast? <;> rfl
      rw [walk.1, List.length_cons, Nat.succ_add]
      rw [holdsKey] at atHead
      simp only [delLoop]
      cases held : H.key head with
      | none => exact absurd held atHead.1
      | some nodeKey =>
          rw [held] at atHead
          simp only [atHead.2, Bool.false_eq_true, if_false, last]
          apply inductionHypothesis walk.2
          exact fun other member => differ other (List.mem_cons_of_mem head member)

/-- Take the found node out of its chain and free it, or the second one in its
place. -/
theorem delLoop_found {H : SHash Value} {room index fuel : Nat} {map : SHashKey → Option Value}
    {key : SHashKey} {free front back : List Nat} {chains : Nat → List Nat}
    (holds : Holds H room map) (shape : Shape H none free chains)
    (chain : chains (mainPos H.nelemAlloc key) = front ++ index :: back)
    (here : holdsKey H key index = true) :
    ∃ cleared left, delLoop H (mainPos H.nelemAlloc key) key (fuel + 1) front.getLast?
        (.node index) = some cleared ∧ Holds cleared left (assign iequal map key none) := by
  have member : index ∈ chains (mainPos H.nelemAlloc key) := by simp [chain]
  have inside := (shape.used_of_chain member).1
  obtain ⟨held, slot, same⟩ := slots_of_holdsKey inside here
  obtain ⟨_, used, _⟩ := slots_some slot
  have cleared := holds.represents.clear iequal_equivalent slot
  rw [assign_congr iequal_equivalent same] at cleared
  have walk := shape.walk_of_chain member
  rw [chain, List.map_append, Links.walk_append] at walk
  obtain ⟨_, _, _, onward⟩ := walk
  simp only [delLoop, used, same, if_true]
  rcases List.eq_nil_or_concat front with nothing | ⟨start, before, concat⟩
  · -- the node is the first of its chain
    rw [nothing] at chain ⊢
    have atMain : index = mainPos H.nelemAlloc key := shape.head_eq chain
    rw [← atMain] at chain
    cases back with
    | nil =>
        have next : H.links.next (.node index) = .null := onward
        have dropped := (shape.dropAlone chain).giveBack inside (Function.update_self _ _ _)
        rw [next, ← atMain]
        refine ⟨_, _, rfl, holds.positive, ⟨_, _, dropped, rfl⟩, ?_⟩
        rw [freeNode, slots_clearKey]
        exact cleared
    | cons after rest =>
        have next : H.links.next (.node index) = .node after := onward.1
        have afterMember : after ∈ chains index := by simp [chain]
        have afterInside := (shape.used_of_chain afterMember).1
        have apart : after ≠ index := by
          have once := shape.distinct index
          rw [chain] at once
          rintro rfl
          simp at once
        have dropped := (shape.copyBack chain).giveBack afterInside (Function.update_self _ _ _)
        have moved := @Represents.move _ _ _ _ _ _ _ cleared after index
          (Function.update_self index none H.slots)
        rw [Function.update_idem, Function.update_of_ne apart,
          ← slots_copyNode inside afterInside] at moved
        rw [next, ← atMain]
        exact ⟨_, _, rfl, holds.positive, ⟨_, _, dropped, rfl⟩, moved⟩
  · rw [concat, List.concat_eq_append] at chain ⊢
    rw [List.append_assoc, List.singleton_append] at chain
    have dropped := (shape.dropBehind chain).giveBack inside (Function.update_self _ _ _)
    rw [List.getLast?_append, List.getLast?_singleton, Option.some_or]
    refine ⟨_, _, rfl, holds.positive, ⟨_, _, dropped, rfl⟩, ?_⟩
    rw [freeNode, slots_clearKey]
    exact cleared

/-- `s_hash_del` takes the key out of the map. -/
theorem sHashDel_spec {H : SHash Value} {room : Nat} {map : SHashKey → Option Value}
    (holds : Holds H room map) (key : SHashKey) :
    ∃ cleared left, sHashDel H key = some cleared ∧
      Holds cleared left (assign iequal map key none) := by
  obtain ⟨free, chains, shape, _⟩ := holds.shape
  have unchanged : map key = none → sHashDel H key = some H →
      ∃ cleared left, sHashDel H key = some cleared ∧
        Holds cleared left (assign iequal map key none) := by
    intro absent same
    rw [holds.represents.assign_absent iequal_equivalent absent]
    exact ⟨H, room, same, holds⟩
  rcases shape.searched holds.positive key with ⟨unused, empty⟩ | ⟨rest, chain⟩ |
    ⟨front, back, pos, apart, split, empty⟩
  · apply unchanged (shape.absent holds.represents (by simp [empty]))
    simp only [sHashDel, delLoop, unused]
  · have atMain : mainPos H.nelemAlloc key ∈ chains (mainPos H.nelemAlloc key) :=
      chain ▸ List.mem_cons_self
    have walk := shape.walk_of_chain atMain
    have short := shape.chain_length (mainPos H.nelemAlloc key)
    cases place : (chains (mainPos H.nelemAlloc key)).find? (holdsKey H key) with
    | none =>
        have differ := List.find?_eq_none.mp place
        apply unchanged
        · apply shape.absent holds.represents
          exact fun index member => Bool.eq_false_iff.mpr (differ index member)
        · apply delLoop_missing walk _ (Nat.lt_succ_of_le short)
          exact fun index member =>
            ⟨(shape.used_of_chain member).2, Bool.eq_false_iff.mpr (differ index member)⟩
    | some index =>
        obtain ⟨here, front, back, split, differ⟩ := List.find?_eq_some_iff_append.mp place
        rw [split] at walk short
        have reach := @delLoop_reach _ H (mainPos H.nelemAlloc key) index
          (H.nelemAlloc - front.length + 1) key back front none _ walk
        have fuel : front.length + (H.nelemAlloc - front.length + 1) = H.nelemAlloc + 1 := by
          simp only [List.length_append, List.length_cons] at short
          omega
        rw [fuel, Option.or_none] at reach
        obtain ⟨cleared, left, done, after⟩ := @delLoop_found _ _ _ _
          (H.nelemAlloc - front.length) _ _ _ _ _ _ holds shape split here
        refine ⟨cleared, left, ?_, after⟩
        rw [sHashDel, ← done]
        apply reach
        intro other member
        have inChain : other ∈ chains (mainPos H.nelemAlloc key) :=
          split ▸ List.mem_append_left _ member
        exact ⟨(shape.used_of_chain inChain).2, by simpa using differ other member⟩
  · have member : mainPos H.nelemAlloc key ∈ chains pos := by simp [split]
    have walk := shape.walk_of_chain member
    have short := shape.chain_length pos
    rw [split, List.map_append, Links.walk_append] at walk
    obtain ⟨middle, _, onward⟩ := walk
    rw [List.map_cons, onward.1] at onward
    apply unchanged (shape.absent holds.represents (by simp [empty]))
    apply @delLoop_missing _ _ _ _ (mainPos H.nelemAlloc key :: back) _ _ _ onward
    · intro index listed
      have inChain : index ∈ chains pos := split ▸ List.mem_append_right front listed
      refine ⟨(shape.used_of_chain inChain).2, Bool.eq_false_iff.mpr ?_⟩
      intro here
      have atMain := shape.chain_of_holdsKey (shape.used_of_chain inChain).1 here
      exact apart (shape.chain_unique inChain atMain)
    · rw [split] at short
      simp only [List.length_append, List.length_cons] at short ⊢
      omega

/-! ## Iteration -/

/-- The loop of `s_hash_next` skips the nodes that hold nothing. -/
theorem nextLoop_spec {H : SHash Value} : ∀ {left index : Nat}, index + left = H.nelemAlloc →
    (nextLoop H left index = none ∧ (List.range' index left).filterMap H.slots = []) ∨
      ∃ found key rest, nextLoop H left index = some (found, key) ∧
        found + 1 + rest = H.nelemAlloc ∧ rest < left ∧
        (List.range' index left).filterMap H.slots =
          (key, H.val found) :: (List.range' (found + 1) rest).filterMap H.slots := by
  intro left
  induction left with
  | zero =>
      intro index _
      exact Or.inl ⟨rfl, rfl⟩
  | succ left inductionHypothesis =>
      intro index size
      rw [List.range'_succ, List.filterMap_cons, nextLoop]
      cases used : H.key index with
      | none =>
          rw [slots_of_unused used]
          rcases inductionHypothesis (show index + 1 + left = H.nelemAlloc by omega) with
            ended | ⟨found, key, rest, next, total, fewer, listed⟩
          · exact Or.inl ended
          · exact Or.inr ⟨found, key, rest, next, total, Nat.lt_succ_of_lt fewer, listed⟩
      | some key =>
          rw [slots_of_key (by omega) used]
          exact Or.inr ⟨index, key, left, rfl, by omega, Nat.lt_succ_self left, rfl⟩

/-- The iteration from a node on returns what the nodes from there hold. -/
theorem iterate_from {H : SHash Value} : ∀ {left fuel : Nat} {id : Int} {index : Nat},
    (max 0 id).toNat = index → index + left = H.nelemAlloc → left < fuel →
      iterate H fuel id = some ((List.range' index left).filterMap H.slots) := by
  intro left
  induction left using Nat.strong_induction_on with
  | h left inductionHypothesis =>
      intro fuel id index start size enough
      cases fuel with
      | zero => cases enough
      | succ fuel =>
          have rest : H.nelemAlloc - index = left := by omega
          rw [iterate, sHashNext]
          simp only [start, rest]
          rcases nextLoop_spec size with ⟨ended, listed⟩ | ⟨found, key, more, next, total, fewer, listed⟩
          · rw [ended, listed]
            rfl
          · have onward := @inductionHypothesis more fewer fuel ((found : Int) + 1) (found + 1)
              (by omega) total (by omega)
            rw [next, listed]
            simp only [Option.map_some]
            rw [onward]
            rfl

/-- A full iteration returns what the slots hold, in the order of the array. -/
theorem iterate_all (H : SHash Value) :
    iterate H (H.nelemAlloc + 1) (-1) = some ((List.range H.nelemAlloc).filterMap H.slots) := by
  rw [List.range_eq_range']
  exact iterate_from rfl (Nat.zero_add _) (Nat.lt_succ_self _)

/-! ## Any sequence of operations -/

/-- A call to the table; setting a key includes writing the value to its slot. -/
inductive SHashOp (Value : Type u) where
  | set (key : SHashKey) (value : Value)
  | get (key : SHashKey)
  | del (key : SHashKey)

/-- One call. -/
def runOp [Inhabited Value] (H : SHash Value) : SHashOp Value → Option (SHash Value)
  | .set key value => (sHashSet H key).map fun (grown, slot) => writeVal grown slot value
  | .get key => (sHashGet H key).map fun _ => H
  | .del key => sHashDel H key

/-- What a call means for the map. -/
def mapOp (map : SHashKey → Option Value) : SHashOp Value → SHashKey → Option Value
  | .set key value => assign iequal map key (some value)
  | .get _ => map
  | .del key => assign iequal map key none

/-- The value last written for each key that was set and not deleted since. -/
def contents (ops : List (SHashOp Value)) : SHashKey → Option Value :=
  ops.foldl mapOp fun _ => none

theorem holds_runOp [Inhabited Value] {H : SHash Value} {room : Nat}
    {map : SHashKey → Option Value} (holds : Holds H room map) (op : SHashOp Value) :
    ∃ next left, runOp H op = some next ∧ Holds next left (mapOp map op) := by
  cases op with
  | set key value =>
      obtain ⟨grown, slot, left, set, written⟩ := sHashSet_spec holds key
      refine ⟨writeVal grown slot value, left, ?_, written value⟩
      rw [runOp, set]
      rfl
  | get key =>
      refine ⟨H, room, ?_, holds⟩
      rcases sHashGet_spec holds key with ⟨index, held, found, _⟩ | ⟨missing, _⟩
      · rw [runOp, found]
        rfl
      · rw [runOp, missing]
        rfl
  | del key => exact sHashDel_spec holds key

theorem holds_run [Inhabited Value] (ops : List (SHashOp Value)) : ∀ {H : SHash Value} {room : Nat}
    {map : SHashKey → Option Value}, Holds H room map →
      ∃ final left, ops.foldlM runOp H = some final ∧ Holds final left (ops.foldl mapOp map) := by
  induction ops with
  | nil =>
      intro H room map holds
      exact ⟨H, room, rfl, holds⟩
  | cons op rest inductionHypothesis =>
      intro H room map holds
      obtain ⟨next, left, step, after⟩ := holds_runOp holds op
      obtain ⟨final, last, run, done⟩ := inductionHypothesis after
      refine ⟨final, last, ?_, done⟩
      rw [List.foldlM_cons, step]
      exact run

/-- Seventeen keys with one main position in a table for sixteen: the table
grows, and a key in the middle of its chain is deleted again. -/
example :
    let key : Nat → SHashKey := fun index => .voidp (UInt64.ofNat (64 * index))
    let ops := (List.range 17).map (fun index => SHashOp.set (key index) index) ++ [.del (key 3)]
    ((ops.foldlM runOp (sHashCreate 0)).bind fun H =>
      (iterate H (H.nelemAlloc + 1) (-1)).map fun visited => visited.map Prod.snd) =
        some [0, 16, 1, 2, 4, 5, 6, 7, 8, 9, 10, 11, 12, 13, 14, 15] := by
  decide +kernel

end SimpleDfs.Common
