import Mathlib.Data.List.Perm.Subperm
import SimpleDfs.Common.SHashShape

/-!
Contract: looking a key up in a hash table and putting a new one in.

Owns: `Holds`, a table of good shape that represents a map; what `s_hash_get`
finds; and that the three ways `s_hash_set` places a key add it to the map.

Does not own: how a table grows, or deletion and iteration.
-/

set_option autoImplicit false

namespace SimpleDfs.Common

open SimpleDfs.Library

universe u

variable {Value : Type u}

theorem iequal_equivalent : Equivalent iequal where
  refl := iequal_refl
  symm := iequal_symm
  trans := iequal_trans

/-- The table has `room` free nodes and represents the map. -/
structure Holds (H : SHash Value) (room : Nat) (map : SHashKey → Option Value) : Prop where
  positive : 0 < H.nelemAlloc
  shape : ∃ free chains, Shape H none free chains ∧ free.length = room
  represents : Represents iequal H.slots map

/-- The same with a node in reserve. -/
structure Reserves (H : SHash Value) (index room : Nat) (map : SHashKey → Option Value) :
    Prop where
  positive : 0 < H.nelemAlloc
  inside : index < H.nelemAlloc
  unused : H.key index = none
  shape : ∃ free chains, Shape H (some index) free chains ∧ free.length = room
  represents : Represents iequal H.slots map

/-- The node holds a key equal to the given one. -/
def holdsKey (H : SHash Value) (key : SHashKey) (index : Nat) : Bool :=
  match H.key index with
  | some held => iequal held key
  | none => false

theorem mainPos_lt {nelemAlloc : Nat} (positive : 0 < nelemAlloc) (key : SHashKey) :
    mainPos nelemAlloc key < nelemAlloc :=
  Nat.mod_lt _ positive

theorem mainPos_of_iequal {key other : SHashKey} (nelemAlloc : Nat)
    (equal : iequal key other = true) : mainPos nelemAlloc key = mainPos nelemAlloc other := by
  rw [mainPos, mainPos, igetHash_of_iequal equal]

theorem Shape.chain_length {H : SHash Value} {spare : Option Nat} {free : List Nat}
    {chains : Nat → List Nat} (shape : Shape H spare free chains) (pos : Nat) :
    (chains pos).length ≤ H.nelemAlloc := by
  have inside : chains pos ⊆ List.range H.nelemAlloc := fun index member =>
    List.mem_range.mpr (shape.used_of_chain member).1
  have shorter := ((shape.distinct pos).subperm inside).length_le
  rwa [List.length_range] at shorter

/-! ## Lookup -/

/-- The loop of `s_hash_get` finds the first node of its walk with the key. -/
theorem getLoop_walk {H : SHash Value} {key : SHashKey} : ∀ {nodes : List Nat} {fuel : Nat}
    {first : SLinkPtr}, H.links.Walk first (nodes.map .node) .null →
      (∀ index ∈ nodes, H.key index ≠ none) → nodes.length < fuel →
      getLoop H key fuel first = some (nodes.find? (holdsKey H key)) := by
  intro nodes
  induction nodes with
  | nil =>
      intro fuel first walk _ enough
      cases fuel with
      | zero => cases enough
      | succ fuel =>
          rw [show first = .null from walk]
          rfl
  | cons head tail inductionHypothesis =>
      intro fuel first walk used enough
      cases fuel with
      | zero => cases enough
      | succ fuel =>
          rw [walk.1]
          simp only [getLoop, List.find?_cons, holdsKey]
          cases held : H.key head with
          | none => exact absurd held (used head List.mem_cons_self)
          | some nodeKey =>
              dsimp only
              cases same : iequal nodeKey key with
              | true => rfl
              | false =>
                  rw [if_neg Bool.false_ne_true]
                  apply inductionHypothesis walk.2
                  · exact fun index member => used index (List.mem_cons_of_mem head member)
                  · simpa using enough

/-- A node with the key is on the chain of the main position. -/
theorem Shape.chain_of_holdsKey {H : SHash Value} {spare : Option Nat} {free : List Nat}
    {chains : Nat → List Nat} (shape : Shape H spare free chains) {key : SHashKey} {index : Nat}
    (inside : index < H.nelemAlloc) (holds : holdsKey H key index = true) :
    index ∈ chains (mainPos H.nelemAlloc key) := by
  rw [holdsKey] at holds
  rw [shape.chain_iff]
  cases held : H.key index with
  | none =>
      rw [held] at holds
      cases holds
  | some nodeKey =>
      rw [held] at holds
      exact ⟨inside, nodeKey, rfl, mainPos_of_iequal H.nelemAlloc holds⟩

/-- The nodes that a search for the key passes: the chain of its main position,
or the end of another chain that runs through it. -/
theorem Shape.searched {H : SHash Value} {free : List Nat} {chains : Nat → List Nat}
    (shape : Shape H none free chains) (positive : 0 < H.nelemAlloc) (key : SHashKey) :
    (H.key (mainPos H.nelemAlloc key) = none ∧ chains (mainPos H.nelemAlloc key) = []) ∨
      (∃ rest, chains (mainPos H.nelemAlloc key) = mainPos H.nelemAlloc key :: rest) ∨
      ∃ front back pos, pos ≠ mainPos H.nelemAlloc key ∧
        chains pos = front ++ mainPos H.nelemAlloc key :: back ∧
        chains (mainPos H.nelemAlloc key) = [] := by
  have inside := mainPos_lt positive key
  generalize mainPos H.nelemAlloc key = main at *
  have headOf : chains main = [] ∨ ∃ rest, chains main = main :: rest := by
    cases chain : chains main with
    | nil => exact Or.inl rfl
    | cons first rest => exact Or.inr ⟨rest, by rw [shape.head_eq chain]⟩
  cases held : H.key main with
  | none =>
      rcases headOf with empty | ⟨rest, chain⟩
      · exact Or.inl ⟨rfl, empty⟩
      · exact absurd (chain ▸ List.mem_cons_self) (shape.not_chain_of_unused held main)
  | some nodeKey =>
      have member := (shape.chain_iff (mainPos H.nelemAlloc nodeKey) main).mpr
        ⟨inside, nodeKey, held, rfl⟩
      rcases headOf with empty | nonempty
      · obtain ⟨front, back, split⟩ := List.append_of_mem member
        refine Or.inr (Or.inr ⟨front, back, _, ?_, split, empty⟩)
        intro same
        rw [same, empty] at member
        cases member
      · exact Or.inr (Or.inl nonempty)

/-- No node holds the key if no node of its chain does. -/
theorem Shape.absent {H : SHash Value} {spare : Option Nat} {free : List Nat}
    {chains : Nat → List Nat} (shape : Shape H spare free chains) {map : SHashKey → Option Value}
    (represents : Represents iequal H.slots map) {key : SHashKey}
    (missing : ∀ index ∈ chains (mainPos H.nelemAlloc key), holdsKey H key index = false) :
    map key = none := by
  rw [represents.absent_iff]
  intro index held value holds
  obtain ⟨inside, used, _⟩ := slots_some holds
  apply Bool.eq_false_iff.mpr
  intro same
  have here : holdsKey H key index = true := by rw [holdsKey, used]; exact same
  rw [missing index (shape.chain_of_holdsKey inside here)] at here
  cases here

theorem slots_of_holdsKey {H : SHash Value} {key : SHashKey} {index : Nat}
    (inside : index < H.nelemAlloc) (holds : holdsKey H key index = true) :
    ∃ held, H.slots index = some (held, H.val index) ∧ iequal held key = true := by
  rw [holdsKey] at holds
  cases used : H.key index with
  | none =>
      rw [used] at holds
      cases holds
  | some held =>
      rw [used] at holds
      exact ⟨held, slots_of_key inside used, holds⟩

/-- `s_hash_get` returns the node of the key, or none if the map has none. -/
theorem sHashGet_spec {H : SHash Value} {room : Nat} {map : SHashKey → Option Value}
    (holds : Holds H room map) (key : SHashKey) :
    (∃ index held, sHashGet H key = some (some index) ∧
        H.slots index = some (held, H.val index) ∧ iequal held key = true) ∨
      (sHashGet H key = some none ∧ map key = none) := by
  obtain ⟨free, chains, shape, _⟩ := holds.shape
  have searched : ∀ {nodes : List Nat} {pos : Nat}, nodes ⊆ chains pos →
      nodes.length ≤ (chains pos).length →
      H.links.Walk (.node (mainPos H.nelemAlloc key)) (nodes.map .node) .null →
      sHashGet H key = some (nodes.find? (holdsKey H key)) := by
    intro nodes pos part shorter walk
    apply getLoop_walk walk
    · exact fun index member => (shape.used_of_chain (part member)).2
    · exact Nat.lt_succ_of_le (shorter.trans (shape.chain_length pos))
  rcases shape.searched holds.positive key with ⟨unused, empty⟩ | ⟨rest, chain⟩ |
    ⟨front, back, pos, apart, split, empty⟩
  · refine Or.inr ⟨?_, shape.absent holds.represents (by simp [empty])⟩
    simp only [sHashGet, getLoop, unused]
  · have walk := shape.walk_of_chain (chain ▸ List.mem_cons_self)
    have found := searched (List.Subset.refl _) (Nat.le_refl _) walk
    cases place : (chains (mainPos H.nelemAlloc key)).find? (holdsKey H key) with
    | none =>
        rw [place] at found
        refine Or.inr ⟨found, shape.absent holds.represents ?_⟩
        intro index member
        exact Bool.eq_false_iff.mpr (List.find?_eq_none.mp place index member)
    | some index =>
        rw [place] at found
        have inside := (shape.used_of_chain (List.mem_of_find?_eq_some place)).1
        obtain ⟨held, slot, same⟩ := slots_of_holdsKey inside (List.find?_some place)
        exact Or.inl ⟨index, held, found, slot, same⟩
  · have member : mainPos H.nelemAlloc key ∈ chains pos := by simp [split]
    have walk := shape.walk_of_chain member
    rw [split, List.map_append, Links.walk_append] at walk
    obtain ⟨middle, _, onward⟩ := walk
    rw [List.map_cons, onward.1] at onward
    have found := @searched (mainPos H.nelemAlloc key :: back) pos
      (fun index inside => split ▸ List.mem_append_right front inside) (by simp [split]) onward
    refine Or.inr ⟨?_, shape.absent holds.represents (by simp [empty])⟩
    rw [found, Option.some_inj, List.find?_eq_none]
    intro index inside here
    have inChain : index ∈ chains pos := split ▸ List.mem_append_right front inside
    have atMain := shape.chain_of_holdsKey (shape.used_of_chain inChain).1 here
    exact apart (shape.chain_unique inChain atMain)

/-! ## Insertion -/

/-- The loop over the thread stops at the node before the given one. -/
theorem prevLoop_walk {H : SHash Value} {node before : Nat} {back : List Nat} :
    ∀ {front : List Nat} {index fuel : Nat},
      H.links.Walk (.node index) ((front ++ before :: node :: back).map .node) .null →
      node ∉ front ++ [before] → front.length < fuel →
      prevLoop H node fuel index = some before ∧ H.links.next (.node before) = .node node := by
  intro front
  induction front with
  | nil =>
      intro index fuel walk _ enough
      cases fuel with
      | zero => cases enough
      | succ fuel =>
          injection walk.1 with same
          have next : H.links.next (.node before) = .node node := walk.2.1
          rw [same, prevLoop, next]
          exact ⟨if_pos rfl, rfl⟩
  | cons head tail inductionHypothesis =>
      intro index fuel walk apart enough
      cases fuel with
      | zero => cases enough
      | succ fuel =>
          injection walk.1 with same
          have onward : H.links.Walk (H.links.next (.node head))
            ((tail ++ before :: node :: back).map .node) .null := walk.2
          have apartTail : node ∉ tail ++ [before] := fun member =>
            apart (List.mem_cons_of_mem head member)
          have shorter : tail.length < fuel := by simpa using enough
          obtain ⟨after, next, notNode⟩ : ∃ after, H.links.next (.node head) = .node after ∧
              after ≠ node := by
            cases tail with
            | nil => exact ⟨before, onward.1, by rintro rfl; simp at apartTail⟩
            | cons second rest => exact ⟨second, onward.1, by rintro rfl; simp at apartTail⟩
          rw [next] at onward
          rw [same, prevLoop, next]
          dsimp only
          rw [if_neg notNode]
          exact inductionHypothesis onward apartTail shorter

theorem Shape.writeVal {H : SHash Value} {spare : Option Nat} {free : List Nat}
    {chains : Nat → List Nat} (shape : Shape H spare free chains) (index : Nat) (value : Value) :
    Shape (writeVal H index value) spare free chains :=
  ⟨shape.ring, shape.free_iff, shape.walk, shape.distinct, shape.chain_iff⟩

/-- A new key in its node, with whatever value the node had: once the slot is
written, the table represents the map with that value. -/
theorem holds_written {H : SHash Value} {room slot : Nat} {key held : SHashKey}
    {map : SHashKey → Option Value} (holds : Holds H room map)
    (slots : H.slots slot = some (held, H.val slot)) (same : iequal held key = true)
    (value : Value) :
    Holds (writeVal H slot value) room (assign iequal map key (some value)) := by
  obtain ⟨free, chains, shape, length⟩ := holds.shape
  obtain ⟨inside, used, _⟩ := slots_some slots
  refine ⟨holds.positive, ⟨free, chains, shape.writeVal slot value, length⟩, ?_⟩
  rw [slots_writeVal inside used]
  exact holds.represents.write iequal_equivalent value slots same

/-- A table that has taken in the key: its node is `slot`. -/
def TakenIn (H : SHash Value) (slot nelemAlloc room : Nat) (key : SHashKey)
    (map : SHashKey → Option Value) : Prop :=
  H.nelemAlloc = nelemAlloc ∧ H.slots slot = some (key, H.val slot) ∧
    Holds H room (assign iequal map key (some (H.val slot)))

/-- A key that is written to an unused node joins the map. -/
theorem represents_setKey {H : SHash Value} {map : SHashKey → Option Value} {index : Nat}
    {key : SHashKey} (represents : Represents iequal H.slots map) (inside : index < H.nelemAlloc)
    (unused : H.key index = none) (absent : map key = none) (links : Links SLinkPtr) :
    Represents iequal
      ({ H with links := links, key := Function.update H.key index (some key) } : SHash Value).slots
      (assign iequal map key (some (H.val index))) := by
  rw [slots_setKey inside]
  exact represents.put iequal_equivalent _ (slots_of_unused unused) absent

section Place

variable {H : SHash Value} {spareNode room pos : Nat} {map : SHashKey → Option Value}
  {free : List Nat} {chains : Nat → List Nat} {key : SHashKey}

/-- A chain is empty or begins at its main position. -/
theorem Shape.chain_cases {spare : Option Nat} (shape : Shape H spare free chains) (pos : Nat) :
    chains pos = [] ∨ ∃ rest, chains pos = pos :: rest := by
  cases chain : chains pos with
  | nil => exact Or.inl rfl
  | cons first rest => exact Or.inr ⟨rest, by rw [shape.head_eq chain]⟩

theorem setAtEmpty_spec (reserves : Reserves H spareNode room map) (inside : pos < H.nelemAlloc)
    (main : mainPos H.nelemAlloc key = pos) (unused : H.key pos = none) (absent : map key = none) :
    TakenIn (setAtEmpty H pos spareNode key) pos H.nelemAlloc room key map := by
  obtain ⟨free, chains, shape, length⟩ := reserves.shape
  have empty : chains pos = [] := by
    rcases shape.chain_cases pos with empty | ⟨rest, chain⟩
    · exact empty
    · exact absurd (chain ▸ List.mem_cons_self) (shape.not_chain_of_unused unused pos)
  have back := shape.giveBack reserves.inside reserves.unused
  have listed := (back.free_iff pos).mpr ⟨inside, unused, by simp⟩
  obtain ⟨front, rest, split⟩ := List.append_of_mem listed
  have size : (front ++ rest).length = room := by
    have sizes := congrArg List.length split
    simp only [List.length_cons, List.length_append] at sizes ⊢
    omega
  rw [split] at back
  have placed := back.takeOff.placeAlone inside unused main empty
  have joined := represents_setKey reserves.represents inside unused absent
    (setAtEmpty H pos spareNode key).links
  exact ⟨rfl, slots_of_key inside (Function.update_self _ _ _), reserves.positive,
    ⟨_, _, placed, size⟩, joined⟩

theorem setBehind_spec {theKey : SHashKey} (reserves : Reserves H spareNode room map)
    (inside : pos < H.nelemAlloc) (main : mainPos H.nelemAlloc key = pos)
    (held : H.key pos = some theKey) (same : mainPos H.nelemAlloc theKey = pos)
    (absent : map key = none) :
    TakenIn (setBehind H pos spareNode key) spareNode H.nelemAlloc room key map := by
  obtain ⟨free, chains, shape, length⟩ := reserves.shape
  have member := (shape.chain_iff pos pos).mpr ⟨inside, theKey, held, same⟩
  rcases shape.chain_cases pos with empty | ⟨rest, chain⟩
  · rw [empty] at member
    cases member
  · have placed := shape.placeBehind reserves.inside reserves.unused chain main
    have joined := represents_setKey reserves.represents reserves.inside reserves.unused absent
      (setBehind H pos spareNode key).links
    exact ⟨rfl, slots_of_key reserves.inside (Function.update_self _ _ _), reserves.positive,
      ⟨_, _, placed, length⟩, joined⟩

/-- The node before an occupant from another chain is found. -/
theorem prevLoop_spec {spare : Option Nat} (shape : Shape H spare free chains) {theMp : Nat}
    (member : pos ∈ chains theMp) (apart : pos ≠ theMp) :
    ∃ front before back, chains theMp = front ++ before :: pos :: back ∧
      prevLoop H pos H.nelemAlloc theMp = some before ∧
      H.links.next (.node before) = .node pos := by
  obtain ⟨start, back, split⟩ := List.append_of_mem member
  rcases List.eq_nil_or_concat start with nothing | ⟨front, before, concat⟩
  · rw [nothing] at split
    exact absurd (shape.head_eq split) apart
  · rw [concat, List.concat_eq_append, List.append_assoc, List.singleton_append] at split
    have walk := shape.walk_of_chain member
    have once := shape.distinct theMp
    have short := shape.chain_length theMp
    rw [split] at walk once short
    have outside : pos ∉ front ++ [before] := by
      simp only [List.nodup_append, List.nodup_cons, List.mem_cons] at once
      grind
    have shorter : front.length < H.nelemAlloc := by
      simp only [List.length_append, List.length_cons] at short
      omega
    exact ⟨front, before, back, split, prevLoop_walk walk outside shorter⟩

theorem setMoving_spec {theMp before : Nat} {front back : List Nat}
    (reserves : Reserves H spareNode room map) (inside : pos < H.nelemAlloc)
    (main : mainPos H.nelemAlloc key = pos) (absent : map key = none)
    (shape : Shape H (some spareNode) free chains) (length : free.length = room)
    (apart : pos ≠ theMp) (split : chains theMp = front ++ before :: pos :: back) :
    TakenIn (setMoving H pos spareNode before key) pos H.nelemAlloc room key map := by
  have empty : chains pos = [] := by
    rcases shape.chain_cases pos with empty | ⟨rest, chain⟩
    · exact empty
    · have here : pos ∈ chains pos := chain ▸ List.mem_cons_self
      have there : pos ∈ chains theMp := by simp [split]
      exact absurd (shape.chain_unique here there) apart
  have stillEmpty : Function.update chains theMp (front ++ before :: spareNode :: back) pos = [] := by
    rw [Function.update_of_ne apart, empty]
  have unused : Function.update (copyNode H spareNode pos).key pos none pos = none :=
    Function.update_self _ _ _
  have placed := (shape.relocate reserves.inside reserves.unused split).placeAlone inside unused
    main stillEmpty
  have moved := @Represents.move _ _ _ _ _ _ _ reserves.represents pos spareNode
    (slots_of_unused reserves.unused)
  rw [← slots_copyNode reserves.inside inside
    ((copyNode H spareNode pos).links.setNext (.node before) (.node spareNode))] at moved
  have joined := represents_setKey moved inside unused absent
    (setMoving H pos spareNode before key).links
  simp only [Function.update_idem] at placed joined
  exact ⟨rfl, slots_of_key inside (Function.update_self _ _ _), reserves.positive,
    ⟨_, _, placed, length⟩, joined⟩

/-- `s_hash_set` puts a new key in, with one node in reserve. -/
theorem placeKey_spec (reserves : Reserves H spareNode room map) (absent : map key = none) :
    ∃ grown slot, placeKey H spareNode key = some (grown, slot) ∧
      TakenIn grown slot H.nelemAlloc room key map := by
  have inside := mainPos_lt reserves.positive key
  cases held : H.key (mainPos H.nelemAlloc key) with
  | none =>
      refine ⟨_, _, ?_, setAtEmpty_spec reserves inside rfl held absent⟩
      simp only [placeKey, held]
  | some theKey =>
      by_cases same : mainPos H.nelemAlloc key = mainPos H.nelemAlloc theKey
      · refine ⟨_, _, ?_, setBehind_spec reserves inside rfl held same.symm absent⟩
        simp only [placeKey, held]
        rw [if_pos same]
      · obtain ⟨free, chains, shape, length⟩ := reserves.shape
        have member := (shape.chain_iff (mainPos H.nelemAlloc theKey)
          (mainPos H.nelemAlloc key)).mpr ⟨inside, theKey, held, rfl⟩
        obtain ⟨front, before, back, split, found, points⟩ := prevLoop_spec shape member same
        refine ⟨_, _, ?_, setMoving_spec reserves inside rfl absent shape length same split⟩
        simp only [placeKey, held]
        rw [if_neg same, found]
        exact if_pos points

end Place

end SimpleDfs.Common
