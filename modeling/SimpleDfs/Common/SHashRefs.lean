import Mathlib.Data.List.Induction
import SimpleDfs.Common.SHashMap

/-!
Contract: the references of a hash table with string keys.

Owns: `s_hash_set`, `i_get_free_node`, `s_hash_del` and `s_hash_destroy` with
the string objects they grab and drop; and that the references of a table match
its entries as long as the table never grows, and not any more once it has.

Does not own: the writes to the nodes and the map they stand for.
-/

set_option autoImplicit false

namespace SimpleDfs.Common

open SimpleDfs.Library

universe u v

section Operations

variable {Object : Type u} {Value : Type v}

/-- The object that a key points to, if it is a string. -/
def pointee (key : SHashKey) (object : Object) : Option Object :=
  match key with
  | .str _ => some object
  | _ => none

/-- The object that the key of a node points to. A node keeps it with its
value. -/
def objectAt (H : SHash (Object × Value)) (index : Nat) : Option Object :=
  (H.key index).bind fun key => pointee key (H.val index).1

/-- The objects of the string keys in the table, in the order of the array. -/
def stringObjects (H : SHash (Object × Value)) : List Object :=
  (List.range H.nelemAlloc).filterMap (objectAt H)

/-! ## Insertion -/

/-- `s_hash_set`, over the `i_get_free_node` it calls: the table, the node of the
slot, the object that the key of the node points to, and the objects grabbed on
the way. -/
def setGrabbing
    (getFree : SHash (Object × Value) → Option (SHash (Object × Value) × Nat × List Object))
    (H : SHash (Object × Value)) (key : SHashKey) (object : Object) :
    Option (SHash (Object × Value) × Nat × Object × List Object) :=
  match sHashGet H key with
  | none => none
  | some (some found) => some (H, found, (H.val found).1, [])
  | some none =>
      (getFree H).bind fun (reserved, freeNode, grabbed) =>
        (placeKey reserved freeNode key).map fun (grown, slot) =>
          (grown, slot, object, grabbed ++ (pointee key object).toList)

/-- The loop of the growth. The value is copied, the key is not. -/
def reinsertGrabbing
    (getFree : SHash (Object × Value) → Option (SHash (Object × Value) × Nat × List Object))
    (old : SHash (Object × Value)) :
    Nat → SHash (Object × Value) → Option (SHash (Object × Value) × List Object)
  | 0, H => some (H, [])
  | count + 1, H =>
      (reinsertGrabbing getFree old count H).bind fun (filled, grabbed) =>
        match old.key count with
        | none => some (filled, grabbed)
        | some key =>
            (setGrabbing getFree filled key (old.val count).1).map fun (grown, slot, owner, more) =>
              (writeVal grown slot (owner, (old.val count).2), grabbed ++ more)

/-- `i_get_free_node`, with a bound on its nesting. -/
def igetFreeNodeGrabbing [Inhabited Object] [Inhabited Value] :
    Nat → SHash (Object × Value) → Option (SHash (Object × Value) × Nat × List Object)
  | 0, _ => none
  | depth + 1, H =>
      match H.links.next .free with
      | .node index => some ({ H with links := sListDel H.links (.node index) }, index, [])
      | .null => none
      | .free =>
          (reinsertGrabbing (igetFreeNodeGrabbing depth) H H.nelemAlloc
              (newNodes (H.nelemAlloc * 2))).bind fun (grown, grabbed) =>
            (igetFreeNodeGrabbing depth grown).map fun (reserved, index, more) =>
              (reserved, index, grabbed ++ more)

/-! ## Deletion -/

/-- Take the node out of its chain, or the second one in its place. -/
def unlinkNode (H : SHash (Object × Value)) (mainNode index : Nat) (prev : Option Nat) :
    Option (SHash (Object × Value)) :=
  match prev, H.links.next (.node index) with
  | some before, after =>
      some (freeNode { H with links := H.links.setNext (.node before) after } index)
  | none, .node after => some (freeNode (copyNode H mainNode after) after)
  | none, .null => some (freeNode H mainNode)
  | none, .free => none

/-- The loop of `s_hash_del`, with the object it drops. -/
def delLoopDropping (H : SHash (Object × Value)) (mainNode : Nat) (key : SHashKey) :
    Nat → Option Nat → SLinkPtr → Option (SHash (Object × Value) × Option Object)
  | 0, _, _ => none
  | _ + 1, _, .null => some (H, none)
  | _ + 1, _, .free => none
  | fuel + 1, prev, .node index =>
      match H.key index with
      | none => some (H, none)
      | some nodeKey =>
          if iequal nodeKey key then
            (unlinkNode H mainNode index prev).map fun cleared => (cleared, objectAt H index)
          else delLoopDropping H mainNode key fuel (some index) (H.links.next (.node index))

/-- `s_hash_del`. -/
def sHashDelDropping (H : SHash (Object × Value)) (key : SHashKey) :
    Option (SHash (Object × Value) × Option Object) :=
  let mainNode := mainPos H.nelemAlloc key
  delLoopDropping H mainNode key (H.nelemAlloc + 1) none (.node mainNode)

/-! ## Calls on string keys -/

/-- A table, and the references it has added to each object less those it has
dropped. -/
structure RefTable (Object : Type u) (Value : Type v) where
  table : SHash (Object × Value)
  refs : Object → Int

/-- A call with a string object; setting it includes writing the value to its
slot. -/
inductive StringOp (Object : Type u) (Value : Type v) where
  | set (object : Object) (value : Value)
  | get (object : Object)
  | del (object : Object)

/-- The key of a string object. -/
def strKey (content : Object → SString) (object : Object) : SHashKey :=
  .str (content object)

variable [DecidableEq Object] [Inhabited Object] [Inhabited Value]

/-- `s_hash_create`. -/
def createRefs (nelemAlloc : Int) : RefTable Object Value where
  table := sHashCreate nelemAlloc
  refs := fun _ => 0

/-- One call. -/
def runString (content : Object → SString) (T : RefTable Object Value) :
    StringOp Object Value → Option (RefTable Object Value)
  | .set object value =>
      (setGrabbing (igetFreeNodeGrabbing 2) T.table (strKey content object) object).map
        fun (grown, slot, owner, grabbed) =>
          { table := writeVal grown slot (owner, value)
            refs := fun other => T.refs other + grabbed.count other }
  | .get object => (sHashGet T.table (strKey content object)).map fun _ => T
  | .del object =>
      (sHashDelDropping T.table (strKey content object)).map fun (cleared, dropped) =>
        { table := cleared
          refs := fun other => T.refs other - dropped.toList.count other }

/-- The references that `s_hash_destroy` leaves: it drops the object of every
string key. -/
def destroyRefs (T : RefTable Object Value) (object : Object) : Int :=
  T.refs object - (stringObjects T.table).count object

end Operations

/-! ## Deletion drops the object of the entry -/

section Deletion

variable {Object : Type u} {Value : Type v}

/-- The loop of `s_hash_del` drops the object of the node that the loop of
`s_hash_get` finds. -/
theorem delLoopDropping_eq (H : SHash (Object × Value)) (mainNode : Nat) (key : SHashKey) :
    ∀ (fuel : Nat) (prev : Option Nat) (first : SLinkPtr),
      delLoopDropping H mainNode key fuel prev first =
        (delLoop H mainNode key fuel prev first).bind fun cleared =>
          (getLoop H key fuel first).map fun found => (cleared, found.bind (objectAt H)) := by
  intro fuel
  induction fuel with
  | zero => exact fun _ _ => rfl
  | succ fuel inductionHypothesis =>
      intro prev first
      cases first with
      | null => rfl
      | free => rfl
      | node index =>
          simp only [delLoopDropping, delLoop, getLoop]
          cases used : H.key index with
          | none => rfl
          | some nodeKey =>
              by_cases same : iequal nodeKey key = true
              · simp only [same, if_true]
                cases prev with
                | some before => rfl
                | none =>
                    unfold unlinkNode
                    cases H.links.next (.node index) <;> rfl
              · simp only [same]
                exact inductionHypothesis (some index) _

end Deletion

/-! ## Entries and their objects -/

section Entries

variable {Object : Type u} {Value : Type v} {content : Object → SString}

/-- Every key of the map is the one of the object that is kept with it. -/
def Owned (content : Object → SString) (map : SHashKey → Option (Object × Value)) : Prop :=
  ∀ key object value, map key = some (object, value) → iequal key (strKey content object) = true

/-- The object of an entry, if there is one. -/
def owner (entry : Option (Object × Value)) : List Object :=
  (entry.map Prod.fst).toList

theorem owned_empty : Owned content (fun _ => none : SHashKey → Option (Object × Value)) := by
  intro key object value present
  cases present

theorem Owned.assign {map : SHashKey → Option (Object × Value)} (owned : Owned content map)
    {key : SHashKey} {entry : Option (Object × Value)}
    (same : ∀ object value, entry = some (object, value) →
      iequal key (strKey content object) = true) :
    Owned content (assign iequal map key entry) := by
  intro other object value present
  rw [Library.assign] at present
  split at present
  · rename_i equal
    exact iequal_trans (iequal_symm equal) (same object value present)
  · exact owned other object value present

variable {H : SHash (Object × Value)} {map : SHashKey → Option (Object × Value)}

/-- The map takes equal keys to one entry. -/
theorem map_congr (represents : Represents iequal H.slots map) {key other : SHashKey}
    (same : iequal key other = true) : map key = map other := by
  apply Option.ext
  intro entry
  rw [represents.lookup, represents.lookup]
  constructor
  · rintro ⟨slot, held, atSlot, equal⟩
    exact ⟨slot, held, atSlot, iequal_trans equal same⟩
  · rintro ⟨slot, held, atSlot, equal⟩
    exact ⟨slot, held, atSlot, iequal_trans equal (iequal_symm same)⟩

/-- Every key in the table is a string. -/
theorem objectAt_eq (represents : Represents iequal H.slots map) (owned : Owned content map)
    {index : Nat} (inside : index < H.nelemAlloc) :
    objectAt H index = (H.slots index).map fun pair => pair.2.1 := by
  rw [objectAt]
  cases used : H.key index with
  | none =>
      rw [slots_of_unused used]
      rfl
  | some key =>
      have slot := slots_of_key inside used
      have present := (represents.lookup key (H.val index)).mpr
        ⟨index, key, slot, iequal_refl key⟩
      have equal := owned key (H.val index).1 (H.val index).2 present
      rw [slot]
      cases key with
      | str str => rfl
      | num num => cases equal
      | id x y => cases equal
      | voidp p => cases equal

variable [DecidableEq Object]

/-- An object has one entry if the entry of its key is its own, and none
otherwise. -/
theorem count_stringObjects (represents : Represents iequal H.slots map)
    (owned : Owned content map) (object : Object) :
    (stringObjects H).count object = (owner (map (strKey content object))).count object := by
  have complete : ∀ index, H.slots index ≠ none → index ∈ List.range H.nelemAlloc := by
    intro index used
    rw [List.mem_range]
    by_contra outside
    exact used (by rw [SHash.slots, if_neg outside])
  have listed := represents.listed iequal_equivalent List.nodup_range complete
    (strKey content object)
  have objects : stringObjects H =
      ((List.range H.nelemAlloc).filterMap H.slots).map fun pair => pair.2.1 := by
    rw [List.map_filterMap]
    apply List.filterMap_congr
    intro index member
    exact objectAt_eq represents owned (List.mem_range.mp member)
  have ownKey : ∀ pair ∈ (List.range H.nelemAlloc).filterMap H.slots,
      (pair.2.1 == object) = true →
        iequal pair.1 (strKey content object) = true := by
    intro pair member same
    obtain ⟨index, _, slot⟩ := List.mem_filterMap.mp member
    have present := (represents.lookup pair.1 pair.2).mpr ⟨index, pair.1, slot, iequal_refl _⟩
    rw [← eq_of_beq same]
    exact owned pair.1 pair.2.1 pair.2.2 present
  have toOwner : owner (map (strKey content object)) =
      (map (strKey content object)).toList.map Prod.fst := by
    cases map (strKey content object) <;> rfl
  rw [toOwner, ← listed, objects, List.count_eq_countP, List.count_eq_countP, List.countP_map,
    List.countP_map, List.countP_map, List.countP_filter]
  apply List.countP_congr
  intro pair member
  simp only [Function.comp_apply, Bool.and_eq_true]
  exact ⟨fun same => ⟨same, ownKey pair member same⟩, fun both => both.1⟩

/-- An assignment takes one entry from the object that had the key and gives one
to the object that gets it. -/
theorem count_assign (represents : Represents iequal H.slots map) (owned : Owned content map)
    {key : SHashKey} {entry : Option (Object × Value)}
    (same : ∀ object value, entry = some (object, value) →
      iequal key (strKey content object) = true) (object : Object) :
    (owner (assign iequal map key entry (strKey content object))).count object +
        (owner (map key)).count object =
      (owner (map (strKey content object))).count object + (owner entry).count object := by
  rw [Library.assign]
  by_cases equal : iequal key (strKey content object) = true
  · rw [if_pos equal, map_congr represents equal, Nat.add_comm]
  · have other : ∀ held : Option (Object × Value), (∀ object value, held = some (object, value) →
        iequal key (strKey content object) = true) → (owner held).count object = 0 := by
      intro held own
      rw [List.count_eq_zero]
      intro member
      cases held with
      | none => cases member
      | some pair =>
          have isObject : object = pair.1 := by simpa [owner] using member
          exact equal (isObject ▸ own pair.1 pair.2 rfl)
    rw [if_neg equal, other (map key) (owned key), other entry same]

end Entries

/-! ## Growth grabs every object again -/

section Growth

variable {Object : Type u} {Value : Type v} [Inhabited Object] [Inhabited Value]
  {H : SHash (Object × Value)} {map : SHashKey → Option (Object × Value)}

/-- Taking a node off the free list grabs nothing. -/
theorem igetFreeNodeGrabbing_room {room depth : Nat} (holds : Holds H (room + 1) map) :
    igetFreeNodeGrabbing (depth + 1) H =
      (igetFreeNode (depth + 1) H).map fun (reserved, index) => (reserved, index, []) := by
  obtain ⟨index, first⟩ := free_list_first holds
  simp only [igetFreeNodeGrabbing, igetFreeNode, first, Option.map_some]

/-- A new key in a table with a free node: its own object is grabbed. -/
theorem setGrabbing_room {room depth : Nat} (holds : Holds H (room + 1) map) {key : SHashKey}
    (absent : map key = none) (object : Object) :
    ∃ grown slot, setWith (igetFreeNode (depth + 1)) H key = some (grown, slot) ∧
      setGrabbing (igetFreeNodeGrabbing (depth + 1)) H key object =
        some (grown, slot, object, (pointee key object).toList) := by
  rcases sHashGet_spec holds key with ⟨index, held, _, slot, same⟩ | ⟨missing, _⟩
  · have present := (holds.represents.lookup key (H.val index)).mpr ⟨index, held, slot, same⟩
    rw [absent] at present
    cases present
  · obtain ⟨reserved, index, taken, _, reserves⟩ := @igetFreeNode_room _ _ _ _ depth _ holds
    obtain ⟨grown, slot, placed, _⟩ := placeKey_spec reserves absent
    refine ⟨grown, slot, ?_, ?_⟩
    · simp only [setWith, missing, taken, Option.bind_some]
      exact placed
    · simp only [setGrabbing, missing, igetFreeNodeGrabbing_room holds, taken, Option.map_some,
        Option.bind_some, placed]
      rfl

/-- The loop of the growth grabs the objects of the nodes it has copied. -/
theorem reinsertGrabbing_eq {depth count : Nat} (positive : 0 < H.nelemAlloc)
    (represents : Represents iequal H.slots map) (inside : count ≤ H.nelemAlloc) :
    reinsertGrabbing (igetFreeNodeGrabbing (depth + 1)) H count (newNodes (H.nelemAlloc * 2)) =
      (reinsert (igetFreeNode (depth + 1)) H count (newNodes (H.nelemAlloc * 2))).map
        fun grown => (grown, (List.range count).filterMap (objectAt H)) := by
  induction count with
  | zero => rfl
  | succ count inductionHypothesis =>
      obtain ⟨filled, done, room, part, enough, holds, first⟩ :=
        @reinsert_spec _ _ _ _ depth positive represents _ (Nat.le_of_succ_le inside)
      rw [reinsertGrabbing, reinsert, inductionHypothesis (Nat.le_of_succ_le inside), done,
        List.range_succ, List.filterMap_append]
      simp only [Option.map_some, Option.bind_some]
      cases used : H.key count with
      | none => simp [objectAt, used]
      | some key =>
          have absent := absent_firstSlots represents first (slots_of_key inside used)
          obtain ⟨more, rfl⟩ : ∃ more, room = more + 1 := ⟨room - 1, by omega⟩
          obtain ⟨grown, slot, set, grabbing⟩ :=
            @setGrabbing_room _ _ _ _ _ _ _ depth holds _ absent (H.val count).1
          simp only [set, grabbing, Option.map_some]
          simp only [List.filterMap_cons, List.filterMap_nil, objectAt, used, Option.bind_some]
          cases pointee key (H.val count).1 <;> rfl

/-- `i_get_free_node` grabs nothing if there is a free node, and the objects of
all entries if there is none. -/
theorem igetFreeNodeGrabbing_eq {room depth : Nat} (holds : Holds H room map) :
    igetFreeNodeGrabbing (depth + 2) H =
      (igetFreeNode (depth + 2) H).map fun (reserved, index) =>
        (reserved, index, if H.links.next .free = .free then stringObjects H else []) := by
  cases room with
  | succ room =>
      obtain ⟨index, first⟩ := free_list_first holds
      rw [igetFreeNodeGrabbing_room holds, first, if_neg (by simp)]
  | zero =>
      have full := (free_list_empty holds).1
      obtain ⟨grown, done, room, part, enough, held, _⟩ :=
        @reinsert_spec _ _ _ _ depth holds.positive holds.represents _ (Nat.le_refl _)
      have positive := holds.positive
      obtain ⟨more, rfl⟩ : ∃ more, room = more + 1 := ⟨room - 1, by omega⟩
      have copied := @reinsertGrabbing_eq _ _ _ _ _ _ depth _ holds.positive holds.represents
        (Nat.le_refl _)
      rw [igetFreeNodeGrabbing, igetFreeNode]
      simp only [full, if_true, copied, done, Option.map_some, Option.bind_some,
        igetFreeNodeGrabbing_room held]
      obtain ⟨reserved, index, taken, _, _⟩ := @igetFreeNode_room _ _ _ _ depth _ held
      rw [taken]
      simp [stringObjects]

end Growth

/-! ## What one call does to the references -/

section Calls

variable {Object : Type u} {Value : Type v} [DecidableEq Object] [Inhabited Object]
  [Inhabited Value] {content : Object → SString} {T : RefTable Object Value}

/-- The table stands for a map whose entries are kept with the objects of their
keys. -/
def Kept (content : Object → SString) (T : RefTable Object Value) : Prop :=
  ∃ room map, Holds T.table room map ∧ Owned content map

/-- The call sets a new key while no node is free, so the table grows. -/
def Grows (content : Object → SString) (T : RefTable Object Value) :
    StringOp Object Value → Prop
  | .set object _ =>
      sHashGet T.table (strKey content object) = some none ∧ T.table.links.next .free = .free
  | .get _ => False
  | .del _ => False

omit [Inhabited Object] [Inhabited Value] in
theorem count_entries {H after : SHash (Object × Value)} {room left : Nat}
    {map : SHashKey → Option (Object × Value)} {key : SHashKey} {entry : Option (Object × Value)}
    (holds : Holds H room map) (owned : Owned content map)
    (same : ∀ object value, entry = some (object, value) →
      iequal key (strKey content object) = true)
    (assigned : Holds after left (assign iequal map key entry)) (object : Object) :
    (stringObjects after).count object + (owner (map key)).count object =
      (stringObjects H).count object + (owner entry).count object := by
  rw [count_stringObjects assigned.represents (owned.assign same),
    count_stringObjects holds.represents owned]
  exact count_assign holds.represents owned same object

/-- Setting a key that has an entry changes its value only. -/
theorem runString_set_found {room index : Nat} {map : SHashKey → Option (Object × Value)}
    {held : SHashKey} {object : Object} (holds : Holds T.table room map) (owned : Owned content map)
    (found : sHashGet T.table (strKey content object) = some (some index))
    (slot : T.table.slots index = some (held, T.table.val index))
    (equal : iequal held (strKey content object) = true) (value : Value) :
    ∃ next, runString content T (.set object value) = some next ∧ Kept content next ∧
      ∀ other, destroyRefs next other = destroyRefs T other := by
  have present := (holds.represents.lookup (strKey content object) (T.table.val index)).mpr
    ⟨index, held, slot, equal⟩
  have own : ∀ other value', some ((T.table.val index).1, value) = some (other, value') →
      iequal (strKey content object) (strKey content other) = true := by
    intro other value' same
    cases same
    exact owned _ _ _ present
  have written := holds_written holds slot equal ((T.table.val index).1, value)
  refine ⟨{ table := writeVal T.table index ((T.table.val index).1, value)
            refs := fun other => T.refs other + ([] : List Object).count other },
    ?_, ⟨room, _, written, owned.assign own⟩, ?_⟩
  · simp only [runString, setGrabbing, found, Option.map_some]
  · intro other
    have counted := count_entries holds owned own written other
    rw [present] at counted
    simp only [owner, Option.map_some] at counted
    simp only [destroyRefs, List.count_nil]
    omega

/-- Setting a new key grabs its object, and those of all entries if the table
grows. -/
theorem runString_set_missing {room : Nat} {map : SHashKey → Option (Object × Value)}
    {object : Object} (holds : Holds T.table room map) (owned : Owned content map)
    (missing : sHashGet T.table (strKey content object) = some none)
    (absent : map (strKey content object) = none) (value : Value) :
    ∃ next, runString content T (.set object value) = some next ∧ Kept content next ∧
      ∀ other, destroyRefs next other = destroyRefs T other +
        (if T.table.links.next .free = .free then stringObjects T.table else []).count other := by
  obtain ⟨reserved, index, left, taken, reserves⟩ := @igetFreeNode_spec _ _ _ _ 0 _ holds
  obtain ⟨grown, slot, placed, takenIn⟩ := placeKey_spec reserves absent
  have own : ∀ other value', some (object, value) = some (other, value') →
      iequal (strKey content object) (strKey content other) = true := by
    intro other value' same
    cases same
    exact iequal_refl _
  have written := takenIn.written (object, value)
  refine ⟨{ table := writeVal grown slot (object, value)
            refs := fun other => T.refs other +
              ((if T.table.links.next .free = .free then stringObjects T.table else []) ++
                [object]).count other },
    ?_, ⟨left, _, written, owned.assign own⟩, ?_⟩
  · simp only [runString, setGrabbing, missing, @igetFreeNodeGrabbing_eq _ _ _ _ _ _ _ 0 holds,
      taken, Option.map_some, Option.bind_some, placed]
    rfl
  · intro other
    have counted := count_entries holds owned own written other
    rw [absent] at counted
    have alone : owner (some (object, value)) = [object] := rfl
    have nothing : owner (none : Option (Object × Value)) = [] := rfl
    rw [alone, nothing, List.count_nil] at counted
    simp only [destroyRefs, List.count_append]
    omega

omit [DecidableEq Object] [Inhabited Object] [Inhabited Value] in
theorem sHashDelDropping_eq (H : SHash (Object × Value)) (key : SHashKey) :
    sHashDelDropping H key = (sHashDel H key).bind fun cleared =>
      (sHashGet H key).map fun found => (cleared, found.bind (objectAt H)) :=
  delLoopDropping_eq H _ key _ none _

/-- Deleting a key drops the object of its entry. -/
theorem runString_del {room : Nat} {map : SHashKey → Option (Object × Value)}
    (holds : Holds T.table room map) (owned : Owned content map) (object : Object) :
    ∃ next, runString content T (.del object) = some next ∧ Kept content next ∧
      ∀ other, destroyRefs next other = destroyRefs T other := by
  obtain ⟨cleared, left, done, after⟩ := sHashDel_spec holds (strKey content object)
  have own : ∀ other value, (none : Option (Object × Value)) = some (other, value) →
      iequal (strKey content object) (strKey content other) = true := by
    intro other value same
    cases same
  have counted := count_entries holds owned own after
  have dropped : ∃ found, sHashGet T.table (strKey content object) = some found ∧
      (found.bind (objectAt T.table)).toList = owner (map (strKey content object)) := by
    rcases sHashGet_spec holds (strKey content object) with
      ⟨index, held, found, slot, same⟩ | ⟨missing, absent⟩
    · refine ⟨some index, found, ?_⟩
      have present := (holds.represents.lookup (strKey content object) (T.table.val index)).mpr
        ⟨index, held, slot, same⟩
      rw [Option.bind_some, objectAt_eq holds.represents owned (slots_some slot).1, slot, present]
      rfl
    · refine ⟨none, missing, ?_⟩
      rw [absent]
      rfl
  obtain ⟨found, got, objects⟩ := dropped
  refine ⟨{ table := cleared
            refs := fun other =>
              T.refs other - (found.bind (objectAt T.table)).toList.count other },
    ?_, ⟨left, _, after, owned.assign own⟩, ?_⟩
  · simp only [runString, sHashDelDropping_eq, done, got, Option.map_some, Option.bind_some]
  · intro other
    have atOther := counted other
    have nothing : owner (none : Option (Object × Value)) = [] := rfl
    rw [nothing, List.count_nil] at atOther
    simp only [destroyRefs, objects]
    omega

/-- A call that does not grow the table keeps its references as many as its
entries; one that does adds one reference for every entry. -/
theorem runString_spec (kept : Kept content T) (op : StringOp Object Value) :
    ∃ next, runString content T op = some next ∧ Kept content next ∧
      (¬Grows content T op → ∀ object, destroyRefs next object = destroyRefs T object) ∧
      (Grows content T op → ∀ object, destroyRefs next object =
        destroyRefs T object + (stringObjects T.table).count object) := by
  obtain ⟨room, map, holds, owned⟩ := kept
  cases op with
  | set object value =>
      rcases sHashGet_spec holds (strKey content object) with
        ⟨index, held, found, slot, same⟩ | ⟨missing, absent⟩
      · obtain ⟨next, stepped, after, refs⟩ :=
          runString_set_found holds owned found slot same value
        refine ⟨next, stepped, after, fun _ => refs, ?_⟩
        rintro ⟨missing, _⟩
        rw [found] at missing
        cases missing
      · obtain ⟨next, stepped, after, refs⟩ :=
          runString_set_missing holds owned missing absent value
        refine ⟨next, stepped, after, ?_, ?_⟩
        · intro roomy other
          rw [refs, if_neg fun full => roomy ⟨missing, full⟩]
          simp
        · rintro ⟨_, full⟩ other
          rw [refs, if_pos full]
  | get object =>
      refine ⟨T, ?_, ⟨room, map, holds, owned⟩, fun _ _ => rfl, fun grows => nomatch grows⟩
      rcases sHashGet_spec holds (strKey content object) with ⟨index, held, found, _⟩ | ⟨missing, _⟩
      · simp only [runString, found, Option.map_some]
      · simp only [runString, missing, Option.map_some]
  | del object =>
      obtain ⟨next, stepped, after, refs⟩ := runString_del holds owned object
      exact ⟨next, stepped, after, fun _ => refs, fun grows => nomatch grows⟩

end Calls

/-! ## Any sequence of calls -/

section Runs

variable {Object : Type u} {Value : Type v} [DecidableEq Object] [Inhabited Object]
  [Inhabited Value] {content : Object → SString} {nelemAlloc : Int}

/-- The calls on a new table, in order. -/
def runStrings (content : Object → SString) (nelemAlloc : Int)
    (ops : List (StringOp Object Value)) : Option (RefTable Object Value) :=
  ops.foldlM (runString content) (createRefs nelemAlloc)

/-- After every call the references to each object are as many as the entries
with it, and destroying the table there leaves none. -/
def RefsMatch (content : Object → SString) (nelemAlloc : Int)
    (ops : List (StringOp Object Value)) : Prop :=
  ∀ front, front <+: ops → ∃ T, runStrings content nelemAlloc front = some T ∧
    ∀ object, T.refs object = (stringObjects T.table).count object ∧ destroyRefs T object = 0

/-- No call sets a new key while all nodes are in use. -/
def NeverGrows (content : Object → SString) (nelemAlloc : Int)
    (ops : List (StringOp Object Value)) : Prop :=
  ∀ front op T, front ++ [op] <+: ops → runStrings content nelemAlloc front = some T →
    ¬Grows content T op

theorem runStrings_append (front : List (StringOp Object Value)) (op : StringOp Object Value) :
    runStrings content nelemAlloc (front ++ [op]) =
      (runStrings content nelemAlloc front).bind fun T => runString content T op := by
  rw [runStrings, List.foldlM_append]
  simp [runStrings]

theorem NeverGrows.mono {front ops : List (StringOp Object Value)} (part : front <+: ops)
    (never : NeverGrows content nelemAlloc ops) : NeverGrows content nelemAlloc front :=
  fun before op T begins => never before op T (begins.trans part)

omit [Inhabited Object] [Inhabited Value] in
/-- A table that grows has an entry. -/
theorem Grows.entry {T : RefTable Object Value} {op : StringOp Object Value}
    (grows : Grows content T op) (kept : Kept content T) :
    ∃ object, 0 < (stringObjects T.table).count object := by
  obtain ⟨room, map, holds, owned⟩ := kept
  have full : T.table.links.next .free = .free := by
    cases op with
    | set object value => exact grows.2
    | get object => cases grows
    | del object => cases grows
  cases room with
  | succ room =>
      obtain ⟨index, first⟩ := free_list_first holds
      rw [first] at full
      cases full
  | zero =>
      have inUse := (free_list_empty holds).2 0 holds.positive
      obtain ⟨key, used⟩ := Option.ne_none_iff_exists'.mp inUse
      refine ⟨(T.table.val 0).1, List.count_pos_iff.mpr (List.mem_filterMap.mpr ?_)⟩
      refine ⟨0, List.mem_range.mpr holds.positive, ?_⟩
      rw [objectAt_eq holds.represents owned holds.positive, slots_of_key holds.positive used]
      rfl

theorem kept_createRefs :
    Kept content (createRefs nelemAlloc : RefTable Object Value) ∧
      ∀ object, destroyRefs (createRefs nelemAlloc : RefTable Object Value) object = 0 := by
  have positive : 0 < (max nelemAlloc sHashMinNelemAlloc).toNat := by
    simp only [sHashMinNelemAlloc]
    omega
  refine ⟨⟨_, _, holds_newNodes positive, owned_empty⟩, ?_⟩
  intro object
  have nothing : stringObjects (createRefs nelemAlloc : RefTable Object Value).table = [] :=
    List.filterMap_eq_nil_iff.mpr fun _ _ => rfl
  rw [destroyRefs, nothing]
  rfl

/-- What the table would leave when it is destroyed never shrinks, and is nothing
just as long as the table has not grown. -/
theorem runStrings_spec (ops : List (StringOp Object Value)) :
    ∃ T, runStrings content nelemAlloc ops = some T ∧ Kept content T ∧
      (∀ object, 0 ≤ destroyRefs T object) ∧
      ((∀ object, destroyRefs T object = 0) ↔ NeverGrows content nelemAlloc ops) := by
  induction ops using List.reverseRecOn with
  | nil =>
      obtain ⟨kept, nothing⟩ := @kept_createRefs Object Value _ _ _ content nelemAlloc
      refine ⟨_, rfl, kept, fun object => (nothing object).ge, fun _ => ?_, fun _ => nothing⟩
      intro front op T begins
      simp at begins
  | append_singleton front op inductionHypothesis =>
      obtain ⟨T, run, kept, atLeast, exactly⟩ := inductionHypothesis
      obtain ⟨next, stepped, after, same, more⟩ := runString_spec kept op
      refine ⟨next, by rw [runStrings_append, run]; exact stepped, after, ?_⟩
      by_cases grows : Grows content T op
      · have leaves := more grows
        refine ⟨?_, ?_, fun never => ?_⟩
        · intro object
          rw [leaves]
          have before := atLeast object
          omega
        · intro nothing
          obtain ⟨object, entries⟩ := grows.entry kept
          have before := atLeast object
          have now := nothing object
          rw [leaves] at now
          omega
        · exact absurd grows (never front op T (List.prefix_refl _) run)
      · have leaves := same grows
        refine ⟨fun object => leaves object ▸ atLeast object, ?_⟩
        rw [forall_congr' fun object => by rw [leaves object], exactly]
        constructor
        · intro never before last state begins
          rcases List.prefix_concat_iff.mp begins with whole | part
          · obtain ⟨isFront, isOp⟩ := List.append_singleton_inj.mp whole
            rw [isFront, isOp, run]
            rintro ⟨⟩
            exact grows
          · exact never before last state part
        · exact NeverGrows.mono (List.prefix_append front [op])

/-- The references match the entries after every call, and destroying the table
leaves none, just as long as the table never grows. -/
theorem refsMatch_iff (content : Object → SString) (nelemAlloc : Int)
    (ops : List (StringOp Object Value)) :
    RefsMatch content nelemAlloc ops ↔ NeverGrows content nelemAlloc ops := by
  constructor
  · intro refsMatch
    obtain ⟨T, run, _, _, exactly⟩ := @runStrings_spec _ _ _ _ _ content nelemAlloc ops
    obtain ⟨same, again, left⟩ := refsMatch ops (List.prefix_refl ops)
    rw [run] at again
    cases again
    exact exactly.mp fun object => (left object).2
  · intro never front part
    obtain ⟨T, run, _, _, exactly⟩ := @runStrings_spec _ _ _ _ _ content nelemAlloc front
    refine ⟨T, run, fun object => ?_⟩
    have nothing := exactly.mpr (never.mono part) object
    refine ⟨?_, nothing⟩
    rw [destroyRefs] at nothing
    omega

end Runs

/-- A string of one byte. -/
def oneByte (byte : UInt8) : SString where
  data := [byte]
  bounded := by
    rw [List.length_singleton]
    decide

/-- Seventeen strings in a table for sixteen: when the last one is set, the
others are grabbed again, and stay referenced for good. -/
theorem not_always_refsMatch :
    ¬RefsMatch oneByte 16 ((List.range 17).map fun index => .set (UInt8.ofNat index) ()) := by
  intro refsMatch
  obtain ⟨T, run, left⟩ := refsMatch _ (List.prefix_refl _)
  have leaves : (runStrings oneByte 16
      ((List.range 17).map fun index => .set (UInt8.ofNat index) ())).map
        (fun T => destroyRefs T 0) = some 1 := by
    decide +kernel
  rw [run, Option.map_some, (left 0).2] at leaves
  cases leaves

end SimpleDfs.Common
