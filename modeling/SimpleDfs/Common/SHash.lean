import SimpleDfs.Common.HashKey
import SimpleDfs.Common.SList
import SimpleDfs.Library.LinkThread

/-!
Contract: the hash table of `common/s_hash.c`.

Owns: the table in memory, `s_hash_create`, `i_get_free_node` with its growth,
`s_hash_set`, `s_hash_get`, `s_hash_del` and `s_hash_next`.

Does not own: what the operations do to the map that the table stands for.
Allocation succeeds, and a node holds one value of the element type.
-/

set_option autoImplicit false

namespace SimpleDfs.Common

open SimpleDfs.Library

universe u

/-- Where a link of a table points: nowhere, at `free_node` of the table or at a
node. -/
inductive SLinkPtr where
  | null
  | free
  | node (index : Nat)
  deriving DecidableEq, Repr

/-- `struct s_hash`. The nodes of the array are given by their `link`, `key` and
value; a key of `none` is the tag `S_HASH_KEY_NULL`. -/
structure SHash (Value : Type u) where
  nelemAlloc : Nat
  links : Links SLinkPtr
  key : Nat → Option SHashKey
  val : Nat → Value

/-- `S_HASH_MIN_NELEM_ALLOC`. -/
def sHashMinNelemAlloc : Int := 16

section

variable {Value : Type u}

/-! ## Creation -/

/-- Put the nodes below `count` on the free list, one after the other. -/
def freeNodes : Nat → Links SLinkPtr → Links SLinkPtr
  | 0, links => links
  | count + 1, links => sListInsert (freeNodes count links) .free (.node count)

/-- A new array of unused nodes, with `free_node` initialised. -/
def newNodes [Inhabited Value] (nelemAlloc : Nat) : SHash Value where
  nelemAlloc := nelemAlloc
  links := freeNodes nelemAlloc (sListInit ⟨fun _ => .null, fun _ => .null⟩ .free)
  key := fun _ => none
  val := fun _ => default

/-- `s_hash_create`. -/
def sHashCreate [Inhabited Value] (nelemAlloc : Int) : SHash Value :=
  newNodes (max nelemAlloc sHashMinNelemAlloc).toNat

/-! ## Lookup -/

/-- The main position of a key. -/
def mainPos (nelemAlloc : Nat) (key : SHashKey) : Nat :=
  (igetHash key).toNat % nelemAlloc

/-- The loop of `s_hash_get`; `none` if it does not end or leaves the nodes. -/
def getLoop (H : SHash Value) (key : SHashKey) : Nat → SLinkPtr → Option (Option Nat)
  | 0, _ => none
  | _ + 1, .null => some none
  | _ + 1, .free => none
  | fuel + 1, .node index =>
      match H.key index with
      | none => some none
      | some nodeKey =>
          if iequal nodeKey key then some (some index)
          else getLoop H key fuel (H.links.next (.node index))

/-- `s_hash_get`: the node whose value slot is returned. -/
def sHashGet (H : SHash Value) (key : SHashKey) : Option (Option Nat) :=
  getLoop H key (H.nelemAlloc + 1) (.node (mainPos H.nelemAlloc key))

/-! ## Insertion -/

/-- `memcpy` of a whole node. -/
def copyNode (H : SHash Value) (target source : Nat) : SHash Value where
  nelemAlloc := H.nelemAlloc
  links := (H.links.setPrev (.node target) (H.links.prev (.node source))).setNext (.node target)
    (H.links.next (.node source))
  key := Function.update H.key target (H.key source)
  val := Function.update H.val target (H.val source)

/-- Write to the slot of a node. -/
def writeVal (H : SHash Value) (index : Nat) (value : Value) : SHash Value :=
  { H with val := Function.update H.val index value }

/-- The node of the thread that is the last one or points at `node`. -/
def prevLoop (H : SHash Value) (node : Nat) : Nat → Nat → Option Nat
  | 0, _ => none
  | fuel + 1, index =>
      match H.links.next (.node index) with
      | .null => some index
      | .free => none
      | .node after => if after = node then some index else prevLoop H node fuel after

/-- The main position is not in use: the node in reserve goes back, and the node
at the main position leaves the free list. -/
def setAtEmpty (H : SHash Value) (pos freeNode : Nat) (key : SHashKey) : SHash Value :=
  let links := sListDel (sListInsert H.links .free (.node freeNode)) (.node pos)
  { H with
    links := links.setNext (.node pos) .null
    key := Function.update H.key pos (some key) }

/-- The chain of the main position begins there: the node in reserve comes
second. -/
def setBehind (H : SHash Value) (pos freeNode : Nat) (key : SHashKey) : SHash Value :=
  let links := H.links.setNext (.node freeNode) (H.links.next (.node pos))
  { H with
    links := links.setNext (.node pos) (.node freeNode)
    key := Function.update H.key freeNode (some key) }

/-- Another chain passes the main position, from `theNode`: its node moves to
the one in reserve. -/
def setMoving (H : SHash Value) (pos freeNode theNode : Nat) (key : SHashKey) : SHash Value :=
  let moved := copyNode H freeNode pos
  let links := moved.links.setNext (.node theNode) (.node freeNode)
  { moved with
    links := links.setNext (.node pos) .null
    key := Function.update moved.key pos (some key) }

/-- The part of `s_hash_set` that puts a key into a table with one node in
reserve, and returns the node the key is in. -/
def placeKey (H : SHash Value) (freeNode : Nat) (key : SHashKey) : Option (SHash Value × Nat) :=
  let pos := mainPos H.nelemAlloc key
  match H.key pos with
  | none => some (setAtEmpty H pos freeNode key, pos)
  | some theKey =>
      let theMp := mainPos H.nelemAlloc theKey
      if pos = theMp then some (setBehind H pos freeNode key, freeNode)
      else
        match prevLoop H pos H.nelemAlloc theMp with
        | none => none
        | some theNode =>
            -- `assert(inext(the_node) == node)`
            if H.links.next (.node theNode) = .node pos then
              some (setMoving H pos freeNode theNode key, pos)
            else none

/-- `s_hash_set`, over the `i_get_free_node` it calls. -/
def setWith (getFree : SHash Value → Option (SHash Value × Nat)) (H : SHash Value)
    (key : SHashKey) : Option (SHash Value × Nat) :=
  match sHashGet H key with
  | none => none
  | some (some found) => some (H, found)
  | some none => (getFree H).bind fun (reserved, freeNode) => placeKey reserved freeNode key

/-- The loop of the growth: set every key of the old nodes below `count` and copy
its value. -/
def reinsert (getFree : SHash Value → Option (SHash Value × Nat)) (old : SHash Value) :
    Nat → SHash Value → Option (SHash Value)
  | 0, H => some H
  | count + 1, H =>
      (reinsert getFree old count H).bind fun filled =>
        match old.key count with
        | none => some filled
        | some key =>
            (setWith getFree filled key).map fun (grown, slot) =>
              writeVal grown slot (old.val count)

/-- `i_get_free_node`, with a bound on its nesting: growing sets keys, and looks
for a free node again. -/
def igetFreeNode [Inhabited Value] : Nat → SHash Value → Option (SHash Value × Nat)
  | 0, _ => none
  | depth + 1, H =>
      match H.links.next .free with
      | .node index => some ({ H with links := sListDel H.links (.node index) }, index)
      | .null => none
      | .free =>
          (reinsert (igetFreeNode depth) H H.nelemAlloc (newNodes (H.nelemAlloc * 2))).bind
            (igetFreeNode depth)

/-- `s_hash_set`: the table and the node whose value slot is returned. -/
def sHashSet [Inhabited Value] (H : SHash Value) (key : SHashKey) : Option (SHash Value × Nat) :=
  setWith (igetFreeNode 2) H key

/-! ## Deletion -/

/-- Give the node back. -/
def freeNode (H : SHash Value) (index : Nat) : SHash Value :=
  { H with
    key := Function.update H.key index none
    links := sListInsert H.links .free (.node index) }

/-- The loop of `s_hash_del`, with the node before the one it is at. -/
def delLoop (H : SHash Value) (mainNode : Nat) (key : SHashKey) :
    Nat → Option Nat → SLinkPtr → Option (SHash Value)
  | 0, _, _ => none
  | _ + 1, _, .null => some H
  | _ + 1, _, .free => none
  | fuel + 1, prev, .node index =>
      match H.key index with
      | none => some H
      | some nodeKey =>
          if iequal nodeKey key then
            match prev, H.links.next (.node index) with
            | some before, after =>
                some (freeNode { H with links := H.links.setNext (.node before) after } index)
            | none, .node after => some (freeNode (copyNode H mainNode after) after)
            | none, .null => some (freeNode H mainNode)
            | none, .free => none
          else delLoop H mainNode key fuel (some index) (H.links.next (.node index))

/-- `s_hash_del`. -/
def sHashDel (H : SHash Value) (key : SHashKey) : Option (SHash Value) :=
  let mainNode := mainPos H.nelemAlloc key
  delLoop H mainNode key (H.nelemAlloc + 1) none (.node mainNode)

/-! ## Iteration -/

/-- The loop of `s_hash_next`, over the nodes left. -/
def nextLoop (H : SHash Value) : Nat → Nat → Option (Nat × SHashKey)
  | 0, _ => none
  | left + 1, index =>
      match H.key index with
      | some key => some (index, key)
      | none => nextLoop H left (index + 1)

/-- `s_hash_next`: the next node in use with its key, and the new `*id`. -/
def sHashNext (H : SHash Value) (id : Int) : Option (Nat × SHashKey × Int) :=
  let index := (max 0 id).toNat
  (nextLoop H (H.nelemAlloc - index) index).map fun (found, key) => (found, key, (found : Int) + 1)

/-- `while((p = s_hash_next(hash, &id, &key)))`: the keys and values in the order
they are returned. -/
def iterate (H : SHash Value) : Nat → Int → Option (List (SHashKey × Value))
  | 0, _ => none
  | fuel + 1, id =>
      match sHashNext H id with
      | none => some []
      | some (found, key, next) =>
          (iterate H fuel next).map fun rest => (key, H.val found) :: rest

end

end SimpleDfs.Common
