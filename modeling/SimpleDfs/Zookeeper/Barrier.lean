import Mathlib.Data.List.Basic
import Mathlib.Data.List.Nodup
import Mathlib.Data.List.Perm.Subperm
import SimpleDfs.Zookeeper.LockOrder
import SimpleDfs.Zookeeper.Sync

/-!
Contract: the barrier of processes holds them back and lets them go
(`zookeeper/s_zookeeper.c`).

Owns: what the static buffer holds, where sequence nodes are made, which calls
have made the children that a query counts, and that the calls of one id wait for
each other.

Does not own: runs with slashes in ids, or in which the service refuses a sequence
node to a live session.

The buffer keeps the ends of longer ids, so a sequence node may have part of
another id in its name.  While there is no slash in it the node still stands below
the id of its own call.  A refused sequence node leaves a slash behind.
-/

set_option autoImplicit false

namespace SimpleDfs.Zookeeper

open SimpleDfs.Library

/-! ## Strings in a buffer -/

theorem cString_append {string : Name} (noZero : 0 ∉ string) (buffer : List Nat) :
    cString (string ++ buffer) = string ++ cString buffer := by
  apply List.takeWhile_append_of_pos
  intro char listed
  exact decide_eq_true fun isZero => noZero (isZero ▸ listed)

theorem cString_overwrite {string : Name} (noZero : 0 ∉ string) (buffer : List Nat) :
    cString (overwrite string buffer) = string := by
  unfold overwrite
  rw [cString_append noZero]
  exact List.append_nil string

theorem cString_withSlash {string : Name} (noZero : 0 ∉ string) (buffer : List Nat) :
    cString (withSlash string buffer) =
      string ++ 47 :: cString (buffer.drop (string.length + 1)) := by
  unfold withSlash
  rw [cString_append noZero]
  rfl

theorem not_mem_overwrite {string buffer : Name} (inString : 47 ∉ string) (inBuffer : 47 ∉ buffer) :
    47 ∉ overwrite string buffer := by
  intro listed
  rcases List.mem_append.mp listed with before | behind
  · exact inString before
  · rcases List.mem_cons.mp behind with isZero | left
    · cases isZero
    · exact inBuffer (List.mem_of_mem_drop left)

theorem drop_behind (string buffer : Name) (char : Nat) :
    (string ++ char :: buffer).drop (string.length + 1) = buffer := by
  rw [List.drop_append, List.drop_eq_nil_of_le (Nat.le_succ _), Nat.add_sub_cancel_left]
  rfl

/-! ## The mutex of each process -/

namespace SyncPoint

/-- The call has `sync_m`. -/
def locked : SyncPoint → Bool
  | .createParent => true
  | .createNode => true
  | _ => false

/-- The call has made no node yet. -/
def early : SyncPoint → Bool
  | .trySync => false
  | .returned _ => false
  | _ => true

end SyncPoint

/-- What the buffer holds while a call has the mutex. -/
def PathFits (nodes : List Name) (path : List Nat) (call : SyncCall) : Prop :=
  (call.point = .createParent ∧ ∃ rest, 47 ∉ rest ∧ path = call.id ++ 0 :: rest) ∨
    (call.point = .createNode ∧ call.id ∈ nodes ∧ ∃ rest, 47 ∉ rest ∧ path = call.id ++ 47 :: rest)

/-- The process of a call that has the mutex, and its buffer. -/
structure HasMutex (expired : Nat → Bool) (nodes : List Name) (buffer : List Nat) (process : Nat)
    (call : SyncCall) : Prop where
  client : call.client = process
  locked : call.point.locked = true
  path : expired process = true ∨ PathFits nodes buffer call

/-- One call of a process at a time has the mutex; no slash is left in the buffer
of a live session. -/
structure Locks (calls : Nat → SyncCall) (holder : Nat → Option Nat) (path : Nat → List Nat)
    (expired : Nat → Bool) (nodes : List Name) : Prop where
  mutex : ∀ id, (calls id).point.locked = true → holder (calls id).client = some id
  held : ∀ client id, holder client = some id →
    HasMutex expired nodes (path client) client (calls id)
  free : ∀ client, holder client = none → expired client = true ∨ 47 ∉ path client

section

variable {calls : Nat → SyncCall} {holder : Nat → Option Nat} {path : Nat → List Nat}
variable {expired : Nat → Bool} {nodes more : List Name} {id client : Nat} {call : SyncCall}

theorem HasMutex.mono {buffer : List Nat} {later : Nat → Bool}
    (held : HasMutex expired nodes buffer client call) (grows : nodes ⊆ more)
    (expires : expired client = true → later client = true) :
    HasMutex later more buffer client call where
  client := held.client
  locked := held.locked
  path := held.path.imp expires fun fits =>
    fits.imp_right fun inNode => ⟨inNode.1, grows inNode.2.1, inNode.2.2⟩

/-- A call goes on that does not have the mutex and does not get it. -/
theorem Locks.elsewhere (locks : Locks calls holder path expired nodes)
    (before : (calls id).point.locked = false) (after : call.point.locked = false) :
    Locks (Function.update calls id call) holder path expired nodes where
  mutex := by
    intro other locked
    rw [Function.update_apply] at locked ⊢
    split at locked
    next =>
      rw [after] at locked
      cases locked
    next apart =>
      rw [if_neg apart]
      exact locks.mutex other locked
  held := by
    intro client other held
    have mutex := locks.held client other held
    have apart : other ≠ id := by
      rintro rfl
      have locked := mutex.locked
      rw [before] at locked
      cases locked
    rw [Function.update_of_ne apart]
    exact mutex
  free := locks.free

/-- A call goes on that has the mutex, or gets it. -/
theorem Locks.own (locks : Locks calls holder path expired nodes)
    (same : call.client = (calls id).client)
    (mine : holder (calls id).client = none ∨ holder (calls id).client = some id)
    (grows : nodes ⊆ more) {next : Option Nat} {buffer : List Nat}
    (after : next = some id ∧ HasMutex expired more buffer (calls id).client call ∨
      next = none ∧ call.point.locked = false ∧
        (expired (calls id).client = true ∨ 47 ∉ buffer)) :
    Locks (Function.update calls id call) (Function.update holder (calls id).client next)
      (Function.update path (calls id).client buffer) expired more where
  mutex := by
    intro other locked
    by_cases isSelf : other = id
    · subst isSelf
      rw [Function.update_self] at locked ⊢
      rw [same, Function.update_self]
      rcases after with ⟨isNext, _⟩ | ⟨_, isFree, _⟩
      · exact isNext
      · rw [isFree] at locked
        cases locked
    · rw [Function.update_of_ne isSelf] at locked ⊢
      have holds := locks.mutex other locked
      have apart : (calls other).client ≠ (calls id).client := by
        intro together
        rw [together] at holds
        rcases mine with isFree | isMine
        · rw [isFree] at holds
          cases holds
        · rw [isMine] at holds
          exact isSelf (Option.some.inj holds).symm
      rw [Function.update_of_ne apart]
      exact holds
  held := by
    intro client other held
    by_cases isOwn : client = (calls id).client
    · subst isOwn
      rw [Function.update_self] at held ⊢
      rcases after with ⟨isNext, mutex⟩ | ⟨isNext, _⟩
      · rw [isNext] at held
        rw [← Option.some.inj held, Function.update_self]
        exact mutex
      · rw [isNext] at held
        cases held
    · rw [Function.update_of_ne isOwn] at held ⊢
      have mutex := locks.held client other held
      have apart : other ≠ id := by
        rintro rfl
        exact isOwn mutex.client.symm
      rw [Function.update_of_ne apart]
      exact mutex.mono grows fun isExpired => isExpired
  free := by
    intro client held
    by_cases isOwn : client = (calls id).client
    · subst isOwn
      rw [Function.update_self] at held ⊢
      rcases after with ⟨isNext, _⟩ | ⟨_, _, clean⟩
      · rw [isNext] at held
        cases held
      · exact clean
    · rw [Function.update_of_ne isOwn] at held ⊢
      exact locks.free client held

theorem Locks.expire (locks : Locks calls holder path expired nodes) (client : Nat) :
    Locks calls holder path (Function.update expired client true) nodes := by
  have expires : ∀ other, expired other = true →
      Function.update expired client true other = true := by
    intro other isExpired
    rw [Function.update_apply]
    split
    · rfl
    · exact isExpired
  exact {
    mutex := locks.mutex
    held := fun other id held => (locks.held other id held).mono (List.Subset.refl nodes)
      (expires other)
    free := fun other held => (locks.free other held).imp_left (expires other) }

end

/-! ## The children of a node -/

/-- The children of each node: who has made them, which of those that were made
are still there, and how many others there are. -/
structure Made (former : Name → Nat) (calls : Nat → SyncCall) (expired : Nat → Bool)
    (nodes : List Name) (children : Name → List SyncChild) : Prop where
  made : ∀ directory, ∀ child ∈ children directory, ∀ id, child.maker = some id →
    (calls id).directory = some directory
  kept : ∀ id directory, (calls id).directory = some directory →
    expired (calls id).client = false → ∃ child ∈ children directory, child.maker = some id
  nodup : ∀ directory, ((children directory).filterMap SyncChild.maker).Nodup
  former : ∀ directory, (children directory).countP (fun child => child.maker.isNone) +
    nodes.countP (isBelow directory) ≤ former directory

/-- A call keeps its node. -/
def KeepsNode (before after : SyncCall) : Prop :=
  after.directory = before.directory ∧
    (before.directory ≠ none → after.id = before.id ∧ after.client = before.client)

/-- The children of a node are those that calls have made and the others. -/
theorem length_children (children : List SyncChild) :
    children.length = (children.filterMap SyncChild.maker).length +
      children.countP fun child => child.maker.isNone := by
  induction children with
  | nil => rfl
  | cons child rest inductionHypothesis =>
      rw [List.length_cons, inductionHypothesis]
      cases maker : child.maker with
      | none =>
          rw [List.filterMap_cons_none maker, List.countP_cons_of_pos (by rw [maker]; rfl)]
          omega
      | some id =>
          rw [List.filterMap_cons_some maker, List.countP_cons_of_neg (by rw [maker]; nofun),
            List.length_cons]
          omega

section

variable {former : Name → Nat} {calls : Nat → SyncCall} {expired : Nat → Bool}
variable {nodes more : List Name} {children : Name → List SyncChild} {id : Nat} {call : SyncCall}

theorem KeepsNode.client {before after : SyncCall} (keeps : KeepsNode before after)
    {directory : Name} (made : after.directory = some directory) :
    before.directory = some directory ∧ after.id = before.id ∧ after.client = before.client := by
  have before := keeps.1.symm.trans made
  exact ⟨before, keeps.2 (by rw [before]; nofun)⟩

/-- A call goes on without making a sequence node. -/
theorem Made.update (made : Made former calls expired nodes children)
    (keeps : KeepsNode (calls id) call) (below : ∀ directory,
      more.countP (isBelow directory) = nodes.countP (isBelow directory)) :
    Made former (Function.update calls id call) expired more children where
  made := by
    intro directory child listed other maker
    have before := made.made directory child listed other maker
    rw [Function.update_apply]
    split
    next same =>
      rw [same] at before
      exact keeps.1.trans before
    next => exact before
  kept := by
    intro other directory hasNode live
    rw [Function.update_apply] at hasNode live
    split at hasNode
    next same =>
      rw [if_pos same] at live
      obtain ⟨before, _, client⟩ := keeps.client hasNode
      rw [client] at live
      rw [same]
      exact made.kept id directory before live
    next apart =>
      rw [if_neg apart] at live
      exact made.kept other directory hasNode live
  nodup := made.nodup
  former := by
    intro directory
    rw [below directory]
    exact made.former directory

/-- A call makes its sequence node. -/
theorem Made.create (made : Made former calls expired nodes children)
    (unmade : (calls id).directory = none) {directory : Name} (makes : call.directory = some directory)
    (name : Name) : Made former (Function.update calls id call) expired nodes
      (Function.update children directory
        (children directory ++ [{ name := name, maker := some id }])) where
  made := by
    intro other child listed maker isMaker
    by_cases here : other = directory
    · subst here
      rw [Function.update_self] at listed
      rcases List.mem_append.mp listed with before | new
      · have hasNode := made.made other child before maker isMaker
        have apart : maker ≠ id := by
          rintro rfl
          rw [unmade] at hasNode
          cases hasNode
        rw [Function.update_of_ne apart]
        exact hasNode
      · rw [List.mem_singleton.mp new] at isMaker
        rw [← Option.some.inj isMaker, Function.update_self]
        exact makes
    · rw [Function.update_of_ne here] at listed
      have hasNode := made.made other child listed maker isMaker
      have apart : maker ≠ id := by
        rintro rfl
        rw [unmade] at hasNode
        cases hasNode
      rw [Function.update_of_ne apart]
      exact hasNode
  kept := by
    intro other place hasNode live
    by_cases isSelf : other = id
    · subst isSelf
      rw [Function.update_self, makes] at hasNode
      cases hasNode
      refine ⟨{ name := name, maker := some other }, ?_, rfl⟩
      rw [Function.update_self]
      exact List.mem_append_right _ (List.mem_singleton.mpr rfl)
    · rw [Function.update_of_ne isSelf] at hasNode live
      obtain ⟨child, listed, maker⟩ := made.kept other place hasNode live
      refine ⟨child, ?_, maker⟩
      by_cases here : place = directory
      · subst here
        rw [Function.update_self]
        exact List.mem_append_left _ listed
      · rw [Function.update_of_ne here]
        exact listed
  nodup := by
    intro place
    by_cases here : place = directory
    · subst here
      rw [Function.update_self, List.filterMap_append]
      refine List.Nodup.append (made.nodup place) (List.nodup_singleton id) ?_
      show List.Disjoint _ [id]
      rw [List.disjoint_singleton]
      intro listed
      obtain ⟨child, inChildren, maker⟩ := List.mem_filterMap.mp listed
      have hasNode := made.made place child inChildren id maker
      rw [unmade] at hasNode
      cases hasNode
    · rw [Function.update_of_ne here]
      exact made.nodup place
  former := by
    intro place
    by_cases here : place = directory
    · subst here
      rw [Function.update_self, List.countP_append]
      exact made.former place
    · rw [Function.update_of_ne here]
      exact made.former place

/-- Children are gone, but none of a live session. -/
theorem Made.fewer (made : Made former calls expired nodes children)
    {later : Nat → Bool} {fewer : Name → List SyncChild}
    (sublist : ∀ directory, (fewer directory).Sublist (children directory))
    (kept : ∀ directory, ∀ child ∈ children directory, ∀ id, child.maker = some id →
      later (calls id).client = false → child ∈ fewer directory)
    (expires : ∀ client, later client = false → expired client = false) :
    Made former calls later nodes fewer where
  made := fun directory child listed => made.made directory child ((sublist directory).subset listed)
  kept := by
    intro id directory hasNode live
    obtain ⟨child, listed, maker⟩ := made.kept id directory hasNode (expires _ live)
    exact ⟨child, kept directory child listed id maker live, maker⟩
  nodup := fun directory => (made.nodup directory).sublist ((sublist directory).filterMap _)
  former := fun directory => (Nat.add_le_add_right ((sublist directory).countP_le) _).trans
    (made.former directory)

end

/-! ## The invariant -/

/-- What a call knows of itself. -/
structure SyncCall.Fits (call : SyncCall) : Prop where
  early : call.point.early = true → call.directory = none
  named : call.point ≠ .idle → 47 ∉ call.id ∧ 0 ∉ call.id
  own : ∀ directory, call.directory = some directory → directory = call.id
  skips : call.point = .returned false →
    call.tooLong = true ∨ call.id = [] ∨ call.refused = true

/-- The call left the loop when enough others with its id had made their nodes. -/
def SyncWorld.Waited (world : SyncWorld) (former : Name → Nat) (call : SyncCall) : Prop :=
  ∃ entered : List Nat, entered.Nodup ∧ (∀ other ∈ entered, world.HasEntered call.id other) ∧
    call.nprocess ≤ (entered.length + former call.id : Nat)

structure SyncWorld.Ordered (former : Name → Nat) (world : SyncWorld) : Prop where
  calls : ∀ id, (world.calls id).Fits
  locks : Locks world.calls world.holder world.path world.expired world.nodes
  made : Made former world.calls world.expired world.nodes world.children
  waited : ∀ id, (world.calls id).point = .returned true → world.Waited former (world.calls id)

namespace SyncWorld

variable {former : Name → Nat} {world after : SyncWorld} {id : Nat} {call : SyncCall}

theorem HasEntered.update {name : Name} {other : Nat} (entered : world.HasEntered name other)
    (calls : after.calls = Function.update world.calls id call)
    (keeps : (world.calls id).directory ≠ none →
      call.directory = (world.calls id).directory ∧ call.id = (world.calls id).id) :
    after.HasEntered name other := by
  unfold SyncWorld.HasEntered
  rw [calls]
  by_cases isSelf : other = id
  · subst isSelf
    rw [Function.update_self]
    obtain ⟨sameDirectory, sameId⟩ := keeps (by rw [entered.2]; nofun)
    rw [sameDirectory, sameId]
    exact entered
  · rw [Function.update_of_ne isSelf]
    exact entered

/-- **The step of one call.**  Its node, the locks and the children are those of
the lemmas above. -/
theorem Ordered.update (ordered : world.Ordered former)
    (calls : after.calls = Function.update world.calls id call) (fits : call.Fits)
    (locks : Locks (Function.update world.calls id call) after.holder after.path after.expired
      after.nodes)
    (made : Made former (Function.update world.calls id call) after.expired after.nodes
      after.children)
    (keeps : (world.calls id).directory ≠ none →
      call.directory = (world.calls id).directory ∧ call.id = (world.calls id).id)
    (waited : call.point = .returned true → world.Waited former call) : after.Ordered former := by
  refine ⟨?_, by rw [calls]; exact locks, by rw [calls]; exact made, ?_⟩
  · intro other
    rw [calls, Function.update_apply]
    split
    · exact fits
    · exact ordered.calls other
  · intro other returned
    have before : world.Waited former (after.calls other) := by
      rw [calls, Function.update_apply] at returned ⊢
      split at returned
      next same =>
        rw [if_pos same]
        exact waited returned
      next apart =>
        rw [if_neg apart]
        exact ordered.waited other returned
    obtain ⟨entered, distinct, inside, enough⟩ := before
    exact ⟨entered, distinct, fun member listed => (inside member listed).update calls keeps,
      enough⟩

/-- Enough children are enough calls that have made their nodes. -/
theorem Ordered.counted (ordered : world.Ordered former) {name : Name} {bound : Int}
    (enough : bound ≤ (world.count name : Nat)) : ∃ entered : List Nat, entered.Nodup ∧
      (∀ other ∈ entered, world.HasEntered name other) ∧
      bound ≤ (entered.length + former name : Nat) := by
  refine ⟨(world.children name).filterMap SyncChild.maker, ordered.made.nodup name, ?_, ?_⟩
  · intro other listed
    obtain ⟨child, inChildren, maker⟩ := List.mem_filterMap.mp listed
    have hasNode := ordered.made.made name child inChildren other maker
    exact ⟨((ordered.calls other).own name hasNode).symm, hasNode⟩
  · have others := ordered.made.former name
    have total := length_children (world.children name)
    unfold SyncWorld.count at enough
    omega

/-- The calls that have made their nodes are among the children. -/
theorem Ordered.count_ge (ordered : world.Ordered former) {name : Name} {entered : List Nat}
    (distinct : entered.Nodup) (inside : ∀ other ∈ entered, world.HasEntered name other ∧
      world.expired (world.calls other).client = false) :
    entered.length ≤ world.count name := by
  have among : entered ⊆ (world.children name).filterMap SyncChild.maker := by
    intro other listed
    obtain ⟨⟨_, hasNode⟩, live⟩ := inside other listed
    obtain ⟨child, inChildren, maker⟩ := ordered.made.kept other name hasNode live
    exact List.mem_filterMap.mpr ⟨child, inChildren, maker⟩
  have shorter := (List.subperm_of_subset distinct among).length_le
  have total := length_children (world.children name)
  unfold SyncWorld.count
  omega

/-! ### The events -/

/-- A call that has no node goes on without the mutex. -/
theorem Ordered.called (ordered : world.Ordered former) {client : Nat} {name : Name} {nprocess : Int}
    (idle : (world.calls id).point = .idle) (noSlash : 47 ∉ name) (noZero : 0 ∉ name) :
    (world.setCall id { SyncCall.fresh with
      client := client, id := name, nprocess := nprocess, point := .lockSync }).Ordered former := by
  have noNode : (world.calls id).directory = none := (ordered.calls id).early (by rw [idle]; rfl)
  refine ordered.update rfl ?_ ?_ ?_ ?_ nofun
  · exact ⟨fun _ => rfl, fun _ => ⟨noSlash, noZero⟩, nofun, nofun⟩
  · exact ordered.locks.elsewhere (by rw [idle]; rfl) rfl
  · refine ordered.made.update ⟨noNode.symm, fun hasNode => absurd noNode hasNode⟩ fun _ => rfl
  · exact fun hasNode => absurd noNode hasNode

/-- The id is too long. -/
theorem Ordered.tooLong (ordered : world.Ordered former)
    (here : (world.calls id).point = .lockSync) (long : (world.calls id).tooLong = true) :
    (world.setCall id ((world.calls id).goTo (.returned false))).Ordered former := by
  have fits := ordered.calls id
  refine ordered.update rfl ?_ ?_ ?_ (fun _ => ⟨rfl, rfl⟩) nofun
  · exact ⟨nofun, fun _ => fits.named (by rw [here]; nofun), fits.own, fun _ => Or.inl long⟩
  · exact ordered.locks.elsewhere (by rw [here]; rfl) rfl
  · exact ordered.made.update ⟨rfl, fun _ => ⟨rfl, rfl⟩⟩ fun _ => rfl

theorem Ordered.takeLock (ordered : world.Ordered former)
    (here : (world.calls id).point = .lockSync) (isFree : world.holder (world.calls id).client = none) :
    (world.takeLock id).Ordered former := by
  have fits := ordered.calls id
  obtain ⟨noSlash, noZero⟩ := fits.named (by rw [here]; nofun)
  refine ordered.update rfl ?_ ?_ ?_ (fun _ => ⟨rfl, rfl⟩) nofun
  · exact ⟨fun _ => fits.early (by rw [here]; rfl), fun _ => ⟨noSlash, noZero⟩, fits.own, nofun⟩
  · have same : ((world.calls id).goTo .createParent).client = (world.calls id).client := rfl
    refine ordered.locks.own same (Or.inl isFree) (List.Subset.refl _) (Or.inl ⟨rfl, rfl, rfl, ?_⟩)
    refine (ordered.locks.free _ isFree).imp_right fun clean => Or.inl ⟨rfl, _, ?_, rfl⟩
    exact fun listed => clean (List.mem_of_mem_drop listed)
  · exact ordered.made.update ⟨rfl, fun _ => ⟨rfl, rfl⟩⟩ fun _ => rfl

/-- `label_end`, for a request that is refused or an id that is no node. -/
theorem Ordered.giveUp (ordered : world.Ordered former) {ok : Bool}
    (locked : (world.calls id).point.locked = true)
    (clean : world.expired (world.calls id).client = true ∨
      47 ∉ world.path (world.calls id).client)
    (why : (world.calls id).id = [] ∨ world.answers (world.calls id).client ok = false) :
    (world.giveUp id ok).Ordered former := by
  have fits := ordered.calls id
  have busy : (world.calls id).point ≠ .idle := by
    intro idle
    rw [idle] at locked
    cases locked
  refine ordered.update rfl ?_ ?_ ?_ (fun _ => ⟨rfl, rfl⟩) nofun
  · refine ⟨nofun, fun _ => fits.named busy, fits.own, fun _ => Or.inr (why.imp_right ?_)⟩
    intro refused
    show (!world.answers (world.calls id).client ok) = true
    rw [refused]
    rfl
  · have same : ({ (world.calls id).goTo (.returned false) with
        refused := !world.answers (world.calls id).client ok } : SyncCall).client =
          (world.calls id).client := rfl
    have locks := ordered.locks.own same (Or.inr (ordered.locks.mutex id locked))
      (List.Subset.refl _) (Or.inr ⟨rfl, rfl, clean⟩)
    rw [Function.update_eq_self] at locks
    exact locks
  · exact ordered.made.update ⟨rfl, fun _ => ⟨rfl, rfl⟩⟩ fun _ => rfl

/-- The buffer of a live session holds the id, and no slash behind it. -/
theorem Ordered.parentBuffer (ordered : world.Ordered former)
    (here : (world.calls id).point = .createParent)
    (live : world.expired (world.calls id).client = false) :
    (∃ rest, 47 ∉ rest ∧
      world.path (world.calls id).client = (world.calls id).id ++ 0 :: rest) ∧
      cString (world.path (world.calls id).client) = (world.calls id).id := by
  obtain ⟨_, noZero⟩ := (ordered.calls id).named (by rw [here]; nofun)
  have holder := ordered.locks.mutex id (by rw [here]; rfl)
  rcases (ordered.locks.held _ id holder).path with
    expired | ⟨_, rest, clean, buffer⟩ | ⟨elsewhere, _⟩
  · rw [live] at expired
    cases expired
  · refine ⟨⟨rest, clean, buffer⟩, ?_⟩
    rw [buffer, cString_append noZero]
    exact List.append_nil _
  · rw [here] at elsewhere
    cases elsewhere

theorem Ordered.parentCreated (ordered : world.Ordered former)
    (here : (world.calls id).point = .createParent)
    (live : world.expired (world.calls id).client = false) :
    (world.parentCreated id (cString (world.path (world.calls id).client))).Ordered former := by
  have fits := ordered.calls id
  have locked : (world.calls id).point.locked = true := by
    rw [here]
    rfl
  obtain ⟨noSlash, noZero⟩ := fits.named (by rw [here]; nofun)
  have holder := ordered.locks.mutex id locked
  obtain ⟨⟨rest, clean, buffer⟩, string⟩ := ordered.parentBuffer here live
  have grows : world.nodes ⊆ (world.parentCreated id (world.calls id).id).nodes := by
    unfold SyncWorld.parentCreated
    dsimp only
    split
    · exact List.Subset.refl _
    · exact List.subset_append_left _ _
  have member : (world.calls id).id ∈ (world.parentCreated id (world.calls id).id).nodes := by
    unfold SyncWorld.parentCreated
    dsimp only
    split
    next exist => exact List.contains_iff_mem.mp exist
    next => exact List.mem_append_right _ (List.mem_singleton.mpr rfl)
  rw [string]
  refine ordered.update rfl ?_ ?_ ?_ (fun _ => ⟨rfl, rfl⟩) nofun
  · exact ⟨fun _ => fits.early (by rw [here]; rfl), fun _ => ⟨noSlash, noZero⟩, fits.own, nofun⟩
  · have same : ((world.calls id).goTo .createNode).client = (world.calls id).client := rfl
    have fitting : PathFits (world.parentCreated id (world.calls id).id).nodes
        (withSlash (world.calls id).id (world.path (world.calls id).client))
        ((world.calls id).goTo .createNode) := by
      refine Or.inr ⟨rfl, member, rest, clean, ?_⟩
      rw [buffer, withSlash, drop_behind]
      rfl
    have locks := ordered.locks.own same (Or.inr holder) grows
      (Or.inl ⟨rfl, rfl, rfl, Or.inr fitting⟩)
    have sameHolder : Function.update world.holder (world.calls id).client (some id) =
        world.holder :=
      Function.update_eq_self_iff.mpr holder.symm
    rw [sameHolder] at locks
    exact locks
  · refine ordered.made.update ⟨rfl, fun _ => ⟨rfl, rfl⟩⟩ fun directory => ?_
    unfold SyncWorld.parentCreated
    dsimp only
    split
    · rfl
    · have notBelow : isBelow directory (world.calls id).id = false := by
        unfold isBelow
        rw [splitPath_none noSlash]
        rfl
      rw [List.countP_append, List.countP_singleton, notBelow]
      rfl

theorem Ordered.nodeCreated (ordered : world.Ordered former)
    (here : (world.calls id).point = .createNode)
    (live : world.expired (world.calls id).client = false) :
    ∃ last, world.sequencePlace (cString (world.path (world.calls id).client)) =
      some ((world.calls id).id, last) ∧
        ∀ name, (world.nodeCreated id (world.calls id).id name).Ordered former := by
  have fits := ordered.calls id
  have locked : (world.calls id).point.locked = true := by
    rw [here]
    rfl
  obtain ⟨noSlash, noZero⟩ := fits.named (by rw [here]; nofun)
  have holder := ordered.locks.mutex id locked
  obtain ⟨exist, rest, clean, buffer⟩ : (world.calls id).id ∈ world.nodes ∧ ∃ rest, 47 ∉ rest ∧
      world.path (world.calls id).client = (world.calls id).id ++ 47 :: rest := by
    rcases (ordered.locks.held _ id holder).path with expired | ⟨elsewhere, _⟩ | ⟨_, inBuffer⟩
    · rw [live] at expired
      cases expired
    · rw [here] at elsewhere
      cases elsewhere
    · exact inBuffer
  have string : cString (world.path (world.calls id).client) =
      (world.calls id).id ++ 47 :: cString rest := by
    rw [buffer, cString_append noZero]
    rfl
  have noSlashBehind : 47 ∉ cString rest := fun listed => clean ((List.takeWhile_sublist _).subset listed)
  refine ⟨cString rest, ?_, ?_⟩
  · unfold SyncWorld.sequencePlace
    rw [string, splitPath_append _ noSlashBehind]
    exact Option.filter_some_pos (List.contains_iff_mem.mpr exist)
  · intro name
    have noNode : (world.calls id).directory = none := fits.early (by rw [here]; rfl)
    refine ordered.update rfl ?_ ?_ ?_ (fun hasNode => absurd noNode hasNode) nofun
    · refine ⟨nofun, fun _ => ⟨noSlash, noZero⟩, ?_, nofun⟩
      intro directory hasNode
      exact (Option.some.inj hasNode).symm
    · have same : ({ (world.calls id).goTo .trySync with
          directory := some (world.calls id).id } : SyncCall).client = (world.calls id).client := rfl
      refine ordered.locks.own same (Or.inr holder) (List.Subset.refl _)
        (Or.inr ⟨rfl, rfl, Or.inr ?_⟩)
      rw [buffer, overwrite, drop_behind]
      intro listed
      rcases List.mem_append.mp listed with before | behind
      · exact noSlash before
      · rcases List.mem_cons.mp behind with isZero | left
        · cases isZero
        · exact clean left
    · exact ordered.made.create noNode rfl name

/-- A call leaves the loop. -/
theorem Ordered.synced (ordered : world.Ordered former)
    (here : (world.calls id).point = .trySync)
    (enough : (world.calls id).nprocess ≤ (world.count (world.calls id).id : Nat)) :
    (world.setCall id ((world.calls id).goTo (.returned true))).Ordered former := by
  have fits := ordered.calls id
  refine ordered.update rfl ?_ ?_ ?_ (fun _ => ⟨rfl, rfl⟩) ?_
  · exact ⟨nofun, fun _ => fits.named (by rw [here]; nofun), fits.own, nofun⟩
  · exact ordered.locks.elsewhere (by rw [here]; rfl) rfl
  · exact ordered.made.update ⟨rfl, fun _ => ⟨rfl, rfl⟩⟩ fun _ => rfl
  · exact fun _ => ordered.counted enough

theorem Ordered.expire (ordered : world.Ordered former) (client : Nat) :
    (world.expire client).Ordered former where
  calls := ordered.calls
  locks := ordered.locks.expire client
  made := by
    have later : ∀ other, Function.update world.expired client true other = false →
        other ≠ client ∧ world.expired other = false := by
      intro other live
      rw [Function.update_apply] at live
      split at live
      · cases live
      next apart => exact ⟨apart, live⟩
    refine ordered.made.fewer (fun _ => List.filter_sublist) ?_ fun other live => (later other live).2
    intro directory child listed maker isMaker live
    refine List.mem_filter.mpr ⟨listed, ?_⟩
    rw [isMaker]
    exact bne_iff_ne.mpr (later _ live).1
  waited := ordered.waited

theorem Ordered.vanish (ordered : world.Ordered former) (directory : Name) :
    (world.vanish directory).Ordered former where
  calls := ordered.calls
  locks := ordered.locks
  made := by
    refine ordered.made.fewer ?_ ?_ fun _ live => live
    · intro place
      unfold SyncWorld.vanish
      dsimp only
      rw [Function.update_apply]
      split
      next same =>
        rw [same]
        exact List.filter_sublist
      next => exact List.Sublist.refl _
    · intro place child listed id isMaker _
      unfold SyncWorld.vanish
      dsimp only
      rw [Function.update_apply]
      split
      next same =>
        rw [same] at listed
        exact List.mem_filter.mpr ⟨listed, by rw [isMaker]; rfl⟩
      next => exact listed
  waited := ordered.waited

end SyncWorld

/-! ## Runs -/

namespace SyncWorld

variable {former : Name → Nat} {world after : SyncWorld}

/-- A request of a call that has the mutex fails. -/
theorem Ordered.refused (ordered : world.Ordered former) {id : Nat} {ok : Bool}
    (locked : (world.calls id).point.locked = true)
    (safe : (world.calls id).point = .createNode → world.expired (world.calls id).client = true)
    (why : (world.calls id).id = [] ∨ world.answers (world.calls id).client ok = false) :
    (world.giveUp id ok).Ordered former := by
  refine ordered.giveUp locked ?_ why
  have holder := ordered.locks.mutex id locked
  rcases (ordered.locks.held _ id holder).path with expired | ⟨here, rest, clean, buffer⟩ | ⟨here, _⟩
  · exact Or.inl expired
  · right
    have busy : (world.calls id).point ≠ .idle := by
      rw [here]
      nofun
    rw [buffer]
    intro listed
    rcases List.mem_append.mp listed with inId | behind
    · exact ((ordered.calls id).named busy).1 inId
    · rcases List.mem_cons.mp behind with isZero | left
      · cases isZero
      · exact clean left
  · exact Or.inl (safe here)

theorem Ordered.step (ordered : world.Ordered former) {event : SyncEvent}
    (orderly : syncOrderly world event = true) (stepped : world.step event = some after) :
    after.Ordered former := by
  cases event with
  | call id client name nprocess =>
      simp only [SyncWorld.step] at stepped
      split at stepped
      next ready =>
        cases stepped
        exact ordered.called ready.1 (of_decide_eq_true orderly) ready.2
      next => cases stepped
  | lockSync id =>
      simp only [SyncWorld.step] at stepped
      split at stepped
      next ready =>
        split at stepped
        next long =>
          cases stepped
          exact ordered.tooLong ready.1 long
        next =>
          cases stepped
          exact ordered.takeLock ready.1 ready.2
      next => cases stepped
  | createParent id ok =>
      simp only [SyncWorld.step] at stepped
      split at stepped
      next here =>
        have locked : (world.calls id).point.locked = true := by
          rw [here]
          rfl
        split at stepped
        next answered =>
          cases stepped
          obtain ⟨answers, _⟩ := Bool.and_eq_true_iff.mp answered
          obtain ⟨_, live⟩ := Bool.and_eq_true_iff.mp answers
          exact ordered.parentCreated here (Bool.not_eq_true' _ ▸ live)
        next refused =>
          cases stepped
          refine ordered.refused locked (fun elsewhere => by rw [here] at elsewhere; cases elsewhere) ?_
          by_cases answers : world.answers (world.calls id).client ok = true
          · obtain ⟨_, live⟩ := Bool.and_eq_true_iff.mp answers
            obtain ⟨noSlash, _⟩ := (ordered.calls id).named (by rw [here]; nofun)
            have string := (ordered.parentBuffer here (Bool.not_eq_true' _ ▸ live)).2
            rw [answers, string] at refused
            unfold SyncWorld.canCreate at refused
            rw [splitPath_none noSlash] at refused
            left
            by_contra filled
            simp [filled] at refused
          · exact Or.inr (Bool.eq_false_iff.mpr answers)
      next => cases stepped
  | createNode id ok seq =>
      simp only [SyncWorld.step] at stepped
      split at stepped
      next here =>
        have locked : (world.calls id).point.locked = true := by
          rw [here]
          rfl
        cases live : world.expired (world.calls id).client with
        | false =>
            obtain ⟨last, place, creates⟩ := ordered.nodeCreated here live
            have answers : world.answers (world.calls id).client ok = true := by
              have isOk : (ok || world.expired (world.calls id).client) = true := orderly
              rw [live, Bool.or_false] at isOk
              unfold SyncWorld.answers
              rw [isOk, live]
              rfl
            have placed : (some ((world.calls id).id, last)).filter
                (fun _ => world.answers (world.calls id).client ok) =
                  some ((world.calls id).id, last) := Option.filter_some_pos answers
            rw [place, placed] at stepped
            cases stepped
            exact creates _
        | true =>
            have answers : world.answers (world.calls id).client ok = false := by
              unfold SyncWorld.answers
              rw [live]
              exact Bool.and_false ok
            have nothing : (world.sequencePlace (cString (world.path (world.calls id).client))).filter
                (fun _ => world.answers (world.calls id).client ok) = none := by
              rw [answers]
              exact Option.filter_eq_none_iff.mpr nofun
            rw [nothing] at stepped
            cases stepped
            exact ordered.refused locked (fun _ => live) (Or.inr answers)
      next => cases stepped
  | trySync id ok =>
      simp only [SyncWorld.step] at stepped
      split at stepped
      next here =>
        split at stepped
        next answered =>
          cases stepped
          exact ordered.synced here (of_decide_eq_true (Bool.and_eq_true_iff.mp answered).2)
        next =>
          cases stepped
          exact ordered
      next => cases stepped
  | expire client =>
      cases stepped
      exact ordered.expire client
  | vanish directory =>
      cases stepped
      exact ordered.vanish directory

theorem Initial.ordered (initial : world.Initial former) : world.Ordered former where
  calls := by
    intro id
    rw [initial.calls id]
    exact ⟨fun _ => rfl, fun busy => absurd rfl busy, nofun, nofun⟩
  locks := by
    refine ⟨?_, ?_, ?_⟩
    · intro id locked
      rw [initial.calls id] at locked
      cases locked
    · intro client id held
      rw [initial.holder client] at held
      cases held
    · intro client _
      rw [initial.path client]
      exact Or.inr fun listed => absurd (List.eq_of_mem_replicate listed) nofun
  made := by
    refine ⟨?_, ?_, ?_, ?_⟩
    · intro directory child listed id maker
      rw [initial.makers directory child listed] at maker
      cases maker
    · intro id directory hasNode
      rw [initial.calls id] at hasNode
      cases hasNode
    · intro directory
      have nobody : (world.children directory).filterMap SyncChild.maker = [] :=
        List.filterMap_eq_nil_iff.mpr (initial.makers directory)
      rw [nobody]
      exact List.nodup_nil
    · intro directory
      exact (Nat.add_le_add_right List.countP_le_length _).trans (initial.former directory)
  waited := by
    intro id returned
    rw [initial.calls id] at returned
    cases returned

theorem Ordered.synchronizes (ordered : world.Ordered former) : world.Synchronizes former where
  waits := ordered.waited
  leaves := by
    intro id entered here live distinct inside enough
    have counted := ordered.count_ge distinct inside
    have answered : (world.answers (world.calls id).client true &&
        decide ((world.calls id).nprocess ≤ (world.count (world.calls id).id : Nat))) = true := by
      unfold SyncWorld.answers
      rw [live]
      exact decide_eq_true (Int.le_trans enough (Int.ofNat_le.mpr counted))
    simp only [SyncWorld.step]
    rw [if_pos here, if_pos answered]
  skips := fun id => (ordered.calls id).skips

end SyncWorld

/-- **The barrier**: with ids that have no slash, and sequence nodes that are not
refused to live sessions, the calls of each id wait for each other. -/
theorem sync_synchronizes (former : Name → Nat) {world : SyncWorld}
    (reached : (syncSystem former).ReachableVia (fun world event => syncOrderly world event = true)
      world) : world.Synchronizes former := by
  have ordered : world.Ordered former := by
    refine reached.invariant (SyncWorld.Ordered former) (fun _ initial => initial.ordered) ?_
    exact fun _ _ _ _ ordered orderly stepped => ordered.step orderly stepped
  exact ordered.synchronizes

/-- A service without nodes. -/
def emptySync : SyncWorld where
  calls := fun _ => SyncCall.fresh
  holder := fun _ => none
  path := fun _ => List.replicate (maxFilenameLen - syncRootLen - 1) 0
  expired := fun _ => false
  nodes := []
  children := fun _ => []

theorem initial_emptySync : emptySync.Initial fun _ => 0 :=
  ⟨fun _ => rfl, fun _ => rfl, fun _ => rfl, fun _ => rfl, fun _ _ => nofun, fun _ => Nat.le_refl _⟩

/-- Two processes meet at "a". -/
def meeting : List SyncEvent :=
  [.call 0 0 [97] 2, .lockSync 0, .createParent 0 true, .createNode 0 true 0, .trySync 0 true,
    .call 1 1 [97] 2, .lockSync 1, .createParent 1 true, .createNode 1 true 1, .trySync 0 true]

theorem sync_synchronizes_meeting :
    (((syncSystem fun _ => 0).outcome emptySync meeting).calls 0).point = .returned true ∧
      ((syncSystem fun _ => 0).outcome emptySync meeting).Synchronizes fun _ => 0 :=
  ⟨by decide +kernel, sync_synchronizes _
    (System.reachableVia_outcome initial_emptySync meeting (by decide +kernel))⟩

/-- A sequence node of "ab" is refused and leaves a slash in the buffer, so the
next call of the process, for "a", does not wait for the second process. -/
theorem sync_skips_behind_refusal : ∃ world : SyncWorld, (syncSystem fun _ => 0).Reachable world ∧
    (world.calls 1).nprocess = 2 ∧ ¬ world.Synchronizes fun _ => 0 := by
  refine ⟨(syncSystem fun _ => 0).outcome emptySync
    [.call 0 0 [97, 98] 2, .lockSync 0, .createParent 0 true, .createNode 0 false 0,
      .call 1 0 [97] 2, .lockSync 1, .createParent 1 true, .createNode 1 true 0],
    System.reachable_outcome initial_emptySync _, by decide +kernel, ?_⟩
  intro synchronizes
  have skips := synchronizes.skips 1 (by decide +kernel)
  revert skips
  decide +kernel

end SimpleDfs.Zookeeper
