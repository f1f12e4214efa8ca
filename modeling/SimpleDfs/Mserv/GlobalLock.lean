import Mathlib.Data.BitVec
import SimpleDfs.Common.Id
import SimpleDfs.Library.Run
import SimpleDfs.Library.Table

/-!
Contract: the global lock of the meta server (`core/s_core_glock_mserv.c`).

Owns: `GlockElem`, the lock part of `struct s_mserver`, the two request
handlers, the replies they send, and the runs of a meta server under any
sequence of requests while clients come and go.

Does not own: the packet encoding of a request; the layout of `glock_elems`,
whose order of iteration is an argument of the unlock handler.
-/

set_option autoImplicit false

namespace SimpleDfs.Mserv

open SimpleDfs.Common
open SimpleDfs.Library

/-- `unsigned int lock`: one bit for each lockable resource. -/
abbrev Mask := BitVec 32

/-- `struct s_glock_elem`. -/
structure GlockElem where
  clientId : Nat
  reqId : BitVec 32
  lock : Mask
  isWaiting : Bool
  deriving DecidableEq, Repr

/-- The global lock part of `struct s_mserver`. -/
structure MServer where
  glock : Mask
  glockElems : Table SId GlockElem

/-- What a reply packet carries: the request's own packet for a lock granted at
once, the lock id for one granted later. -/
inductive GlockBody where
  | echo
  | granted (lockId : SId)
  deriving DecidableEq, Repr

/-- One `s_servg_rpc_ret` of the handlers. -/
structure GlockReply where
  client : Nat
  reqId : BitVec 32
  body : GlockBody
  deriving DecidableEq, Repr

/-- `init_mserv`: nothing locked, nobody waiting. -/
def initMserv : MServer where
  glock := 0#32
  glockElems := ∅

/-- `s_core_mserv_glock`.  The entry of `lock_id` is taken over whatever it
held before. -/
def sCoreMservGlock (mserv : MServer) (id : Nat) (reqId : BitVec 32) (lockId : SId)
    (lock : Mask) : MServer × List GlockReply :=
  let elem : GlockElem := { clientId := id, reqId := reqId, lock := lock, isWaiting := true }
  if mserv.glock &&& lock = 0#32 then
    ({ glock := mserv.glock ||| lock
       glockElems := mserv.glockElems.insert lockId { elem with isWaiting := false } },
      [{ client := id, reqId := reqId, body := .echo }])
  else
    ({ mserv with glockElems := mserv.glockElems.insert lockId elem }, [])

/-- The wake-up loop of `s_core_mserv_glock_unlock` over the keys still to be
visited.  The loop fetches one entry ahead and keeps the fetched key in `key`,
so a reply names the key of the following entry, or its own at the end. -/
def wakeLoop (active : Nat → Bool) : MServer → List SId → MServer × List GlockReply
  | mserv, [] => (mserv, [])
  | mserv, current :: rest =>
      match mserv.glockElems.lookup current with
      | none => wakeLoop active mserv rest
      | some elem =>
          if !elem.isWaiting then
            wakeLoop active mserv rest
          else if mserv.glock &&& elem.lock ≠ 0#32 then
            wakeLoop active mserv rest
          else
            let elems := mserv.glockElems.insert current { elem with isWaiting := false }
            if !active elem.clientId then
              -- the client is gone: the entry is granted, the mask is not taken
              wakeLoop active { mserv with glockElems := elems } rest
            else
              let key := rest.head?.getD current
              let (final, replies) :=
                wakeLoop active { glock := mserv.glock ||| elem.lock, glockElems := elems } rest
              (final, { client := elem.clientId, reqId := elem.reqId, body := .granted key }
                :: replies)

/-- The table and the mask once the entry of `lock_id` is deleted and its lock
cleared. -/
def releaseElem (mserv : MServer) (lockId : SId) (elem : GlockElem) : MServer where
  glock := mserv.glock &&& ~~~elem.lock
  glockElems := mserv.glockElems.erase lockId

/-- `s_core_mserv_glock_unlock`.  `none` is the failed assertion that the
caller owns the entry. -/
def sCoreMservGlockUnlock (active : Nat → Bool) (order : IterOrder SId) (mserv : MServer)
    (id : Nat) (lockId : SId) : Option (MServer × List GlockReply) :=
  match mserv.glockElems.lookup lockId with
  | none => some (mserv, [])
  | some elem =>
      if id = elem.clientId then
        let released := releaseElem mserv lockId elem
        some (wakeLoop active released (order.arrange released.glockElems.keys))
      else
        none

/-! ## Runs of the meta server -/

/-- The meta server with the connections of its clients and the replies it has
sent, newest last. -/
structure GlockWorld where
  mserv : MServer
  connected : Nat → Bool
  replies : List GlockReply

/-- What can happen at the meta server. -/
inductive GlockEvent where
  | glock (client : Nat) (reqId : BitVec 32) (lockId : SId) (lock : Mask)
  | unlock (client : Nat) (lockId : SId) (order : IterOrder SId)
  | connection (client : Nat) (established : Bool)

def GlockWorld.step (world : GlockWorld) : GlockEvent → Option GlockWorld
  | .glock client reqId lockId lock =>
      let (mserv, replies) := sCoreMservGlock world.mserv client reqId lockId lock
      some { world with mserv := mserv, replies := world.replies ++ replies }
  | .unlock client lockId order =>
      match sCoreMservGlockUnlock world.connected order world.mserv client lockId with
      | none => none
      | some (mserv, replies) =>
          some { world with mserv := mserv, replies := world.replies ++ replies }
  | .connection client established =>
      some { world with connected := Function.update world.connected client established }

/-- The runs of a meta server: any requests, any connections, from any set of
clients connected at the start. -/
def glockSystem : System GlockWorld GlockEvent where
  init := fun world => world.mserv = initMserv ∧ world.replies = []
  step := GlockWorld.step

/-! ## Granted entries and the mask -/

/-- The table holds `elem` under `lockId` and has granted it. -/
def Granted (mserv : MServer) (lockId : SId) (elem : GlockElem) : Prop :=
  mserv.glockElems.lookup lockId = some elem ∧ elem.isWaiting = false

/-- The union of the masks of the granted entries. -/
def grantedMask (mserv : MServer) : Mask :=
  mserv.glockElems.entries.foldr
    (fun entry mask => if entry.2.isWaiting then mask else entry.2.lock ||| mask) 0#32

/-- Mutual exclusion of the global lock: granted masks are pairwise disjoint and
`glock` is exactly their union. -/
structure Exclusive (mserv : MServer) : Prop where
  disjoint : ∀ lockId elem other otherElem, Granted mserv lockId elem →
    Granted mserv other otherElem → lockId ≠ other → elem.lock &&& otherElem.lock = 0#32
  exact : mserv.glock = grantedMask mserv

/-- A granted entry that holds one bit. -/
def Holds (mserv : MServer) (bit : Nat) (lockId : SId) : Prop :=
  ∃ elem, Granted mserv lockId elem ∧ elem.lock.getLsbD bit = true

private theorem foldr_mask_getLsbD (bit : Nat) (entries : List (Sigma fun _ : SId => GlockElem)) :
    (entries.foldr
      (fun entry mask => if entry.2.isWaiting then mask else entry.2.lock ||| mask)
      (0#32 : Mask)).getLsbD bit = true ↔
      ∃ entry ∈ entries, entry.2.isWaiting = false ∧ entry.2.lock.getLsbD bit = true := by
  induction entries with
  | nil => simp
  | cons head tail inductionHypothesis =>
      rw [List.foldr_cons]
      cases waiting : head.2.isWaiting with
      | true => simp [waiting, inductionHypothesis]
      | false =>
          simp only [Bool.false_eq_true, if_false, BitVec.getLsbD_or, Bool.or_eq_true,
            inductionHypothesis, List.mem_cons, exists_eq_or_imp, waiting, true_and]

theorem grantedMask_getLsbD (mserv : MServer) (bit : Nat) :
    (grantedMask mserv).getLsbD bit = true ↔ ∃ lockId, Holds mserv bit lockId := by
  rw [grantedMask, foldr_mask_getLsbD]
  constructor
  · rintro ⟨⟨lockId, elem⟩, member, granted, held⟩
    exact ⟨lockId, elem, ⟨AList.mem_lookup_iff.mpr member, granted⟩, held⟩
  · rintro ⟨lockId, elem, ⟨found, granted⟩, held⟩
    exact ⟨⟨lockId, elem⟩, AList.mem_lookup_iff.mp found, granted, held⟩

/-- The same law bit by bit: a bit of `glock` is set exactly if a granted entry
holds it, and no two entries hold one bit. -/
structure BitExclusive (mserv : MServer) : Prop where
  held : ∀ bit, mserv.glock.getLsbD bit = true ↔ ∃ lockId, Holds mserv bit lockId
  unique : ∀ bit lockId other, Holds mserv bit lockId → Holds mserv bit other → lockId = other

theorem and_eq_zero_iff (left right : Mask) :
    left &&& right = 0#32 ↔
      ∀ bit, left.getLsbD bit = true → right.getLsbD bit = true → False := by
  constructor
  · intro empty bit inLeft inRight
    have cleared : (left &&& right).getLsbD bit = false := by rw [empty]; simp
    simp [inLeft, inRight] at cleared
  · intro apart
    apply BitVec.eq_of_getLsbD_eq
    intro bit _
    rw [BitVec.getLsbD_and, BitVec.getLsbD_zero, Bool.and_eq_false_iff]
    by_contra both
    simp only [not_or, Bool.not_eq_false] at both
    exact apart bit both.1 both.2

theorem exclusive_iff_bitExclusive (mserv : MServer) : Exclusive mserv ↔ BitExclusive mserv := by
  constructor
  · intro exclusive
    refine ⟨fun bit => ?_, ?_⟩
    · rw [exclusive.exact, grantedMask_getLsbD]
    · rintro bit lockId other ⟨elem, granted, held⟩ ⟨otherElem, otherGranted, otherHeld⟩
      by_contra different
      have apart := exclusive.disjoint lockId elem other otherElem granted otherGranted different
      exact (and_eq_zero_iff _ _).mp apart bit held otherHeld
  · intro exclusive
    refine ⟨?_, ?_⟩
    · intro lockId elem other otherElem granted otherGranted different
      rw [and_eq_zero_iff]
      intro bit held otherHeld
      exact different (exclusive.unique bit lockId other ⟨elem, granted, held⟩
        ⟨otherElem, otherGranted, otherHeld⟩)
    · apply BitVec.eq_of_getLsbD_eq
      intro bit _
      rw [Bool.eq_iff_iff, exclusive.held, grantedMask_getLsbD]

end SimpleDfs.Mserv
