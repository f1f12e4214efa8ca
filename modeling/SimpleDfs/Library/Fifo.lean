import Mathlib.Data.List.Basic
import Mathlib.Data.List.Perm.Basic
import Mathlib.Tactic.Common

/-!
Contract: packets in flight between endpoints, first in first out for each
ordered pair of endpoints.

Owns: `Packet`, the in-order receipt `takeAt` and its consequences for the set
of packets still in flight.

Does not own: what a packet carries or what a receiver does with it.
-/

set_option autoImplicit false

namespace SimpleDfs.Library

/-- One packet on the channel from `src` to `dst`. -/
structure Packet (Endpoint Body : Type) where
  src : Endpoint
  dst : Endpoint
  body : Body
  deriving DecidableEq, Repr

namespace Packet

variable {Endpoint Body : Type} [DecidableEq Endpoint]

/-- Both packets travel on one channel. -/
def sameChannel (left right : Packet Endpoint Body) : Bool :=
  left.src == right.src && left.dst == right.dst

/-- Take packet number `index` out of the packets in flight, which stand in the
order they were sent.  A packet that an earlier one on its own channel still
precedes cannot be taken. -/
def takeAt (inFlight : List (Packet Endpoint Body)) (index : Nat) :
    Option (Packet Endpoint Body × List (Packet Endpoint Body)) :=
  match inFlight[index]? with
  | none => none
  | some packet =>
      if (inFlight.take index).any (sameChannel packet) then none
      else some (packet, inFlight.eraseIdx index)

theorem perm_of_takeAt {inFlight rest : List (Packet Endpoint Body)} {index : Nat}
    {packet : Packet Endpoint Body} (taken : takeAt inFlight index = some (packet, rest)) :
    inFlight.Perm (packet :: rest) := by
  unfold takeAt at taken
  split at taken
  next => cases taken
  next found present =>
    split at taken
    next => cases taken
    next =>
      obtain ⟨rfl, rfl⟩ := Prod.mk.inj (Option.some.inj taken)
      obtain ⟨below, equal⟩ := List.getElem?_eq_some_iff.mp present
      rw [← equal]
      exact (List.getElem_cons_eraseIdx_perm below).symm

theorem mem_of_takeAt {inFlight rest : List (Packet Endpoint Body)} {index : Nat}
    {packet : Packet Endpoint Body} (taken : takeAt inFlight index = some (packet, rest)) :
    packet ∈ inFlight :=
  (perm_of_takeAt taken).mem_iff.mpr List.mem_cons_self

theorem mem_rest_of_takeAt {inFlight rest : List (Packet Endpoint Body)} {index : Nat}
    {packet other : Packet Endpoint Body} (taken : takeAt inFlight index = some (packet, rest))
    (member : other ∈ rest) : other ∈ inFlight :=
  (perm_of_takeAt taken).mem_iff.mpr (List.mem_cons_of_mem packet member)

end Packet

end SimpleDfs.Library
