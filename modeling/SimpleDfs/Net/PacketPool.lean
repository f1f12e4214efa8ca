import Mathlib.Logic.Function.Basic
import SimpleDfs.Library.Run
import SimpleDfs.Net.TypedFields

/-!
Contract: the memory of packets, which is used again (`net/s_packet.c`).

Owns: the free lists, references and their holders, the calls on a packet with
what they leave of it when they fail, and over all runs: the position and the
size stay in the memory of the packet, no byte from the size on is written, and
a packet that is referenced is on no free list and is not handed out again.

Does not own: who calls; counts of references beyond an `int`.

`s_malloc` never returns memory that is in use, and packets are never given back
to it.
-/

set_option autoImplicit false

namespace SimpleDfs.Net

open SimpleDfs.Library

/-! ## One packet -/

/-- A call on a packet that is not about references. -/
inductive Access where
  | seek (offset : Int)
  | read (type : FieldType)
  | write (field : TypedField)
  | head (call : HeadCall)

/-- The packet after a read; a string whose length has been read is passed over
by its length only, if the rest of it is missing. -/
def FieldType.leave (pkt : SPacket) (type : FieldType) : SPacket :=
  match type.read pkt, type with
  | some (_, after), _ => after
  | none, .string => ((sPacketReadShort pkt).map Prod.snd).getD pkt
  | none, _ => pkt

/-- The packet after a call, whether it succeeds or not. -/
def Access.run (stray : BitVec 32) (pkt : SPacket) : Access → SPacket
  | .seek offset => sPacketSeek pkt offset
  | .read type => type.leave pkt
  | .write field => (field.write pkt).getD pkt
  | .head call => (call.run stray pkt).1

/-- The position is behind the head, and all of the packet in its memory. -/
structure InMemory (pkt : SPacket) : Prop where
  lower : sPktHeadSize ≤ pkt.pos
  upper : pkt.pos ≤ pkt.size
  size : pkt.size ≤ (12 + 2 ^ pkt.exp : Nat)
  memory : pkt.data.length = 12 + 2 ^ pkt.exp

/-- The packet is the same from its size on, and in what is not its position. -/
structure SameBeyond (pkt after : SPacket) : Prop where
  size : after.size = pkt.size
  exp : after.exp = pkt.exp
  refCount : after.refCount = pkt.refCount
  memory : after.data.length = pkt.data.length
  beyond : after.data.drop pkt.size.toNat = pkt.data.drop pkt.size.toNat

/-- What a call may do. -/
structure Proper (pkt after : SPacket) : Prop where
  inMemory : InMemory after
  same : SameBeyond pkt after

theorem SameBeyond.refl (pkt : SPacket) : SameBeyond pkt pkt :=
  ⟨rfl, rfl, rfl, rfl, rfl⟩

theorem SameBeyond.trans {first second third : SPacket} (one : SameBeyond first second)
    (two : SameBeyond second third) : SameBeyond first third where
  size := two.size.trans one.size
  exp := two.exp.trans one.exp
  refCount := two.refCount.trans one.refCount
  memory := two.memory.trans one.memory
  beyond := by
    rw [← one.size, two.beyond, one.size, one.beyond]

theorem InMemory.proper {pkt : SPacket} (inMemory : InMemory pkt) : Proper pkt pkt :=
  ⟨inMemory, .refl pkt⟩

theorem Proper.trans {first second third : SPacket} (one : Proper first second)
    (two : Proper second third) : Proper first third :=
  ⟨two.inMemory, one.same.trans two.same⟩

section

variable {pkt : SPacket}

/-- The position may go anywhere in the packet. -/
theorem InMemory.moved (inMemory : InMemory pkt) {pos : Int} (lower : sPktHeadSize ≤ pos)
    (upper : pos ≤ pkt.size) : Proper pkt { pkt with pos := pos } :=
  ⟨⟨lower, upper, inMemory.size, inMemory.memory⟩, ⟨rfl, rfl, rfl, rfl, rfl⟩⟩

/-- Bytes before the size may be written. -/
theorem InMemory.stored (inMemory : InMemory pkt) {start : Nat} {bytes : List UInt8}
    (inside : (start : Int) + bytes.length ≤ pkt.size) :
    Proper pkt { pkt with data := Library.overwrite pkt.data start bytes } := by
  have size := inMemory.size
  have memory := inMemory.memory
  have fits : start + bytes.length ≤ pkt.data.length := by
    rw [memory]
    omega
  have length := Library.overwrite_length fits
  exact ⟨⟨inMemory.lower, inMemory.upper, size, length.trans memory⟩,
    ⟨rfl, rfl, rfl, length, drop_overwrite fits (by omega)⟩⟩

/-- A write that succeeds. -/
theorem InMemory.write (inMemory : InMemory pkt) {bytes : List UInt8} {after : SPacket}
    (wrote : pkt.write bytes = some after) : Proper pkt after := by
  have lower := inMemory.lower
  unfold SPacket.write at wrote
  split at wrote
  · cases wrote
  next inside =>
    cases Option.some.inj wrote
    unfold sPktHeadSize at lower
    have start : (pkt.pos.toNat : Int) + bytes.length ≤ pkt.size := by omega
    have stored := inMemory.stored start
    refine stored.trans (stored.inMemory.moved ?_ ?_)
    · unfold sPktHeadSize
      omega
    · dsimp only
      omega

/-- A read that succeeds. -/
theorem InMemory.read (inMemory : InMemory pkt) {count : Nat} {bytes : List UInt8}
    {after : SPacket} (read : pkt.read count = some (bytes, after)) : Proper pkt after := by
  have lower := inMemory.lower
  unfold SPacket.read at read
  split at read
  · cases read
  next inside =>
    cases (Prod.mk.inj (Option.some.inj read)).2
    exact inMemory.moved (by omega) (by omega)

theorem InMemory.readShort (inMemory : InMemory pkt) {short : Int} {after : SPacket}
    (read : sPacketReadShort pkt = some (short, after)) : Proper pkt after := by
  unfold sPacketReadShort sPacketReadUshort at read
  simp only [Option.map_map, Option.map_eq_some_iff] at read
  obtain ⟨⟨bytes, next⟩, readBytes, same⟩ := read
  cases (Prod.mk.inj same).2
  exact inMemory.read readBytes

theorem InMemory.readString (inMemory : InMemory pkt) {text : List UInt8} {after : SPacket}
    (read : sPacketReadString pkt = some (text, after)) : Proper pkt after := by
  unfold sPacketReadString at read
  split at read
  · cases read
  next len counted readLength =>
    have first := inMemory.readShort readLength
    split at read
    · cases read
    · exact first.trans (first.inMemory.read read)

theorem InMemory.readField (inMemory : InMemory pkt) {type : FieldType} {field : TypedField}
    {after : SPacket} (read : type.read pkt = some (field, after)) : Proper pkt after := by
  cases type with
  | string =>
      obtain ⟨⟨text, next⟩, readText, same⟩ := Option.map_eq_some_iff.mp read
      cases (Prod.mk.inj same).2
      exact inMemory.readString readText
  | char =>
      unfold FieldType.read sPacketReadChar at read
      simp only [Option.map_map, Option.map_eq_some_iff] at read
      obtain ⟨⟨bytes, next⟩, readBytes, same⟩ := read
      cases (Prod.mk.inj same).2
      exact inMemory.read readBytes
  | _ =>
      obtain ⟨⟨bytes, next⟩, readBytes, same⟩ := Option.map_eq_some_iff.mp read
      cases (Prod.mk.inj same).2
      exact inMemory.read readBytes

theorem InMemory.leave (inMemory : InMemory pkt) (type : FieldType) :
    Proper pkt (type.leave pkt) := by
  unfold FieldType.leave
  split
  next read => exact inMemory.readField read
  next =>
    cases read : sPacketReadShort pkt with
    | none => exact inMemory.proper
    | some counted => exact inMemory.readShort read
  next => exact inMemory.proper

theorem InMemory.writeString (inMemory : InMemory pkt) {text : List UInt8} {after : SPacket}
    (wrote : sPacketWriteString pkt text = some after) : Proper pkt after := by
  unfold sPacketWriteString at wrote
  split at wrote
  · cases wrote
  split at wrote
  · cases wrote
  next fits =>
    split at wrote
    · cases wrote
    next counted wroteLength =>
      cases Option.some.inj wrote
      have first := inMemory.write wroteLength
      have lower := inMemory.lower
      have position : counted.pos = pkt.pos + 2 := by
        unfold sPacketWriteUshort SPacket.write at wroteLength
        split at wroteLength
        · cases wroteLength
        · cases Option.some.inj wroteLength
          rfl
      have size := first.same.size
      unfold sPktHeadSize at lower
      have start : (counted.pos.toNat : Int) + text.length ≤ counted.size := by omega
      have stored := first.inMemory.stored start
      refine first.trans (stored.trans (stored.inMemory.moved ?_ ?_))
      · unfold sPktHeadSize
        omega
      · dsimp only
        omega

theorem InMemory.writeField (inMemory : InMemory pkt) (field : TypedField) :
    Proper pkt ((field.write pkt).getD pkt) := by
  cases wrote : field.write pkt with
  | none => exact inMemory.proper
  | some after =>
      cases field with
      | string text => exact inMemory.writeString wrote
      | _ => exact inMemory.write wrote

theorem InMemory.setAt (inMemory : InMemory pkt) {pos : Nat} (inHead : pos ≤ 8)
    (word : BitVec 32) : Proper pkt (pkt.setAt pos word) := by
  have lower := inMemory.lower
  have upper := inMemory.upper
  rw [setAt_eq pkt inHead]
  unfold SPacket.setHead
  split
  · exact inMemory.proper
  · have start : (pos : Int) + (wordBytes word).length ≤ pkt.size := by
      unfold sPktHeadSize at lower
      rw [wordBytes_length]
      omega
    exact inMemory.stored start

/-- **Every call keeps to its packet**, whether it succeeds or not. -/
theorem InMemory.access (inMemory : InMemory pkt) (stray : BitVec 32) (call : Access) :
    Proper pkt (call.run stray pkt) := by
  cases call with
  | seek offset =>
      have upper := inMemory.upper
      show Proper pkt (sPacketSeek pkt offset)
      unfold sPacketSeek
      split
      · exact inMemory.proper
      · exact inMemory.moved (by omega) (by omega)
  | read type => exact inMemory.leave type
  | write field => exact inMemory.writeField field
  | head call =>
      cases call with
      | setFun code => exact inMemory.setAt (by decide) code
      | setReq req => exact inMemory.setAt (by decide) req
      | getFun => exact inMemory.proper
      | getReq => exact inMemory.proper

end

/-! ## The pool -/

/-- The packets by their address and the free lists by their exponent; `refs`
are the references that holders have. -/
structure PacketPool (Holder : Type) where
  packet : Nat → Option SPacket
  gFree : Nat → List Nat
  refs : List (Holder × Nat)

/-- The exponent of the loop in `iget_free_packet`. -/
def sizeClass (size : Int) : Nat :=
  max 4 (Nat.clog 2 size.toNat)

/-- What happens to the pool.  `fresh` and `junk` are the address and the
contents of new memory, if `s_malloc` is called. -/
inductive PacketEvent (Holder : Type) where
  | create (holder : Holder) (size : Int) (fresh : Nat) (junk : Nat → UInt8)
  | grab (holder : Holder) (addr : Nat)
  | drop (holder : Holder) (addr : Nat)
  | access (addr : Nat) (stray : BitVec 32) (call : Access)

section

variable {Holder : Type} [DecidableEq Holder]

namespace PacketPool

/-- `iget_free_packet`: the address, the contents of its memory and the pool;
`none` if `s_malloc` could not return `fresh`. -/
def igetFreePacket (pool : PacketPool Holder) (size : Int) (fresh : Nat) (junk : Nat → UInt8) :
    Option (Nat × List UInt8 × PacketPool Holder) :=
  match pool.gFree (sizeClass size) with
  | addr :: rest =>
      (pool.packet addr).map fun pkt =>
        (addr, pkt.data,
          { pool with gFree := Function.update pool.gFree (sizeClass size) rest })
  | [] =>
      match pool.packet fresh with
      | none => some (fresh, packetMemory junk size, pool)
      | some _ => none

/-- `s_packet_create`: the address it returns, and the pool. -/
def create (pool : PacketPool Holder) (holder : Holder) (size : Int) (fresh : Nat)
    (junk : Nat → UInt8) : Option (Nat × PacketPool Holder) := do
  let (addr, memory, pool) ← pool.igetFreePacket size fresh junk
  let pkt ← sPacketCreate size memory
  return (addr, { pool with
    packet := Function.update pool.packet addr (some pkt)
    refs := (holder, addr) :: pool.refs })

/-- `s_packet_grab`. -/
def grab (pool : PacketPool Holder) (holder : Holder) (addr : Nat) : Option (PacketPool Holder) :=
  (pool.packet addr).map fun pkt =>
    { pool with
      packet := Function.update pool.packet addr (some { pkt with refCount := pkt.refCount + 1 })
      refs := (holder, addr) :: pool.refs }

/-- `s_packet_drop`, with `idrop_free_packet`. -/
def drop (pool : PacketPool Holder) (holder : Holder) (addr : Nat) : Option (PacketPool Holder) :=
  (pool.packet addr).map fun pkt =>
    let left : Int := pkt.refCount - 1
    { packet := Function.update pool.packet addr (some { pkt with refCount := left })
      gFree := if left = 0 then
          Function.update pool.gFree pkt.exp (addr :: pool.gFree pkt.exp)
        else pool.gFree
      refs := pool.refs.erase (holder, addr) }

/-- One of the calls that leave the references alone. -/
def access (pool : PacketPool Holder) (addr : Nat) (stray : BitVec 32) (call : Access) :
    Option (PacketPool Holder) :=
  (pool.packet addr).map fun pkt =>
    { pool with packet := Function.update pool.packet addr (some (call.run stray pkt)) }

def step (pool : PacketPool Holder) : PacketEvent Holder → Option (PacketPool Holder)
  | .create holder size fresh junk => (pool.create holder size fresh junk).map Prod.snd
  | .grab holder addr => pool.grab holder addr
  | .drop holder addr => pool.drop holder addr
  | .access addr stray call => pool.access addr stray call

/-- Somebody has a reference. -/
def Live (pool : PacketPool Holder) (addr : Nat) : Prop :=
  ∃ holder, (holder, addr) ∈ pool.refs

/-- The sizes are those of a packet, holders drop only references they have, and
a packet that nobody has is not used. -/
def Allowed (pool : PacketPool Holder) : PacketEvent Holder → Prop
  | .create _ size _ _ => 0 ≤ size ∧ size ≤ sPktMaxSz
  | .grab _ addr => pool.Live addr
  | .drop holder addr => (holder, addr) ∈ pool.refs
  | .access addr _ _ => pool.Live addr

/-- What the memory of a packet holds before an event; new memory holds `junk`. -/
def memoryBefore (pool : PacketPool Holder) (event : PacketEvent Holder) (addr : Nat) :
    List UInt8 :=
  match pool.packet addr, event with
  | some pkt, _ => pkt.data
  | none, .create _ size _ junk => packetMemory junk size
  | none, _ => []

/-- Nothing has been allocated yet. -/
def start : PacketPool Holder where
  packet := fun _ => none
  gFree := fun _ => []
  refs := []

/-- The references on a packet. -/
def count (pool : PacketPool Holder) (addr : Nat) : Nat :=
  pool.refs.countP fun ref => ref.2 = addr

end PacketPool

/-- All runs of the pool. -/
def packetSystem (Holder : Type) [DecidableEq Holder] :
    System (PacketPool Holder) (PacketEvent Holder) where
  init := fun pool => pool = .start
  step := PacketPool.step

/-- A packet is in its memory and counts its references; what is on a free list
is a packet of that exponent without references, and is there once. -/
structure PacketLaw (pool : PacketPool Holder) : Prop where
  inMemory : ∀ addr pkt, pool.packet addr = some pkt → InMemory pkt
  counted : ∀ addr pkt, pool.packet addr = some pkt → pkt.refCount = pool.count addr
  known : ∀ ref ∈ pool.refs, ∃ pkt, pool.packet ref.2 = some pkt
  free : ∀ exp addr, addr ∈ pool.gFree exp →
    ∃ pkt, pool.packet addr = some pkt ∧ pkt.exp = exp ∧ pool.count addr = 0
  once : ∀ exp, (pool.gFree exp).Nodup

omit [DecidableEq Holder] in
theorem packetLaw_start : PacketLaw (.start : PacketPool Holder) where
  inMemory := nofun
  counted := nofun
  known := nofun
  free := nofun
  once := fun _ => .nil

section

variable {pool after : PacketPool Holder} {holder : Holder} {addr : Nat}

omit [DecidableEq Holder] in
theorem count_pos_iff : 0 < pool.count addr ↔ pool.Live addr := by
  unfold PacketPool.count PacketPool.Live
  rw [List.countP_pos_iff]
  constructor
  · rintro ⟨⟨holder, there⟩, member, same⟩
    exact ⟨holder, of_decide_eq_true same ▸ member⟩
  · rintro ⟨holder, member⟩
    exact ⟨(holder, addr), member, decide_eq_true rfl⟩

omit [DecidableEq Holder] in
/-- A packet that somebody has is on no free list. -/
theorem PacketLaw.not_free (law : PacketLaw pool) (live : 0 < pool.count addr) (exp : Nat) :
    addr ∉ pool.gFree exp := by
  intro listed
  obtain ⟨_, _, _, none⟩ := law.free exp addr listed
  omega

omit [DecidableEq Holder] in
/-- One more reference. -/
theorem count_of_cons (more : after.refs = (holder, addr) :: pool.refs) (other : Nat) :
    after.count other = pool.count other + if addr = other then 1 else 0 := by
  unfold PacketPool.count
  rw [more, List.countP_cons]
  by_cases same : addr = other
  · simp [same]
  · simp [same]

/-- One reference less. -/
theorem count_of_erase (held : (holder, addr) ∈ pool.refs)
    (less : after.refs = pool.refs.erase (holder, addr)) (other : Nat) :
    pool.count other = after.count other + if addr = other then 1 else 0 := by
  have perm := (List.perm_cons_erase held).countP_eq fun ref => decide (ref.2 = other)
  unfold PacketPool.count
  rw [perm, less, List.countP_cons]
  by_cases same : addr = other
  · simp [same]
  · simp [same]

omit [DecidableEq Holder] in
/-- One packet is replaced, with the references on it. -/
theorem PacketLaw.replaced (law : PacketLaw pool) {next : SPacket}
    (packets : after.packet = Function.update pool.packet addr (some next))
    (inMemory : InMemory next) (own : next.refCount = after.count addr)
    (others : ∀ other, other ≠ addr → after.count other = pool.count other)
    (known : ∀ ref ∈ after.refs, ref.2 = addr ∨ ref ∈ pool.refs)
    (free : ∀ exp other, other ∈ after.gFree exp →
      (other = addr ∧ next.exp = exp ∧ after.count addr = 0) ∨
        (other ≠ addr ∧ other ∈ pool.gFree exp))
    (once : ∀ exp, (after.gFree exp).Nodup) : PacketLaw after := by
  have here : after.packet addr = some next := by
    rw [packets, Function.update_self]
  have there : ∀ other, other ≠ addr → after.packet other = pool.packet other := by
    intro other distinct
    rw [packets, Function.update_of_ne distinct]
  refine ⟨?_, ?_, ?_, ?_, once⟩
  · intro other pkt found
    by_cases same : other = addr
    · rw [same, here] at found
      exact Option.some.inj found ▸ inMemory
    · exact law.inMemory other pkt (there other same ▸ found)
  · intro other pkt found
    by_cases same : other = addr
    · rw [same, here] at found
      rw [same, ← Option.some.inj found]
      exact own
    · rw [others other same]
      exact law.counted other pkt (there other same ▸ found)
  · intro ref member
    by_cases same : ref.2 = addr
    · exact ⟨next, same ▸ here⟩
    · obtain ⟨pkt, found⟩ := law.known ref ((known ref member).resolve_left same)
      exact ⟨pkt, (there ref.2 same).trans found⟩
  · intro exp other listed
    rcases free exp other listed with ⟨rfl, class', none⟩ | ⟨distinct, listed⟩
    · exact ⟨next, here, class', none⟩
    · obtain ⟨pkt, found, class', none⟩ := law.free exp other listed
      exact ⟨pkt, (there other distinct).trans found, class', (others other distinct).trans none⟩

omit [DecidableEq Holder] in
/-- A holder gets a reference, and the packet at `addr` is on no free list. -/
theorem PacketLaw.referred (law : PacketLaw pool) {next : SPacket}
    (packets : after.packet = Function.update pool.packet addr (some next))
    (refs : after.refs = (holder, addr) :: pool.refs) (inMemory : InMemory next)
    (own : next.refCount = pool.count addr + 1)
    (free : ∀ exp other, other ∈ after.gFree exp → other ≠ addr ∧ other ∈ pool.gFree exp)
    (once : ∀ exp, (after.gFree exp).Nodup) : PacketLaw after := by
  have counts := count_of_cons refs
  refine law.replaced packets inMemory ?_ ?_ ?_ (fun exp other listed => .inr (free exp other listed))
    once
  · rw [counts addr, if_pos rfl]
    exact own
  · intro other distinct
    rw [counts other, if_neg (Ne.symm distinct), Nat.add_zero]
  · intro ref member
    rw [refs] at member
    rcases List.mem_cons.mp member with same | member
    · exact .inl (congrArg Prod.snd same)
    · exact .inr member

omit [DecidableEq Holder] in
/-- The packet at `addr` stays on the free lists it is on. -/
theorem PacketLaw.keeps_free (law : PacketLaw pool) {pkt next : SPacket}
    (found : pool.packet addr = some pkt) (class' : next.exp = pkt.exp) (exp other : Nat)
    (listed : other ∈ pool.gFree exp) :
    (other = addr ∧ next.exp = exp ∧ pool.count addr = 0) ∨
      (other ≠ addr ∧ other ∈ pool.gFree exp) := by
  by_cases same : other = addr
  · subst same
    obtain ⟨pkt', found', sameClass, none⟩ := law.free exp other listed
    rw [found] at found'
    exact .inl ⟨rfl, by rw [class', Option.some.inj found', sameClass], none⟩
  · exact .inr ⟨same, listed⟩

omit [DecidableEq Holder] in
theorem PacketLaw.access (law : PacketLaw pool) {stray : BitVec 32} {call : Access}
    (stepped : pool.access addr stray call = some after) : PacketLaw after := by
  obtain ⟨pkt, found, rfl⟩ := Option.map_eq_some_iff.mp stepped
  have proper := (law.inMemory addr pkt found).access stray call
  refine law.replaced rfl proper.inMemory ?_ (fun _ _ => rfl) (fun _ member => .inr member)
    (law.keeps_free found proper.same.exp) law.once
  exact proper.same.refCount.trans (law.counted addr pkt found)

omit [DecidableEq Holder] in
theorem PacketLaw.grab (law : PacketLaw pool) (live : pool.Live addr)
    (stepped : pool.grab holder addr = some after) : PacketLaw after := by
  obtain ⟨pkt, found, made⟩ := Option.map_eq_some_iff.mp stepped
  have packets : after.packet = Function.update pool.packet addr
      (some { pkt with refCount := pkt.refCount + 1 }) := by rw [← made]
  have refs : after.refs = (holder, addr) :: pool.refs := by rw [← made]
  have lists : after.gFree = pool.gFree := by rw [← made]
  have inMemory := law.inMemory addr pkt found
  refine law.referred packets refs
    ⟨inMemory.lower, inMemory.upper, inMemory.size, inMemory.memory⟩ ?_ ?_ (lists ▸ law.once)
  · have counted := law.counted addr pkt found
    dsimp only
    omega
  · intro exp other listed
    rw [lists] at listed
    refine ⟨?_, listed⟩
    rintro rfl
    exact law.not_free (count_pos_iff.mpr live) exp listed

/-- A dropped packet is put on a free list with its last reference. -/
theorem PacketLaw.drop (law : PacketLaw pool) (held : (holder, addr) ∈ pool.refs)
    (stepped : pool.drop holder addr = some after) : PacketLaw after := by
  obtain ⟨pkt, found, made⟩ := Option.map_eq_some_iff.mp stepped
  have packets : after.packet = Function.update pool.packet addr
      (some { pkt with refCount := pkt.refCount - 1 }) := by rw [← made]
  have refs : after.refs = pool.refs.erase (holder, addr) := by rw [← made]
  have lists : after.gFree = if pkt.refCount - 1 = 0 then
      Function.update pool.gFree pkt.exp (addr :: pool.gFree pkt.exp) else pool.gFree := by
    rw [← made]
  have inMemory := law.inMemory addr pkt found
  have counted := law.counted addr pkt found
  have counts := count_of_erase held refs
  have own := counts addr
  rw [if_pos rfl] at own
  have notListed := law.not_free (count_pos_iff.mpr ⟨holder, held⟩)
  refine law.replaced packets
    ⟨inMemory.lower, inMemory.upper, inMemory.size, inMemory.memory⟩ ?_ ?_ ?_ ?_ ?_
  · dsimp only
    omega
  · intro other distinct
    rw [counts other, if_neg (Ne.symm distinct), Nat.add_zero]
  · intro ref member
    rw [refs] at member
    exact .inr (List.mem_of_mem_erase member)
  · intro exp other listed
    rw [lists] at listed
    split at listed
    next last =>
      by_cases class' : exp = pkt.exp
      · rw [class', Function.update_self] at listed
        rcases List.mem_cons.mp listed with same | listed
        · exact .inl ⟨same, class'.symm, by omega⟩
        · exact .inr ⟨fun same => notListed pkt.exp (same ▸ listed), class' ▸ listed⟩
      · rw [Function.update_of_ne class'] at listed
        exact .inr ⟨fun same => notListed exp (same ▸ listed), listed⟩
    next more => exact .inr ⟨fun same => notListed exp (same ▸ listed), listed⟩
  · intro exp
    rw [lists]
    split
    · by_cases class' : exp = pkt.exp
      · rw [class', Function.update_self]
        exact List.nodup_cons.mpr ⟨notListed pkt.exp, law.once pkt.exp⟩
      · rw [Function.update_of_ne class']
        exact law.once exp
    · exact law.once exp

/-- The memory that is taken is referenced by nobody, and large enough. -/
structure Taken (pool next : PacketPool Holder) (size : Int) (junk : Nat → UInt8) (addr : Nat)
    (memory : List UInt8) : Prop where
  unused : pool.count addr = 0
  length : memory.length = 12 + 2 ^ sizeClass size
  contents : ∀ pkt, pool.packet addr = some pkt → memory = pkt.data
  fresh : pool.packet addr = none → memory = packetMemory junk size
  packets : next.packet = pool.packet
  refs : next.refs = pool.refs
  listed : ∀ exp other, other ∈ next.gFree exp → other ≠ addr ∧ other ∈ pool.gFree exp
  once : ∀ exp, (next.gFree exp).Nodup

section

variable {class' : Nat} {rest : List Nat}

omit [DecidableEq Holder] in
/-- The first packet of a list is on no other list, and on its own no second time. -/
theorem PacketLaw.listed_rest (law : PacketLaw pool) (onList : pool.gFree class' = addr :: rest)
    {exp other : Nat} (listed : other ∈ Function.update pool.gFree class' rest exp) :
    other ≠ addr ∧ other ∈ pool.gFree exp := by
  by_cases same : exp = class'
  · rw [same, Function.update_self] at listed
    have once := law.once class'
    rw [onList] at once
    refine ⟨fun equal => (List.nodup_cons.mp once).1 (equal ▸ listed), ?_⟩
    rw [same, onList]
    exact List.mem_cons_of_mem addr listed
  · rw [Function.update_of_ne same] at listed
    refine ⟨fun equal => same ?_, listed⟩
    have first : addr ∈ pool.gFree class' := by
      rw [onList]
      exact List.mem_cons_self
    obtain ⟨pkt, found, isClass, _⟩ := law.free class' addr first
    obtain ⟨pkt', found', isExp, _⟩ := law.free exp other listed
    rw [equal, found] at found'
    rw [← isExp, ← Option.some.inj found', isClass]

omit [DecidableEq Holder] in
theorem PacketLaw.once_rest (law : PacketLaw pool) (onList : pool.gFree class' = addr :: rest)
    (exp : Nat) : (Function.update pool.gFree class' rest exp).Nodup := by
  by_cases same : exp = class'
  · have once := law.once class'
    rw [onList] at once
    rw [same, Function.update_self]
    exact (List.nodup_cons.mp once).2
  · rw [Function.update_of_ne same]
    exact law.once exp

end

omit [DecidableEq Holder] in
/-- Nobody holds a reference to memory that was never allocated. -/
theorem PacketLaw.count_of_unknown (law : PacketLaw pool) (unknown : pool.packet addr = none) :
    pool.count addr = 0 := by
  by_contra some
  obtain ⟨holder, member⟩ := count_pos_iff.mp (Nat.pos_of_ne_zero some)
  obtain ⟨pkt, found⟩ := law.known _ member
  cases unknown.symm.trans found

omit [DecidableEq Holder] in
theorem PacketLaw.taken (law : PacketLaw pool) {size : Int} {fresh : Nat} {junk : Nat → UInt8}
    {memory : List UInt8} {next : PacketPool Holder}
    (got : pool.igetFreePacket size fresh junk = some (addr, memory, next)) :
    Taken pool next size junk addr memory := by
  unfold PacketPool.igetFreePacket at got
  split at got
  next first rest onList =>
    simp only [Option.map_eq_some_iff, Prod.mk.injEq] at got
    obtain ⟨pkt, found, rfl, rfl, rfl⟩ := got
    obtain ⟨pkt', found', class', none⟩ := law.free (sizeClass size) first (by simp [onList])
    cases Option.some.inj (found.symm.trans found')
    refine ⟨none, ?_, ?_, ?_, rfl, rfl, fun _ _ => law.listed_rest onList, law.once_rest onList⟩
    · rw [(law.inMemory first pkt found).memory, class']
    · intro pkt' found'
      exact congrArg SPacket.data (Option.some.inj (found.symm.trans found'))
    · intro unknown
      cases unknown.symm.trans found
  next empty =>
    split at got
    next unknown =>
      cases Option.some.inj got
      refine ⟨law.count_of_unknown unknown, ?_, ?_, fun _ => rfl, rfl, rfl, ?_, law.once⟩
      · unfold packetMemory
        rw [List.length_map, List.length_range]
        rfl
      · intro pkt found
        cases unknown.symm.trans found
      · intro exp other listed
        refine ⟨?_, listed⟩
        rintro rfl
        obtain ⟨pkt, found, _⟩ := law.free exp other listed
        cases unknown.symm.trans found
    next => cases got

/-- A new packet is inside its memory and has one reference. -/
theorem inMemory_sPacketCreate {size : Int} {memory : List UInt8} {pkt : SPacket} (lower : 0 ≤ size)
    (length : memory.length = 12 + 2 ^ sizeClass size)
    (created : sPacketCreate size memory = some pkt) : InMemory pkt ∧ pkt.refCount = 1 := by
  have fits : 0 + (wordBytes (BitVec.ofInt 32 (size + sPktHeadSize))).length ≤ memory.length := by
    rw [length, wordBytes_length]
    exact Nat.le_add_right_of_le (by decide)
  have room : size.toNat ≤ 2 ^ sizeClass size :=
    (Nat.le_pow_clog Nat.one_lt_two size.toNat).trans
      (Nat.pow_le_pow_right (by omega) (le_max_right _ _))
  unfold sPacketCreate at created
  split at created
  · cases created
  · cases Option.some.inj created
    refine ⟨⟨le_rfl, ?_, ?_, (Library.overwrite_length fits).trans length⟩, rfl⟩
    · dsimp only
      omega
    · unfold sizeClass at room
      unfold sPktHeadSize
      dsimp only
      omega

omit [DecidableEq Holder] in
theorem PacketLaw.create (law : PacketLaw pool) {size : Int} {fresh : Nat} {junk : Nat → UInt8}
    (lower : 0 ≤ size) (stepped : pool.create holder size fresh junk = some (addr, after)) :
    pool.count addr = 0 ∧ PacketLaw after := by
  unfold PacketPool.create at stepped
  simp only [Option.bind_eq_bind, Option.bind_eq_some_iff, Option.pure_def, Option.some.injEq,
    Prod.mk.injEq] at stepped
  obtain ⟨⟨taken, memory, next⟩, got, pkt, created, rfl, made⟩ := stepped
  have took := law.taken got
  have unused := took.unused
  refine ⟨unused, ?_⟩
  have packets : after.packet = Function.update pool.packet taken (some pkt) := by
    rw [← made, ← took.packets]
  have refs : after.refs = (holder, taken) :: pool.refs := by
    rw [← made, ← took.refs]
  have lists : after.gFree = next.gFree := by rw [← made]
  obtain ⟨inMemory, one⟩ := inMemory_sPacketCreate lower took.length created
  refine law.referred packets refs inMemory ?_ ?_ (lists ▸ took.once)
  · rw [unused]
    exact one
  · intro exp other listed
    rw [lists] at listed
    exact took.listed exp other listed

omit [DecidableEq Holder] in
theorem memoryBefore_of_some {event : PacketEvent Holder} {pkt : SPacket}
    (found : pool.packet addr = some pkt) : pool.memoryBefore event addr = pkt.data := by
  unfold PacketPool.memoryBefore
  rw [found]

/-- The memory of a packet from its size on is what it was, and of the same
length. -/
def StoredInside (memory : List UInt8) (pkt : SPacket) : Prop :=
  pkt.data.length = memory.length ∧ pkt.data.drop pkt.size.toNat = memory.drop pkt.size.toNat

omit [DecidableEq Holder] in
/-- One packet is replaced, and written before its size only. -/
theorem storedInside_of_update {event : PacketEvent Holder} {next pkt : SPacket} {other : Nat}
    (packets : after.packet = Function.update pool.packet addr (some next))
    (own : StoredInside (pool.memoryBefore event addr) next)
    (found : after.packet other = some pkt) :
    StoredInside (pool.memoryBefore event other) pkt := by
  by_cases same : other = addr
  · rw [packets, same, Function.update_self] at found
    rw [same, ← Option.some.inj found]
    exact own
  · rw [packets, Function.update_of_ne same] at found
    rw [memoryBefore_of_some found]
    exact ⟨rfl, rfl⟩

omit [DecidableEq Holder] in
theorem PacketLaw.stored_create (law : PacketLaw pool) {size : Int} {fresh other : Nat}
    {junk : Nat → UInt8} {pkt : SPacket} (lower : 0 ≤ size)
    (stepped : pool.create holder size fresh junk = some (addr, after))
    (found : after.packet other = some pkt) :
    StoredInside (pool.memoryBefore (.create holder size fresh junk) other) pkt := by
  unfold PacketPool.create at stepped
  simp only [Option.bind_eq_bind, Option.bind_eq_some_iff, Option.pure_def, Option.some.injEq,
    Prod.mk.injEq] at stepped
  obtain ⟨⟨taken, memory, next⟩, got, new, created, rfl, made⟩ := stepped
  have took := law.taken got
  have packets : after.packet = Function.update pool.packet taken (some new) := by
    rw [← made, ← took.packets]
  refine storedInside_of_update packets ?_ found
  have before : pool.memoryBefore (.create holder size fresh junk) taken = memory := by
    unfold PacketPool.memoryBefore
    cases known : pool.packet taken with
    | none => exact (took.fresh known).symm
    | some pkt => exact (took.contents pkt known).symm
  have fits : 0 + (wordBytes (BitVec.ofInt 32 (size + sPktHeadSize))).length ≤ memory.length := by
    rw [took.length, wordBytes_length]
    exact Nat.le_add_right_of_le (by decide)
  unfold sPacketCreate at created
  split at created
  · cases created
  · rw [before, ← Option.some.inj created]
    refine ⟨Library.overwrite_length fits, drop_overwrite fits ?_⟩
    rw [wordBytes_length]
    unfold sPktHeadSize
    dsimp only
    omega

/-- **No byte from the size of a packet on is written.** -/
theorem PacketLaw.stored (law : PacketLaw pool) {event : PacketEvent Holder} {pkt : SPacket}
    (allowed : pool.Allowed event) (stepped : pool.step event = some after)
    (found : after.packet addr = some pkt) :
    StoredInside (pool.memoryBefore event addr) pkt := by
  cases event with
  | create holder size fresh junk =>
      obtain ⟨⟨taken, next⟩, created, rfl⟩ := Option.map_eq_some_iff.mp stepped
      exact law.stored_create allowed.1 created found
  | grab holder there =>
      obtain ⟨old, here, made⟩ := Option.map_eq_some_iff.mp stepped
      refine storedInside_of_update (by rw [← made]) ?_ found
      rw [memoryBefore_of_some here]
      exact ⟨rfl, rfl⟩
  | drop holder there =>
      obtain ⟨old, here, made⟩ := Option.map_eq_some_iff.mp stepped
      refine storedInside_of_update (by rw [← made]) ?_ found
      rw [memoryBefore_of_some here]
      exact ⟨rfl, rfl⟩
  | access there stray call =>
      obtain ⟨old, here, made⟩ := Option.map_eq_some_iff.mp stepped
      have same := ((law.inMemory there old here).access stray call).same
      refine storedInside_of_update (by rw [← made]) ?_ found
      rw [memoryBefore_of_some here]
      refine ⟨same.memory, ?_⟩
      rw [same.size]
      exact same.beyond

/-- **Every step keeps the law.** -/
theorem PacketLaw.step (law : PacketLaw pool) {event : PacketEvent Holder}
    (allowed : pool.Allowed event) (stepped : pool.step event = some after) : PacketLaw after := by
  cases event with
  | create holder size fresh junk =>
      obtain ⟨⟨addr, next⟩, created, rfl⟩ := Option.map_eq_some_iff.mp stepped
      exact (law.create allowed.1 created).2
  | grab holder addr => exact law.grab allowed stepped
  | drop holder addr => exact law.drop allowed stepped
  | access addr stray call => exact law.access stepped

end

/-- A run keeps it. -/
theorem packetLaw_of_reachable {pool : PacketPool Holder}
    (reached : (packetSystem Holder).ReachableVia PacketPool.Allowed pool) : PacketLaw pool := by
  apply reached.invariant PacketLaw
  · intro start initial
    rw [show start = .start from initial]
    exact packetLaw_start
  · intro before event after _ law allowed stepped
    exact law.step allowed stepped

/-- **The pool is safe** in every run: a live packet keeps its position and size
in its memory and is on no free list, no write goes to a byte at or beyond the
size, and `s_packet_create` returns no packet that is referenced. -/
theorem pool_safe {pool : PacketPool Holder}
    (reached : (packetSystem Holder).ReachableVia PacketPool.Allowed pool) :
    (∀ addr pkt, pool.packet addr = some pkt → 0 < pkt.refCount →
      sPktHeadSize ≤ pkt.pos ∧ pkt.pos ≤ pkt.size ∧ pkt.size ≤ (12 + 2 ^ pkt.exp : Nat) ∧
        ∀ exp, addr ∉ pool.gFree exp) ∧
    (∀ event after addr pkt, pool.Allowed event → pool.step event = some after →
      after.packet addr = some pkt → StoredInside (pool.memoryBefore event addr) pkt) ∧
    (∀ holder size fresh junk addr after, pool.Allowed (.create holder size fresh junk) →
      pool.create holder size fresh junk = some (addr, after) →
      ¬ pool.Live addr ∧ ∀ pkt, pool.packet addr = some pkt → pkt.refCount = 0) := by
  have law := packetLaw_of_reachable reached
  refine ⟨?_, fun _ _ _ _ allowed stepped found => law.stored allowed stepped found, ?_⟩
  · intro addr pkt found live
    have inMemory := law.inMemory addr pkt found
    have counted := law.counted addr pkt found
    exact ⟨inMemory.lower, inMemory.upper, inMemory.size, law.not_free (by omega)⟩
  · intro holder size fresh junk addr after allowed created
    have unused := (law.create allowed.1 created).1
    refine ⟨fun live => ?_, fun pkt found => ?_⟩
    · have some := count_pos_iff.mpr live
      omega
    · rw [law.counted addr pkt found, unused]
      rfl

end

/-- A packet that is dropped and created again, with another size. -/
theorem pool_safe_recycled : ∃ pool pkt,
    (packetSystem Unit).ReachableVia PacketPool.Allowed pool ∧
      pool.packet 7 = some pkt ∧ 0 < pkt.refCount ∧
      sPktHeadSize ≤ pkt.pos ∧ pkt.pos ≤ pkt.size ∧ pkt.size ≤ (12 + 2 ^ pkt.exp : Nat) ∧
        ∀ exp, 7 ∉ pool.gFree exp := by
  have empty : (packetSystem Unit).ReachableVia PacketPool.Allowed .start := .start rfl
  have created := empty.step (.create () 5 7 fun _ => 0) ⟨by decide, by decide⟩ rfl
  have dropped := created.step (.drop () 7) (List.mem_singleton.mpr rfl) rfl
  have reached := dropped.step (.create () 16 8 fun _ => 0) ⟨by decide, by decide⟩ rfl
  exact ⟨_, _, reached, rfl, by decide, (pool_safe reached).1 7 _ rfl (by decide)⟩

end SimpleDfs.Net
