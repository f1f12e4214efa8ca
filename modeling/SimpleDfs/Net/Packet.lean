import Mathlib.Data.Nat.Log
import SimpleDfs.Library.Bytes

/-!
Contract: packets and how one is cut out of a stream (`net/s_packet.c`).

Owns: `SPacket`, its size field, `s_packet_create` and `s_packet_create_from`.

Does not own: the reuse of packet memory; reading and writing fields.
-/

set_option autoImplicit false

namespace SimpleDfs.Net

open SimpleDfs.Library

/-- `S_PKT_MAX_SZ`. -/
def sPktMaxSz : Int := 2 ^ 22

/-- `S_PKT_HEAD_SIZE`. -/
def sPktHeadSize : Int := 12

/-- `struct s_packet` and the bytes that follow it. -/
structure SPacket where
  size : Int
  pos : Int
  refCount : Int
  exp : Nat
  data : List UInt8
  deriving DecidableEq, Repr

/-- The size field: four bytes, least significant first, as a C `int`. -/
def sizeField (p0 p1 p2 p3 : UInt8) : Int :=
  (p3.toBitVec ++ p2.toBitVec ++ p1.toBitVec ++ p0.toBitVec : BitVec 32).toInt

/-- `s_packet_create`; `data` is what the memory happens to hold, and its first
four bytes become the size.  `none` is the null pointer of a size above the
maximum. -/
def sPacketCreate (size : Int) (data : List UInt8) : Option SPacket :=
  if size > sPktMaxSz then none
  else
    some
      { size := size + sPktHeadSize
        pos := sPktHeadSize
        refCount := 1
        exp := max 4 (Nat.clog 2 size.toNat)
        data := overwrite data 0 (wordBytes (BitVec.ofInt 32 (size + sPktHeadSize))) }

/-- `s_packet_create_from` on the bytes from `p` on, `len` of them.  The inner
`none` is the null pointer of an incomplete packet, the outer one a failed
assertion or the copy to a null pointer. -/
def sPacketCreateFrom : List UInt8 → Option (Option SPacket)
  | p0 :: p1 :: p2 :: p3 :: rest =>
      let p := p0 :: p1 :: p2 :: p3 :: rest
      let sz := sizeField p0 p1 p2 p3
      if 0 < sz then
        if (p.length : Int) < sz then some none
        else
          match sPacketCreate (sz - sPktHeadSize) (p.take sz.toNat) with
          | none => none
          | some pkt => some (some { pkt with size := sz, data := p.take sz.toNat })
      else none
  | _ => some none

/-- The bytes form one packet: the size field holds their number, and the body
is at most the maximum. -/
structure WholePacket (bytes : List UInt8) : Prop where
  size : ∃ p0 p1 p2 p3 rest, bytes = p0 :: p1 :: p2 :: p3 :: rest ∧
    sizeField p0 p1 p2 p3 = bytes.length
  lower : sPktHeadSize ≤ bytes.length
  upper : (bytes.length : Int) ≤ sPktMaxSz + sPktHeadSize

/-- The packet object of a whole packet. -/
def packetOf (bytes : List UInt8) : SPacket where
  size := bytes.length
  pos := sPktHeadSize
  refCount := 1
  exp := max 4 (Nat.clog 2 ((bytes.length : Int) - sPktHeadSize).toNat)
  data := bytes

/-- A whole packet at the start of the window is cut out, byte for byte. -/
theorem sPacketCreateFrom_whole {bytes : List UInt8} (whole : WholePacket bytes)
    (rest : List UInt8) : sPacketCreateFrom (bytes ++ rest) = some (some (packetOf bytes)) := by
  obtain ⟨p0, p1, p2, p3, tail, rfl, size⟩ := whole.size
  have lower := whole.lower
  have upper := whole.upper
  simp only [sPktHeadSize] at lower
  have positive : 0 < sizeField p0 p1 p2 p3 := by omega
  have complete : ¬ (((p0 :: p1 :: p2 :: p3 :: (tail ++ rest)).length : Int) <
      sizeField p0 p1 p2 p3) := by
    rw [size]
    simp only [List.length_cons, List.length_append]
    omega
  have fits : ¬ (sizeField p0 p1 p2 p3 - sPktHeadSize > sPktMaxSz) := by omega
  have copied : (p0 :: p1 :: p2 :: p3 :: (tail ++ rest)).take (sizeField p0 p1 p2 p3).toNat =
      p0 :: p1 :: p2 :: p3 :: tail := by
    rw [size, Int.toNat_natCast]
    exact @List.take_left _ (p0 :: p1 :: p2 :: p3 :: tail) _
  simp only [List.cons_append, sPacketCreateFrom, if_pos positive, if_neg complete, sPacketCreate,
    if_neg fits, copied]
  simp only [packetOf, size]

/-- A proper prefix of a whole packet is not cut out. -/
theorem sPacketCreateFrom_partial {front back : List UInt8} (whole : WholePacket (front ++ back))
    (proper : back ≠ []) : sPacketCreateFrom front = some none := by
  obtain ⟨p0, p1, p2, p3, tail, split, size⟩ := whole.size
  match front with
  | [] => rfl
  | [_] => rfl
  | [_, _] => rfl
  | [_, _, _] => rfl
  | q0 :: q1 :: q2 :: q3 :: rest =>
      simp only [List.cons_append, List.cons.injEq] at split
      obtain ⟨rfl, rfl, rfl, rfl, _⟩ := split
      have missing := List.length_pos_of_ne_nil proper
      have positive : 0 < sizeField q0 q1 q2 q3 := by
        have lower := whole.lower
        simp only [sPktHeadSize] at lower
        omega
      have short : ((q0 :: q1 :: q2 :: q3 :: rest).length : Int) < sizeField q0 q1 q2 q3 := by
        rw [size, List.length_append]
        omega
      simp only [sPacketCreateFrom, if_pos positive, if_pos short]

/-- A packet that is cut out has the size its field says, and its bytes. -/
theorem sPacketCreateFrom_some {p : List UInt8} {pkt : SPacket}
    (found : sPacketCreateFrom p = some (some pkt)) :
    ∃ p0 p1 p2 p3 rest, p = p0 :: p1 :: p2 :: p3 :: rest ∧ pkt.size = sizeField p0 p1 p2 p3 ∧
      0 < pkt.size ∧ pkt.size ≤ p.length ∧ pkt.size ≤ sPktMaxSz + sPktHeadSize ∧
      pkt.data = p.take pkt.size.toNat := by
  unfold sPacketCreateFrom at found
  split at found
  next p0 p1 p2 p3 rest =>
    dsimp only at found
    split at found
    next positive =>
      split at found
      next => cases found
      next complete =>
        unfold sPacketCreate at found
        split at found
        next => cases found
        next created made =>
          split at made
          · cases made
          next small =>
            cases Option.some.inj made
            cases Option.some.inj (Option.some.inj found)
            refine ⟨p0, p1, p2, p3, rest, rfl, rfl, positive, ?_, ?_, rfl⟩
            · dsimp only
              omega
            · dsimp only
              omega
    next => cases found
  next => cases found

/-- No packet is cut out of fewer bytes than its field says. -/
theorem sPacketCreateFrom_waits {p0 p1 p2 p3 : UInt8} {rest : List UInt8}
    (found : sPacketCreateFrom (p0 :: p1 :: p2 :: p3 :: rest) = some none) :
    0 < sizeField p0 p1 p2 p3 ∧
      ((p0 :: p1 :: p2 :: p3 :: rest).length : Int) < sizeField p0 p1 p2 p3 := by
  unfold sPacketCreateFrom at found
  dsimp only at found
  split at found
  next positive =>
    split at found
    next short => exact ⟨positive, short⟩
    next =>
      split at found
      · cases found
      · cases found
  next => cases found

/-- Cutting out a packet fails on a size field that is not positive, and on a
complete packet above the maximum. -/
theorem sPacketCreateFrom_eq_none_iff (p0 p1 p2 p3 : UInt8) (rest : List UInt8) :
    sPacketCreateFrom (p0 :: p1 :: p2 :: p3 :: rest) = none ↔
      sizeField p0 p1 p2 p3 ≤ 0 ∨
        (sizeField p0 p1 p2 p3 ≤ (p0 :: p1 :: p2 :: p3 :: rest).length ∧
          sPktMaxSz + sPktHeadSize < sizeField p0 p1 p2 p3) := by
  unfold sPacketCreateFrom
  dsimp only
  split
  next positive =>
    split
    next short => exact iff_of_false nofun (by omega)
    next complete =>
      unfold sPacketCreate
      split
      next failed =>
        split at failed
        next large => exact iff_of_true rfl (Or.inr (by omega))
        next => cases failed
      next made =>
        split at made
        next => cases made
        next small => exact iff_of_false nofun (by omega)
  next negative => exact iff_of_true rfl (Or.inl (by omega))

end SimpleDfs.Net
