import SimpleDfs.Wire.FileMetaData

/-!
Contract: the number of blocks of a file (`core/s_core_util.c`).

Owns: `s_core_fsize_to_block_num` with every shift it makes, and what it returns
on a machine that takes the amount of a shift modulo 32.

Does not own: what is done with the number.

C fixes no value for a shift by the width of its operand or more, so the model
leaves open what comes out of it.
-/

set_option autoImplicit false

namespace SimpleDfs.Mserv

open SimpleDfs.Wire (Abi)

/-- `S_CORE_BLOCK_BITS`. -/
def sCoreBlockBits : Nat := 22

/-- `S_CORE_MAX_FSZ_BITS`. -/
def sCoreMaxFszBits : Nat := 42

/-- The bits of a `size_t` and of an `unsigned long`. -/
def longBits (abi : Abi) : Nat :=
  8 * abi.pointerSize

/-- `S_SZ_OF_UINT`: the bytes of an `unsigned int`. -/
def sSzOfUint (abi : Abi) : BitVec (longBits abi) :=
  4#_

/-! ## Shifts -/

/-- What a machine makes of a shift of 32 bits by 32 or more. -/
structure Shifter where
  left : BitVec 32 → Nat → BitVec 32
  right : BitVec 32 → Nat → BitVec 32

/-- `value << amount`; the amount is noted. -/
def shiftLeft (shifter : Shifter) (value : BitVec 32) (amount : Nat) :
    StateM (List Nat) (BitVec 32) := do
  modify fun amounts => amounts ++ [amount]
  return if amount < 32 then value <<< amount else shifter.left value amount

/-- `value >> amount` of an `unsigned int`; the amount is noted. -/
def shiftRight (shifter : Shifter) (value : BitVec 32) (amount : Nat) :
    StateM (List Nat) (BitVec 32) := do
  modify fun amounts => amounts ++ [amount]
  return if amount < 32 then value >>> amount else shifter.right value amount

/-- `S_BITS_1_MASK`. -/
def sBits1Mask (shifter : Shifter) (n : Nat) : StateM (List Nat) (BitVec 32) := do
  let one ← shiftLeft shifter 1#32 n
  return one - 1#32

/-- `S_HIGH_BITS`. -/
def sHighBits (abi : Abi) (shifter : Shifter) (w : BitVec 32) (n : BitVec (longBits abi)) :
    StateM (List Nat) (BitVec 32) := do
  let high ← shiftRight shifter w (sSzOfUint abi - n).toNat
  let mask ← sBits1Mask shifter n.toNat
  return high &&& mask

/-- `S_BITS_1_SHIFT_MASK`. -/
def sBits1ShiftMask (shifter : Shifter) (n s : Nat) : StateM (List Nat) (BitVec 32) := do
  let mask ← sBits1Mask shifter n
  shiftLeft shifter mask s

/-- `s_core_fsize_to_block_num` and the amounts of its shifts. -/
def sCoreFsizeToBlockNum (abi : Abi) (shifter : Shifter) (low high : BitVec 32) :
    StateM (List Nat) Int := do
  let bits := sSzOfUint abi - BitVec.ofNat _ sCoreBlockBits
  let num ← sHighBits abi shifter low bits
  let num ←
    if (sSzOfUint abi).toNat < sCoreMaxFszBits then do
      let highBits := sCoreMaxFszBits - (sSzOfUint abi).toNat
      let shifted ← shiftLeft shifter high bits.toNat
      let mask ← sBits1ShiftMask shifter highBits bits.toNat
      pure (num ||| shifted &&& mask)
    else pure num
  let rest ← sBits1Mask shifter sCoreBlockBits
  return (if low &&& rest ≠ 0#32 then num + 1#32 else num).toInt

/-- The amounts: `bits` is four less twenty-two, as an `unsigned long`. -/
theorem shifts_sCoreFsizeToBlockNum (abi : Abi) (shifter : Shifter) (low high : BitVec 32) :
    (sCoreFsizeToBlockNum abi shifter low high []).2 =
      [22, 2 ^ longBits abi - 18, 2 ^ longBits abi - 18, 38, 2 ^ longBits abi - 18, 22] := by
  cases abi <;> rfl

/-! ## A machine that masks the amount -/

/-- The amount of a shift is taken modulo 32. -/
def masking : Shifter where
  left := fun value amount => value <<< (amount % 32)
  right := fun value amount => value >>> (amount % 32)

/-- Fourteen bits are kept of the low word, and six of the high word are put
above them. -/
theorem sCoreFsizeToBlockNum_masking (abi : Abi) (low high : BitVec 32) :
    (sCoreFsizeToBlockNum abi masking low high []).1 =
      (let num := low >>> 22 &&& 16383#32 ||| high <<< 14 &&& 1032192#32
        if low &&& 4194303#32 ≠ 0#32 then num + 1#32 else num).toInt := by
  cases abi <;> rfl

theorem toNat_maskedBits (low high : BitVec 32) :
    (low >>> 22 &&& 16383#32 ||| high <<< 14 &&& 1032192#32).toNat =
      low.toNat / 2 ^ 22 + 2 ^ 14 * (high.toNat % 2 ^ 6) := by
  have word := low.isLt
  have kept : (low >>> 22 &&& 16383#32).toNat = low.toNat / 2 ^ 22 := by
    rw [BitVec.toNat_and, BitVec.toNat_ushiftRight, Nat.shiftRight_eq_div_pow]
    show low.toNat / 2 ^ 22 &&& (2 ^ 14 - 1) = _
    rw [Nat.and_two_pow_sub_one_eq_mod]
    omega
  have above : (high <<< 14 &&& 1032192#32).toNat = 2 ^ 14 * (high.toNat % 2 ^ 6) := by
    have shifted : high <<< 14 &&& 1032192#32 = (high &&& 63#32) <<< 14 := by
      rw [BitVec.shiftLeft_and_distrib]
      rfl
    rw [shifted, BitVec.toNat_shiftLeft, BitVec.toNat_and, Nat.shiftLeft_eq]
    show (high.toNat &&& (2 ^ 6 - 1)) * 2 ^ 14 % 2 ^ 32 = _
    rw [Nat.and_two_pow_sub_one_eq_mod]
    omega
  have below : low.toNat / 2 ^ 22 < 2 ^ 14 := by omega
  rw [BitVec.toNat_or, kept, above, Nat.or_comm, ← Nat.two_pow_add_eq_or_of_lt below, Nat.add_comm]

/-- The last block is counted if the low word has a remainder. -/
theorem toNat_maskedNum (low high : BitVec 32) :
    (let num := low >>> 22 &&& 16383#32 ||| high <<< 14 &&& 1032192#32
      if low &&& 4194303#32 ≠ 0#32 then num + 1#32 else num).toNat =
      (low.toNat + (2 ^ 22 - 1)) / 2 ^ 22 + 2 ^ 14 * (high.toNat % 2 ^ 6) := by
  have word := low.isLt
  have remainder : (low &&& 4194303#32).toNat = low.toNat % 2 ^ 22 := by
    rw [BitVec.toNat_and]
    exact Nat.and_two_pow_sub_one_eq_mod low.toNat 22
  have num := toNat_maskedBits low high
  dsimp only
  split
  next left =>
    have some : low.toNat % 2 ^ 22 ≠ 0 := fun none => left (BitVec.eq_of_toNat_eq (by
      rw [remainder, none]
      rfl))
    rw [BitVec.toNat_add, num, BitVec.toNat_ofNat]
    omega
  next whole =>
    have none : low.toNat % 2 ^ 22 = 0 := by
      rw [← remainder, not_not.mp whole]
      rfl
    rw [num]
    omega

/-- On such a machine the result is right exactly for the files below 4 GiB. -/
theorem quotient_masking_iff (abi : Abi) {low high : BitVec 32} (small : high.toNat < 2 ^ 10) :
    (sCoreFsizeToBlockNum abi masking low high []).1 =
        ((high.toNat * 2 ^ 32 + low.toNat + 2 ^ 22 - 1) / 2 ^ 22 : Nat) ↔ high = 0#32 := by
  have word := low.isLt
  have counted := toNat_maskedNum low high
  have unsigned : ∀ num : BitVec 32, num.toNat < 2 ^ 31 → num.toInt = num.toNat :=
    fun num below => BitVec.toInt_eq_toNat_of_lt (by omega)
  rw [sCoreFsizeToBlockNum_masking, unsigned _ (by rw [counted]; omega), counted, Int.natCast_inj]
  constructor
  · intro same
    exact BitVec.eq_of_toNat_eq (by
      rw [BitVec.toNat_ofNat]
      omega)
  · intro zero
    rw [zero, BitVec.toNat_ofNat]
    omega

/-! ## Every size -/

/-- Every shift is by less than the width of its operand, and the result is the
size divided by the block size, rounded up. -/
structure CountsBlocks (abi : Abi) (shifter : Shifter) (low high : BitVec 32) : Prop where
  shifts : ∀ amount ∈ (sCoreFsizeToBlockNum abi shifter low high []).2, amount < 32
  quotient : (sCoreFsizeToBlockNum abi shifter low high []).1 =
    ((high.toNat * 2 ^ 32 + low.toNat + 2 ^ 22 - 1) / 2 ^ 22 : Nat)

/-- **No size is counted without a shift that C leaves undefined.** -/
theorem not_countsBlocks (abi : Abi) (shifter : Shifter) (low high : BitVec 32) :
    ¬ CountsBlocks abi shifter low high := by
  intro counts
  have shifts := counts.shifts
  rw [shifts_sCoreFsizeToBlockNum] at shifts
  have mask := shifts 38 (by simp)
  omega

/-- A file of 4 GiB: four shifts are too far, and where the amounts are masked
the result is sixteen times too large. -/
theorem not_always_countsBlocks :
    ¬ ∀ (abi : Abi) (shifter : Shifter) (low high : BitVec 32), high.toNat < 2 ^ 10 →
        CountsBlocks abi shifter low high := by
  intro always
  have quotient := (always .lp64 masking 0#32 1#32 (by decide)).quotient
  revert quotient
  decide

end SimpleDfs.Mserv
