import SimpleDfs.Library.Bytes

/-!
Contract: words taken apart and put together in C by shifts and masks of `char`.

Owns: a `char` in an expression, which is extended by its sign; the bytes that
shifts and masks take out of an `int`; the words they make of bytes.

Does not own: which words are stored where.
-/

set_option autoImplicit false

namespace SimpleDfs.Library

/-! ## Bytes out of a word -/

/-- What is stored when `value & 0xFF` is assigned to a `char`. -/
def charOf (value : BitVec 32) : UInt8 :=
  UInt8.ofBitVec ((value &&& 0xFF#32).setWidth 8)

theorem charOf_toNat (value : BitVec 32) :
    (charOf value).toNat = value.toNat % 2 ^ 8 := by
  show ((value &&& 0xFF#32).setWidth 8).toNat = _
  rw [BitVec.toNat_setWidth, BitVec.toNat_and]
  show (value.toNat &&& (2 ^ 8 - 1)) % 2 ^ 8 = _
  rw [Nat.and_two_pow_sub_one_eq_mod, Nat.mod_mod]

/-- The sign that is shifted in stays above the byte. -/
theorem charOf_sshiftRight (value : BitVec 32) (amount : Nat) (inside : amount + 8 ≤ 32) :
    charOf (value.sshiftRight amount) = charOf (value >>> amount) := by
  have same : (value.sshiftRight amount).setWidth 8 = (value >>> amount).setWidth 8 := by
    apply BitVec.eq_of_getLsbD_eq
    intro index below
    rw [BitVec.getLsbD_setWidth, BitVec.getLsbD_setWidth, BitVec.getLsbD_sshiftRight,
      BitVec.getLsbD_ushiftRight, if_pos (by omega), decide_eq_false (by omega : ¬ 32 ≤ index),
      Bool.not_false, Bool.true_and]
  apply UInt8.toNat_inj.mp
  rw [charOf_toNat, charOf_toNat, ← BitVec.toNat_setWidth, same, BitVec.toNat_setWidth]

theorem charOf_ushiftRight (value : BitVec 32) (index : Nat) :
    charOf (value >>> (8 * index)) = byteAt value.toNat index := by
  apply UInt8.toNat_inj.mp
  rw [charOf_toNat, byteAt_toNat, BitVec.toNat_ushiftRight, Nat.shiftRight_eq_div_pow]

/-- The two bytes of a half word that has been extended to an `int`. -/
def charsOfShort (value : BitVec 32) : List UInt8 :=
  [charOf value, charOf (value.sshiftRight 8)]

/-- The four bytes of an `int`. -/
def charsOfInt (value : BitVec 32) : List UInt8 :=
  [charOf value, charOf (value.sshiftRight 8), charOf (value.sshiftRight 16),
    charOf (value.sshiftRight 24)]

/-- The four bytes of an `unsigned int`. -/
def charsOfUint (value : BitVec 32) : List UInt8 :=
  [charOf value, charOf (value >>> 8), charOf (value >>> 16), charOf (value >>> 24)]

theorem charsOfUint_eq (value : BitVec 32) :
    charsOfUint value = wordBytes value := by
  have zero := charOf_ushiftRight value 0
  rw [Nat.mul_zero, BitVec.ushiftRight_zero] at zero
  unfold charsOfUint wordBytes
  rw [zero, charOf_ushiftRight value 1, charOf_ushiftRight value 2, charOf_ushiftRight value 3]

theorem charsOfInt_eq (value : BitVec 32) :
    charsOfInt value = wordBytes value := by
  rw [← charsOfUint_eq]
  unfold charsOfInt charsOfUint
  rw [charOf_sshiftRight value 8 (by decide), charOf_sshiftRight value 16 (by decide),
    charOf_sshiftRight value 24 (by decide)]

/-- The bytes do not tell how a half word was extended. -/
theorem charsOfShort_eq {value : BitVec 32} {short : BitVec 16}
    (extended : value.setWidth 16 = short) : charsOfShort value = shortBytes short := by
  have low : short.toNat = value.toNat % 2 ^ 16 := by
    rw [← extended, BitVec.toNat_setWidth]
  unfold charsOfShort shortBytes
  rw [charOf_sshiftRight value 8 (by decide)]
  congr 1
  · apply UInt8.toNat_inj.mp
    rw [charOf_toNat, byteAt_toNat, low]
    omega
  · congr 1
    apply UInt8.toNat_inj.mp
    rw [charOf_toNat, byteAt_toNat, BitVec.toNat_ushiftRight, Nat.shiftRight_eq_div_pow, low]
    omega

theorem charsOfShort_signExtend (short : BitVec 16) :
    charsOfShort (short.signExtend 32) = shortBytes short := by
  apply charsOfShort_eq
  apply BitVec.eq_of_getLsbD_eq
  intro index below
  have inside : index < 32 := by omega
  rw [BitVec.getLsbD_setWidth, BitVec.getLsbD_signExtend, if_pos below, decide_eq_true below,
    decide_eq_true inside, Bool.true_and, Bool.true_and]

theorem charsOfShort_setWidth (short : BitVec 16) :
    charsOfShort (short.setWidth 32) = shortBytes short := by
  apply charsOfShort_eq
  apply BitVec.eq_of_toNat_eq
  have bound := short.isLt
  rw [BitVec.toNat_setWidth, BitVec.toNat_setWidth]
  omega

/-! ## A word out of bytes -/

/-- A `char` in an expression. -/
def charInt (char : UInt8) : BitVec 32 :=
  char.toBitVec.signExtend 32

/-- The mask takes away what the sign has put above the byte. -/
theorem charInt_masked (char : UInt8) :
    (charInt char &&& 0xFF#32).toNat = char.toNat := by
  have low : (charInt char).setWidth 8 = char.toBitVec := by
    apply BitVec.eq_of_getLsbD_eq
    intro index below
    have inside : index < 32 := by omega
    rw [charInt, BitVec.getLsbD_setWidth, BitVec.getLsbD_signExtend, if_pos below,
      decide_eq_true below, decide_eq_true inside, Bool.true_and, Bool.true_and]
  rw [BitVec.toNat_and]
  show (charInt char).toNat &&& (2 ^ 8 - 1) = _
  rw [Nat.and_two_pow_sub_one_eq_mod, ← BitVec.toNat_setWidth, low, UInt8.toNat_toBitVec]

theorem charInt_shifted (char : UInt8) {amount : Nat} (inside : amount + 8 ≤ 32) :
    (charInt char <<< amount &&& 0xFF#32 <<< amount).toNat = char.toNat * 2 ^ amount := by
  have bound := char.toNat_lt
  have room : 2 ^ 8 * 2 ^ amount ≤ 2 ^ 32 := by
    rw [← Nat.pow_add]
    exact Nat.pow_le_pow_right (by decide) (by omega)
  have fits : char.toNat * 2 ^ amount < 2 ^ 32 :=
    Nat.lt_of_lt_of_le (Nat.mul_lt_mul_of_pos_right bound (Nat.two_pow_pos amount)) room
  rw [← BitVec.shiftLeft_and_distrib, BitVec.toNat_shiftLeft, charInt_masked, Nat.shiftLeft_eq,
    Nat.mod_eq_of_lt fits]

/-- `p[0] & 0xFF | p[1] << 8 & 0xFF00`. -/
def shortOfChars (p0 p1 : UInt8) : BitVec 32 :=
  charInt p0 &&& 0xFF#32 ||| charInt p1 <<< 8 &&& 0xFF00#32

/-- The same of four bytes. -/
def wordOfChars (p0 p1 p2 p3 : UInt8) : BitVec 32 :=
  charInt p0 &&& 0xFF#32 ||| charInt p1 <<< 8 &&& 0xFF00#32 |||
    charInt p2 <<< 16 &&& 0xFF0000#32 ||| charInt p3 <<< 24 &&& 0xFF000000#32

/-- A number above the bits of another one. -/
theorem or_above {low amount : Nat} (below : low < 2 ^ amount) (high : Nat) :
    low ||| high * 2 ^ amount = low + 2 ^ amount * high := by
  rw [Nat.or_comm, Nat.mul_comm high, ← Nat.two_pow_add_eq_or_of_lt below, Nat.add_comm]

theorem shortOfChars_toNat (p0 p1 : UInt8) :
    (shortOfChars p0 p1).toNat = p0.toNat + 2 ^ 8 * p1.toNat := by
  have mask : 0xFF00#32 = 0xFF#32 <<< 8 := rfl
  unfold shortOfChars
  rw [BitVec.toNat_or, charInt_masked, mask, charInt_shifted p1 (by decide),
    or_above p0.toNat_lt]

theorem shortOfChars_eq (p0 p1 : UInt8) :
    (shortOfChars p0 p1).setWidth 16 = shortField p0 p1 := by
  have low := p0.toNat_lt
  have high := p1.toNat_lt
  apply BitVec.eq_of_toNat_eq
  rw [BitVec.toNat_setWidth, shortOfChars_toNat, shortField_toNat]
  omega

theorem wordOfChars_eq (p0 p1 p2 p3 : UInt8) :
    wordOfChars p0 p1 p2 p3 = wordField p0 p1 p2 p3 := by
  have byte0 := p0.toNat_lt
  have byte1 := p1.toNat_lt
  have byte2 := p2.toNat_lt
  have third : 0xFF0000#32 = 0xFF#32 <<< 16 := rfl
  have fourth : 0xFF000000#32 = 0xFF#32 <<< 24 := rfl
  have two : p0.toNat + 2 ^ 8 * p1.toNat < 2 ^ 16 := by omega
  have three : p0.toNat + 2 ^ 8 * p1.toNat + 2 ^ 16 * p2.toNat < 2 ^ 24 := by omega
  apply BitVec.eq_of_toNat_eq
  show (shortOfChars p0 p1 ||| charInt p2 <<< 16 &&& 0xFF0000#32 |||
    charInt p3 <<< 24 &&& 0xFF000000#32).toNat = _
  rw [third, fourth, BitVec.toNat_or, BitVec.toNat_or, shortOfChars_toNat,
    charInt_shifted p2 (by decide), charInt_shifted p3 (by decide), or_above two, or_above three,
    wordField_toNat]

end SimpleDfs.Library
