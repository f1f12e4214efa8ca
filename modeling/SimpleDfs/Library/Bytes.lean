import Mathlib.Algebra.Group.Int.Defs
import Mathlib.Algebra.Group.Nat.Defs
import Mathlib.Data.List.Basic
import Mathlib.Tactic.Common

/-!
Contract: words in memory, least significant byte first.

Owns: the bytes of a word and the word of four bytes, the same for half words,
and writing bytes into a list of bytes.

Does not own: what is read or written, and where.
-/

set_option autoImplicit false

namespace SimpleDfs.Library

/-! ## Words -/

/-- The word of four bytes. -/
def wordField (p0 p1 p2 p3 : UInt8) : BitVec 32 :=
  p3.toBitVec ++ p2.toBitVec ++ p1.toBitVec ++ p0.toBitVec

/-- The half word of two bytes. -/
def shortField (p0 p1 : UInt8) : BitVec 16 :=
  p1.toBitVec ++ p0.toBitVec

/-- The word at the start of a list of bytes. -/
def wordOf : List UInt8 → BitVec 32
  | p0 :: p1 :: p2 :: p3 :: _ => wordField p0 p1 p2 p3
  | _ => 0

def shortOf : List UInt8 → BitVec 16
  | p0 :: p1 :: _ => shortField p0 p1
  | _ => 0

/-- A byte of a number. -/
def byteAt (value index : Nat) : UInt8 :=
  UInt8.ofNat (value / 2 ^ (8 * index))

def wordBytes (word : BitVec 32) : List UInt8 :=
  [byteAt word.toNat 0, byteAt word.toNat 1, byteAt word.toNat 2, byteAt word.toNat 3]

def shortBytes (short : BitVec 16) : List UInt8 :=
  [byteAt short.toNat 0, byteAt short.toNat 1]

@[simp] theorem wordBytes_length (word : BitVec 32) : (wordBytes word).length = 4 := rfl

@[simp] theorem shortBytes_length (short : BitVec 16) : (shortBytes short).length = 2 := rfl

theorem byteAt_toNat (value index : Nat) :
    (byteAt value index).toNat = value / 2 ^ (8 * index) % 2 ^ 8 :=
  UInt8.toNat_ofNat'

theorem shortField_toNat (p0 p1 : UInt8) :
    (shortField p0 p1).toNat = p0.toNat + 2 ^ 8 * p1.toNat := by
  have low := p0.toNat_lt
  unfold shortField
  rw [BitVec.toNat_append, UInt8.toNat_toBitVec, UInt8.toNat_toBitVec,
    ← Nat.shiftLeft_add_eq_or_of_lt low, Nat.shiftLeft_eq]
  omega

theorem wordField_toNat (p0 p1 p2 p3 : UInt8) :
    (wordField p0 p1 p2 p3).toNat =
      p0.toNat + 2 ^ 8 * p1.toNat + 2 ^ 16 * p2.toNat + 2 ^ 24 * p3.toNat := by
  have byte0 := p0.toNat_lt
  have byte1 := p1.toNat_lt
  have byte2 := p2.toNat_lt
  unfold wordField
  simp only [BitVec.toNat_append, UInt8.toNat_toBitVec]
  rw [← Nat.shiftLeft_add_eq_or_of_lt byte2, ← Nat.shiftLeft_add_eq_or_of_lt byte1,
    ← Nat.shiftLeft_add_eq_or_of_lt byte0]
  simp only [Nat.shiftLeft_eq]
  omega

/-- A word is read back from its bytes, whatever follows them. -/
theorem wordOf_wordBytes (word : BitVec 32) (rest : List UInt8) :
    wordOf (wordBytes word ++ rest) = word := by
  have bound := word.isLt
  apply BitVec.eq_of_toNat_eq
  show (wordField _ _ _ _).toNat = _
  rw [wordField_toNat]
  simp only [byteAt_toNat]
  omega

/-- The bytes behind a word do not matter. -/
theorem wordOf_take (bytes : List UInt8) {count : Nat} (four : 4 ≤ count) :
    wordOf (bytes.take count) = wordOf bytes := by
  obtain ⟨more, rfl⟩ := Nat.exists_eq_add_of_le' four
  match bytes with
  | [] => rfl
  | [_] => rfl
  | [_, _] => rfl
  | [_, _, _] => rfl
  | _ :: _ :: _ :: _ :: _ => rfl

/-- The bytes of a word are those it was made of. -/
theorem wordBytes_wordField (p0 p1 p2 p3 : UInt8) :
    wordBytes (wordField p0 p1 p2 p3) = [p0, p1, p2, p3] := by
  have byte0 := p0.toNat_lt
  have byte1 := p1.toNat_lt
  have byte2 := p2.toNat_lt
  have byte3 := p3.toNat_lt
  have each : ∀ (value index : Nat) (p : UInt8), value / 2 ^ (8 * index) % 2 ^ 8 = p.toNat →
      byteAt value index = p := by
    intro value index p same
    apply UInt8.toNat_inj.mp
    rw [byteAt_toNat, same]
  unfold wordBytes
  rw [wordField_toNat, each _ 0 p0 (by omega), each _ 1 p1 (by omega), each _ 2 p2 (by omega),
    each _ 3 p3 (by omega)]

theorem shortOf_shortBytes (short : BitVec 16) (rest : List UInt8) :
    shortOf (shortBytes short ++ rest) = short := by
  have bound := short.isLt
  apply BitVec.eq_of_toNat_eq
  show (shortField _ _).toNat = _
  rw [shortField_toNat]
  simp only [byteAt_toNat]
  omega

/-! ## Writing -/

/-- Bytes written over those at a position. -/
def overwrite (memory : List UInt8) (pos : Nat) (bytes : List UInt8) : List UInt8 :=
  memory.take pos ++ bytes ++ memory.drop (pos + bytes.length)

theorem overwrite_middle (front old back bytes : List UInt8) (same : old.length = bytes.length) :
    overwrite (front ++ (old ++ back)) front.length bytes = front ++ (bytes ++ back) := by
  unfold overwrite
  rw [List.take_left, ← same, ← List.drop_drop, List.drop_left, List.drop_left, List.append_assoc]

theorem overwrite_length {memory : List UInt8} {pos : Nat} {bytes : List UInt8}
    (fits : pos + bytes.length ≤ memory.length) :
    (overwrite memory pos bytes).length = memory.length := by
  unfold overwrite
  rw [List.length_append, List.length_append, List.length_take, List.length_drop]
  omega

/-- What stands behind the bytes written is not changed. -/
theorem drop_overwrite {memory bytes : List UInt8} {pos count : Nat}
    (fits : pos + bytes.length ≤ memory.length) (behind : pos + bytes.length ≤ count) :
    (overwrite memory pos bytes).drop count = memory.drop count := by
  have front : (memory.take pos ++ bytes).length = pos + bytes.length := by
    rw [List.length_append, List.length_take]
    omega
  unfold overwrite
  rw [List.drop_append, List.drop_eq_nil_of_le (by omega), List.nil_append, front, List.drop_drop]
  congr 1
  omega

/-- Bytes over bytes of the same number. -/
theorem overwrite_twice {memory first second : List UInt8} {pos : Nat}
    (inside : pos + first.length ≤ memory.length) (same : second.length = first.length) :
    overwrite (overwrite memory pos first) pos second = overwrite memory pos second := by
  have front : (memory.take pos).length = pos := by
    rw [List.length_take]
    omega
  have rewritten := overwrite_middle (memory.take pos) first
    (memory.drop (pos + first.length)) second same.symm
  rw [front, ← List.append_assoc] at rewritten
  have again : overwrite memory pos first =
      memory.take pos ++ first ++ memory.drop (pos + first.length) := rfl
  rw [again, rewritten, ← List.append_assoc, ← same]
  rfl

/-- The word that is there. -/
theorem overwrite_wordOf {memory : List UInt8} {pos : Nat} (inside : pos + 4 ≤ memory.length) :
    overwrite memory pos (wordBytes (wordOf (memory.drop pos))) = memory := by
  have there : memory.take pos ++ memory.drop pos = memory := List.take_append_drop pos memory
  unfold overwrite
  rw [wordBytes_length, ← List.drop_drop]
  match tail : memory.drop pos with
  | p0 :: p1 :: p2 :: p3 :: rest =>
      have bytes : wordBytes (wordOf (p0 :: p1 :: p2 :: p3 :: rest)) = [p0, p1, p2, p3] :=
        wordBytes_wordField p0 p1 p2 p3
      rw [bytes, List.append_assoc]
      rw [tail] at there
      exact there
  | [] | [_] | [_, _] | [_, _, _] =>
      have length := congrArg List.length tail
      rw [List.length_drop] at length
      simp only [List.length_cons, List.length_nil] at length
      omega

end SimpleDfs.Library
