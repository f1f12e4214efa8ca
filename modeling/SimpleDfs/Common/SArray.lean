import Mathlib.Algebra.Group.Nat.Defs
import Mathlib.Data.List.Basic
import Mathlib.Order.Lattice
import Mathlib.Tactic.Common

/-!
Contract: the growing arrays of `common/s_array.c`.

Owns: creating an array and pushing an element, and how many elements an array
has room for.

Does not own: what the elements are.

Sizes and offsets are `int`s, and C does not say what an `int` computation gives
that overflows. There is no result then. Memory is there when it is asked for.
-/

set_option autoImplicit false

namespace SimpleDfs.Common

/-- The value of an `int` computation. -/
def asInt (value : Nat) : Option Nat :=
  if value < 2 ^ 31 then some value else none

@[simp] theorem asInt_of_lt {value : Nat} (small : value < 2 ^ 31) : asInt value = some value :=
  if_pos small

@[simp] theorem asInt_of_ge {value : Nat} (large : 2 ^ 31 ≤ value) : asInt value = none :=
  if_neg (Nat.not_lt.mpr large)

/-- `struct s_array`; `elems` are the `nelem` elements at `p`. -/
structure SArray (Elem : Type) where
  elemSize : Nat
  total : Nat
  elems : List Elem

variable {Elem : Type}

/-- `s_array_create`. -/
def sArrayCreate (elemSize : Nat) (elemNum : Int) : Option (SArray Elem) := do
  let total := (max elemNum 16).toNat
  let _ ← asInt (elemSize * total)
  return { elemSize := elemSize, total := total, elems := [] }

/-- `expand`: the elements are copied to new memory. -/
def expand (array : SArray Elem) (sz : Nat) : Option (SArray Elem) :=
  if array.total ≥ sz then some array
  else do
    let _ ← asInt (sz * array.elemSize)
    let _ ← asInt (array.elems.length * array.elemSize)
    return { array with total := sz }

/-- `s_array_push`, with the element its caller fills in. -/
def sArrayPush (array : SArray Elem) (elem : Elem) : Option (SArray Elem) := do
  let array ←
    if array.elems.length ≥ array.total then do
      let sz ← asInt (array.total * 2)
      expand array sz
    else some array
  let _ ← asInt (array.elemSize * array.elems.length)
  return { array with elems := array.elems ++ [elem] }

/-! ## The room of an array -/

/-- An array of at most `2 ^ limit` elements: its memory is doubled up to this
number, and once more does not fit an `int`. -/
structure Roomy (limit : Nat) (array : SArray Elem) : Prop where
  power : ∃ doubled, doubled ≤ limit ∧ array.total = 2 ^ doubled
  inside : array.elems.length ≤ array.total
  fits : array.elemSize * 2 ^ limit < 2 ^ 31
  greatest : 2 ^ 31 ≤ array.elemSize * 2 ^ (limit + 1)

variable {limit : Nat} {array : SArray Elem}

theorem Roomy.length_le (roomy : Roomy limit array) : array.elems.length ≤ 2 ^ limit := by
  obtain ⟨doubled, least, total⟩ := roomy.power
  exact roomy.inside.trans (total ▸ Nat.pow_le_pow_right (by decide) least)

theorem Roomy.total_pos (roomy : Roomy limit array) : 0 < array.total := by
  obtain ⟨doubled, _, total⟩ := roomy.power
  rw [total]
  exact Nat.two_pow_pos doubled

/-- The memory behind `count` elements is an `int` up to the limit. -/
theorem Roomy.size_lt (roomy : Roomy limit array) {count : Nat} (below : count ≤ 2 ^ limit) :
    array.elemSize * count < 2 ^ 31 :=
  (Nat.mul_le_mul_left array.elemSize below).trans_lt roomy.fits

/-- A full array below its limit is doubled. -/
theorem Roomy.double (roomy : Roomy limit array) (full : array.elems.length = array.total)
    (below : array.elems.length < 2 ^ limit) :
    asInt (array.total * 2) = some (array.total * 2) ∧
      expand array (array.total * 2) = some { array with total := array.total * 2 } ∧
      Roomy limit { array with total := array.total * 2 } := by
  obtain ⟨doubled, least, total⟩ := roomy.power
  have more : doubled < limit := by
    by_contra atLimit
    have same : doubled = limit := by omega
    rw [full, total, same] at below
    exact Nat.lt_irrefl _ below
  have sizes : array.total * 2 = 2 ^ (doubled + 1) := by rw [total, Nat.pow_succ]
  have twice : array.total * 2 ≤ 2 ^ limit := by
    rw [sizes]
    exact Nat.pow_le_pow_right (by decide) more
  have positive := roomy.total_pos
  have block : array.total * 2 * array.elemSize < 2 ^ 31 := by
    rw [Nat.mul_comm]
    exact roomy.size_lt twice
  have copied : array.elems.length * array.elemSize < 2 ^ 31 := by
    rw [Nat.mul_comm]
    exact roomy.size_lt below.le
  have number : array.total * 2 < 2 ^ 31 := by
    rcases Nat.eq_zero_or_pos array.elemSize with zero | some
    · have greatest := roomy.greatest
      rw [zero, Nat.zero_mul] at greatest
      exact absurd greatest (by decide)
    · exact (Nat.le_mul_of_pos_right _ some).trans_lt block
  refine ⟨asInt_of_lt number, ?_, ⟨doubled + 1, more, sizes⟩, ?_, roomy.fits, roomy.greatest⟩
  · unfold expand
    rw [if_neg (by omega)]
    simp only [asInt_of_lt block, asInt_of_lt copied, Option.bind_eq_bind, Option.bind_some,
      Option.pure_def]
  · dsimp only
    omega

/-- An array with room takes the element. -/
theorem Roomy.push (roomy : Roomy limit array) (elem : Elem)
    (below : array.elems.length < 2 ^ limit) :
    ∃ after, sArrayPush array elem = some after ∧ Roomy limit after ∧
      after.elems = array.elems ++ [elem] := by
  have inside := roomy.inside
  have offset := asInt_of_lt (roomy.size_lt below.le)
  have length : (array.elems ++ [elem]).length = array.elems.length + 1 := by simp
  unfold sArrayPush
  by_cases full : array.elems.length ≥ array.total
  · obtain ⟨number, expanded, power, _, fits, greatest⟩ :=
      roomy.double (Nat.le_antisymm inside full) below
    refine ⟨{ array with total := array.total * 2, elems := array.elems ++ [elem] }, ?_,
      ⟨power, ?_, fits, greatest⟩, rfl⟩
    · simp only [if_pos full, number, expanded, offset, Option.bind_eq_bind, Option.bind_some,
        Option.pure_def]
    · have positive := roomy.total_pos
      dsimp only
      omega
  · refine ⟨{ array with elems := array.elems ++ [elem] }, ?_,
      ⟨roomy.power, ?_, roomy.fits, roomy.greatest⟩, rfl⟩
    · simp only [if_neg full, offset, Option.bind_eq_bind, Option.bind_some, Option.pure_def]
    · dsimp only
      omega

/-- A full array at its limit cannot be doubled. -/
theorem Roomy.push_none (roomy : Roomy limit array) (elem : Elem)
    (full : array.elems.length = 2 ^ limit) : sArrayPush array elem = none := by
  obtain ⟨doubled, least, total⟩ := roomy.power
  have inside := roomy.inside
  have most : array.total ≤ 2 ^ limit := by
    rw [total]
    exact Nat.pow_le_pow_right (by decide) least
  have atLimit : array.total = 2 ^ limit := by omega
  have positive : 0 < 2 ^ limit := Nat.two_pow_pos limit
  have block : 2 ^ 31 ≤ array.total * 2 * array.elemSize := by
    rw [atLimit, ← Nat.pow_succ, Nat.mul_comm]
    exact roomy.greatest
  have refused : expand array (array.total * 2) = none := by
    unfold expand
    rw [if_neg (by omega)]
    simp only [asInt_of_ge block, Option.bind_eq_bind, Option.bind_none]
  unfold sArrayPush
  rw [if_pos (by omega)]
  unfold asInt
  split
  · simp only [Option.bind_eq_bind, Option.bind_some, refused, Option.bind_none]
  · simp only [Option.bind_eq_bind, Option.bind_none]

/-- A new array has room for sixteen elements. -/
theorem roomy_create {elemSize : Nat} (four : 4 ≤ limit) (fits : elemSize * 2 ^ limit < 2 ^ 31)
    (greatest : 2 ^ 31 ≤ elemSize * 2 ^ (limit + 1)) :
    ∃ array : SArray Elem, sArrayCreate elemSize 16 = some array ∧ Roomy limit array ∧
      array.elems = [] := by
  have sixteen : elemSize * 16 < 2 ^ 31 :=
    (Nat.mul_le_mul_left elemSize (Nat.pow_le_pow_right (by decide) four)).trans_lt fits
  refine ⟨{ elemSize := elemSize, total := 16, elems := [] }, ?_, ?_, rfl⟩
  · unfold sArrayCreate
    have total : (max (16 : Int) 16).toNat = 16 := rfl
    simp only [total, asInt_of_lt sixteen, Option.bind_eq_bind, Option.bind_some, Option.pure_def]
  · exact ⟨⟨4, four, rfl⟩, Nat.zero_le 16, fits, greatest⟩

end SimpleDfs.Common
