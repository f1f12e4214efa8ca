import Mathlib.Algebra.Group.Nat.Defs
import Mathlib.Data.List.Lex
import Mathlib.Order.Defs.LinearOrder

/-!
Contract: decimal numbers as text.

Owns: the numeral of a number, digit by digit; the text of a number padded with
zeros, and that texts of one width are ordered as their numbers.

Does not own: who writes such numbers.
-/

set_option autoImplicit false

namespace SimpleDfs.Library

/-! ## Numerals -/

/-- The decimal digits of a number, as the codes of their characters. -/
def decimal (number : Nat) : List Nat :=
  (Nat.toDigits 10 number).map Char.toNat

/-- The decimal numeral of an integer. -/
def numeral (number : Int) : List Nat :=
  (toString number).toList.map Char.toNat

theorem toNat_digitChar : ∀ {digit : Nat}, digit < 10 → (Nat.digitChar digit).toNat = digit + 48 := by
  decide

theorem decimal_of_lt {number : Nat} (single : number < 10) : decimal number = [number + 48] := by
  rw [decimal, Nat.toDigits_of_lt_base single, List.map_cons, toNat_digitChar single]
  rfl

/-- The last digit stands behind the others. -/
theorem decimal_of_ge {number : Nat} (more : 10 ≤ number) :
    decimal number = decimal (number / 10) ++ [number % 10 + 48] := by
  have last : number % 10 < 10 := Nat.mod_lt number (by decide)
  rw [decimal, Nat.toDigits_of_base_le (by decide) more, List.map_append, List.map_cons,
    toNat_digitChar last]
  rfl

theorem numeral_of_nonneg {number : Int} (nonneg : 0 ≤ number) :
    numeral number = decimal number.toNat := by
  rw [numeral, Int.toString_eq_repr, Int.repr_eq_if, if_pos nonneg, Nat.toList_repr]
  rfl

theorem numeral_of_neg {number : Int} (negative : number < 0) :
    numeral number = 45 :: decimal (-number).toNat := by
  rw [numeral, Int.toString_eq_repr, Int.repr_eq_if, if_neg (by omega), String.toList_append,
    Nat.toList_repr]
  rfl

/-! ## Numbers of a fixed width -/

/-- The last `width` decimal digits of a number, as the codes of their
characters. -/
def zeroPadded : Nat → Nat → List Nat
  | 0, _ => []
  | width + 1, number => (48 + number / 10 ^ width % 10) :: zeroPadded width number

@[simp] theorem zeroPadded_length (width number : Nat) : (zeroPadded width number).length = width := by
  induction width with
  | zero => rfl
  | succ width inductionHypothesis => rw [zeroPadded, List.length_cons, inductionHypothesis]

/-- The characters are digits. -/
theorem digit_of_mem {width number char : Nat} (member : char ∈ zeroPadded width number) :
    48 ≤ char ∧ char < 58 := by
  induction width with
  | zero => exact absurd member List.not_mem_nil
  | succ width inductionHypothesis =>
      rcases List.mem_cons.mp member with rfl | later
      · omega
      · exact inductionHypothesis later

/-- Only the last digits count. -/
theorem zeroPadded_mod (width number : Nat) :
    ∀ more, zeroPadded width (number % 10 ^ (width + more)) = zeroPadded width number := by
  induction width with
  | zero => exact fun _ => rfl
  | succ width inductionHypothesis =>
      intro more
      have digits : 10 ^ (width + 1 + more) = 10 ^ width * 10 ^ (1 + more) := by
        rw [← Nat.pow_add, Nat.add_assoc]
      have ten : 10 ∣ 10 ^ (1 + more) := ⟨10 ^ more, Nat.pow_add 10 1 more⟩
      have tail := inductionHypothesis (1 + more)
      rw [← Nat.add_assoc] at tail
      rw [zeroPadded, zeroPadded, tail, digits, Nat.mod_mul_right_div_self, Nat.mod_mod_of_dvd _ ten]

/-- **Texts of one width are ordered as their numbers.** -/
theorem zeroPadded_lt (width : Nat) :
    ∀ {number other : Nat}, number < other → other < 10 ^ width →
      zeroPadded width number < zeroPadded width other := by
  induction width with
  | zero =>
      intro number other less small
      omega
  | succ width inductionHypothesis =>
      intro number other less small
      have positive : 0 < 10 ^ width := Nat.pow_pos (by omega)
      have digit : ∀ {n : Nat}, n < 10 ^ (width + 1) → n / 10 ^ width % 10 = n / 10 ^ width := by
        intro n bound
        rw [Nat.pow_succ'] at bound
        exact Nat.mod_eq_of_lt (Nat.div_lt_of_lt_mul (by rw [Nat.mul_comm]; exact bound))
      rw [zeroPadded, zeroPadded, digit small, digit (less.trans small), List.cons_lt_cons_iff]
      rcases Nat.lt_or_ge (number / 10 ^ width) (other / 10 ^ width) with smaller | atLeast
      · exact Or.inl (by omega)
      · -- the first digits agree, so the rest decides
        have same : number / 10 ^ width = other / 10 ^ width :=
          le_antisymm (Nat.div_le_div_right less.le) atLeast
        have rest : number % 10 ^ width < other % 10 ^ width := by
          have first := Nat.div_add_mod number (10 ^ width)
          have second := Nat.div_add_mod other (10 ^ width)
          rw [same] at first
          omega
        have tail := inductionHypothesis rest (Nat.mod_lt other positive)
        have whole := fun n => zeroPadded_mod width n 0
        rw [Nat.add_zero] at whole
        rw [whole, whole] at tail
        exact Or.inr ⟨by rw [same], tail⟩

end SimpleDfs.Library
