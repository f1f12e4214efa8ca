import Mathlib.Algebra.Group.Int.Defs
import Mathlib.Algebra.Group.Nat.Defs
import Mathlib.Algebra.GroupWithZero.Nat
import Mathlib.Data.List.Basic
import Mathlib.Data.Nat.Log
import Mathlib.Tactic.Common

/-!
Contract: the keys of `common/s_hash.c` and the strings of `common/s_string.c`.

Owns: `SString` with its hash and equality; `SHashKey`, `iget_hash` and
`iequal`; and that `iequal` is an equivalence that `iget_hash` respects.

Does not own: reference counts, or the table the keys are put in.
-/

set_option autoImplicit false

namespace SimpleDfs.Common

/-! ## Strings -/

/-- `struct s_string`: its bytes, without the closing zero. The index of `ihash`
is an `int`, so no longer string comes out of `s_string_create_len`. -/
structure SString where
  data : List UInt8
  bounded : data.length < 2 ^ 31
  deriving DecidableEq

/-- One turn of the loop of `ihash`, for every `i` from `start` down. -/
def ihashLoop (p : List UInt8) (step : Nat) : Nat → Nat → UInt32 → UInt32
  | 0, _, h => h
  | fuel + 1, i, h =>
      if i ≥ step then
        ihashLoop p step fuel (i - step)
          (h ^^^ ((h <<< 5) + (h >>> 2) + (p.getD (i - 1) 0).toUInt32))
      else h

/-- `ihash`: at most 32 bytes of the string enter the hash. -/
def ihash (p : List UInt8) : UInt32 :=
  let step := p.length / 2 ^ 5 + 1
  ihashLoop p step (p.length + 1) p.length (UInt32.ofNat p.length)

/-- `s_string_get_hash`. -/
def sStringGetHash (str : SString) : UInt32 :=
  ihash str.data

/-- `strncmp(a, b, n) == 0` for two strings of `n` bytes: the comparison ends at
a zero byte. -/
def strncmpZero : List UInt8 → List UInt8 → Bool
  | [], _ => true
  | _ :: _, [] => false
  | a :: as, b :: bs => a == b && (a == 0 || strncmpZero as bs)

/-- `s_string_equal`. Two pointers to one string also pass the comparison. -/
def sStringEqual (a b : SString) : Bool :=
  a.data.length == b.data.length && sStringGetHash a == sStringGetHash b &&
    strncmpZero a.data b.data

/-! ## Keys -/

/-- The numbers that reach the table: the values of `int` and `unsigned int`. -/
def Integer32 : Type := { value : Int // -2 ^ 31 ≤ value ∧ value < 2 ^ 32 }
  deriving DecidableEq

/-- `struct s_hash_key`: the tag is the constructor. An id is given by its
components, a pointer by its address. -/
inductive SHashKey where
  | str (str : SString)
  | num (num : Integer32)
  | id (x y : Int32)
  | voidp (p : UInt64)
  deriving DecidableEq

/-- The bits of the `double` that holds an integer below `2 ^ 53` in size. -/
def doubleBits (value : Int) : Nat :=
  let size := value.natAbs
  if size = 0 then 0
  else
    let exponent := Nat.log 2 size
    (if value < 0 then 2 ^ 63 else 0) + (exponent + 1023) * 2 ^ 52 +
      (size - 2 ^ exponent) * 2 ^ (52 - exponent)

/-- The sum of the bytes of a `double`. -/
def sumBytes (bits : Nat) : UInt32 :=
  UInt32.ofNat (((List.range 8).map fun i => bits / 256 ^ i % 256).sum)

/-- `iget_hash`. A negative number does not survive the way through `unsigned
int`, so its bytes are summed up. -/
def igetHash : SHashKey → UInt32
  | .str str => sStringGetHash str
  | .num num => if 0 ≤ num.val then UInt32.ofNat num.val.toNat else sumBytes (doubleBits num.val)
  | .id x y => (x + y).toUInt32
  | .voidp p => p.toUInt32

/-- `iequal`. -/
def iequal : SHashKey → SHashKey → Bool
  | .num a, .num b => a.val == b.val
  | .voidp a, .voidp b => a == b
  | .id x y, .id x' y' => x == x' && y == y'
  | .str a, .str b => sStringEqual a b
  | _, _ => false

/-! ## Equality of keys -/

theorem strncmpZero_refl (a : List UInt8) : strncmpZero a a = true := by
  induction a with
  | nil => rfl
  | cons head tail inductionHypothesis => simp [strncmpZero, inductionHypothesis]

theorem strncmpZero_symm : ∀ {a b : List UInt8}, a.length = b.length →
    strncmpZero a b = true → strncmpZero b a = true := by
  intro a
  induction a with
  | nil =>
      intro b length _
      rw [List.length_nil, eq_comm, List.length_eq_zero_iff] at length
      rw [length]
      rfl
  | cons head tail inductionHypothesis =>
      intro b length equal
      cases b with
      | nil => simp at length
      | cons other rest =>
          simp only [strncmpZero, Bool.and_eq_true, Bool.or_eq_true, beq_iff_eq] at equal ⊢
          refine ⟨equal.1.symm, equal.2.imp (fun zero => equal.1 ▸ zero) ?_⟩
          exact inductionHypothesis (by simpa using length)

theorem strncmpZero_trans : ∀ {a b c : List UInt8}, strncmpZero a b = true →
    strncmpZero b c = true → strncmpZero a c = true := by
  intro a
  induction a with
  | nil =>
      intro b c _ _
      rfl
  | cons head tail inductionHypothesis =>
      intro b c first second
      cases b with
      | nil => simp [strncmpZero] at first
      | cons middle rest =>
          cases c with
          | nil => simp [strncmpZero] at second
          | cons last others =>
              simp only [strncmpZero, Bool.and_eq_true, Bool.or_eq_true, beq_iff_eq]
                at first second ⊢
              refine ⟨first.1.trans second.1, ?_⟩
              rcases first.2 with zero | firstRest
              · exact Or.inl zero
              · rcases second.2 with zero | secondRest
                · exact Or.inl (first.1.trans zero)
                · exact Or.inr (inductionHypothesis firstRest secondRest)

theorem sStringEqual_iff {a b : SString} :
    sStringEqual a b = true ↔ a.data.length = b.data.length ∧
      sStringGetHash a = sStringGetHash b ∧ strncmpZero a.data b.data = true := by
  simp [sStringEqual, and_assoc]

theorem iequal_refl (key : SHashKey) : iequal key key = true := by
  cases key with
  | str str => exact sStringEqual_iff.mpr ⟨rfl, rfl, strncmpZero_refl str.data⟩
  | num num => simp [iequal]
  | id x y => simp [iequal]
  | voidp p => simp [iequal]

theorem iequal_symm {a b : SHashKey} (equal : iequal a b = true) : iequal b a = true := by
  cases a <;> cases b <;> simp only [iequal, Bool.false_eq_true] at equal ⊢
  case str.str =>
    rw [sStringEqual_iff] at equal ⊢
    exact ⟨equal.1.symm, equal.2.1.symm, strncmpZero_symm equal.1 equal.2.2⟩
  all_goals simp_all

theorem iequal_trans {a b c : SHashKey} (first : iequal a b = true) (second : iequal b c = true) :
    iequal a c = true := by
  cases a <;> cases b <;> simp only [iequal, Bool.false_eq_true] at first <;>
    cases c <;> simp only [iequal, Bool.false_eq_true] at second ⊢
  case str.str.str =>
    rw [sStringEqual_iff] at first second ⊢
    exact ⟨first.1.trans second.1, first.2.1.trans second.2.1,
      strncmpZero_trans first.2.2 second.2.2⟩
  all_goals simp_all

/-- Equal keys have one hash. -/
theorem igetHash_of_iequal {a b : SHashKey} (equal : iequal a b = true) :
    igetHash a = igetHash b := by
  cases a <;> cases b <;> simp only [iequal, Bool.false_eq_true] at equal
  case str.str => exact (sStringEqual_iff.mp equal).2.1
  all_goals simp_all [igetHash]

end SimpleDfs.Common
