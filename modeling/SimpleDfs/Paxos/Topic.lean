import Mathlib.Data.List.TakeWhile
import Mathlib.Tactic.Common
import Mathlib.Tactic.Linarith
import SimpleDfs.Library.Decimal

/-!
Contract: the topic of a membership change (`iget_new_version` and the topics
built by `s_string_create_format("version:%d", ...)`).

Owns: topics as byte strings, `s_int_to_string`, `atoi`, and the fact that a
numeral reads back as its number, so that the topic of a version does.

Does not own: what is proposed on a topic.
-/

set_option autoImplicit false

namespace SimpleDfs.Paxos

open Library

/-- The bytes of a `struct s_string`. -/
abbrev Topic := List Nat

/-- The digit loop of `s_int_to_string`; the buffer has room for `room` more
characters. -/
def digitLoop : Nat → Nat → List Nat → List Nat
  | 0, _, text => text
  | room + 1, i, text =>
      if i > 0 then digitLoop room (i / 10) ((i % 10 + 48) :: text) else text

/-- `s_int_to_string` for a 32-bit `int`. -/
def sIntToString (i : Int) : List Nat :=
  if i = 0 then [48]
  else
    let magnitude := if i < 0 then (i * -1).bmod (2 ^ 32) else i
    let digits := digitLoop 63 magnitude.toNat []
    if i < 0 then 45 :: digits else digits

/-- The characters `isspace` accepts. -/
def isSpace (c : Nat) : Bool :=
  c == 32 || (9 ≤ c && c ≤ 13)

/-- The characters `isdigit` accepts. -/
def isDigit (c : Nat) : Bool :=
  48 ≤ c && c ≤ 57

/-- The value of a run of digits. -/
def digitsValue (digits : List Nat) : Nat :=
  digits.foldl (fun value digit => value * 10 + (digit - 48)) 0

/-- The optional sign of a number: whether it is a minus, and what follows. -/
def splitSign : List Nat → Bool × List Nat
  | [] => (false, [])
  | c :: rest =>
      if c = 45 then (true, rest) else if c = 43 then (false, rest) else (false, c :: rest)

/-- `atoi`: `strtol` in base ten, cut to an `int`. -/
def atoi (text : List Nat) : Int :=
  let signed := splitSign (text.dropWhile isSpace)
  let magnitude : Int := digitsValue (signed.2.takeWhile isDigit)
  let long : Int := if signed.1 then max (-magnitude) (-2 ^ 63) else min magnitude (2 ^ 63 - 1)
  long.bmod (2 ^ 32)

/-- The bytes of `"version:"`. -/
def versionPrefix : List Nat := [118, 101, 114, 115, 105, 111, 110, 58]

/-- `iget_new_version`. -/
def igetNewVersion (topic : Topic) : Int :=
  if versionPrefix.isPrefixOf topic then atoi (topic.drop 8) else -1

/-- `s_string_create_format("version:%d", version)`. -/
def versionTopic (version : Int) : Topic :=
  versionPrefix ++ sIntToString version

/-! ## The numeral -/

theorem digitLoop_append (room i : Nat) (text : List Nat) :
    digitLoop room i text = digitLoop room i [] ++ text := by
  induction room generalizing i text with
  | zero => rfl
  | succ room inductionHypothesis =>
      rw [digitLoop, digitLoop]
      split
      · rw [inductionHypothesis, inductionHypothesis (i / 10) [_], List.append_assoc]
        rfl
      · rfl

@[simp] theorem digitLoop_zero (room : Nat) (text : List Nat) : digitLoop room 0 text = text := by
  cases room <;> rfl

/-- The loop writes the digits of a number that has room. -/
theorem digitLoop_eq_decimal (room i : Nat) (positive : 0 < i) (fits : i < 10 ^ room) :
    digitLoop room i [] = decimal i := by
  induction room generalizing i with
  | zero =>
      rw [Nat.pow_zero] at fits
      omega
  | succ room inductionHypothesis =>
      rw [digitLoop, if_pos positive]
      by_cases single : i < 10
      · rw [Nat.div_eq_of_lt single, Nat.mod_eq_of_lt single, digitLoop_zero, decimal_of_lt single]
      · have high := inductionHypothesis (i / 10) (by omega) (by
          rw [Nat.pow_succ] at fits
          omega)
        rw [digitLoop_append, high]
        exact (decimal_of_ge (by omega)).symm

/-- `s_int_to_string` writes the numeral of every number that has a negative. -/
theorem sIntToString_eq_numeral {i : Int} (lower : -2 ^ 31 < i) (upper : i < 2 ^ 31) :
    sIntToString i = numeral i := by
  have room : (2 : Nat) ^ 31 ≤ 10 ^ 63 := by decide
  unfold sIntToString
  split
  next zero =>
    rw [zero]
    rfl
  next some =>
    dsimp only
    split
    next negative =>
      have magnitude : (i * -1).bmod (2 ^ 32) = -i := by
        rw [Int.bmod_eq_of_le (by omega) (by omega)]
        omega
      rw [magnitude, numeral_of_neg negative,
        digitLoop_eq_decimal 63 (-i).toNat (by omega) (by omega)]
    next nonneg =>
      rw [numeral_of_nonneg (by omega), digitLoop_eq_decimal 63 i.toNat (by omega) (by omega)]

/-! ## Reading it back -/

theorem isDigit_decimal (number : Nat) : ∀ c ∈ decimal number, isDigit c = true := by
  induction number using Nat.strong_induction_on with
  | _ number inductionHypothesis =>
      intro c member
      by_cases single : number < 10
      · rw [decimal_of_lt single] at member
        rw [List.mem_singleton.mp member]
        simp only [isDigit, Bool.and_eq_true, decide_eq_true_eq]
        omega
      · rw [decimal_of_ge (by omega)] at member
        rcases List.mem_append.mp member with high | low
        · exact inductionHypothesis (number / 10) (by omega) c high
        · have last : number % 10 < 10 := Nat.mod_lt number (by decide)
          rw [List.mem_singleton.mp low]
          simp only [isDigit, Bool.and_eq_true, decide_eq_true_eq]
          omega

theorem digitsValue_decimal (number : Nat) : digitsValue (decimal number) = number := by
  induction number using Nat.strong_induction_on with
  | _ number inductionHypothesis =>
      by_cases single : number < 10
      · rw [decimal_of_lt single, digitsValue, List.foldl_cons, List.foldl_nil]
        omega
      · have high := inductionHypothesis (number / 10) (by omega)
        rw [digitsValue] at high
        rw [decimal_of_ge (by omega), digitsValue, List.foldl_append, high, List.foldl_cons,
          List.foldl_nil]
        omega

section

variable {digits : List Nat}

/-- A run of digits starts with no white space and no sign. -/
theorem splitSign_digits (areDigits : ∀ c ∈ digits, isDigit c = true) :
    splitSign (digits.dropWhile isSpace) = (false, digits) := by
  cases digits with
  | nil => rfl
  | cons head tail =>
      have digit := areDigits head List.mem_cons_self
      simp only [isDigit, Bool.and_eq_true, decide_eq_true_eq] at digit
      have visible : isSpace head = false := by
        simp only [isSpace, Bool.or_eq_false_iff, beq_eq_false_iff_ne, Bool.and_eq_false_iff,
          decide_eq_false_iff_not]
        omega
      rw [List.dropWhile_cons_of_neg (by rw [visible]; exact Bool.false_ne_true), splitSign,
        if_neg (by omega), if_neg (by omega)]

theorem atoi_digits (areDigits : ∀ c ∈ digits, isDigit c = true)
    (small : digitsValue digits < 2 ^ 31) : atoi digits = digitsValue digits := by
  have allDigits : digits.takeWhile isDigit = digits := List.takeWhile_eq_self_iff.mpr areDigits
  rw [atoi, splitSign_digits areDigits]
  dsimp only
  rw [allDigits, if_neg Bool.false_ne_true, min_eq_left (by omega)]
  exact Int.bmod_eq_of_le (by omega) (by omega)

theorem atoi_minus (areDigits : ∀ c ∈ digits, isDigit c = true)
    (small : digitsValue digits ≤ 2 ^ 31) : atoi (45 :: digits) = -digitsValue digits := by
  have allDigits : digits.takeWhile isDigit = digits := List.takeWhile_eq_self_iff.mpr areDigits
  have signed : splitSign ((45 :: digits).dropWhile isSpace) = (true, digits) := rfl
  rw [atoi, signed]
  dsimp only
  rw [allDigits, if_pos rfl, max_eq_left (by omega)]
  exact Int.bmod_eq_of_le (by omega) (by omega)

end

/-- The numeral of an `int` reads back as the number. -/
theorem atoi_numeral {number : Int} (lower : -2 ^ 31 ≤ number) (upper : number < 2 ^ 31) :
    atoi (numeral number) = number := by
  rcases Int.lt_or_le number 0 with negative | nonneg
  · have value := digitsValue_decimal (-number).toNat
    rw [numeral_of_neg negative, atoi_minus (isDigit_decimal _) (by omega)]
    omega
  · have value := digitsValue_decimal number.toNat
    rw [numeral_of_nonneg nonneg, atoi_digits (isDigit_decimal _) (by omega)]
    omega

theorem igetNewVersion_of_prefix (text : List Nat) :
    igetNewVersion (versionPrefix ++ text) = atoi text := by
  have topicPrefix : versionPrefix.isPrefixOf (versionPrefix ++ text) = true := by
    rw [List.isPrefixOf_iff_prefix]
    exact List.prefix_append _ _
  rw [igetNewVersion, if_pos topicPrefix]
  rfl

/-- **The topic of a version reads back as its number.** -/
theorem igetNewVersion_versionTopic (version : Int) (nonneg : 0 ≤ version)
    (small : version < 2 ^ 31) : igetNewVersion (versionTopic version) = version := by
  rw [versionTopic, igetNewVersion_of_prefix, sIntToString_eq_numeral (by omega) small,
    atoi_numeral (by omega) small]

end SimpleDfs.Paxos
