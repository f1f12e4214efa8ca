import Mathlib.Algebra.Group.Int.Defs
import Mathlib.Data.List.Basic
import Mathlib.Logic.Function.Basic
import Mathlib.Tactic.Common
import SimpleDfs.Library.Decimal

/-!
Contract: numbers as text (`common/s_num_str.c`) and formatted strings
(`s_string_create_format` of `common/s_string.c`).

Owns: the buffer of `s_int_to_string` and the text its pointer leads to, and
the format loop.

Does not own: what the strings are used for.

Characters are given by their codes. Where a function returns a null pointer, or
C does not say what it does, it has no result.
-/

set_option autoImplicit false

namespace SimpleDfs.Common

open Library

/-! ## Numbers -/

/-- The pointer `s_int_to_string` returns: to the literal `"0"`, or into its
buffer. -/
inductive NumStr where
  | zero
  | buf (index : Nat)
  deriving DecidableEq, Repr

/-- The loop of `s_int_to_string`, where `room` is `pos + 1`. -/
def digitTurns : Nat → Int → (Nat → Nat) → Nat × Int × (Nat → Nat)
  | 0, i, buf => (0, i, buf)
  | pos + 1, i, buf =>
      if i > 0 then digitTurns pos (i / 10) (Function.update buf pos ((i % 10).toNat + 48))
      else (pos + 1, i, buf)

/-- `s_int_to_string`, with its static buffer before and after the call. -/
def sIntToString (i : Int) (buf : Nat → Nat) : Option NumStr × (Nat → Nat) :=
  let buf := Function.update buf 63 0
  if i = 0 then (some .zero, buf)
  else
    let magnitude := if i < 0 then (i * -1).bmod (2 ^ 32) else i
    let (room, left, buf) := digitTurns 63 magnitude buf
    if left > 0 then (none, buf)
    else if i < 0 ∧ 0 < room then (some (.buf (room - 1)), Function.update buf (room - 1) 45)
    else (some (.buf room), buf)

/-- The characters from an index on, up to a zero. -/
def stringFrom (buf : Nat → Nat) : Nat → Nat → List Nat
  | 0, _ => []
  | left + 1, index =>
      if buf index = 0 then [] else buf index :: stringFrom buf left (index + 1)

/-- The string at the pointer. -/
def stringAt (buf : Nat → Nat) : NumStr → List Nat
  | .zero => [48]
  | .buf index => stringFrom buf (64 - index) index

/-- The string that `s_int_to_string` returns. -/
def numberText (i : Int) (buf : Nat → Nat) : Option (List Nat) :=
  (sIntToString i buf).1.map (stringAt (sIntToString i buf).2)

/-! ## Formats -/

/-- An argument behind the format; a string ends before its zero. -/
inductive FormatArg where
  | int (i : Int)
  | str (p : List Nat)
  deriving DecidableEq, Repr

/-- `S_STR_FORMAT_LIMIT`. -/
def sStrFormatLimit : Nat := 1024

/-- `label_process_string`: the text with the string appended. -/
def processString (text p : List Nat) : Option (List Nat) :=
  if text.length + p.length ≥ sStrFormatLimit then none else some (text ++ p)

/-- The `switch` on the character behind a `%`. -/
def formatSwitch (next : Nat) (args : List FormatArg) (buf : Nat → Nat) (text : List Nat) :
    Option (List FormatArg × (Nat → Nat) × List Nat) :=
  if next = 37 then some (args, buf, text ++ [37])
  else if next = 100 then
    match args with
    | .int i :: args => do
        let p ← numberText i buf
        let text ← processString text p
        return (args, (sIntToString i buf).2, text)
    | _ => none
  else if next = 115 then
    match args with
    | .str p :: args => do
        let text ← processString text p
        return (args, buf, text)
    | _ => none
  else none

/-- The loop of `s_string_create_format`; `text` is `buf` up to `pos`. A text
that reaches the limit ends it, and is an error at the end of the format. -/
def formatLoop : List Nat → List FormatArg → (Nat → Nat) → List Nat → Option (List Nat)
  | [], _, _, text => some text
  | 37 :: format, args, buf, text =>
      match format with
      | [] => none
      | next :: format =>
          match formatSwitch next args buf text with
          | none => none
          | some (args, buf, text) =>
              if text.length ≥ sStrFormatLimit then if format = [] then none else some text
              else formatLoop format args buf text
  | c :: format, args, buf, text =>
      if (text ++ [c]).length ≥ sStrFormatLimit then
        if format = [] then none else some (text ++ [c])
      else formatLoop format args buf (text ++ [c])

/-- `s_string_create_format`; `buf` is the buffer of `s_int_to_string`. -/
def sStringCreateFormat (format : List Nat) (args : List FormatArg) (buf : Nat → Nat) :
    Option (List Nat) :=
  formatLoop format args buf []

/-! ## The text of a number -/

/-- A character in front of a string does not matter to it. -/
theorem stringFrom_update {buf : Nat → Nat} {slot c : Nat} (left : Nat) :
    ∀ index, slot < index →
      stringFrom (Function.update buf slot c) left index = stringFrom buf left index := by
  induction left with
  | zero => exact fun _ _ => rfl
  | succ left inductionHypothesis =>
      intro index behind
      rw [stringFrom, stringFrom, Function.update_of_ne (by omega),
        inductionHypothesis (index + 1) (by omega)]

/-- A character written in front of a string. -/
theorem stringFrom_cons {buf : Nat → Nat} {slot c left : Nat} (visible : c ≠ 0) :
    stringFrom (Function.update buf slot c) (left + 1) slot =
      c :: stringFrom buf left (slot + 1) := by
  rw [stringFrom, Function.update_self, if_neg visible,
    stringFrom_update left (slot + 1) (Nat.lt_succ_self slot)]

theorem digitTurns_zero (room : Nat) (buf : Nat → Nat) : digitTurns room 0 buf = (room, 0, buf) := by
  cases room <;> rfl

/-- The loop writes the digits in front of what the buffer holds, and leaves the
room that they do not need. -/
theorem digitTurns_reads (spare digits : Nat) :
    ∀ (i : Int) (buf : Nat → Nat) (left : Nat), 0 < i → i.toNat < 10 ^ digits →
      ∃ room after, digitTurns (spare + digits) i buf = (room, 0, after) ∧ spare ≤ room ∧
        room ≤ spare + digits ∧
        stringFrom after (left + (spare + digits - room)) room =
          decimal i.toNat ++ stringFrom buf left (spare + digits) := by
  induction digits with
  | zero =>
      intro i buf left positive fits
      rw [Nat.pow_zero] at fits
      omega
  | succ digits inductionHypothesis =>
      intro i buf left positive fits
      have turn : digitTurns (spare + (digits + 1)) i buf =
          digitTurns (spare + digits) (i / 10)
            (Function.update buf (spare + digits) ((i % 10).toNat + 48)) := if_pos positive
      have written := @stringFrom_cons buf (spare + digits) ((i % 10).toNat + 48) left (by omega)
      rw [turn]
      by_cases single : i < 10
      · have none : i / 10 = 0 := by omega
        have digit : (i % 10).toNat = i.toNat := by omega
        refine ⟨spare + digits, _, by rw [none]; exact digitTurns_zero _ _, by omega, by omega, ?_⟩
        have one : left + (spare + (digits + 1) - (spare + digits)) = left + 1 := by omega
        rw [one, written, digit, decimal_of_lt (by omega)]
        rfl
      · have high : (i / 10).toNat = i.toNat / 10 := by omega
        have low : (i % 10).toNat = i.toNat % 10 := by omega
        obtain ⟨room, after, turns, least, most, reads⟩ := inductionHypothesis (i / 10)
          (Function.update buf (spare + digits) ((i % 10).toNat + 48)) (left + 1) (by omega) (by
            rw [Nat.pow_succ] at fits
            omega)
        refine ⟨room, after, turns, least, by omega, ?_⟩
        have more : left + (spare + (digits + 1) - room) = left + 1 + (spare + digits - room) := by
          omega
        rw [more, reads, written, high, low, @decimal_of_ge i.toNat (by omega),
          List.append_assoc]
        rfl

/-- A digit loop with the whole buffer in front of it. -/
theorem digitTurns_buffer {i : Int} (positive : 0 < i) (fits : i.toNat < 10 ^ 62)
    {buf : Nat → Nat} (ended : buf 63 = 0) :
    ∃ room after, digitTurns 63 i buf = (room, 0, after) ∧ 0 < room ∧ room ≤ 63 ∧
      stringFrom after (64 - room) room = decimal i.toNat := by
  obtain ⟨room, after, turns, least, most, reads⟩ := digitTurns_reads 1 62 i buf 1 positive fits
  have nothing : stringFrom buf 1 63 = [] := if_pos ended
  have length : 1 + (1 + 62 - room) = 64 - room := by omega
  rw [length, nothing, List.append_nil] at reads
  exact ⟨room, after, turns, least, most, reads⟩

/-- **`s_int_to_string` returns the decimal numeral**, whatever its buffer held,
of every number that has a negative. -/
theorem numberText_eq_numeral {i : Int} (lower : -2 ^ 31 < i) (upper : i < 2 ^ 31)
    (buf : Nat → Nat) : numberText i buf = some (numeral i) := by
  have room : (2 : Nat) ^ 31 ≤ 10 ^ 62 := by decide
  have ended : Function.update buf 63 0 63 = 0 := Function.update_self _ _ _
  unfold numberText sIntToString
  by_cases zero : i = 0
  · rw [if_pos zero, zero]
    rfl
  · rw [if_neg zero]
    by_cases negative : i < 0
    · have magnitude : (i * -1).bmod (2 ^ 32) = -i := by
        rw [Int.bmod_eq_of_le (by omega) (by omega)]
        omega
      obtain ⟨room, after, turns, some, most, reads⟩ :=
        digitTurns_buffer (i := -i) (by omega) (by omega) ended
      have signed : 64 - (room - 1) = 64 - room + 1 := by omega
      dsimp only
      rw [if_pos negative, magnitude, turns]
      dsimp only
      rw [if_neg (by decide), if_pos ⟨negative, some⟩, Option.map_some, stringAt, signed,
        stringFrom_cons (by decide), Nat.sub_add_cancel some, reads, numeral_of_neg negative]
    · obtain ⟨room, after, turns, some, most, reads⟩ :=
        digitTurns_buffer (i := i) (by omega) (by omega) ended
      dsimp only
      rw [if_neg negative, turns]
      dsimp only
      rw [if_neg (by decide), if_neg (fun both => negative both.1), Option.map_some, stringAt,
        reads, numeral_of_nonneg (by omega)]

/-- The least `int` has no negative, and only its sign is written. -/
theorem numberText_least (buf : Nat → Nat) : numberText (-2 ^ 31) buf = some [45] := by
  have ended : Function.update (Function.update buf 63 0) 62 45 63 = 0 := by
    rw [Function.update_of_ne (by decide), Function.update_self]
  have text : numberText (-2 ^ 31) buf =
      some (stringFrom (Function.update (Function.update buf 63 0) 62 45) 2 62) := rfl
  rw [text, stringFrom, Function.update_self, if_neg (by decide), stringFrom, if_pos ended]

/-! ## The text of a format -/

theorem stringFrom_length (buf : Nat → Nat) (left : Nat) :
    ∀ index, (stringFrom buf left index).length ≤ left := by
  induction left with
  | zero => exact fun _ => le_rfl
  | succ left inductionHypothesis =>
      intro index
      rw [stringFrom]
      split
      · exact Nat.zero_le _
      · exact Nat.succ_le_succ (inductionHypothesis (index + 1))

/-- The buffer bounds the text of a number. -/
theorem numberText_length {i : Int} {buf : Nat → Nat} {text : List Nat}
    (found : numberText i buf = some text) : text.length ≤ 64 := by
  obtain ⟨pointer, _, rfl⟩ := Option.map_eq_some_iff.mp found
  cases pointer with
  | zero => exact (by decide : 1 ≤ 64)
  | buf index => exact (stringFrom_length _ _ index).trans (Nat.sub_le _ _)

/-- Characters without a `%` are copied. -/
theorem formatLoop_plain {plain : List Nat} (format : List Nat) (args : List FormatArg)
    (buf : Nat → Nat) :
    ∀ text, 37 ∉ plain → text.length + plain.length < sStrFormatLimit →
      formatLoop (plain ++ format) args buf text = formatLoop format args buf (text ++ plain) := by
  induction plain with
  | nil =>
      intro text _ _
      rw [List.nil_append, List.append_nil]
  | cons c plain inductionHypothesis =>
      intro text noPercent short
      obtain ⟨different, rest⟩ := not_or.mp (mt List.mem_cons.mpr noPercent)
      rw [List.length_cons] at short
      have below : ¬ (text ++ [c]).length ≥ sStrFormatLimit := by
        rw [List.length_append, List.length_singleton]
        omega
      have copied := inductionHypothesis (text ++ [c]) rest (by
        rw [List.length_append, List.length_singleton]
        omega)
      rw [List.append_assoc] at copied
      rw [List.cons_append, formatLoop, if_neg below]
      · exact copied
      · exact fun percent => different percent.symm

/-- A `%d` at the end of a format. -/
theorem formatLoop_number {i : Int} {buf : Nat → Nat} {number : List Nat}
    (found : numberText i buf = some number) (text : List Nat)
    (short : text.length + 64 < sStrFormatLimit) :
    formatLoop [37, 100] [.int i] buf text = some (text ++ number) := by
  have fits := numberText_length found
  have processed : processString text number = some (text ++ number) := if_neg (by omega)
  have converted : formatSwitch 100 [.int i] buf text =
      some ([], (sIntToString i buf).2, text ++ number) := by
    unfold formatSwitch
    rw [if_neg (by decide), if_pos rfl]
    simp only [found, processed, Option.bind_eq_bind, Option.bind_some, Option.pure_def]
  have below : ¬ (text ++ number).length ≥ sStrFormatLimit := by
    rw [List.length_append]
    omega
  rw [formatLoop]
  simp only [converted]
  rw [if_neg below, formatLoop]

end SimpleDfs.Common
