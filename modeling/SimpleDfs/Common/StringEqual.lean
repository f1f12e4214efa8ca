import SimpleDfs.Common.HashKey

/-!
Contract: what `s_string_equal` compares (`common/s_string.c`).

Owns: the strings that the comparison takes for equal, and exactly which pairs
of different strings are among them.

Does not own: the keys that hold such strings.
-/

set_option autoImplicit false

namespace SimpleDfs.Common

/-- The strings are the same up to a zero byte of both. -/
def SameToZero (a b : List UInt8) : Prop :=
  ∃ front restA restB, a = front ++ 0 :: restA ∧ b = front ++ 0 :: restB

theorem sameToZero_cons_iff {a b : UInt8} {as bs : List UInt8} :
    SameToZero (a :: as) (b :: bs) ↔ a = b ∧ (a = 0 ∨ SameToZero as bs) := by
  constructor
  · rintro ⟨front, restA, restB, isA, isB⟩
    cases front with
    | nil =>
        simp only [List.nil_append, List.cons.injEq] at isA isB
        exact ⟨isA.1.trans isB.1.symm, Or.inl isA.1⟩
    | cons head front =>
        simp only [List.cons_append, List.cons.injEq] at isA isB
        exact ⟨isA.1.trans isB.1.symm, Or.inr ⟨front, restA, restB, isA.2, isB.2⟩⟩
  · rintro ⟨rfl, rfl | ⟨front, restA, restB, rfl, rfl⟩⟩
    · exact ⟨[], as, bs, rfl, rfl⟩
    · exact ⟨a :: front, restA, restB, rfl, rfl⟩

/-- `strncmp` of two strings of one length. -/
theorem strncmpZero_iff : ∀ {a b : List UInt8}, a.length = b.length →
    (strncmpZero a b = true ↔ a = b ∨ SameToZero a b)
  | [], [], _ => by simp [strncmpZero]
  | a :: as, b :: bs, length => by
      have rest := strncmpZero_iff (by simpa using length : as.length = bs.length)
      rw [strncmpZero, Bool.and_eq_true, Bool.or_eq_true, beq_iff_eq, beq_iff_eq, rest,
        sameToZero_cons_iff, List.cons.injEq]
      constructor
      · rintro ⟨same, zero | equal | early⟩
        · exact Or.inr ⟨same, Or.inl zero⟩
        · exact Or.inl ⟨same, equal⟩
        · exact Or.inr ⟨same, Or.inr early⟩
      · rintro (⟨same, equal⟩ | ⟨same, zero | early⟩)
        · exact ⟨same, Or.inr (Or.inl equal)⟩
        · exact ⟨same, Or.inl zero⟩
        · exact ⟨same, Or.inr (Or.inr early)⟩

/-- Different bytes that the comparison cannot tell apart: they come behind a
zero byte, and the bytes that enter the hash give the same one. -/
structure Confused (a b : SString) : Prop where
  length : a.data.length = b.data.length
  early : SameToZero a.data b.data
  hash : sStringGetHash a = sStringGetHash b
  different : a.data ≠ b.data

/-- **Equal strings have equal bytes**, but for strings that differ only behind
a zero byte and have one hash. -/
theorem sStringEqual_iff_bytes (a b : SString) :
    (sStringEqual a b = true ↔ a.data.length = b.data.length ∧ a.data = b.data) ↔
      ¬ Confused a b := by
  rw [sStringEqual_iff]
  constructor
  · intro equal confused
    have compared : strncmpZero a.data b.data = true :=
      (strncmpZero_iff confused.length).mpr (Or.inr confused.early)
    exact confused.different (equal.mp ⟨confused.length, confused.hash, compared⟩).2
  · intro clear
    constructor
    · rintro ⟨length, hash, compared⟩
      refine ⟨length, ?_⟩
      rcases (strncmpZero_iff length).mp compared with equal | early
      · exact equal
      · exact not_not.mp fun different => clear ⟨length, early, hash, different⟩
    · rintro ⟨length, equal⟩
      refine ⟨length, ?_, ?_⟩
      · rw [sStringGetHash, sStringGetHash, equal]
      · rw [equal]
        exact strncmpZero_refl b.data

/-- Thirty-two zero bytes, and the same with a one at an index that the hash
passes over. -/
theorem not_always_sStringEqual_bytes :
    ¬ ∀ a b : SString, sStringEqual a b = true ↔
        a.data.length = b.data.length ∧ a.data = b.data := by
  intro always
  have equal := always ⟨List.replicate 32 0, by decide⟩
    ⟨[0, 0, 1] ++ List.replicate 29 0, by decide⟩
  revert equal
  decide +kernel

end SimpleDfs.Common
