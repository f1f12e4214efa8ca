import Mathlib.Data.List.Basic
import Mathlib.Data.List.Nodup
import Mathlib.Data.List.Perm.Basic
import Mathlib.Order.Basic
import Mathlib.Order.Lattice
import Mathlib.Tactic.Common

/-!
Contract: positions in strictly increasing lists and the order of first
occurrence in a growing log.

Owns: what stands before and behind a position of an increasing list, and
`Earlier`, the order in which a log without repetitions lists its entries.

Does not own: what the entries are.
-/

set_option autoImplicit false

namespace SimpleDfs.Library

universe u

section Increasing

variable {Value : Type u} {values : List Value} {index : Nat} {here : Value}

/-- A list splits at each of its positions. -/
theorem split_at_getElem? (found : values[index]? = some here) :
    values = values.take index ++ here :: values.drop (index + 1) := by
  obtain ⟨below, equal⟩ := List.getElem?_eq_some_iff.mp found
  rw [← equal, List.getElem_cons_drop, List.take_append_drop]

variable [LinearOrder Value]

theorem mem_take_iff_lt (increasing : values.Pairwise (· < ·))
    (found : values[index]? = some here) (value : Value) :
    value ∈ values.take index ↔ value ∈ values ∧ value < here := by
  have split := split_at_getElem? found
  rw [split, List.pairwise_append] at increasing
  obtain ⟨_, behind, across⟩ := increasing
  constructor
  · intro member
    exact ⟨List.mem_of_mem_take member, across value member here List.mem_cons_self⟩
  · intro ⟨member, below⟩
    rw [split] at member
    rcases List.mem_append.mp member with before | rest
    · exact before
    · rcases List.mem_cons.mp rest with same | after
      · exact absurd below (by rw [same]; exact lt_irrefl here)
      · exact absurd below (lt_asymm ((List.pairwise_cons.mp behind).1 value after))

theorem mem_drop_iff_lt (increasing : values.Pairwise (· < ·))
    (found : values[index]? = some here) (value : Value) :
    value ∈ values.drop (index + 1) ↔ value ∈ values ∧ here < value := by
  have split := split_at_getElem? found
  rw [split, List.pairwise_append] at increasing
  obtain ⟨_, behind, across⟩ := increasing
  constructor
  · intro member
    exact ⟨List.mem_of_mem_drop member, (List.pairwise_cons.mp behind).1 value member⟩
  · intro ⟨member, above⟩
    rw [split] at member
    rcases List.mem_append.mp member with before | rest
    · exact absurd above (lt_asymm (across value before here List.mem_cons_self))
    · rcases List.mem_cons.mp rest with same | after
      · exact absurd above (by rw [same]; exact lt_irrefl here)
      · exact after

theorem index_unique (increasing : values.Pairwise (· < ·)) {other : Nat}
    (found : values[index]? = some here) (otherFound : values[other]? = some here) :
    index = other := by
  have distinct : values.Nodup := increasing.nodup
  obtain ⟨below, equal⟩ := List.getElem?_eq_some_iff.mp found
  obtain ⟨otherBelow, otherEqual⟩ := List.getElem?_eq_some_iff.mp otherFound
  exact (List.Nodup.getElem_inj_iff distinct).mp (equal.trans otherEqual.symm)

end Increasing

section Log

variable {Entry : Type u}

/-- `first` stands before `second` in the log. -/
def Earlier (log : List Entry) (first second : Entry) : Prop :=
  [first, second].Sublist log

theorem Earlier.mem_first {log : List Entry} {first second : Entry}
    (earlier : Earlier log first second) : first ∈ log :=
  earlier.subset List.mem_cons_self

theorem Earlier.mem_second {log : List Entry} {first second : Entry}
    (earlier : Earlier log first second) : second ∈ log :=
  earlier.subset (List.mem_cons_of_mem _ List.mem_cons_self)

theorem Earlier.append {log : List Entry} {first second : Entry}
    (earlier : Earlier log first second) (more : List Entry) :
    Earlier (log ++ more) first second :=
  earlier.trans (List.sublist_append_left log more)

theorem earlier_concat {log : List Entry} {first second newest : Entry} :
    Earlier (log ++ [newest]) first second ↔
      Earlier log first second ∨ (first ∈ log ∧ second = newest) := by
  constructor
  · intro earlier
    obtain ⟨left, right, pair, inLog, inNew⟩ := List.sublist_append_iff.mp earlier
    rcases List.sublist_singleton.mp inNew with empty | single
    · rw [empty, List.append_nil] at pair
      rw [← pair] at inLog
      exact Or.inl inLog
    · rw [single] at pair
      have same : [first] ++ [second] = left ++ [newest] := pair
      have parts := List.append_inj' same rfl
      rw [← parts.1] at inLog
      exact Or.inr ⟨List.singleton_sublist.mp inLog, (List.cons.inj parts.2).1⟩
  · intro cases
    rcases cases with earlier | ⟨member, rfl⟩
    · exact earlier.append [newest]
    · exact (List.singleton_sublist.mpr member).append (List.Sublist.refl [second])

theorem Earlier.ne {log : List Entry} (distinct : log.Nodup) {first second : Entry}
    (earlier : Earlier log first second) : first ≠ second := by
  have pair := distinct.sublist earlier
  exact fun same => (List.nodup_cons.mp pair).1 (by rw [same]; exact List.mem_cons_self)

theorem Earlier.total {log : List Entry} {first second : Entry} (different : first ≠ second)
    (memberFirst : first ∈ log) (memberSecond : second ∈ log) :
    Earlier log first second ∨ Earlier log second first := by
  induction log with
  | nil => exact absurd memberFirst List.not_mem_nil
  | cons head tail inductionHypothesis =>
      rcases List.mem_cons.mp memberFirst with rfl | inFirst
      · rcases List.mem_cons.mp memberSecond with same | inSecond
        · exact absurd same.symm different
        · exact Or.inl ((List.singleton_sublist.mpr inSecond).cons_cons first)
      · rcases List.mem_cons.mp memberSecond with rfl | inSecond
        · exact Or.inr ((List.singleton_sublist.mpr inFirst).cons_cons second)
        · rcases inductionHypothesis inFirst inSecond with forward | backward
          · exact Or.inl (forward.cons head)
          · exact Or.inr (backward.cons head)

/-- The position of an entry in the log orders the log. -/
theorem Earlier.idxOf_lt [DecidableEq Entry] {log : List Entry} (distinct : log.Nodup)
    {first second : Entry} (earlier : Earlier log first second) :
    log.idxOf first < log.idxOf second := by
  have different := earlier.ne distinct
  induction log with
  | nil => exact absurd earlier.mem_first List.not_mem_nil
  | cons head tail inductionHypothesis =>
      have distinctTail := (List.nodup_cons.mp distinct)
      cases earlier with
      | cons _ inTail =>
          have atFirst : first ≠ head := fun same =>
            distinctTail.1 (same ▸ Earlier.mem_first inTail)
          have atSecond : second ≠ head := fun same =>
            distinctTail.1 (same ▸ Earlier.mem_second inTail)
          rw [List.idxOf_cons_ne _ atFirst.symm, List.idxOf_cons_ne _ atSecond.symm]
          exact Nat.succ_lt_succ (inductionHypothesis distinctTail.2 inTail)
      | cons_cons _ _ =>
          rw [List.idxOf_cons_self, List.idxOf_cons_ne _ different]
          exact Nat.succ_pos _

theorem Earlier.asymm {log : List Entry} (distinct : log.Nodup) {first second : Entry}
    (earlier : Earlier log first second) : ¬ Earlier log second first := by
  classical
  intro backward
  exact absurd (earlier.idxOf_lt distinct) (Nat.lt_asymm (backward.idxOf_lt distinct))

end Log

end SimpleDfs.Library
