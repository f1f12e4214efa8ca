import SimpleDfs.Common.NumStr
import SimpleDfs.Paxos.Topic

/-!
Contract: the topic of a version as `s_string_create_format("version:%d", n)`
builds it, read back by `iget_new_version`.

Owns: that the topic is the one the proposals use, and exactly the numbers that
come back.

Does not own: which versions are proposed.
-/

set_option autoImplicit false

namespace SimpleDfs.Paxos

open Library Common

/-- The format `"version:%d"`. -/
def versionFormat : List Nat := versionPrefix ++ [37, 100]

/-- The characters of the format are copied, and the number follows. -/
theorem sStringCreateFormat_version {n : Int} {buf : Nat → Nat} {number : List Nat}
    (found : numberText n buf = some number) :
    sStringCreateFormat versionFormat [.int n] buf = some (versionPrefix ++ number) := by
  rw [sStringCreateFormat, versionFormat,
    formatLoop_plain [37, 100] [.int n] buf [] (by decide) (by decide), List.nil_append]
  exact formatLoop_number found versionPrefix (by decide)

/-- The topic of the proposals is what the buffers hold. -/
theorem versionTopic_eq_format {n : Int} (lower : -2 ^ 31 < n) (upper : n < 2 ^ 31)
    (buf : Nat → Nat) :
    sStringCreateFormat versionFormat [.int n] buf = some (versionTopic n) := by
  rw [sStringCreateFormat_version (numberText_eq_numeral lower upper buf), versionTopic,
    sIntToString_eq_numeral lower upper]

/-- The text of the number is its numeral, and the topic gives the number. -/
def ReadsBack (n : Int) (buf : Nat → Nat) : Prop :=
  numberText n buf = some (numeral n) ∧
    (sStringCreateFormat versionFormat [.int n] buf).map igetNewVersion = some n

theorem not_readsBack_least (buf : Nat → Nat) : ¬ ReadsBack (-2 ^ 31) buf := by
  intro back
  have text := back.2
  rw [sStringCreateFormat_version (numberText_least buf), Option.map_some,
    igetNewVersion_of_prefix] at text
  exact absurd (Option.some.inj text) (by decide)

/-- **The numeral is written and the topic reads back, for every `int` but the
least.** -/
theorem readsBack_iff (n : Int32) (buf : Nat → Nat) :
    ReadsBack n.toInt buf ↔ n ≠ Int32.minValue := by
  have lower := n.le_toInt
  have upper := n.toInt_lt
  constructor
  · intro back least
    rw [least] at back
    exact not_readsBack_least buf back
  · intro other
    have above : -2 ^ 31 < n.toInt := by
      have different : n.toInt ≠ -2 ^ 31 := fun least => other (Int32.toInt_inj.mp least)
      omega
    have text := numberText_eq_numeral above upper buf
    refine ⟨text, ?_⟩
    rw [sStringCreateFormat_version text, Option.map_some, igetNewVersion_of_prefix,
      atoi_numeral lower upper]

theorem not_always_readsBack : ¬ ∀ (n : Int32) (buf : Nat → Nat), ReadsBack n.toInt buf :=
  fun always => not_readsBack_least (fun _ => 0) (always Int32.minValue fun _ => 0)

end SimpleDfs.Paxos
