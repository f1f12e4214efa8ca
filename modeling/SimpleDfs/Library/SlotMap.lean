import Mathlib.Data.List.Nodup
import Mathlib.Data.Option.Basic
import Mathlib.Logic.Function.Basic
import Mathlib.Tactic.Common

/-!
Contract: finite maps that are kept in slots.

Owns: the map that an assignment of keys and values to slots represents, for
keys compared by an equivalence; and what putting a pair into a slot, moving it
to another slot and clearing a slot do to that map.

Does not own: how a slot is found.
-/

set_option autoImplicit false

namespace SimpleDfs.Library

universe u v w

variable {Slot : Type u} {Key : Type v} {Value : Type w}

/-- The map with the value of one key replaced. -/
def assign (equal : Key → Key → Bool) (map : Key → Option Value) (key : Key)
    (value : Option Value) : Key → Option Value :=
  fun other => if equal key other then value else map other

/-- No two slots hold equal keys, and the map is what the slots hold. -/
structure Represents (equal : Key → Key → Bool) (slots : Slot → Option (Key × Value))
    (map : Key → Option Value) : Prop where
  distinct : ∀ first second key other value value', slots first = some (key, value) →
    slots second = some (other, value') → equal key other = true → first = second
  lookup : ∀ key value, map key = some value ↔
    ∃ slot held, slots slot = some (held, value) ∧ equal held key = true

/-- The keys are compared by an equivalence. -/
structure Equivalent (equal : Key → Key → Bool) : Prop where
  refl : ∀ key, equal key key = true
  symm : ∀ {key other}, equal key other = true → equal other key = true
  trans : ∀ {key other third}, equal key other = true → equal other third = true →
    equal key third = true

/-- Equal keys are assigned alike. -/
theorem assign_congr {equal : Key → Key → Bool} (rules : Equivalent equal) {key other : Key}
    (same : equal key other = true) (map : Key → Option Value) (value : Option Value) :
    assign equal map key value = assign equal map other value := by
  funext third
  simp only [assign]
  by_cases equalKey : equal key third = true
  · rw [if_pos equalKey, if_pos (rules.trans (rules.symm same) equalKey)]
  · rw [if_neg equalKey, if_neg fun equalOther => equalKey (rules.trans same equalOther)]

theorem assign_assign (equal : Key → Key → Bool) (map : Key → Option Value) (key : Key)
    (first second : Option Value) :
    assign equal (assign equal map key first) key second = assign equal map key second := by
  funext other
  simp only [assign]
  split <;> rfl

section

variable {equal : Key → Key → Bool} {slots : Slot → Option (Key × Value)}
  {map : Key → Option Value}

/-- The slots leave no choice for the map. -/
theorem Represents.unique {other : Key → Option Value} (first : Represents equal slots map)
    (second : Represents equal slots other) : map = other := by
  funext key
  apply Option.ext
  intro value
  exact (first.lookup key value).trans (second.lookup key value).symm

theorem Represents.absent_iff (represents : Represents equal slots map) (key : Key) :
    map key = none ↔
      ∀ slot held value, slots slot = some (held, value) → equal held key = false := by
  rw [Option.eq_none_iff_forall_ne_some]
  constructor
  · intro absent slot held value holds
    apply Bool.eq_false_iff.mpr
    intro same
    exact absent value ((represents.lookup key value).mpr ⟨slot, held, holds, same⟩)
  · intro absent value present
    obtain ⟨slot, held, holds, same⟩ := (represents.lookup key value).mp present
    rw [absent slot held value holds] at same
    cases same

/-- Taking out a key that is not in the map changes nothing. -/
theorem Represents.assign_absent (represents : Represents equal slots map)
    (rules : Equivalent equal) {key : Key} (absent : map key = none) :
    assign equal map key none = map := by
  funext other
  rw [assign]
  split
  · rename_i same
    rw [eq_comm, represents.absent_iff]
    intro slot held value holds
    have apart := (represents.absent_iff key).mp absent slot held value holds
    apply Bool.eq_false_iff.mpr
    intro equalOther
    rw [rules.trans equalOther (rules.symm same)] at apart
    cases apart
  · rfl

theorem represents_empty : Represents equal (fun _ : Slot => (none : Option (Key × Value)))
    fun _ => none where
  distinct := by
    intro first second key other value value' holds
    cases holds
  lookup := by simp

variable [DecidableEq Slot]

/-- Put a new key into an unused slot. -/
theorem Represents.put (represents : Represents equal slots map) (rules : Equivalent equal)
    {slot : Slot} {key : Key} (value : Value) (unused : slots slot = none)
    (absent : map key = none) :
    Represents equal (Function.update slots slot (some (key, value)))
      (assign equal map key (some value)) := by
  have fresh := (represents.absent_iff key).mp absent
  constructor
  · intro first second left right value value' holds holds' same
    rw [Function.update_apply] at holds holds'
    split at holds <;> split at holds'
    · simp_all
    · simp only [Option.some.injEq, Prod.mk.injEq] at holds
      rw [← holds.1] at same
      have apart := fresh second right value' holds'
      rw [rules.symm same] at apart
      cases apart
    · simp only [Option.some.injEq, Prod.mk.injEq] at holds'
      rw [← holds'.1] at same
      have apart := fresh first left value holds
      rw [same] at apart
      cases apart
    · exact represents.distinct first second left right value value' holds holds' same
  · intro other value'
    rw [assign]
    split
    case isTrue same =>
      constructor
      · intro present
        exact ⟨slot, key, by rw [Function.update_self, Option.some.inj present], same⟩
      · rintro ⟨place, held, holds, equalHeld⟩
        rw [Function.update_apply] at holds
        split at holds
        · simp only [Option.some.injEq, Prod.mk.injEq] at holds
          rw [holds.2]
        · have apart := fresh place held value' holds
          rw [rules.trans equalHeld (rules.symm same)] at apart
          cases apart
    case isFalse differs =>
      rw [represents.lookup]
      constructor
      · rintro ⟨place, held, holds, equalHeld⟩
        have elsewhere : place ≠ slot := by
          rintro rfl
          rw [unused] at holds
          cases holds
        exact ⟨place, held, by rw [Function.update_of_ne elsewhere, holds], equalHeld⟩
      · rintro ⟨place, held, holds, equalHeld⟩
        rw [Function.update_apply] at holds
        split at holds
        · simp only [Option.some.injEq, Prod.mk.injEq] at holds
          rw [← holds.1] at equalHeld
          exact absurd equalHeld differs
        · exact ⟨place, held, holds, equalHeld⟩

/-- Clear a slot in use. -/
theorem Represents.clear (represents : Represents equal slots map) (rules : Equivalent equal)
    {slot : Slot} {key : Key} {value : Value} (holds : slots slot = some (key, value)) :
    Represents equal (Function.update slots slot none) (assign equal map key none) := by
  constructor
  · intro first second left right value value' atFirst atSecond same
    rw [Function.update_apply] at atFirst atSecond
    split at atFirst
    · cases atFirst
    · split at atSecond
      · cases atSecond
      · exact represents.distinct first second left right value value' atFirst atSecond same
  · intro other value'
    rw [assign]
    split
    case isTrue same =>
      constructor
      · intro present
        cases present
      · rintro ⟨place, held, atPlace, equalHeld⟩
        rw [Function.update_apply] at atPlace
        split at atPlace
        · cases atPlace
        · rename_i elsewhere
          have only := represents.distinct place slot held key value' value atPlace holds
            (rules.trans equalHeld (rules.symm same))
          exact absurd only elsewhere
    case isFalse differs =>
      rw [represents.lookup]
      constructor
      · rintro ⟨place, held, atPlace, equalHeld⟩
        have elsewhere : place ≠ slot := by
          rintro rfl
          rw [holds] at atPlace
          simp only [Option.some.injEq, Prod.mk.injEq] at atPlace
          rw [← atPlace.1] at equalHeld
          exact differs equalHeld
        exact ⟨place, held, by rw [Function.update_of_ne elsewhere, atPlace], equalHeld⟩
      · rintro ⟨place, held, atPlace, equalHeld⟩
        rw [Function.update_apply] at atPlace
        split at atPlace
        · cases atPlace
        · exact ⟨place, held, atPlace, equalHeld⟩

/-- Move a pair to an unused slot. -/
theorem Represents.move (represents : Represents equal slots map) {source target : Slot}
    (unused : slots target = none) :
    Represents equal (Function.update (Function.update slots target (slots source)) source none)
      map := by
  -- each pair sits where it sat before, or at `target` instead of `source`
  have origin : ∀ place pair,
      Function.update (Function.update slots target (slots source)) source none place = some pair →
        (place = target ∧ slots source = some pair) ∨
          (place ≠ target ∧ place ≠ source ∧ slots place = some pair) := by
    intro place pair atPlace
    rw [Function.update_apply] at atPlace
    split at atPlace
    · cases atPlace
    · rw [Function.update_apply] at atPlace
      split at atPlace
      · exact Or.inl ⟨‹_›, atPlace⟩
      · exact Or.inr ⟨‹_›, ‹_›, atPlace⟩
  constructor
  · intro first second left right value value' atFirst atSecond same
    rcases origin first _ atFirst with ⟨rfl, old⟩ | ⟨_, away, old⟩ <;>
      rcases origin second _ atSecond with ⟨rfl, old'⟩ | ⟨_, away', old'⟩
    · rfl
    · exact absurd (represents.distinct _ _ _ _ _ _ old old' same).symm away'
    · exact absurd (represents.distinct _ _ _ _ _ _ old old' same) away
    · exact represents.distinct _ _ _ _ _ _ old old' same
  · intro key value
    rw [represents.lookup]
    constructor
    · rintro ⟨place, held, atPlace, equalHeld⟩
      by_cases atSource : place = source
      · have apart : target ≠ source := by
          rintro rfl
          rw [atSource, unused] at atPlace
          cases atPlace
        refine ⟨target, held, ?_, equalHeld⟩
        rw [Function.update_of_ne apart, Function.update_self, ← atSource, atPlace]
      · have apart : place ≠ target := by
          rintro rfl
          rw [unused] at atPlace
          cases atPlace
        refine ⟨place, held, ?_, equalHeld⟩
        rw [Function.update_of_ne atSource, Function.update_of_ne apart, atPlace]
    · rintro ⟨place, held, atPlace, equalHeld⟩
      rcases origin place _ atPlace with ⟨_, old⟩ | ⟨_, _, old⟩
      · exact ⟨source, held, old, equalHeld⟩
      · exact ⟨place, held, old, equalHeld⟩

/-- Write to the value in a slot. -/
theorem Represents.write (represents : Represents equal slots map) (rules : Equivalent equal)
    {slot : Slot} {key held : Key} {old : Value} (value : Value)
    (holds : slots slot = some (held, old)) (same : equal held key = true) :
    Represents equal (Function.update slots slot (some (held, value)))
      (assign equal map key (some value)) := by
  have cleared := represents.clear rules holds
  have absent : assign equal map held none held = none := by
    rw [assign, if_pos (rules.refl held)]
  have written := cleared.put rules value (Function.update_self slot none slots) absent
  rw [Function.update_idem] at written
  rw [assign_assign, assign_congr rules same] at written
  exact written

omit [DecidableEq Slot] in
/-- Going through the slots in any order, each once, meets the key once if it is
in the map, and never if it is not. -/
theorem Represents.listed (represents : Represents equal slots map) (rules : Equivalent equal)
    {order : List Slot} (once : order.Nodup) (complete : ∀ slot, slots slot ≠ none → slot ∈ order)
    (key : Key) :
    ((order.filterMap slots).filter fun pair => equal pair.1 key).map Prod.snd =
      (map key).toList := by
  have matches_of : ∀ {places : List Slot},
      (∀ slot ∈ places, ∀ held value, slots slot = some (held, value) → equal held key = false) →
        (places.filterMap slots).filter (fun pair => equal pair.1 key) = [] := by
    intro places differ
    apply List.filter_eq_nil_iff.mpr
    intro pair member
    obtain ⟨slot, listed, holds⟩ := List.mem_filterMap.mp member
    simp [differ slot listed pair.1 pair.2 holds]
  cases stored : map key with
  | none =>
      have absent := (represents.absent_iff key).mp stored
      rw [matches_of fun slot _ held value holds => absent slot held value holds]
      rfl
  | some value =>
      obtain ⟨slot, held, holds, same⟩ := (represents.lookup key value).mp stored
      have listed : slot ∈ order := complete slot (by rw [holds]; exact Option.some_ne_none _)
      obtain ⟨front, back, split⟩ := List.append_of_mem listed
      rw [split] at once ⊢
      have apart : slot ∉ front ++ back := (List.nodup_cons.mp (List.nodup_middle.mp once)).1
      have other : ∀ place ∈ front ++ back, ∀ key' value', slots place = some (key', value') →
          equal key' key = false := by
        intro place member key' value' atPlace
        apply Bool.eq_false_iff.mpr
        intro equalKey
        have only := represents.distinct place slot key' held value' value atPlace holds
          (rules.trans equalKey (rules.symm same))
        exact apart (only ▸ member)
      rw [List.filterMap_append, List.filterMap_cons, holds, List.filter_append,
        matches_of fun place member => other place (List.mem_append_left back member)]
      simp only [List.filter_cons, same, if_true]
      rw [matches_of fun place member => other place (List.mem_append_right front member)]
      rfl

end

end SimpleDfs.Library
