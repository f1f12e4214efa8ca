import Mathlib.Data.List.Induction
import Mathlib.Data.List.Sort
import Mathlib.Tactic.Common

/-!
Contract: the stable ranking of a list by a key.

Owns: the ranking as it grows from one element to the next, and what its first
elements are.

Does not own: how a program keeps those first elements.
-/

set_option autoImplicit false

namespace SimpleDfs.Library

universe u v

section

variable {α : Type u} {β : Type v} [LinearOrder β] (key : α → β)

/-- `item` goes behind everything of its own key. -/
def rankIn (sorted : List α) (item : α) : List α :=
  sorted.orderedInsert (fun a b => key a < key b) item

/-- The list in the order of the keys; elements of one key keep their order. -/
def rank (items : List α) : List α :=
  items.foldl (rankIn key) []

theorem rank_concat (items : List α) (item : α) :
    rank key (items ++ [item]) = rankIn key (rank key items) item := by
  simp [rank]

theorem rankIn_cons (sorted : List α) (head item : α) :
    rankIn key (head :: sorted) item =
      if key item < key head then item :: head :: sorted else head :: rankIn key sorted item := by
  simp [rankIn]

theorem rankIn_perm (sorted : List α) (item : α) :
    (rankIn key sorted item).Perm (item :: sorted) :=
  List.perm_orderedInsert _ item sorted

theorem rank_perm (items : List α) :
    (rank key items).Perm items := by
  induction items using List.reverseRecOn with
  | nil => exact .refl []
  | append_singleton items item rest =>
      rw [rank_concat]
      exact (rankIn_perm key _ item).trans
        ((rest.cons item).trans (List.perm_append_singleton item items).symm)

/-- What comes first has no larger key than what comes later. -/
def Ranked (sorted : List α) : Prop :=
  sorted.Pairwise fun a b => key a ≤ key b

theorem Ranked.rankIn {sorted : List α} (ranked : Ranked key sorted) (item : α) :
    Ranked key (rankIn key sorted item) := by
  induction sorted with
  | nil => exact List.pairwise_singleton _ item
  | cons head tail rest =>
      have parts := List.pairwise_cons.mp ranked
      rw [rankIn_cons]
      split
      next below =>
        refine List.pairwise_cons.mpr ⟨fun other member => ?_, ranked⟩
        rcases List.mem_cons.mp member with same | later
        · exact same ▸ below.le
        · exact below.le.trans (parts.1 other later)
      next above =>
        refine List.pairwise_cons.mpr ⟨fun other member => ?_, rest parts.2⟩
        rcases List.mem_cons.mp ((rankIn_perm key tail item).mem_iff.mp member) with same | later
        · exact same ▸ not_lt.mp above
        · exact parts.1 other later

theorem ranked_rank (items : List α) :
    Ranked key (rank key items) := by
  induction items using List.reverseRecOn with
  | nil => exact .nil
  | append_singleton items item rest =>
      rw [rank_concat]
      exact rest.rankIn key item

/-- **Nothing outside the first `count` elements has a smaller key.** -/
theorem key_take_rank_le (items : List α) (count : Nat) {chosen other : α}
    (first : chosen ∈ (rank key items).take count) (member : other ∈ items)
    (outside : other ∉ (rank key items).take count) : key chosen ≤ key other := by
  have ranked := ranked_rank key items
  rw [← List.take_append_drop count (rank key items)] at ranked
  have there : other ∈ (rank key items).take count ++ (rank key items).drop count := by
    rw [List.take_append_drop]
    exact (rank_perm key items).mem_iff.mpr member
  have later := (List.mem_append.mp there).resolve_left outside
  exact (List.pairwise_append.mp ranked).2.2 chosen first other later

end

end SimpleDfs.Library
