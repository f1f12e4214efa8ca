import SimpleDfs.Library.LinkRing

/-!
Contract: singly linked threads that run through the `next` fields of nodes.

Owns: `Walk`, what following `next` from an address passes before it stops, and
what writing to the fields of a node does to the threads that pass it and to
those that do not.

Does not own: the address at which a thread stops, or the rings that use the
same fields.
-/

set_option autoImplicit false

namespace SimpleDfs.Library.Links

universe u

variable {Addr : Type u}

/-- Following `next` from `first` passes `nodes` in turn and arrives at `stop`. -/
def Walk (links : Links Addr) : Addr → List Addr → Addr → Prop
  | first, [], stop => first = stop
  | first, node :: nodes, stop => first = node ∧ links.Walk (links.next node) nodes stop

theorem walk_append {links : Links Addr} {back : List Addr} {stop : Addr} :
    ∀ {front : List Addr} {first : Addr},
      links.Walk first (front ++ back) stop ↔
        ∃ middle, links.Walk first front middle ∧ links.Walk middle back stop := by
  intro front
  induction front with
  | nil =>
      intro first
      simp [Walk]
  | cons head tail inductionHypothesis =>
      intro first
      simp only [List.cons_append, Walk, inductionHypothesis, and_assoc, exists_and_left]

/-- A walk needs the `next` of the nodes it passes. -/
theorem Walk.congr {links other : Links Addr} {stop : Addr} :
    ∀ {nodes : List Addr} {first : Addr}, links.Walk first nodes stop →
      (∀ node ∈ nodes, other.next node = links.next node) → other.Walk first nodes stop := by
  intro nodes
  induction nodes with
  | nil =>
      intro first walk _
      exact walk
  | cons head tail inductionHypothesis =>
      intro first walk same
      refine ⟨walk.1, ?_⟩
      rw [same head List.mem_cons_self]
      exact inductionHypothesis walk.2 fun node member => same node (List.mem_cons_of_mem head member)

section Write

variable [DecidableEq Addr] {links : Links Addr} {first stop : Addr}

/-- Pass from the last node of `front` to another address than before. -/
theorem Walk.redirect {front back rest : List Addr} {before target : Addr}
    (walk : links.Walk first (front ++ before :: rest) stop) (outsideFront : before ∉ front)
    (onward : (links.setNext before target).Walk target back stop) :
    (links.setNext before target).Walk first (front ++ before :: back) stop := by
  rw [walk_append] at walk ⊢
  obtain ⟨middle, toBefore, atBefore, _⟩ := walk
  refine ⟨middle, ?_, atBefore, ?_⟩
  · apply toBefore.congr
    intro node member
    have apart : node ≠ before := fun same => outsideFront (same ▸ member)
    rw [setNext_next, if_neg apart]
  · rw [setNext_next, if_pos rfl]
    exact onward

/-- A walk that does not pass the node is not touched by a write to it. -/
theorem Walk.setNext {nodes : List Addr} {node target : Addr} (walk : links.Walk first nodes stop)
    (outside : node ∉ nodes) : (links.setNext node target).Walk first nodes stop := by
  apply walk.congr
  intro other member
  have apart : other ≠ node := fun same => outside (same ▸ member)
  rw [setNext_next, if_neg apart]

end Write

end SimpleDfs.Library.Links
