import Mathlib.Logic.Relation
import Mathlib.Tactic.Common

/-!
Contract: labelled transition systems with a partial step function, the states
their runs reach, and the induction rule for invariants.

Owns: `System`, runs that take only admitted steps, reachability, the
invariant rule, and the bridge from an executed list of labels to
reachability.

Does not own: any program, network or protocol.
-/

set_option autoImplicit false

namespace SimpleDfs.Library

universe u v

/-- A system takes labelled steps; `step` is `none` where the label is not
enabled. -/
structure System (State : Type u) (Label : Type v) where
  init : State → Prop
  step : State → Label → Option State

namespace System

variable {State : Type u} {Label : Type v}

/-- One step whose label is admitted in the state it leaves. -/
def Next (system : System State Label) (admitted : State → Label → Prop)
    (before after : State) : Prop :=
  ∃ label, admitted before label ∧ system.step before label = some after

/-- `after` is reached from `before` by admitted steps. -/
def Steps (system : System State Label) (admitted : State → Label → Prop) :
    State → State → Prop :=
  Relation.ReflTransGen (system.Next admitted)

/-- The state is reached from an initial one by admitted steps only. -/
def ReachableVia (system : System State Label) (admitted : State → Label → Prop)
    (state : State) : Prop :=
  ∃ start, system.init start ∧ system.Steps admitted start state

/-- The state is reached by some run. -/
def Reachable (system : System State Label) (state : State) : Prop :=
  system.ReachableVia (fun _ _ => True) state

variable {system : System State Label} {admitted : State → Label → Prop}

theorem ReachableVia.start {state : State} (initial : system.init state) :
    system.ReachableVia admitted state :=
  ⟨state, initial, Relation.ReflTransGen.refl⟩

theorem ReachableVia.step {before after : State}
    (reached : system.ReachableVia admitted before) (label : Label) (allowed : admitted before label)
    (stepped : system.step before label = some after) :
    system.ReachableVia admitted after := by
  obtain ⟨start, initial, steps⟩ := reached
  exact ⟨start, initial, steps.tail ⟨label, allowed, stepped⟩⟩

/-- The invariant rule: what holds initially and survives every admitted step
holds in every reached state. -/
theorem ReachableVia.invariant {state : State} (reached : system.ReachableVia admitted state)
    (property : State → Prop) (initially : ∀ start, system.init start → property start)
    (preserved : ∀ before label after, system.ReachableVia admitted before →
      property before → admitted before label → system.step before label = some after →
      property after) : property state := by
  obtain ⟨start, initial, steps⟩ := reached
  induction steps with
  | refl => exact initially start initial
  | tail stepsBefore next inductionHypothesis =>
      obtain ⟨label, allowed, stepped⟩ := next
      exact preserved _ label _ ⟨start, initial, stepsBefore⟩ inductionHypothesis allowed stepped

theorem ReachableVia.mono {weaker : State → Label → Prop}
    (weakens : ∀ state label, admitted state label → weaker state label)
    {state : State} (reached : system.ReachableVia admitted state) :
    system.ReachableVia weaker state := by
  obtain ⟨start, initial, steps⟩ := reached
  have nextMono : system.Next admitted ≤ system.Next weaker := by
    rintro before after ⟨label, allowed, stepped⟩
    exact ⟨label, weakens before label allowed, stepped⟩
  exact ⟨start, initial, Relation.ReflTransGen.mono nextMono _ _ steps⟩

theorem ReachableVia.steps {before after : State}
    (reached : system.ReachableVia admitted before) (steps : system.Steps admitted before after) :
    system.ReachableVia admitted after := by
  obtain ⟨start, initial, first⟩ := reached
  exact ⟨start, initial, first.trans steps⟩

/-! ## Executed runs -/

/-- Execute a list of labels, stopping at the first that is not enabled. -/
def run (system : System State Label) : State → List Label → Option State
  | state, [] => some state
  | state, label :: rest =>
      match system.step state label with
      | none => none
      | some next => run system next rest

theorem run_append (system : System State Label) (back : List Label) :
    ∀ (front : List Label) (state : State),
      system.run state (front ++ back) = (system.run state front).bind fun middle =>
        system.run middle back := by
  intro front
  induction front with
  | nil => exact fun _ => rfl
  | cons label rest inductionHypothesis =>
      intro state
      rw [List.cons_append, run, run]
      cases system.step state label with
      | none => rfl
      | some next => exact inductionHypothesis next

theorem run_concat (system : System State Label) (front : List Label) (label : Label)
    (state : State) :
    system.run state (front ++ [label]) = (system.run state front).bind fun middle =>
      system.step middle label := by
  rw [run_append]
  congr 1
  funext middle
  rw [run]
  cases system.step middle label <;> rfl

/-- Execute a list of labels, stopping at the first that is not enabled or not
admitted by the test. -/
def runChecked (system : System State Label) (test : State → Label → Bool) :
    State → List Label → Option State
  | state, [] => some state
  | state, label :: rest =>
      if test state label then
        match system.step state label with
        | none => none
        | some next => runChecked system test next rest
      else
        none

theorem steps_of_runChecked {test : State → Label → Bool}
    (sound : ∀ state label, test state label = true → admitted state label) :
    ∀ {labels : List Label} {before after : State},
      system.runChecked test before labels = some after → system.Steps admitted before after
  | [], before, after, executed => by
      cases executed
      exact Relation.ReflTransGen.refl
  | label :: rest, before, after, executed => by
      rw [runChecked] at executed
      split at executed
      next passed =>
        split at executed
        next => cases executed
        next next stepped =>
          exact Relation.ReflTransGen.head ⟨label, sound before label passed, stepped⟩
            (steps_of_runChecked sound executed)
      next => cases executed

theorem steps_of_run :
    ∀ {labels : List Label} {before after : State},
      system.run before labels = some after → system.Steps (fun _ _ => True) before after
  | [], before, after, executed => by
      cases executed
      exact Relation.ReflTransGen.refl
  | label :: rest, before, after, executed => by
      rw [run] at executed
      split at executed
      next => cases executed
      next next stepped =>
        exact Relation.ReflTransGen.head ⟨label, trivial, stepped⟩ (steps_of_run executed)

theorem reachable_of_run {labels : List Label} {start state : State}
    (initial : system.init start) (executed : system.run start labels = some state) :
    system.Reachable state :=
  ⟨start, initial, steps_of_run executed⟩

/-- The state a list of labels leads to; the start itself if one of them is not
enabled. -/
def outcome (system : System State Label) (start : State) (labels : List Label) : State :=
  (system.run start labels).getD start

theorem reachable_outcome {start : State} (initial : system.init start) (labels : List Label) :
    system.Reachable (system.outcome start labels) := by
  unfold outcome
  cases executed : system.run start labels with
  | none => exact ReachableVia.start initial
  | some state => exact reachable_of_run initial executed

/-- The outcome of one label that is enabled. -/
theorem step_outcome {start : State} {label : Label}
    (enabled : (system.step start label).isSome = true) :
    system.step start label = some (system.outcome start [label]) := by
  obtain ⟨state, stepped⟩ := Option.isSome_iff_exists.mp enabled
  rw [outcome, run, stepped]
  rfl

theorem run_of_runChecked {test : State → Label → Bool} :
    ∀ {labels : List Label} {before after : State},
      system.runChecked test before labels = some after → system.run before labels = some after
  | [], _, _, executed => executed
  | label :: rest, before, after, executed => by
      rw [runChecked] at executed
      rw [run]
      split at executed
      next passed =>
        split at executed
        next => cases executed
        next next stepped =>
          exact run_of_runChecked executed
      next => cases executed

/-- The outcome of a list of labels that all pass the test. -/
theorem steps_outcome {test : State → Label → Bool} (start : State) (labels : List Label)
    (passes : (system.runChecked test start labels).isSome = true) :
    system.Steps (fun state label => test state label = true) start
      (system.outcome start labels) := by
  obtain ⟨state, executed⟩ := Option.isSome_iff_exists.mp passes
  unfold outcome
  rw [run_of_runChecked executed]
  exact steps_of_runChecked (fun _ _ passed => passed) executed

theorem reachableVia_outcome {test : State → Label → Bool} {start : State}
    (initial : system.init start) (labels : List Label)
    (passes : (system.runChecked test start labels).isSome = true) :
    system.ReachableVia (fun state label => test state label = true)
      (system.outcome start labels) :=
  ⟨start, initial, steps_outcome start labels passes⟩

end System

end SimpleDfs.Library
