import Mathlib.Data.List.Basic

/-!
# Runs of an executable labelled transition system

A system is a partial function `step state label`.  Everything that is not
determined by the state (which process moves, what the environment answers)
is carried by the label, so a run is computed from a list of labels and a
statement about every run quantifies over that list.

`Guarded` restricts a run to steps which satisfy a condition on the label and
on the state before the step; it is the shape in which a property that holds
only while some branch is avoided is stated.
-/

namespace Zabbix.Library.Transition

variable {State Label : Type*}

/-- Execute a list of labels, failing as soon as one step is not enabled. -/
def run (step : State → Label → Option State) :
    State → List Label → Option State
  | state, [] => some state
  | state, label :: rest => (step state label).bind fun next => run step next rest

@[simp]
theorem run_nil (step : State → Label → Option State) (state : State) :
    run step state [] = some state :=
  rfl

theorem run_cons_eq_some
    {step : State → Label → Option State}
    {state final : State} {label : Label} {rest : List Label} :
    run step state (label :: rest) = some final ↔
      ∃ next, step state label = some next ∧ run step next rest = some final := by
  simp [run, Option.bind_eq_some_iff]

theorem run_append_eq_some
    {step : State → Label → Option State}
    {state final : State} {before after : List Label} :
    run step state (before ++ after) = some final ↔
      ∃ middle, run step state before = some middle ∧
        run step middle after = some final := by
  induction before generalizing state with
  | nil => simp
  | cons label rest ih =>
    simp only [List.cons_append, run_cons_eq_some, ih]
    constructor
    · rintro ⟨next, first, middle, prefixRun, suffixRun⟩
      exact ⟨middle, ⟨next, first, prefixRun⟩, suffixRun⟩
    · rintro ⟨middle, ⟨next, first, prefixRun⟩, suffixRun⟩
      exact ⟨next, first, middle, prefixRun, suffixRun⟩

/-- A property preserved by every step holds at the end of every run. -/
theorem run_invariant
    {step : State → Label → Option State}
    {invariant : State → Prop}
    (preserved :
      ∀ state label next,
        invariant state → step state label = some next → invariant next)
    {state final : State} {labels : List Label}
    (initial : invariant state)
    (executed : run step state labels = some final) :
    invariant final := by
  induction labels generalizing state with
  | nil =>
    simp only [run_nil, Option.some.injEq] at executed
    exact executed ▸ initial
  | cons label rest ih =>
    obtain ⟨next, first, later⟩ := run_cons_eq_some.mp executed
    exact ih (preserved state label next initial first) later

/-- Every step of the run meets `guard` in the state it starts from. -/
def Guarded
    (step : State → Label → Option State) (guard : State → Label → Prop) :
    State → List Label → Prop
  | _, [] => True
  | state, label :: rest =>
    guard state label ∧
      ∀ next, step state label = some next → Guarded step guard next rest

theorem guarded_cons
    {step : State → Label → Option State} {guard : State → Label → Prop}
    {state next : State} {label : Label} {rest : List Label}
    (holds : guard state label) (first : step state label = some next)
    (later : Guarded step guard next rest) :
    Guarded step guard state (label :: rest) := by
  refine ⟨holds, fun other executed => ?_⟩
  obtain rfl := Option.some.inj (first.symm.trans executed)
  exact later

/-- The induction rule for runs whose steps all meet a guard. -/
theorem guarded_run_invariant
    {step : State → Label → Option State}
    {guard : State → Label → Prop}
    {invariant : State → Prop}
    (preserved :
      ∀ state label next,
        invariant state → guard state label →
          step state label = some next → invariant next)
    {state final : State} {labels : List Label}
    (initial : invariant state)
    (guarded : Guarded step guard state labels)
    (executed : run step state labels = some final) :
    invariant final := by
  induction labels generalizing state with
  | nil =>
    simp only [run_nil, Option.some.injEq] at executed
    exact executed ▸ initial
  | cons label rest ih =>
    obtain ⟨next, first, later⟩ := run_cons_eq_some.mp executed
    exact ih
      (preserved state label next initial guarded.1 first)
      (guarded.2 next first) later

end Zabbix.Library.Transition
