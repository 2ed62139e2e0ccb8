import Mathlib

/-!
# Guarded runs of an executable transition system

A system is a partial function `step : State → Action → Option State`: the action
carries every choice the environment makes, and `none` says that the action is not
enabled.  A *guard* singles out the steps a schedule is allowed to take, and a
guarded run is a finite sequence of enabled, allowed steps.

* `GuardedRun.invariant` — the induction rule: what one allowed step preserves, a
  whole run preserves;
* `GuardedRun.mono` — weakening the guard only adds runs;
* `exists_iterate_of_decreasing` — repeating an operation until a measure is used up;
* `execute_run` — a list of actions that executes is a run, so that a concrete
  schedule can be replayed by evaluation.
-/

set_option autoImplicit false

namespace ProtocolExplorer.Lib

universe u v

variable {State : Type u} {Action : Type v}

/-- One enabled step whose pre-state and action the guard allows. -/
def GuardedStep (step : State → Action → Option State) (guard : State → Action → Prop)
    (s s' : State) : Prop :=
  ∃ a, guard s a ∧ step s a = some s'

/-- Finite runs all of whose steps are allowed. -/
abbrev GuardedRun (step : State → Action → Option State) (guard : State → Action → Prop) :
    State → State → Prop :=
  Relation.ReflTransGen (GuardedStep step guard)

/-- Finite runs under any schedule. -/
abbrev Run (step : State → Action → Option State) : State → State → Prop :=
  GuardedRun step fun _ _ => True

variable {step : State → Action → Option State}

/-- An invariant of every allowed step is an invariant of every run. -/
theorem GuardedRun.invariant {guard : State → Action → Prop} {inv : State → Prop}
    (preserved : ∀ s a s', inv s → guard s a → step s a = some s' → inv s')
    {s s' : State} (run : GuardedRun step guard s s') (start : inv s) : inv s' := by
  induction run with
  | refl => exact start
  | tail _ last inductionHypothesis =>
      obtain ⟨a, allowed, stepped⟩ := last
      exact preserved _ a _ inductionHypothesis allowed stepped

/-- A run under a stronger guard is a run under a weaker one. -/
theorem GuardedRun.mono {strong weak : State → Action → Prop}
    (implies : ∀ s a, strong s a → weak s a) {s s' : State}
    (run : GuardedRun step strong s s') : GuardedRun step weak s s' :=
  Relation.ReflTransGen.mono
    (fun _ _ ⟨a, allowed, stepped⟩ => ⟨a, implies _ a allowed, stepped⟩) _ _ run

/-- Execute a schedule; `none` when some action is not enabled. -/
def execute (step : State → Action → Option State) : State → List Action → Option State
  | s, [] => some s
  | s, a :: rest =>
      match step s a with
      | none => none
      | some s' => execute step s' rest

/-- The states in which the actions of a schedule are taken satisfy the guard. -/
def allowedAlong (step : State → Action → Option State) (guard : State → Action → Prop) :
    State → List Action → Prop
  | _, [] => True
  | s, a :: rest =>
      guard s a ∧ match step s a with
      | none => True
      | some s' => allowedAlong step guard s' rest

instance decidableAllowedAlong (step : State → Action → Option State)
    (guard : State → Action → Prop) [∀ s a, Decidable (guard s a)] :
    ∀ s schedule, Decidable (allowedAlong step guard s schedule)
  | _, [] => inferInstanceAs (Decidable True)
  | s, a :: rest =>
      have : Decidable (match step s a with
          | none => True
          | some s' => allowedAlong step guard s' rest) :=
        match step s a with
        | none => inferInstanceAs (Decidable True)
        | some s' => decidableAllowedAlong step guard s' rest
      inferInstanceAs (Decidable (_ ∧ _))

/-- A schedule that executes inside the guard is a guarded run. -/
theorem execute_guardedRun {guard : State → Action → Prop} {schedule : List Action} :
    ∀ {s s' : State}, execute step s schedule = some s' →
      allowedAlong step guard s schedule → GuardedRun step guard s s' := by
  induction schedule with
  | nil =>
      intro s s' executed _
      cases executed
      exact Relation.ReflTransGen.refl
  | cons a rest inductionHypothesis =>
      intro s s' executed allowed
      simp only [execute, allowedAlong] at executed allowed
      cases stepped : step s a with
      | none => simp [stepped] at executed
      | some middle =>
          simp only [stepped] at executed allowed
          exact Relation.ReflTransGen.head ⟨a, allowed.1, stepped⟩
            (inductionHypothesis executed allowed.2)

/-- A schedule that executes is a run. -/
theorem execute_run {schedule : List Action} {s s' : State}
    (executed : execute step s schedule = some s') : Run step s s' := by
  refine execute_guardedRun executed ?_
  clear executed
  induction schedule generalizing s with
  | nil => trivial
  | cons a rest inductionHypothesis =>
      refine ⟨trivial, ?_⟩
      cases step s a with
      | none => trivial
      | some middle => exact inductionHypothesis

/-- Repeating an operation that keeps an invariant and lowers a measure until a goal is reached
reaches the goal. -/
theorem exists_iterate_of_decreasing {operation : State → State} {inv goal : State → Prop}
    {measure : State → ℕ} (progress : ∀ s, inv s → goal s ∨
      inv (operation s) ∧ measure (operation s) < measure s) {s : State} (start : inv s) :
    ∃ n, goal (operation^[n] s) := by
  generalize bound : measure s = total
  induction total using Nat.strong_induction_on generalizing s with
  | _ total inductionHypothesis =>
      rcases progress s start with reached | ⟨kept, smaller⟩
      · exact ⟨0, reached⟩
      · obtain ⟨n, reached⟩ := inductionHypothesis _ (bound ▸ smaller) kept rfl
        exact ⟨n + 1, reached⟩

end ProtocolExplorer.Lib
