import Mathlib.Data.List.Basic

/-!
# Runs of a partial step function

A system is a function that says what a step leads to, or that it cannot be
taken.  A run takes the steps of a list one after the other.  An invariant of
the steps that obey a rule holds at the end of every run that obeys it.
-/

namespace Xv6KernelEvent.Runs

variable {State Step : Type} (next : State → Step → Option State)

def run (state : State) : List Step → Option State
  | [] => some state
  | step :: steps => (next state step).bind fun after => run after steps

/-- Every step of the run obeys a rule in the state in which it is taken. -/
def Along (rule : State → Step → Prop) (state : State) : List Step → Prop
  | [] => True
  | step :: steps =>
    rule state step ∧ match next state step with
      | none => True
      | some after => Along rule after steps

instance decidableAlong (rule : State → Step → Prop) [∀ state step, Decidable (rule state step)]
    (state : State) : ∀ steps, Decidable (Along next rule state steps)
  | [] => isTrue trivial
  | step :: steps =>
    have : Decidable (match next state step with
        | none => True
        | some after => Along next rule after steps) :=
      match next state step with
      | none => isTrue trivial
      | some after => decidableAlong rule after steps
    inferInstanceAs (Decidable (_ ∧ _))

variable {next}

theorem run_append (state : State) (first second : List Step) : run next state (first ++ second) =
      (run next state first).bind fun middle => run next middle second := by
  induction first generalizing state with
  | nil => rfl
  | cons step steps induction =>
    simp only [List.cons_append, run]
    cases next state step with
    | none => rfl
    | some after => exact induction after

theorem run_concat (state : State) (steps : List Step) (step : Step) :
    run next state (steps ++ [step]) =
      (run next state steps).bind fun before => next before step := by
  rw [run_append]
  congr 1
  funext before
  cases taken : next before step with
  | none | some after => simp [run, taken]

/-- The rule of invariants. -/
theorem run_preserves {rule : State → Step → Prop} {invariant : State → Prop}
    (kept : ∀ {state step after}, invariant state → rule state step →
      next state step = some after → invariant after) {state last : State} {steps : List Step}
    (runs : run next state steps = some last)
    (along : Along next rule state steps) (initial : invariant state) : invariant last := by
  induction steps generalizing state with
  | nil =>
    cases runs
    exact initial
  | cons step steps induction =>
    obtain ⟨after, taken, rest⟩ := Option.bind_eq_some_iff.mp runs
    obtain ⟨obeys, later⟩ := along
    rw [taken] at later
    exact induction rest later (kept initial obeys taken)

theorem Along.and (left : Along next first state steps) (right : Along next second state steps) :
    Along next (fun state step => first state step ∧ second state step) state
      steps := by
  induction steps generalizing state with
  | nil => trivial
  | cons step steps induction =>
    obtain ⟨leftNow, leftLater⟩ := left
    obtain ⟨rightNow, rightLater⟩ := right
    refine ⟨⟨leftNow, rightNow⟩, ?_⟩
    cases taken : next state step with
    | none => trivial
    | some after =>
      rw [taken] at leftLater rightLater
      exact induction leftLater rightLater

theorem along_of_forall (always : ∀ state step, rule state step)
    (state : State) (steps : List Step) : Along next rule state steps := by
  induction steps generalizing state with
  | nil => trivial
  | cons step steps induction =>
    refine ⟨always state step, ?_⟩
    cases next state step with
    | none => trivial
    | some after => exact induction after

/-- The rule of invariants for runs without a rule for their steps. -/
theorem run_invariant {invariant : State → Prop} (kept : ∀ {state step after}, invariant state →
      next state step = some after → invariant after) {state last : State} {steps : List Step}
    (runs : run next state steps = some last) (initial : invariant state) : invariant last := by
  have along : Along next (fun _ _ => True) state steps :=
    along_of_forall (fun _ _ => trivial) state steps
  exact run_preserves (fun holds _ taken => kept holds taken) runs along initial

end Xv6KernelEvent.Runs
