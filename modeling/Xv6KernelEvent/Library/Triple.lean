import Mathlib.Logic.Basic

/-!
# Triples for stateful programs that may stop

A program over `EStateM` either returns a value or stops for a reason.  A
triple says what holds in the state after each of the two, for every state
that meets the precondition.
-/

namespace Xv6KernelEvent

variable {ε σ α β : Type}

def Triple (pre : σ → Prop) (program : EStateM ε σ α)
    (post : α → σ → Prop) (stop : ε → σ → Prop) : Prop :=
  ∀ state, pre state → match program state with
    | .ok value next => post value next
    | .error reason next => stop reason next

namespace Triple

variable {pre : σ → Prop} {program : EStateM ε σ α} {post : α → σ → Prop} {stop : ε → σ → Prop}

theorem pure (holds : ∀ state, pre state → post value state) :
    Triple pre (Pure.pure value : EStateM ε σ α) post stop :=
  fun state met => holds state met

theorem skip (same : pre = post value) : Triple pre (Pure.pure value : EStateM ε σ α) post stop :=
  pure fun _ met => same ▸ met

theorem throw (holds : ∀ state, pre state → stop reason state) :
    Triple pre (MonadExcept.throw reason : EStateM ε σ α) post stop :=
  fun state met => holds state met

theorem bind (first : Triple pre program post stop)
    (second : ∀ value, Triple (post value) (rest value) final stop) :
    Triple pre (program >>= rest) final stop := by
  intro state met
  have middle := first state met
  change match EStateM.bind program rest state with
    | .ok value next => final value next
    | .error reason next => stop reason next
  unfold EStateM.bind
  cases result : program state with
  | ok value next =>
    rw [result] at middle
    exact second value next middle
  | error reason next =>
    rw [result] at middle
    exact middle

theorem weaken (triple : Triple pre program post stop)
    (before : ∀ state, stronger state → pre state)
    (after : ∀ value state, post value state → weaker value state) :
    Triple stronger program weaker stop := by
  intro state met
  have holds := triple state (before state met)
  cases result : program state with
  | ok value next =>
    rw [result] at holds
    exact after value next holds
  | error reason next =>
    rw [result] at holds
    exact holds

theorem before (triple : Triple pre program post stop)
    (before : ∀ state, stronger state → pre state) : Triple stronger program post stop :=
  fun state met => triple state (before state met)

/-- A call at the start of a program. -/
theorem call (first : Triple pre program post stop) (before : ∀ state, stronger state → pre state)
    (second : ∀ value, Triple (post value) (rest value) final stop) :
    Triple stronger (program >>= rest) final stop :=
  Triple.bind (first.before before) second

theorem ite [Decidable condition] (positive : condition → Triple pre program post stop)
    (negative : ¬condition → Triple pre other post stop) :
    Triple pre (if condition then program else other) post stop := by
  by_cases holds : condition
  · rw [if_pos holds]
    exact positive holds
  · rw [if_neg holds]
    exact negative holds

/-- The value read is the current state. -/
theorem get : Triple pre (MonadState.get : EStateM ε σ σ)
      (fun value state => value = state ∧ pre state) stop :=
  fun _ met => ⟨rfl, met⟩

theorem read : Triple pre (MonadState.get : EStateM ε σ σ) (fun _ => pre) stop :=
  fun _ met => met

/-- A proof may name a part of the state before the program runs. -/
theorem ghost {γ : Type} (part : σ → γ) (each : ∀ value,
      Triple (fun state => part state = value ∧ pre state) program post stop) :
    Triple pre program post stop :=
  fun state met => each (part state) state ⟨rfl, met⟩

/-- A loop keeps what each of its rounds keeps. -/
theorem forM {γ : Type} {items : List γ} {body : γ → EStateM ε σ PUnit} {invariant : σ → Prop}
    (round : ∀ item ∈ items, Triple invariant (body item) (fun _ => invariant) stop) :
    Triple invariant (items.forM body) (fun _ => invariant) stop := by
  induction items with
  | nil => exact Triple.pure fun _ met => met
  | cons item items induction =>
    have rest := induction fun other member => round other (List.mem_cons_of_mem _ member)
    exact Triple.bind (round item List.mem_cons_self) fun _ => rest

end Triple

end Xv6KernelEvent
