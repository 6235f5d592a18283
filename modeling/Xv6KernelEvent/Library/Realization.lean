import Xv6KernelEvent.Library.Custody

/-!
# Actions that carry out programs

A machine has a stock of resources among the rest of its state.  An action on
the machine realizes a program when, whenever the program comes to its end with
the machine's stock, the action does so too, with the same stock left and
related outcomes.  A program that halts asks nothing of its action, so that
what `Accounts` says about the program is what makes the action succeed.
-/

namespace Xv6KernelEvent.Custody

abbrev Action (State Value : Type) := StateT State (Except String) Value

/-- An action that succeeds, followed by another. -/
theorem Action.bind_ok {State Value Next : Type} {first : Action State Value}
    {later : Value → Action State Next} {state between : State} {value : Value}
    (acts : first state = .ok (value, between)) :
    (first >>= later) state = later value between := by
  change (do
    let (value, between) ← first state
    later value between) = _
  rw [acts]
  rfl

theorem Action.ok_of_toOption {State Value : Type} {action : Action State Value}
    {state : State} {outcome : Value × State} (found : (action state).toOption = some outcome) :
    action state = .ok outcome := by
  cases acts : action state with
  | error reason =>
    rw [acts] at found
    cases found
  | ok other =>
    rw [acts] at found
    cases found
    rfl

section Realizes

variable {Resource State Outcome Value Other Next : Type} {stock : State → List Resource}

def Realizes (stock : State → List Resource) (related : Outcome → Value → State → Prop)
    (program : Program Resource Outcome) (action : Action State Value) (state : State) : Prop :=
  ∀ outcome remaining, program.execute (stock state) = .ok (outcome, remaining) →
      ∃ value result, action state = .ok (value, result) ∧
        stock result = remaining ∧ related outcome value result

namespace Realizes

variable {program : Program Resource Outcome} {action : Action State Value}
  {related weaker : Outcome → Value → State → Prop} {state : State}

theorem pure (holds : related outcome value state) :
    Realizes stock related (Pure.pure outcome) (Pure.pure value) state := by
  rintro _ _ ⟨⟩
  exact ⟨value, state, rfl, rfl, holds⟩

theorem halt : Realizes stock related (Custody.halt reason) action state := by rintro _ _ ⟨⟩

theorem mono (realizes : Realizes stock related program action state)
    (implies : ∀ outcome value result, related outcome value result → weaker outcome value result) :
    Realizes stock weaker program action state := by
  intro outcome remaining executes
  obtain ⟨value, result, acts, left, holds⟩ := realizes outcome remaining executes
  exact ⟨value, result, acts, left, implies _ _ _ holds⟩

theorem of_execute (acts : action state = .ok (value, result))
    (executes : program.execute (stock state) = .ok (outcome, stock result))
    (holds : related outcome value result) : Realizes stock related program action state := by
  intro other remaining same
  rw [executes] at same
  cases same
  exact ⟨value, result, acts, rfl, holds⟩

theorem seq {next : Outcome → Program Resource Other} {later : Value → Action State Next}
    {last : Other → Next → State → Prop} (first : Realizes stock related program action state)
    (second : ∀ outcome value result, related outcome value result →
      Realizes stock last (next outcome) (later value) result) :
    Realizes stock last (program >>= next) (action >>= later) state := by
  intro other remaining executes
  rw [Program.execute_bind] at executes
  cases run : program.execute (stock state) with
  | error reason =>
    rw [run] at executes
    cases executes
  | ok pair =>
    obtain ⟨outcome, middle⟩ := pair
    rw [run] at executes
    obtain ⟨value, between, acts, rfl, holds⟩ := first outcome middle run
    obtain ⟨final, result, continues, left, after⟩ :=
      second outcome value between holds other remaining executes
    exact ⟨final, result, (Action.bind_ok acts).trans continues, left, after⟩

/-- The action does something that the program says nothing about. -/
theorem silent {first : Action State Next} {later : Next → Action State Value}
    {value : Next} {between : State} (acts : first state = .ok (value, between))
    (same : stock between = stock state)
    (rest : Realizes stock related program (later value) between) :
    Realizes stock related program (first >>= later) state := by
  intro outcome remaining executes
  rw [← same] at executes
  obtain ⟨final, result, continues, left, holds⟩ := rest outcome remaining executes
  exact ⟨final, result, (Action.bind_ok acts).trans continues, left, holds⟩

/-- The action takes what the program asks for, or finds the stock empty. -/
theorem acquire {next : Option Resource → Program Resource Outcome}
    {first : Action State Next} {later : Next → Action State Value}
    (refused : stock state = [] → ∃ value result,
      first state = .ok (value, result) ∧ stock result = [] ∧
        Realizes stock related (next none) (later value) result)
    (granted : ∀ resource rest, stock state = resource :: rest →
      ∃ value result, first state = .ok (value, result) ∧ stock result = rest ∧
        Realizes stock related (next (some resource)) (later value) result) :
    Realizes stock related (Custody.acquire >>= next) (first >>= later)
      state := by
  intro outcome remaining executes
  cases free : stock state with
  | nil =>
    obtain ⟨value, result, acts, left, rest⟩ := refused free
    rw [Action.bind_ok acts]
    rw [free] at executes
    exact rest outcome remaining (by rw [left]; exact executes)
  | cons resource more =>
    obtain ⟨value, result, acts, left, rest⟩ := granted resource more free
    rw [Action.bind_ok acts]
    rw [free] at executes
    exact rest outcome remaining (by rw [left]; exact executes)

/-- The action gives back what the program gives back. -/
theorem release {resource : Resource} {next : Unit → Program Resource Outcome}
    {first : Action State Next} {later : Next → Action State Value} {value : Next} {between : State}
    (acts : first state = .ok (value, between)) (back : stock between = resource :: stock state)
    (rest : Realizes stock related (next ()) (later value) between) :
    Realizes stock related (Custody.release resource >>= next) (first >>= later) state := by
  intro outcome remaining executes
  have moved : (next ()).execute (stock between) = .ok (outcome, remaining) := by
    rw [back]
    exact executes
  obtain ⟨final, result, continues, left, holds⟩ := rest outcome remaining moved
  exact ⟨final, result, (Action.bind_ok acts).trans continues, left, holds⟩

/-- A program that keeps account makes its action succeed. -/
theorem execute (realizes : Realizes stock related program action state)
    (accounts : Accounts all post held program)
    (within : held + (stock state : Multiset Resource) ≤ all) :
    ∃ outcome rest value result, action state = .ok (value, result) ∧
      related outcome value result ∧ post outcome rest ∧
      rest + (stock result : Multiset Resource) = held + stock state := by
  obtain ⟨outcome, rest, remaining, executes, holds, conserved⟩ :=
    accounts.execute (stock state) within
  obtain ⟨value, result, acts, rfl, relation⟩ := realizes outcome remaining executes
  exact ⟨outcome, rest, value, result, acts, relation, holds, conserved⟩

end Realizes

/-- Performs an action for each index in turn. -/
def perform (body : Nat → Action State Unit) : Nat → Action State Unit
  | 0 => Pure.pure ()
  | count + 1 => do
    perform body count
    body count

theorem Realizes.forEach (invariant : Nat → State → Prop) (count : Nat)
    (initially : invariant 0 state) (each : ∀ index < count, ∀ state, invariant index state →
      Realizes stock (fun _ _ result => invariant (index + 1) result)
        (body index) (act index) state) :
    Realizes stock (fun _ _ result => invariant count result)
      (Custody.forEach body count) (perform act count) state := by
  induction count with
  | zero =>
    rw [Custody.forEach_zero]
    exact .pure initially
  | succ count induction =>
    rw [Custody.forEach_succ]
    refine (induction fun index below => each index (Nat.lt_succ_of_lt below)).seq ?_
    intro _ _ result holds
    exact each count (Nat.lt_succ_self count) result holds

end Realizes

end Xv6KernelEvent.Custody
