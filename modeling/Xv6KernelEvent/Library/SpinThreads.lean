import Mathlib.Data.List.Nodup
import Mathlib.Logic.Function.Basic

/-!
# Threads with spin locks on several CPUs

Each CPU runs its own scheduler thread or the thread of a process.  A thread is
a stack of frames; the code of the top frame decides on the next act.  A lock
is owned by a CPU, taking one switches interrupts off, and a process gives its
CPU back with exactly its own lock held, which the scheduler thread then
releases in its place.
-/

namespace Xv6KernelEvent.SpinThreads

inductive Thread where
  | scheduler (cpu : Nat)
  | process (p : Nat)
  deriving DecidableEq

/-- The process that a thread runs for. -/
def Thread.proc? : Thread → Option Nat
  | scheduler _ => none
  | process p => some p

theorem Thread.eq_process {thread : Thread} {p : Nat} (runs : thread.proc? = some p) :
    thread = .process p := by
  cases thread with
  | scheduler cpu => cases runs
  | process q => rw [Option.some.inj runs]

/-- `proc` is `c->proc`, `noff` the depth of `push_off` nesting, `intena` says
whether interrupts were on before it, and `sie` whether they are on now. -/
structure Cpu where
  thread : Thread
  proc : Option Nat
  noff : Nat
  intena : Bool
  sie : Bool

inductive Panic (Reason : Type) where
  | acquire
  | release
  | popOff
  | schedLock
  | schedLocks
  | schedRunning
  | schedInterruptible
  | code (reason : Reason)
  deriving DecidableEq

/-- What a frame does next.  Most acts name the frame to continue with. -/
inductive Act (Lock Frame Update Reason : Type) where
  | update (change : Update) (next : Frame)
  | acquire (lock : Lock) (next : Frame)
  | release (lock : Lock) (next : Frame)
  | call (callee next : Frame)
  | ret (value : Int)
  | interrupts (on : Bool) (next : Frame)
  | setProc (p : Option Nat) (next : Frame)
  | leave
  | sched (next : Frame)
  | swtch (p : Nat) (next : Frame)
  | spawn (p : Nat) (first : Frame) (change : Update) (next : Frame)
  | panic (reason : Reason)

/-- The code of a kernel.  `handler` is the frame of an interrupt, `trap` the
one of a system call from user mode, and `resume` gives a caller the value of
the function it called. -/
structure Kernel (Lock Frame Shared Update Input Reason : Type) where
  code : Option Nat → Frame → Shared → Input → Option (Act Lock Frame Update Reason)
  apply : Update → Shared → Shared
  resume : Frame → Int → Frame
  handler : Input → Option Frame
  trap : Input → Option Frame
  procLock : Nat → Lock
  running : Shared → Nat → Bool

/-- The stack of a thread in user mode is empty.  `saved` is the value of
`intena` that a process keeps while it is switched out. -/
structure Machine (Lock Frame Shared Reason : Type) where
  shared : Shared
  owner : Lock → Option Nat
  cpu : Nat → Cpu
  stack : Thread → List Frame
  saved : Nat → Option Bool
  panicked : Option (Panic Reason)

/-- The thread on CPU `c` is in the activation `frame`. -/
abbrev Machine.At (machine : Machine Lock Frame Shared Reason) (c : Nat) (frame : Frame)
    (callers : List Frame) : Prop :=
  machine.stack (machine.cpu c).thread = frame :: callers

theorem Machine.At.mem {machine : Machine Lock Frame Shared Reason} {c : Nat} {frame : Frame}
    {callers : List Frame} (top : machine.At c frame callers) :
    frame ∈ machine.stack (machine.cpu c).thread :=
  top ▸ List.mem_cons_self

/-- `push_off`. -/
def Cpu.pushOff (cpu : Cpu) : Cpu :=
  { cpu with
    noff := cpu.noff + 1
    intena := if cpu.noff = 0 then cpu.sie else cpu.intena
    sie := false }

/-- `pop_off` behind its checks. -/
def Cpu.popOff (cpu : Cpu) : Cpu :=
  { cpu with
    noff := cpu.noff - 1
    sie := decide (cpu.noff = 1) && cpu.intena }

variable {Lock Frame Shared Update Input Reason : Type} [DecidableEq Lock]

namespace Machine

variable (machine : Machine Lock Frame Shared Reason)

def halt (reason : Panic Reason) : Machine Lock Frame Shared Reason :=
  { machine with panicked := some reason }

def setStack (thread : Thread) (stack : List Frame) : Machine Lock Frame Shared Reason :=
  { machine with stack := Function.update machine.stack thread stack }

def setCpu (c : Nat) (cpu : Cpu) : Machine Lock Frame Shared Reason :=
  { machine with cpu := Function.update machine.cpu c cpu }

def setOwner (lock : Lock) (owner : Option Nat) : Machine Lock Frame Shared Reason :=
  { machine with owner := Function.update machine.owner lock owner }

/-- `acquire`; `none` while the lock is held by another CPU. -/
def acquire (c : Nat) (lock : Lock) : Option (Machine Lock Frame Shared Reason) :=
  if machine.owner lock = some c then some (machine.halt .acquire)
  else if machine.owner lock = none then
    some ((machine.setOwner lock (some c)).setCpu c (machine.cpu c).pushOff)
  else none

/-- `release`. -/
def release (c : Nat) (lock : Lock) : Machine Lock Frame Shared Reason :=
  if machine.owner lock ≠ some c then machine.halt .release
  else if (machine.cpu c).sie = true ∨ (machine.cpu c).noff < 1 then machine.halt .popOff
  else (machine.setOwner lock none).setCpu c (machine.cpu c).popOff

/-- The scheduler's `swtch` to a process. -/
def swtch (c p : Nat) (stack : List Frame) : Machine Lock Frame Shared Reason :=
  let cpu := machine.cpu c
  (machine.setStack (.scheduler c) stack).setCpu c
    { cpu with
      thread := .process p
      intena := (machine.saved p).getD cpu.intena }

/-- The frame that a trap pushes on the stack of CPU `c`. -/
def enter (c : Nat) (frame : Frame) : Machine Lock Frame Shared Reason :=
  (machine.setStack (machine.cpu c).thread (frame :: machine.stack (machine.cpu c).thread)).setCpu c
    { machine.cpu c with sie := false }

end Machine

namespace Kernel

variable (kernel : Kernel Lock Frame Shared Update Input Reason)
  (machine : Machine Lock Frame Shared Reason)

/-- `sched`, with the stack that the process is left with. -/
def sched (c p : Nat) (stack : List Frame) : Machine Lock Frame Shared Reason :=
  let cpu := machine.cpu c
  if machine.owner (kernel.procLock p) ≠ some c then machine.halt .schedLock
  else if cpu.noff ≠ 1 then machine.halt .schedLocks
  else if kernel.running machine.shared p then machine.halt .schedRunning
  else if cpu.sie then machine.halt .schedInterruptible
  else
    { (machine.setStack (.process p) stack).setCpu c
        { cpu with thread := .scheduler c } with
      saved := Function.update machine.saved p (some cpu.intena) }

/-- An act of the thread on CPU `c`, whose stack is `frame :: callers`. -/
def perform (c : Nat) (callers : List Frame) :
    Act Lock Frame Update Reason → Option (Machine Lock Frame Shared Reason)
  | .update change next =>
    some { machine.setStack (machine.cpu c).thread (next :: callers) with
      shared := kernel.apply change machine.shared }
  | .acquire lock next => (machine.setStack (machine.cpu c).thread (next :: callers)).acquire c lock
  | .release lock next =>
    some ((machine.setStack (machine.cpu c).thread (next :: callers)).release c lock)
  | .call callee next => some (machine.setStack (machine.cpu c).thread (callee :: next :: callers))
  | .ret value =>
    match callers with
    | [] => none
    | caller :: callers =>
      some (machine.setStack (machine.cpu c).thread (kernel.resume caller value :: callers))
  | .interrupts on next =>
    some ((machine.setStack (machine.cpu c).thread (next :: callers)).setCpu
      c { machine.cpu c with sie := on })
  | .setProc p next =>
    some ((machine.setStack (machine.cpu c).thread (next :: callers)).setCpu
      c { machine.cpu c with proc := p })
  | .leave =>
    some ((machine.setStack (machine.cpu c).thread callers).setCpu c
      { machine.cpu c with sie := true })
  | .sched next =>
    match (machine.cpu c).thread with
    | .process p => some (kernel.sched machine c p (next :: callers))
    | .scheduler _ => none
  | .swtch p next =>
    match (machine.cpu c).thread with
    | .scheduler _ => some (machine.swtch c p (next :: callers))
    | .process _ => none
  | .spawn p first change next =>
    some
      { (machine.setStack (machine.cpu c).thread
          (next :: callers)).setStack (.process p) [first] with
        shared := kernel.apply change machine.shared
        saved := Function.update machine.saved p none }
  | .panic reason => some (machine.halt (.code reason))

/-- One step of CPU `c`: a trap from user mode, an interrupt of kernel code, or
an act of the top frame. -/
def step (c : Nat) (input : Input) : Option (Machine Lock Frame Shared Reason) :=
  if machine.panicked.isSome then none
  else
    match machine.stack (machine.cpu c).thread with
    | [] =>
      if (machine.cpu c).thread.proc?.isSome then (kernel.trap input).map (machine.enter c)
      else none
    | frame :: callers =>
      match kernel.handler input with
      | some handler =>
        if (machine.cpu c).sie then some (machine.enter c handler)
        else none
      | none =>
        (kernel.code (machine.cpu c).thread.proc? frame machine.shared
          input).bind (kernel.perform machine c callers)

/-- The three ways to step. -/
inductive Steps (c : Nat) (input : Input) : Machine Lock Frame Shared Reason → Prop where
  | trap (frame : Frame) (p : Nat) (running : (machine.cpu c).thread = .process p)
      (user : machine.stack (machine.cpu c).thread = [])
      (entry : kernel.trap input = some frame) :
      Steps c input (machine.enter c frame)
  | interrupt (frame : Frame) (entry : kernel.handler input = some frame)
      (enabled : (machine.cpu c).sie = true) :
      Steps c input (machine.enter c frame)
  | act (frame : Frame) (callers : List Frame) (act : Act Lock Frame Update Reason)
      (next : Machine Lock Frame Shared Reason)
      (top : machine.At c frame callers)
      (coded : kernel.code (machine.cpu c).thread.proc? frame machine.shared input = some act)
      (performed : kernel.perform machine c callers act = some next) :
      Steps c input next

theorem steps_of_step (stepped : kernel.step machine c input = some next) :
    machine.panicked = none ∧ kernel.Steps machine c input next := by
  unfold step at stepped
  split at stepped
  · cases stepped
  · rename_i alive
    refine ⟨by simpa using alive, ?_⟩
    cases stack : machine.stack (machine.cpu c).thread with
    | nil =>
      simp only [stack] at stepped
      cases thread : (machine.cpu c).thread with
      | scheduler home => simp [thread, Thread.proc?] at stepped
      | process p =>
        simp only [thread, Thread.proc?, Option.isSome_some, if_true,
          Option.map_eq_some_iff] at stepped
        obtain ⟨frame, entry, rfl⟩ := stepped
        exact .trap frame p thread stack entry
    | cons frame callers =>
      simp only [stack] at stepped
      cases entry : kernel.handler input with
      | some handler =>
        simp only [entry] at stepped
        split at stepped
        · rename_i enabled
          cases stepped
          exact .interrupt handler entry enabled
        · cases stepped
      | none =>
        simp only [entry, Option.bind_eq_some_iff] at stepped
        obtain ⟨act, coded, performed⟩ := stepped
        exact .act frame callers act next stack coded performed

/-- A step that is neither a trap nor an interrupt is an act. -/
theorem step_of_code (alive : machine.panicked = none) (top : machine.At c frame callers)
    (uninterrupted : kernel.handler input = none)
    (coded : kernel.code (machine.cpu c).thread.proc? frame machine.shared input = some act) :
    kernel.step machine c input = kernel.perform machine c callers act := by
  simp [step, alive, top, uninterrupted, coded]

/-- A run is a list of CPUs and inputs; a CPU that cannot step spins. -/
def run (machine : Machine Lock Frame Shared Reason) :
    List (Nat × Input) → Machine Lock Frame Shared Reason
  | [] => machine
  | (c, input) :: schedule => run ((kernel.step machine c input).getD machine) schedule

theorem run_append (machine : Machine Lock Frame Shared Reason)
    (first second : List (Nat × Input)) :
    kernel.run machine (first ++ second) = kernel.run (kernel.run machine first) second := by
  induction first generalizing machine with
  | nil => rfl
  | cons step first induction => exact induction _

/-- All steps of a run meet a condition on the state before the step. -/
def Along (condition : Machine Lock Frame Shared Reason → Nat → Input → Prop)
    (machine : Machine Lock Frame Shared Reason) : List (Nat × Input) → Prop
  | [] => True
  | (c, input) :: schedule =>
    condition machine c input ∧
      Along condition ((kernel.step machine c input).getD machine) schedule

instance decidableAlong {condition : Machine Lock Frame Shared Reason → Nat → Input → Prop}
    [∀ machine c input, Decidable (condition machine c input)]
    (machine : Machine Lock Frame Shared Reason) :
    ∀ schedule, Decidable (kernel.Along condition machine schedule)
  | [] => .isTrue trivial
  | (c, input) :: schedule =>
    have : Decidable (kernel.Along condition
        ((kernel.step machine c input).getD machine) schedule) :=
      decidableAlong _ schedule
    inferInstanceAs (Decidable (condition machine c input ∧ _))

/-- An invariant of the steps that meet a condition is an invariant of the runs
whose steps all meet it. -/
theorem run_invariant_along {invariant : Machine Lock Frame Shared Reason → Prop}
    {condition : Machine Lock Frame Shared Reason → Nat → Input → Prop}
    (stepInvariant : ∀ machine next c input, invariant machine →
      condition machine c input → kernel.step machine c input = some next →
      invariant next) (initially : invariant machine) {schedule : List (Nat × Input)}
    (along : kernel.Along condition machine schedule) :
    invariant (kernel.run machine schedule) := by
  induction schedule generalizing machine with
  | nil => exact initially
  | cons first schedule induction =>
    refine induction _ ?_ along.2
    cases stepped : kernel.step machine first.1 first.2 with
    | none => exact initially
    | some next => exact stepInvariant _ _ _ _ initially along.1 stepped

theorem along_of_forall {condition : Nat × Input → Prop} {schedule : List (Nat × Input)}
    (all : ∀ step ∈ schedule, condition step) :
    kernel.Along (fun _ c input => condition (c, input)) machine schedule := by
  induction schedule generalizing machine with
  | nil => trivial
  | cons first schedule induction =>
    exact ⟨all first List.mem_cons_self,
      induction _ fun step member => all step (List.mem_cons_of_mem _ member)⟩

/-- An invariant of the steps is an invariant of the runs. -/
theorem run_invariant {invariant : Machine Lock Frame Shared Reason → Prop}
    (stepInvariant : ∀ machine next c input, invariant machine →
      kernel.step machine c input = some next → invariant next)
    (initially : invariant machine) (schedule : List (Nat × Input)) :
    invariant (kernel.run machine schedule) := by
  have along : kernel.Along (fun _ _ _ => True) machine schedule :=
    kernel.along_of_forall machine fun _ _ => trivial
  refine kernel.run_invariant_along machine ?_ initially along
  intro machine next c input holds _ stepped
  exact stepInvariant machine next c input holds stepped

end Kernel

end Xv6KernelEvent.SpinThreads
