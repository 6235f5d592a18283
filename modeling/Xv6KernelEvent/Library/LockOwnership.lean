import Mathlib.Data.List.Basic
import Xv6KernelEvent.Library.SpinThreads

/-!
# Who owns the spin locks

A discipline says which locks a frame holds, and below which callers it may
run.  If every act of the code follows it, the owners of the locks are in every
run exactly the CPUs whose current stacks hold them, so no lock operation
panics.
-/

namespace Xv6KernelEvent.SpinThreads

variable {Lock Token Frame Shared Update Input Reason : Type}

/-- `held` are the locks that a frame itself holds.  A function may hand locks
back to its caller: `returns` are those it returns with, and `awaits` those a
caller waits for.  In the same way a function `gives` what its caller `wants`
besides locks.  A `root` frame has not been called by the frame below. -/
structure Discipline (Lock Token Frame : Type) where
  held : Option Nat → Frame → List Lock
  returns : Frame → List Lock
  awaits : Frame → List Lock
  gives : Frame → Token
  wants : Frame → Token
  root : Frame → Bool
  fits : Option Nat → Frame → List Frame → Prop

namespace Discipline

variable (discipline : Discipline Lock Token Frame) (me : Option Nat)

def stackHeld (stack : List Frame) : List Lock := stack.flatMap (discipline.held me)

@[simp] theorem stackHeld_nil : discipline.stackHeld me [] = [] := rfl

@[simp] theorem stackHeld_cons (frame : Frame) (callers : List Frame) :
    discipline.stackHeld me (frame :: callers) =
      discipline.held me frame ++ discipline.stackHeld me callers := rfl

/-- The frame below has called the frame, unless it is a root. -/
def Called (frame : Frame) (callers : List Frame) : Prop :=
  discipline.root frame = false → ∃ caller rest, callers = caller :: rest ∧
    discipline.returns frame = discipline.awaits caller ∧
      discipline.gives frame = discipline.wants caller

def WellNested : List Frame → Prop
  | [] => True
  | frame :: callers =>
    discipline.fits me frame callers ∧ discipline.Called frame callers ∧ WellNested callers

variable {discipline me} in
theorem WellNested.of_mem (nested : discipline.WellNested me stack) (member : frame ∈ stack) :
    ∃ callers, discipline.fits me frame callers ∧
      discipline.Called frame callers ∧ ∀ caller ∈ callers, caller ∈ stack := by
  induction stack with
  | nil => cases member
  | cons first callers induction =>
    rcases List.mem_cons.mp member with rfl | below
    · exact ⟨callers, nested.1, nested.2.1, fun _ isCaller => List.mem_cons_of_mem _ isCaller⟩
    · obtain ⟨own, fits, called, inStack⟩ := induction nested.2.2 below
      exact ⟨own, fits, called,
        fun caller isCaller => List.mem_cons_of_mem _ (inStack caller isCaller)⟩

/-- A frame that takes the place of another one in the same activation. -/
structure Continues (frame next : Frame) (callers : List Frame) : Prop where
  fits : discipline.fits me next callers
  returns : discipline.returns next = discipline.returns frame
  gives : discipline.gives next = discipline.gives frame
  root : discipline.root next = discipline.root frame

variable [DecidableEq Lock]

/-- The acts that follow the discipline. -/
def Sound (procLock : Nat → Lock) (frame : Frame) (callers : List Frame) :
    Act Lock Frame Update Reason → Prop
  | .update _ next | .setProc _ next =>
    discipline.held me next = discipline.held me frame ∧ discipline.Continues me frame next callers
  | .acquire lock next =>
    lock ∉ discipline.held me frame ++ discipline.stackHeld me callers ∧
      discipline.held me next = lock :: discipline.held me frame ∧
      discipline.Continues me frame next callers
  | .release lock next =>
    lock ∈ discipline.held me frame ∧
      discipline.held me next = (discipline.held me frame).erase lock ∧
      discipline.Continues me frame next callers
  | .call callee next =>
    (discipline.held me callee ++ discipline.held me next).Perm (discipline.held me frame) ∧
      discipline.Continues me frame next callers ∧
      discipline.fits me callee (next :: callers) ∧
      discipline.returns callee = discipline.awaits next ∧
      discipline.gives callee = discipline.wants next
  | .ret _ => discipline.held me frame = discipline.returns frame ∧ discipline.root frame = false
  | .interrupts on next =>
    discipline.held me next = discipline.held me frame ∧
      discipline.Continues me frame next callers ∧
      (on = true → discipline.held me frame = [] ∧ discipline.stackHeld me callers = [])
  | .leave => discipline.held me frame = [] ∧ discipline.stackHeld me callers = []
  | .sched next =>
    ∃ p, me = some p ∧ discipline.held me frame = [procLock p] ∧
      discipline.stackHeld me callers = [] ∧
      discipline.held me next = [procLock p] ∧
      discipline.Continues me frame next callers
  | .swtch p next =>
    me = none ∧ discipline.held me frame = [procLock p] ∧ discipline.stackHeld me callers = [] ∧
      discipline.held me next = [procLock p] ∧
      discipline.Continues me frame next callers
  | .spawn p first _ next =>
    discipline.held me next = discipline.held me frame ∧
      discipline.Continues me frame next callers ∧
      discipline.held (some p) first = [procLock p] ∧
      discipline.fits (some p) first [] ∧ discipline.root first = true
  | .panic _ => True

end Discipline

/-- What the callers of a kernel's functions rely on, and the frames that traps
push. -/
structure Obeys (kernel : Kernel Lock Frame Shared Update Input Reason)
    (discipline : Discipline Lock Token Frame) : Prop where
  resume : ∀ me frame value callers, discipline.fits me frame callers →
    (discipline.held me (kernel.resume frame value)).Perm
        (discipline.awaits frame ++ discipline.held me frame) ∧
      discipline.Continues me frame (kernel.resume frame value) callers
  handler : ∀ me input frame callers, kernel.handler input = some frame →
    discipline.stackHeld me callers = [] →
    discipline.held me frame = [] ∧ discipline.fits me frame callers ∧ discipline.root frame = true
  trap : ∀ p input frame, kernel.trap input = some frame → discipline.held (some p) frame = [] ∧
      discipline.fits (some p) frame [] ∧ discipline.root frame = true

section Ownership

variable (kernel : Kernel Lock Frame Shared Update Input Reason)
  (discipline : Discipline Lock Token Frame)

/-- The locks held by the thread on a CPU. -/
def heldOn (machine : Machine Lock Frame Shared Reason) (c : Nat) : List Lock :=
  discipline.stackHeld (machine.cpu c).thread.proc? (machine.stack (machine.cpu c).thread)

/-- Switched-out threads hold just the lock of the process, and no thread is on
two CPUs. -/
structure Seated (machine : Machine Lock Frame Shared Reason) : Prop where
  parked : ∀ p, (∀ c, (machine.cpu c).thread ≠ .process p) →
    discipline.stackHeld (some p) (machine.stack (.process p)) = [kernel.procLock p]
  waiting : ∀ c p, (machine.cpu c).thread = .process p →
    discipline.stackHeld none (machine.stack (.scheduler c)) = [kernel.procLock p]
  home : ∀ c other, (machine.cpu c).thread = .scheduler other → other = c
  apart : ∀ c other p, (machine.cpu c).thread = .process p →
    (machine.cpu other).thread = .process p → other = c

structure Owned (machine : Machine Lock Frame Shared Reason) : Prop
    extends Seated kernel discipline machine where
  owns : ∀ c lock, machine.owner lock = some c ↔ lock ∈ heldOn discipline machine c
  nodup : ∀ c, (heldOn discipline machine c).Nodup
  nested : ∀ thread, discipline.WellNested thread.proc? (machine.stack thread)
  depth : ∀ c, (machine.cpu c).noff = (heldOn discipline machine c).length
  masked : ∀ c, (machine.cpu c).sie = true → heldOn discipline machine c = []

/-- The owners stay right, and only the code itself panics. -/
abbrev Stays (machine next : Machine Lock Frame Shared Reason) : Prop :=
  Owned kernel discipline next ∧ (next.panicked = machine.panicked ∨
      ∃ reason, next.panicked = some (.code reason))

end Ownership

variable {kernel : Kernel Lock Frame Shared Update Input Reason}
  {discipline : Discipline Lock Token Frame}
  {machine next : Machine Lock Frame Shared Reason}

namespace Owned

section

variable (owned : Owned kernel discipline machine)

include owned

theorem thread_ne (differs : other ≠ c) : (machine.cpu other).thread ≠ (machine.cpu c).thread := by
  intro same
  cases thread : (machine.cpu c).thread with
  | scheduler home =>
    rw [thread] at same
    have first := owned.home c home thread
    have second := owned.home other home same
    exact differs (second.symm.trans first)
  | process p =>
    rw [thread] at same
    exact differs (owned.apart c other p thread same)

/-- A CPU that runs no process runs its scheduler. -/
theorem idle (none : (machine.cpu c).thread.proc? = none) :
    (machine.cpu c).thread = .scheduler c := by
  cases thread : (machine.cpu c).thread with
  | scheduler other => rw [owned.home c other thread]
  | process q =>
    rw [thread] at none
    cases none

section

variable {stack : List Frame} (cpus : next.cpu = Function.update machine.cpu c cpu)
  (stacked : next.stack = Function.update machine.stack (machine.cpu c).thread stack)

include cpus stacked

theorem heldOn_elsewhere
    (differs : other ≠ c) : heldOn discipline next other = heldOn discipline machine other := by
  rw [heldOn, heldOn, cpus, Function.update_of_ne differs, stacked,
    Function.update_of_ne (owned.thread_ne differs)]

/-- A step that changes nothing but the stack, the locks and the interrupt
state of CPU `c`. -/
theorem of_local (thread : cpu.thread = (machine.cpu c).thread)
    (nested : discipline.WellNested (machine.cpu c).thread.proc? stack)
    (held : discipline.stackHeld (machine.cpu c).thread.proc? stack = locks)
    (others : ∀ lock other, other ≠ c →
      (next.owner lock = some other ↔ machine.owner lock = some other))
    (owns : ∀ lock, next.owner lock = some c ↔ lock ∈ locks) (nodup : locks.Nodup)
    (depth : cpu.noff = locks.length) (masked : cpu.sie = true → locks = []) :
    Owned kernel discipline next := by
  have here : next.cpu c = cpu := by rw [cpus, Function.update_self]
  have threads (other : Nat) : (next.cpu other).thread = (machine.cpu other).thread := by
    by_cases isHere : other = c
    · rw [isHere, here, thread]
    · rw [cpus, Function.update_of_ne isHere]
  have heldHere : heldOn discipline next c = locks := by
    rw [heldOn, threads, stacked, Function.update_self, held]
  have elsewhere {other : Nat} (differs : other ≠ c) :=
    owned.heldOn_elsewhere cpus stacked differs
  refine ⟨⟨?_, ?_, ?_, ?_⟩, ?_, ?_, ?_, ?_, ?_⟩
  · intro p absent
    simp only [threads] at absent
    rw [stacked, Function.update_of_ne (absent c).symm]
    exact owned.parked p absent
  · intro other p running
    rw [threads] at running
    have idle : Thread.scheduler other ≠ (machine.cpu c).thread := by
      intro same
      have home := owned.home c other same.symm
      rw [home, ← same] at running
      cases running
    rw [stacked, Function.update_of_ne idle]
    exact owned.waiting other p running
  · intro other home onScheduler
    rw [threads] at onScheduler
    exact owned.home other home onScheduler
  · intro first second p onFirst onSecond
    rw [threads] at onFirst onSecond
    exact owned.apart first second p onFirst onSecond
  · intro other lock
    by_cases isHere : other = c
    · rw [isHere, heldHere]
      exact owns lock
    · rw [others lock other isHere, elsewhere isHere]
      exact owned.owns other lock
  · intro other
    by_cases isHere : other = c
    · rw [isHere, heldHere]
      exact nodup
    · rw [elsewhere isHere]
      exact owned.nodup other
  · intro other
    rw [stacked]
    by_cases isHere : other = (machine.cpu c).thread
    · rw [isHere, Function.update_self]
      exact nested
    · rw [Function.update_of_ne isHere]
      exact owned.nested other
  · intro other
    by_cases isHere : other = c
    · rw [isHere, heldHere, here]
      exact depth
    · rw [elsewhere isHere, cpus, Function.update_of_ne isHere]
      exact owned.depth other
  · intro other enabled
    by_cases isHere : other = c
    · rw [isHere, here] at enabled
      rw [isHere, heldHere]
      exact masked enabled
    · rw [cpus, Function.update_of_ne isHere] at enabled
      rw [elsewhere isHere]
      exact owned.masked other enabled

/-- A change of the stack on CPU `c`, and perhaps of its interrupt state. -/
theorem of_stack (owner : next.owner = machine.owner) (thread : cpu.thread = (machine.cpu c).thread)
    (noff : cpu.noff = (machine.cpu c).noff)
    (sie : cpu.sie = true → discipline.stackHeld (machine.cpu c).thread.proc? stack = [])
    (nested : discipline.WellNested (machine.cpu c).thread.proc? stack)
    (same : (discipline.stackHeld (machine.cpu c).thread.proc? stack).Perm
      (heldOn discipline machine c)) : Owned kernel discipline next := by
  refine owned.of_local cpus stacked thread nested rfl ?_ ?_ ?_ ?_ sie
  · intro lock other _differs
    rw [owner]
  · intro lock
    rw [owner, same.mem_iff]
    exact owned.owns c lock
  · exact same.nodup_iff.mpr (owned.nodup c)
  · rw [noff, same.length_eq]
    exact owned.depth c

end

/-- A step that changes one stack, and perhaps the thread of a CPU, but no lock. -/
theorem of_holds (owner : next.owner = machine.owner)
    (held : ∀ c, heldOn discipline next c = heldOn discipline machine c)
    (noff : ∀ c, (next.cpu c).noff = (machine.cpu c).noff)
    (sie : ∀ c, (next.cpu c).sie = (machine.cpu c).sie)
    (stacked : next.stack = Function.update machine.stack thread stack)
    (nested : discipline.WellNested thread.proc? stack)
    (seated : Seated kernel discipline next) : Owned kernel discipline next := by
  refine ⟨seated, ?_, ?_, ?_, ?_, ?_⟩
  · intro c lock
    rw [owner, held]
    exact owned.owns c lock
  · intro c
    rw [held]
    exact owned.nodup c
  · intro other
    rw [stacked]
    by_cases isChanged : other = thread
    · rw [isChanged, Function.update_self]
      exact nested
    · rw [Function.update_of_ne isChanged]
      exact owned.nested other
  · intro c
    rw [held, noff]
    exact owned.depth c
  · intro c enabled
    rw [sie] at enabled
    rw [held]
    exact owned.masked c enabled

end

/-- No CPU runs a process. -/
def Parked (machine : Machine Lock Frame Shared Reason) (p : Nat) : Prop :=
  ∀ c, (machine.cpu c).thread ≠ .process p

section

variable {stack : List Frame} (owned : Owned kernel discipline machine)
  (cpus : next.cpu = Function.update machine.cpu c cpu)
  (noff : cpu.noff = (machine.cpu c).noff) (sie : cpu.sie = (machine.cpu c).sie)

include owned cpus noff sie

/-- The CPU of a switch between threads keeps its locks and its interrupt state. -/
theorem switch_holds
    (stacked : next.stack = Function.update machine.stack (machine.cpu c).thread stack)
    (held : heldOn discipline next c = heldOn discipline machine c) (other : Nat) :
    heldOn discipline next other = heldOn discipline machine other ∧
      (next.cpu other).noff = (machine.cpu other).noff ∧
      (next.cpu other).sie = (machine.cpu other).sie := by
  by_cases isHere : other = c
  · rw [isHere, cpus, Function.update_self]
    exact ⟨held, noff, sie⟩
  · rw [owned.heldOn_elsewhere cpus stacked isHere, cpus, Function.update_of_ne isHere]
    exact ⟨rfl, rfl, rfl⟩

theorem of_sched (running : (machine.cpu c).thread = .process p)
    (owner : next.owner = machine.owner)
    (stacked : next.stack = Function.update machine.stack (.process p) stack)
    (thread : cpu.thread = .scheduler c) (nested : discipline.WellNested (some p) stack)
    (only : heldOn discipline machine c = [kernel.procLock p])
    (kept : discipline.stackHeld (some p) stack = [kernel.procLock p]) :
    Owned kernel discipline next := by
  have here : next.cpu c = cpu := by rw [cpus, Function.update_self]
  have cpuElsewhere (other : Nat) (differs : other ≠ c) : next.cpu other = machine.cpu other := by
    rw [cpus, Function.update_of_ne differs]
  have scheduled : next.stack (.scheduler c) = machine.stack (.scheduler c) := by
    rw [stacked, Function.update_of_ne (by simp)]
  have held : heldOn discipline next c = heldOn discipline machine c := by
    rw [heldOn, here, thread, scheduled, only]
    exact owned.waiting c p running
  have holds := owned.switch_holds cpus noff sie (running ▸ stacked) held
  refine owned.of_holds owner (fun other => (holds other).1) (fun other => (holds other).2.1)
    (fun other => (holds other).2.2) stacked nested ⟨?_, ?_, ?_, ?_⟩
  · intro parkedProcess absent
    by_cases isProcess : parkedProcess = p
    · rw [isProcess, stacked, Function.update_self]
      exact kept
    · rw [stacked, Function.update_of_ne (by simpa using isProcess)]
      apply owned.parked parkedProcess
      intro other
      by_cases isHere : other = c
      · rw [isHere, running]
        simpa using Ne.symm isProcess
      · rw [← cpuElsewhere other isHere]
        exact absent other
  · intro other q otherRunning
    by_cases isHere : other = c
    · rw [isHere, here, thread] at otherRunning
      cases otherRunning
    · rw [cpuElsewhere other isHere] at otherRunning
      rw [stacked, Function.update_of_ne (by simp)]
      exact owned.waiting other q otherRunning
  · intro other home onScheduler
    by_cases isHere : other = c
    · rw [isHere, here, thread] at onScheduler
      rw [isHere]
      exact (Thread.scheduler.inj onScheduler).symm
    · rw [cpuElsewhere other isHere] at onScheduler
      exact owned.home other home onScheduler
  · intro first second q onFirst onSecond
    have firstElsewhere : first ≠ c := by
      rintro rfl
      rw [here, thread] at onFirst
      cases onFirst
    have secondElsewhere : second ≠ c := by
      rintro rfl
      rw [here, thread] at onSecond
      cases onSecond
    rw [cpuElsewhere first firstElsewhere] at onFirst
    rw [cpuElsewhere second secondElsewhere] at onSecond
    exact owned.apart first second q onFirst onSecond

theorem of_swtch (idle : (machine.cpu c).thread = .scheduler c)
    (parked : Parked machine p) (owner : next.owner = machine.owner)
    (stacked : next.stack = Function.update machine.stack (.scheduler c) stack)
    (thread : cpu.thread = .process p) (nested : discipline.WellNested none stack)
    (only : heldOn discipline machine c = [kernel.procLock p])
    (kept : discipline.stackHeld none stack = [kernel.procLock p]) :
    Owned kernel discipline next := by
  have here : next.cpu c = cpu := by rw [cpus, Function.update_self]
  have cpuElsewhere (other : Nat) (differs : other ≠ c) : next.cpu other = machine.cpu other := by
    rw [cpus, Function.update_of_ne differs]
  have resumed : next.stack (.process p) = machine.stack (.process p) := by
    rw [stacked, Function.update_of_ne (by simp)]
  have held : heldOn discipline next c = heldOn discipline machine c := by
    rw [heldOn, here, thread, resumed, only]
    exact owned.parked p parked
  have holds := owned.switch_holds cpus noff sie (idle ▸ stacked) held
  refine owned.of_holds owner (fun other => (holds other).1) (fun other => (holds other).2.1)
    (fun other => (holds other).2.2) stacked nested ⟨?_, ?_, ?_, ?_⟩
  · intro q absent
    rw [stacked, Function.update_of_ne (by simp)]
    apply owned.parked q
    intro other
    by_cases isHere : other = c
    · rw [isHere, idle]
      simp
    · rw [← cpuElsewhere other isHere]
      exact absent other
  · intro other q otherRunning
    by_cases isHere : other = c
    · rw [isHere, here, thread] at otherRunning
      rw [isHere, stacked, Function.update_self, ← Thread.process.inj otherRunning]
      exact kept
    · rw [cpuElsewhere other isHere] at otherRunning
      rw [stacked, Function.update_of_ne (by simpa using isHere)]
      exact owned.waiting other q otherRunning
  · intro other home onScheduler
    by_cases isHere : other = c
    · rw [isHere, here, thread] at onScheduler
      cases onScheduler
    · rw [cpuElsewhere other isHere] at onScheduler
      exact owned.home other home onScheduler
  · intro first second q onFirst onSecond
    by_cases firstHere : first = c
    · by_cases secondHere : second = c
      · rw [firstHere, secondHere]
      · rw [firstHere, here, thread] at onFirst
        rw [cpuElsewhere second secondHere, ← Thread.process.inj onFirst]
          at onSecond
        exact absurd onSecond (parked second)
    · by_cases secondHere : second = c
      · rw [secondHere, here, thread] at onSecond
        rw [cpuElsewhere first firstHere, ← Thread.process.inj onSecond]
          at onFirst
        exact absurd onFirst (parked first)
      · rw [cpuElsewhere first firstHere] at onFirst
        rw [cpuElsewhere second secondHere] at onSecond
        exact owned.apart first second q onFirst onSecond

end

/-- A new thread for a parked process. -/
theorem of_spawn (owned : Owned kernel discipline machine) (parked : Parked machine p)
    (owner : next.owner = machine.owner) (cpus : next.cpu = machine.cpu)
    (stacked : next.stack = Function.update machine.stack (.process p) [first])
    (fits : discipline.fits (some p) first []) (root : discipline.root first = true)
    (held : discipline.held (some p) first = [kernel.procLock p]) :
    Owned kernel discipline next := by
  have current (c : Nat) : next.stack (machine.cpu c).thread =
      machine.stack (machine.cpu c).thread := by
    rw [stacked, Function.update_of_ne (parked c)]
  have same (c : Nat) : heldOn discipline next c = heldOn discipline machine c := by
    rw [heldOn, cpus, current, heldOn]
  have rooted : discipline.WellNested (some p) [first] :=
    ⟨fits, fun called => absurd root (by simp [called]), trivial⟩
  refine owned.of_holds owner same (fun c => by rw [cpus]) (fun c => by rw [cpus]) stacked rooted
    ⟨?_, ?_, ?_, ?_⟩
  · intro q absent
    rw [stacked]
    by_cases isNew : q = p
    · rw [isNew, Function.update_self]
      simpa using held
    · rw [Function.update_of_ne (by simpa using isNew)]
      simp only [cpus] at absent
      exact owned.parked q absent
  · intro c q running
    rw [cpus] at running
    rw [stacked, Function.update_of_ne (by simp)]
    exact owned.waiting c q running
  · rw [cpus]
    exact owned.home
  · rw [cpus]
    exact owned.apart

end Owned

/-- The process that an act starts or switches to. -/
def Act.target? : Act Lock Frame Update Reason → Option Nat
  | .swtch p _ | .spawn p _ _ _ => some p
  | _ => none

/-- The next frame of an activation is below the same callers. -/
theorem Discipline.nested_of_continues (nested : discipline.WellNested me (frame :: callers))
    (continues : discipline.Continues me frame after callers) :
    discipline.WellNested me (after :: callers) := by
  obtain ⟨_, called, rest⟩ := nested
  refine ⟨continues.fits, ?_, rest⟩
  intro notRoot
  rw [continues.root] at notRoot
  obtain ⟨caller, others, shape, returned, given⟩ := called notRoot
  exact ⟨caller, others, shape, continues.returns.trans returned, continues.gives.trans given⟩

section Acts

variable {frame : Frame} {callers : List Frame}

theorem heldOn_top (top : machine.At c frame callers) :
    heldOn discipline machine c = discipline.held (machine.cpu c).thread.proc? frame ++
        discipline.stackHeld (machine.cpu c).thread.proc? callers := by
  rw [heldOn, top, Discipline.stackHeld_cons]

variable (owned : Owned kernel discipline machine)
  (top : machine.At c frame callers)

include owned top

theorem Owned.nested_top :
    discipline.WellNested (machine.cpu c).thread.proc? (frame :: callers) := by
  rw [← top]
  exact owned.nested _

/-- A change of the stack that keeps the locks held on CPU `c`. -/
theorem Owned.restack (owner : next.owner = machine.owner) (cpus : next.cpu = machine.cpu)
    (stacked : next.stack = Function.update machine.stack (machine.cpu c).thread stack)
    (nested : discipline.WellNested (machine.cpu c).thread.proc? stack)
    (same : (discipline.stackHeld (machine.cpu c).thread.proc? stack).Perm
      (discipline.held (machine.cpu c).thread.proc? frame ++
        discipline.stackHeld (machine.cpu c).thread.proc? callers)) :
    Owned kernel discipline next := by
  rw [← heldOn_top top] at same
  have sameCpu : next.cpu = Function.update machine.cpu c (machine.cpu c) := by simp [cpus]
  refine owned.of_stack sameCpu stacked owner rfl rfl ?_ nested same
  intro enabled
  exact (owned.masked c enabled ▸ same).eq_nil

theorem Owned.continue (same : discipline.held (machine.cpu c).thread.proc? after =
      discipline.held (machine.cpu c).thread.proc? frame)
    (continues : discipline.Continues (machine.cpu c).thread.proc? frame after callers)
    (owner : next.owner = machine.owner) (cpus : next.cpu = machine.cpu)
    (stacked : next.stack = Function.update machine.stack (machine.cpu c).thread
        (after :: callers)) : Owned kernel discipline next := by
  refine owned.restack top owner cpus stacked
    (Discipline.nested_of_continues (owned.nested_top top) continues) ?_
  rw [Discipline.stackHeld_cons, same]

variable [DecidableEq Lock] {act : Act Lock Frame Update Reason}
  (sound : discipline.Sound (machine.cpu c).thread.proc? kernel.procLock frame callers act)
  (performed : kernel.perform machine c callers act = some next)

include sound performed

/-- The lock was free. -/
theorem Owned.acquired (acts : act = .acquire lock after) : machine.owner lock = none ∧
    next = ((machine.setStack (machine.cpu c).thread (after :: callers)).setOwner
      lock (some c)).setCpu c (machine.cpu c).pushOff := by
  subst acts
  simp only [Kernel.perform, Machine.acquire] at performed
  split at performed
  · rename_i mine
    have isHeld := (owned.owns c lock).mp mine
    rw [heldOn_top top] at isHeld
    exact absurd isHeld sound.1
  · split at performed
    · rename_i free
      exact ⟨free, (Option.some.inj performed).symm⟩
    · cases performed

theorem Owned.acquire (acts : act = .acquire lock after) :
    Stays kernel discipline machine next := by
  obtain ⟨free, rfl⟩ := owned.acquired top sound performed acts
  subst acts
  obtain ⟨unheld, more, continues⟩ := sound
  rw [← heldOn_top top] at unheld
  refine ⟨owned.of_local rfl rfl rfl
    (Discipline.nested_of_continues (owned.nested_top top) continues)
    (?_ : _ = lock :: heldOn discipline machine c) ?_ ?_
    (List.nodup_cons.mpr ⟨unheld, owned.nodup c⟩) ?_ (fun enabled => by cases enabled), .inl rfl⟩
  · rw [Discipline.stackHeld_cons, more, heldOn_top top]
    rfl
  · intro taken other differs
    change Function.update machine.owner lock (some c) taken = _ ↔ _
    by_cases same : taken = lock
    · rw [same, Function.update_self, free]
      simp [Ne.symm differs]
    · rw [Function.update_of_ne same]
  · intro taken
    change Function.update machine.owner lock (some c) taken = _ ↔ _
    rw [List.mem_cons]
    by_cases same : taken = lock
    · simp [same]
    · rw [Function.update_of_ne same]
      simpa [same] using owned.owns c taken
  · rw [List.length_cons, ← owned.depth c]
    rfl

/-- The lock was the CPU's own, and interrupts were off. -/
theorem Owned.released (acts : act = .release lock after) : machine.owner lock = some c ∧
    next = ((machine.setStack (machine.cpu c).thread (after :: callers)).setOwner
      lock none).setCpu c (machine.cpu c).popOff := by
  subst acts
  have onCpu : lock ∈ heldOn discipline machine c := by
    rw [heldOn_top top]
    exact List.mem_append_left _ sound.1
  have mine := (owned.owns c lock).mpr onCpu
  have deep : ¬((machine.cpu c).sie = true ∨ (machine.cpu c).noff < 1) := by
    rintro (enabled | shallow)
    · rw [owned.masked c enabled] at onCpu
      cases onCpu
    · have positive := List.length_pos_of_mem onCpu
      rw [← owned.depth c] at positive
      omega
  exact ⟨mine, (Option.some.inj performed).symm.trans
    ((if_neg (not_not.mpr mine)).trans (if_neg deep))⟩

theorem Owned.release (acts : act = .release lock after) :
    Stays kernel discipline machine next := by
  obtain ⟨mine, rfl⟩ := owned.released top sound performed acts
  subst acts
  obtain ⟨isHeld, fewer, continues⟩ := sound
  have wasHeld : lock ∈ heldOn discipline machine c := (owned.owns c lock).mp mine
  have length := List.length_erase_of_mem wasHeld
  have positive := List.length_pos_of_mem wasHeld
  refine ⟨owned.of_local rfl rfl rfl
    (Discipline.nested_of_continues (owned.nested_top top) continues)
    (?_ : _ = (heldOn discipline machine c).erase lock) ?_ ?_ ((owned.nodup c).erase lock) ?_ ?_,
    .inl rfl⟩
  · rw [Discipline.stackHeld_cons, fewer, heldOn_top top, List.erase_append_left _ isHeld]
  · intro released other differs
    change Function.update machine.owner lock none released = _ ↔ _
    by_cases same : released = lock
    · rw [same, Function.update_self, mine]
      simp [Ne.symm differs]
    · rw [Function.update_of_ne same]
  · intro released
    change Function.update machine.owner lock none released = _ ↔ _
    rw [(owned.nodup c).mem_erase_iff]
    by_cases same : released = lock
    · simp [same]
    · rw [Function.update_of_ne same]
      simpa [same] using owned.owns c released
  · rw [length, ← owned.depth c]
    rfl
  · intro enabled
    have last : (machine.cpu c).noff = 1 := by
      simp only [Cpu.popOff, Bool.and_eq_true, decide_eq_true_eq] at enabled
      exact enabled.1
    apply List.eq_nil_of_length_eq_zero
    have depth := owned.depth c
    omega

theorem Owned.call (acts : act = .call callee after) : Stays kernel discipline machine next := by
  subst acts
  obtain ⟨handed, continues, fits, returned, given⟩ := sound
  cases performed
  have below := Discipline.nested_of_continues (owned.nested_top top) continues
  refine ⟨owned.restack top rfl rfl rfl
    ⟨fits, fun _ => ⟨after, callers, rfl, returned, given⟩, below⟩ ?_, .inl rfl⟩
  rw [Discipline.stackHeld_cons, Discipline.stackHeld_cons, ← List.append_assoc]
  exact handed.append_right _

theorem Owned.ret (obeys : Obeys kernel discipline) (acts : act = .ret value) :
    Stays kernel discipline machine next := by
  subst acts
  obtain ⟨returned, notRoot⟩ := sound
  obtain ⟨_, called, below⟩ := owned.nested_top top
  obtain ⟨caller, rest, rfl, awaited, _⟩ := called notRoot
  obtain ⟨handed, continues⟩ := obeys.resume _ caller value rest below.1
  cases performed
  refine ⟨owned.restack top rfl rfl rfl (Discipline.nested_of_continues below continues) ?_,
    .inl rfl⟩
  rw [Discipline.stackHeld_cons, Discipline.stackHeld_cons, returned, awaited, ← List.append_assoc]
  exact handed.append_right _

theorem Owned.interrupts (acts : act = .interrupts on after) :
    Stays kernel discipline machine next := by
  subst acts
  obtain ⟨same, continues, nothing⟩ := sound
  cases performed
  refine ⟨owned.of_stack rfl rfl rfl rfl rfl ?_
    (Discipline.nested_of_continues (owned.nested_top top) continues) ?_, .inl rfl⟩
  · intro enabled
    obtain ⟨noneHere, noneBelow⟩ := nothing enabled
    rw [Discipline.stackHeld_cons, same, noneHere, noneBelow]
    rfl
  · rw [Discipline.stackHeld_cons, same, heldOn_top top]

theorem Owned.setProc (acts : act = .setProc p after) : Stays kernel discipline machine next := by
  subst acts
  cases performed
  have held : heldOn discipline machine c = _ := heldOn_top top
  refine ⟨owned.of_stack rfl rfl rfl rfl rfl ?_
    (Discipline.nested_of_continues (owned.nested_top top) sound.2) ?_, .inl rfl⟩
  · rw [Discipline.stackHeld_cons, sound.1, ← held]
    exact owned.masked c
  · rw [Discipline.stackHeld_cons, sound.1, held]

theorem Owned.leave (acts : act = .leave) : Stays kernel discipline machine next := by
  subst acts
  obtain ⟨noneHere, noneBelow⟩ := sound
  cases performed
  refine ⟨owned.of_stack rfl rfl rfl rfl rfl (fun _ => noneBelow)
    (owned.nested_top top).2.2 ?_, .inl rfl⟩
  rw [heldOn_top top, noneHere]
  rfl

/-- A process that holds just its own lock passes the checks of `sched`. -/
theorem Owned.scheduled (acts : act = .sched after)
    (stopped : ∀ p, (machine.cpu c).thread = .process p → kernel.running machine.shared p = false) :
    ∃ p, (machine.cpu c).thread = .process p ∧
      heldOn discipline machine c = [kernel.procLock p] ∧
      next = { (machine.setStack (.process p) (after :: callers)).setCpu c
          { machine.cpu c with thread := .scheduler c } with
        saved := Function.update machine.saved p (some (machine.cpu c).intena) } := by
  subst acts
  obtain ⟨p, isProcess, onlyProc, noneBelow, -⟩ := sound
  have running := Thread.eq_process isProcess
  have only : heldOn discipline machine c = [kernel.procLock p] := by
    rw [heldOn_top top, onlyProc, noneBelow]
    rfl
  have mine : machine.owner (kernel.procLock p) = some c := by
    rw [owned.owns, only]
    exact List.mem_cons_self
  have depth : (machine.cpu c).noff = 1 := by
    rw [owned.depth, only]
    rfl
  have masked : (machine.cpu c).sie = false := by
    by_contra enabled
    have empty := owned.masked c (by simpa using enabled)
    rw [only] at empty
    cases empty
  refine ⟨p, running, only, ?_⟩
  simp only [Kernel.perform, running] at performed
  rw [← Option.some.inj performed]
  simp only [Kernel.sched, mine, depth, masked, stopped p running, ne_eq, not_true_eq_false,
    if_false, Bool.false_eq_true]

theorem Owned.sched (acts : act = .sched after)
    (stopped : ∀ p, (machine.cpu c).thread = .process p → kernel.running machine.shared p = false) :
    Stays kernel discipline machine next := by
  obtain ⟨p, running, only, rfl⟩ := owned.scheduled top sound performed acts stopped
  subst acts
  obtain ⟨q, isProcess, -, noneBelow, kept, continues⟩ := sound
  have nested := Discipline.nested_of_continues (owned.nested_top top) continues
  rw [running] at isProcess nested kept noneBelow
  obtain rfl : p = q := Option.some.inj isProcess
  refine ⟨owned.of_sched rfl rfl rfl running rfl rfl rfl nested only ?_, .inl rfl⟩
  exact congrArg₂ _ kept noneBelow

omit top in
/-- The scheduler of the CPU switches to a process. -/
theorem Owned.switched (acts : act = .swtch p after) :
    (machine.cpu c).thread = .scheduler c ∧ next = machine.swtch c p (after :: callers) := by
  subst acts
  have idle := owned.idle sound.1
  simp only [Kernel.perform, idle, Option.some.injEq] at performed
  exact ⟨idle, performed.symm⟩

theorem Owned.swtch (acts : act = .swtch p after) (parked : Parked machine p) :
    Stays kernel discipline machine next := by
  obtain ⟨idle, rfl⟩ := owned.switched sound performed acts
  subst acts
  obtain ⟨isScheduler, onlyProc, noneBelow, kept, continues⟩ := sound
  have nested := Discipline.nested_of_continues (owned.nested_top top) continues
  have only : heldOn discipline machine c = [kernel.procLock p] := by
    rw [heldOn_top top, onlyProc, noneBelow]
    rfl
  rw [isScheduler] at nested kept noneBelow
  refine ⟨owned.of_swtch rfl rfl rfl idle parked rfl rfl rfl nested only ?_, .inl rfl⟩
  rw [Discipline.stackHeld_cons, kept, noneBelow]
  rfl

theorem Owned.spawn (acts : act = .spawn p first change after) (parked : Parked machine p) :
    Stays kernel discipline machine next := by
  subst acts
  obtain ⟨same, continues, held, fits, root⟩ := sound
  cases performed
  have advanced : Owned kernel discipline
      (machine.setStack (machine.cpu c).thread (after :: callers)) :=
    owned.continue top same continues rfl rfl rfl
  exact ⟨advanced.of_spawn parked rfl rfl rfl fits root held, .inl rfl⟩

/-- Every act that follows the discipline keeps the owners right, and no lock
operation panics. -/
theorem Owned.perform (obeys : Obeys kernel discipline)
    (target : ∀ p, act.target? = some p → Parked machine p)
    (stopped : ∀ after p, act = .sched after → (machine.cpu c).thread = .process p →
      kernel.running machine.shared p = false) : Stays kernel discipline machine next := by
  cases act with
  | update change after =>
    cases performed
    exact ⟨owned.continue top sound.1 sound.2 rfl rfl rfl, .inl rfl⟩
  | acquire lock after => exact owned.acquire top sound performed rfl
  | release lock after => exact owned.release top sound performed rfl
  | call callee after => exact owned.call top sound performed rfl
  | ret value => exact owned.ret top sound performed obeys rfl
  | interrupts on after => exact owned.interrupts top sound performed rfl
  | leave => exact owned.leave top sound performed rfl
  | sched after => exact owned.sched top sound performed rfl (fun p => stopped after p rfl)
  | setProc p after => exact owned.setProc top sound performed rfl
  | swtch p after => exact owned.swtch top sound performed rfl (target p rfl)
  | spawn p first change after => exact owned.spawn top sound performed rfl (target p rfl)
  | panic reason =>
    cases performed
    exact ⟨{ owned with }, .inr ⟨reason, rfl⟩⟩

end Acts

/-- A trap pushes a frame that holds no lock. -/
theorem Owned.enter (owned : Owned kernel discipline machine)
    (held : discipline.held (machine.cpu c).thread.proc? frame = [])
    (fits : discipline.fits (machine.cpu c).thread.proc? frame
      (machine.stack (machine.cpu c).thread)) (root : discipline.root frame = true) :
    Owned kernel discipline (machine.enter c frame) := by
  refine owned.of_stack rfl rfl rfl rfl rfl (fun enabled => by cases enabled)
    ⟨fits, fun called => absurd root (by simp [called]), owned.nested _⟩ ?_
  rw [Discipline.stackHeld_cons, held]
  rfl

variable [DecidableEq Lock]

/-- The steps keep the owners right if every act that is taken follows the
discipline. -/
theorem Owned.step (obeys : Obeys kernel discipline) (owned : Owned kernel discipline machine)
    (steps : kernel.Steps machine c input next)
    (sound : ∀ frame callers act, machine.At c frame callers →
      kernel.code (machine.cpu c).thread.proc? frame machine.shared input = some act →
      discipline.Sound (machine.cpu c).thread.proc? kernel.procLock frame callers act ∧
      (∀ p, act.target? = some p → Parked machine p) ∧
      ∀ after p, act = .sched after → (machine.cpu c).thread = .process p →
        kernel.running machine.shared p = false) : Stays kernel discipline machine next := by
  cases steps with
  | trap frame p running user entry =>
    obtain ⟨held, fits, root⟩ := obeys.trap p input frame entry
    refine ⟨owned.enter ?_ ?_ root, .inl rfl⟩
    · rw [running]
      exact held
    · rw [user, running]
      exact fits
  | interrupt frame entry enabled =>
    obtain ⟨held, fits, root⟩ := obeys.handler (machine.cpu c).thread.proc?
      input frame _ entry (owned.masked c enabled)
    exact ⟨owned.enter held fits root, .inl rfl⟩
  | act frame callers act next top coded performed =>
    obtain ⟨follows, target, stopped⟩ := sound frame callers act top coded
    exact owned.perform top follows performed obeys target stopped

end Xv6KernelEvent.SpinThreads
