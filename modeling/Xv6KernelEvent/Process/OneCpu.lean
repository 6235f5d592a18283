import Xv6KernelEvent.Process.CallGraph
import Xv6KernelEvent.Process.Safety

/-!
# One CPU per process

`scheduler` makes a process `RUNNING`, then assigns `c->proc` and switches to it,
and clears `c->proc` when the process has switched back; all that under the lock
of the process.  While the lock is free, a process is `RUNNING` just if it is
`c->proc` of a CPU.
-/

namespace Xv6KernelEvent.Process

open SpinThreads

variable {machine next : State} {c p : Nat} {input : Input}

/-- CPU `c` executes on the kernel stack of `p`. -/
def OnCpu (machine : State) (c p : Nat) : Prop := (machine.cpu c).thread = .process p

/-- What `c->proc` is at a program point of the scheduler. -/
def Frame.serves : Frame → List Nat
  | scheduler (.switch p) | scheduler (.back p) => [p]
  | _ => []

theorem Frame.serves_of_call {frame : Frame} (other : frame.call ≠ .scheduler) :
    frame.serves = [] := by
  cases frame with
  | scheduler pc => exact absurd rfl other
  | _ => rfl

theorem resume_serves (frame : Frame) (value : Int) :
    (resume frame value).serves = frame.serves := by
  unfold resume
  split <;> rfl

theorem Frame.held_of_serves {frame : Frame} (serves : p ∈ frame.serves) :
    .proc p ∈ frame.held me := by
  cases frame with
  | scheduler pc =>
    cases pc with
    | switch q | back q =>
      obtain rfl := List.mem_singleton.mp serves
      exact List.mem_cons_self
    | _ => cases serves
  | _ => cases serves

theorem Call.not_calls_scheduler (call : Call) : ¬ call.Calls .scheduler := by
  cases call <;> simp [Call.Calls, Call.Handler, Call.FromUser]

/-- The code assigns `c->proc` as the scheduler comes to the points that say so,
and nowhere else. -/
theorem code_serves (coded : code me frame shared input = some act) (callers : List Frame) :
    (∃ p pc after, act = .setProc p after ∧ after.serves = p.toList ∧ me = none ∧
        frame = .scheduler pc) ∨
      (∃ value, act = .ret value ∧ frame.serves = []) ∨
      (∀ p after, act ≠ .setProc p after) ∧ (∀ value, act ≠ .ret value) ∧
        (act.fresh kernel callers).flatMap Frame.serves = frame.serves := by
  by_cases isScheduler : frame.call = .scheduler
  · cases frame with
    | scheduler pc =>
      cases me with
      | some p => cases coded
      | none =>
        cases pc with
        | assign i | back i =>
          cases coded
          exact .inl ⟨_, _, _, rfl, rfl, rfl, rfl⟩
        | _ =>
          refine .inr (.inr ?_)
          simp only [code, schedulerCode, scheduler] at coded
          repeat' split at coded
          all_goals cases coded
          all_goals simp [Act.fresh, Frame.serves]
    | _ => cases isScheduler
  · have quiet := Frame.serves_of_call isScheduler
    have within := code_within coded
    rw [quiet]
    cases act with
    | setProc p after => exact absurd within.2 isScheduler
    | ret value => exact .inr (.inl ⟨value, rfl, rfl⟩)
    | leave | panic reason => exact .inr (.inr ⟨by simp, by simp, rfl⟩)
    | call callee after =>
      have none : callee.serves = [] := Frame.serves_of_call fun isCallee =>
        Call.not_calls_scheduler _ (isCallee ▸ within.2)
      have later : after.serves = [] := Frame.serves_of_call (within.1 ▸ isScheduler)
      exact .inr (.inr ⟨by simp, by simp, by simp [Act.fresh, none, later]⟩)
    | update change after | acquire lock after | release lock after | interrupts on after
    | sched after | swtch p after | spawn p first change after =>
      have later : after.serves = [] :=
        Frame.serves_of_call ((show after.call = frame.call from within) ▸ isScheduler)
      exact .inr (.inr ⟨by simp, by simp, by simp [Act.fresh, later]⟩)

/-- Where `c->proc` stands. -/
structure Serving (machine : State) : Prop where
  proc : ∀ c, (machine.cpu c).proc.toList =
    (machine.stack (.scheduler c)).flatMap Frame.serves
  onCpu : ∀ c p, OnCpu machine c p → p ∈ (machine.stack (.scheduler c)).flatMap Frame.serves
  picked : ∀ p, Owned.Parked machine p → (machine.shared.proc p).state = .running →
    ∃ c, topMode (machine.stack (.scheduler c)) = .picking p

section Step

variable (sane : Sane machine)

include sane

/-- A process that has left the state `RUNNING` holds its lock until it has
switched to the scheduler. -/
theorem Sane.onCpu_running (onCpu : OnCpu machine c p) :
    (machine.shared.proc p).state = .running ∨ machine.owner (.proc p) = some c := by
  have isState := sane.slots.running c p onCpu
  cases stack : machine.stack (.process p) with
  | nil =>
    rw [stack] at isState
    exact .inl isState
  | cons first rest =>
    rw [stack] at isState
    rcases first.quiet_or_held p with quiet | own
    · exact .inl (isState.trans quiet.state)
    · right
      rw [sane.owned.owns c, heldOn, onCpu, stack]
      exact List.mem_append_left _ own

theorem Sane.state_step (transition : Transition machine c input next) (p : Nat) :
    (next.shared.proc p).state = (machine.shared.proc p).state ∨
      Advances (machine.shared.proc p).state (next.shared.proc p).state := by
  exact transition.assigned (.inl rfl) fun _ _ _ _ top assigns =>
    sane.slots.advances top assigns p

/-- `c->proc` runs on the CPU, or the scheduler holds its lock. -/
theorem Sane.served (serving : Serving machine) (isProc : (machine.cpu c).proc = some p) :
    OnCpu machine c p ∨ machine.owner (.proc p) = some c := by
  have served : p ∈ (machine.stack (.scheduler c)).flatMap Frame.serves := by
    rw [← serving.proc c, isProc]
    exact List.mem_cons_self
  obtain ⟨frame, member, serves⟩ := List.mem_flatMap.mp served
  rcases sane.owned.owner_of_held member (Frame.held_of_serves serves) with
    ⟨d, isThread, owner⟩ | ⟨q, same, ⟨isProcess, _⟩ | ⟨d, isThread, onCpu⟩⟩
  · rw [← sane.owned.home d c isThread] at owner
    exact .inr owner
  · cases isProcess
  · cases same
    cases isThread
    exact .inl onCpu

/-- Nothing below a frame of the scheduler has a lock. -/
theorem Sane.below_scheduler (top : machine.At c (.scheduler pc) callers) :
    callers.flatMap Frame.serves = [] := by
  have fits : Fits _ (.scheduler pc) callers := (sane.owned.nested_top top).1
  have unlocked : callers.flatMap (Frame.held (machine.cpu c).thread.proc?) = [] := by
    cases pc with
    | check i => exact fits.room.1
    | _ => exact fits.room
  refine List.flatMap_eq_nil_iff.mpr fun frame member => List.eq_nil_iff_forall_not_mem.mpr ?_
  intro p serves
  have held := List.flatMap_eq_nil_iff.mp unlocked frame member
  have own : .proc p ∈ frame.held (machine.cpu c).thread.proc? := Frame.held_of_serves serves
  rw [held] at own
  cases own

section Act

variable (serving : Serving machine) (top : machine.At c frame callers)
  (coded : code (machine.cpu c).thread.proc? frame machine.shared input = some act)
  (moves : Moves kernel machine c callers next act)

include serving top coded moves

theorem Serving.proc_act (performed : kernel.perform machine c callers act = some next) (d : Nat) :
    (next.cpu d).proc.toList = (next.stack (.scheduler d)).flatMap Frame.serves := by
  have before := serving.proc d
  rcases Kernel.perform_proc performed with ⟨p, after, rfl, cpus⟩ | ⟨notSet, kept⟩
  · obtain ⟨_, pc, _, ⟨⟩, serves, isNone, rfl⟩ :=
      (code_serves coded callers).resolve_right (by simp)
    have idle := sane.owned.idle isNone
    rw [cpus]
    by_cases here : d = c
    · subst here
      rw [Function.update_self, (moves.here (by simp) idle.symm).resolve_right (by simp)]
      change p.toList = after.serves ++ callers.flatMap Frame.serves
      rw [serves, sane.below_scheduler top, List.append_nil]
    · rw [Function.update_of_ne here, before, moves.beside (by simp)]
      rw [idle]
      simpa using here
  · rw [kept d, before]
    by_cases current : .scheduler d = (machine.cpu c).thread
    · rw [current, top, List.flatMap_cons]
      rcases code_serves coded callers with
        ⟨p, _, after, isSet, _⟩ | ⟨value, rfl, none⟩ | ⟨_, notRet, fresh⟩
      · exact absurd isSet (notSet p after)
      · cases moves with
        | advance _ after isAfter moved => cases isAfter
        | ret _ caller rest shape moved =>
          subst shape
          rw [moved.stacked, Function.update_self, none, List.flatMap_cons, List.flatMap_cons]
          exact congrArg (· ++ _) (resume_serves caller value).symm
      · rw [(moves.here (by rw [← current]; simp) rfl).resolve_right
          fun ⟨value, _, _, isRet, _⟩ => notRet value isRet, List.flatMap_append, fresh]
    · rw [moves.beside (by simp) current]

theorem Serving.onCpu_act (onCpu : OnCpu next d p) :
    p ∈ (next.stack (.scheduler d)).flatMap Frame.serves := by
  have older (before : OnCpu machine d p) :
      p ∈ (next.stack (.scheduler d)).flatMap Frame.serves := by
    rw [moves.beside (by simp)]
    · exact serving.onCpu d p before
    · intro current
      obtain rfl := sane.owned.home c d current.symm
      cases current.trans before
  by_cases here : d = c
  · subst here
    cases moves with
    | update _ _ moved | advance _ _ _ moved | call _ _ moved | ret _ _ _ _ moved
    | leave moved => exact older ((moved.threads d).symm.trans onCpu)
    | spawn _ _ _ _ _ _ threads => exact older ((threads d).symm.trans onCpu)
    | sched q after running moved => cases moved.here.symm.trans onCpu
    | swtch q after idle moved =>
      cases moved.here.symm.trans onCpu
      obtain ⟨_, _, rfl⟩ := code_flows coded
      rw [moved.stacked, idle, Function.update_self]
      exact List.mem_cons_self
  · exact older ((moves.thread_of_ne here).symm.trans onCpu)

end Act

theorem Serving.picked_step (serving : Serving machine)
    (transition : Transition machine c input next) (parked : Owned.Parked next p)
    (running : (next.shared.proc p).state = .running) :
    ∃ d, topMode (next.stack (.scheduler d)) = .picking p := by
  cases transition with
  | halt reason => exact serving.picked p parked running
  | enter first unlocked quiet moved =>
    rw [moved.shared] at running
    obtain ⟨d, picking⟩ := serving.picked p
      (fun e onCpu => parked e ((moved.threads e).trans onCpu)) running
    refine ⟨d, ?_⟩
    rw [moved.stacked, Function.update_of_ne]
    · exact picking
    · intro current
      obtain rfl := sane.owned.home c d current.symm
      have owner := owner_of_picking sane.owned picking current.symm
      rw [sane.owned.owns d, unlocked] at owner
      cases owner
  | act frame callers act top coded follows flows moves =>
    by_cases wasParked : Owned.Parked machine p
    · by_cases before : (machine.shared.proc p).state = .running
      · obtain ⟨d, picking⟩ := serving.picked p wasParked before
        refine ⟨d, ?_⟩
        by_cases current : .scheduler d = (machine.cpu c).thread
        · rw [current, top] at picking
          rw [← current] at coded
          rcases Frame.eq_picking picking with rfl | rfl
          · cases coded
            rw [(moves.here (by simp) current).resolve_right (by simp)]
            rfl
          · cases coded
            cases moves with
            | advance _ after isAfter moved => cases isAfter
            | swtch _ after idle moved => exact absurd moved.here (parked c)
        · rw [moves.beside (by simp) current]
          exact picking
      · have changed : next.shared ≠ machine.shared := fun same => before (same ▸ running)
        cases moves with
        | update change after moved =>
          rw [moved.shared] at running
          rcases Update.apply_state change machine.shared p with same | sets
          · exact absurd (same.symm.trans running) before
          · replace running : ((change.apply machine.shared).proc p).state = .running := running
            rw [running] at sets
            cases sets with
            | dispatch =>
              cases flows with
              | dispatch runnable =>
                cases thread : (machine.cpu c).thread with
                | process q =>
                  rw [thread] at coded
                  cases coded
                | scheduler d =>
                  refine ⟨d, ?_⟩
                  rw [moved.stacked, thread, Function.update_self]
                  rfl
        | spawn np first change after shared stacked threads =>
          obtain ⟨_, pid, _, rfl, _⟩ := flows
          rw [shared] at running
          rcases Update.apply_state (.allocproc np pid) machine.shared p with same | sets
          · exact absurd (same.symm.trans running) before
          · replace running : (((Update.allocproc np pid).apply machine.shared).proc p).state =
                .running := running
            rw [running] at sets
            cases sets
        | advance _ after isAfter moved | call callee after moved
        | ret value caller rest shape moved | leave moved | sched q after wasRunning moved
        | swtch q after idle moved => exact absurd moved.shared changed
    · obtain ⟨e, onCpu⟩ := not_forall_not.mp wasParked
      by_cases here : e = c
      · subst here
        cases moves with
        | update _ _ moved | advance _ _ _ moved | call _ _ moved | ret _ _ _ _ moved
        | leave moved => exact absurd ((moved.threads e).trans onCpu) (parked e)
        | spawn _ _ _ _ _ _ threads => exact absurd ((threads e).trans onCpu) (parked e)
        | swtch q after idle moved => cases idle.symm.trans onCpu
        | sched q after wasRunning moved =>
          rw [moved.shared] at running
          have stopped := sane.sched_stopped top flows after p rfl onCpu
          simp [kernel, running] at stopped
      · exact absurd ((moves.thread_of_ne here).trans onCpu) (parked e)

theorem Serving.step (serving : Serving machine)
    (stepped : kernel.step machine c input = some next) : Serving next := by
  have transition := sane.transition stepped
  obtain ⟨alive, steps⟩ := kernel.steps_of_step machine stepped
  have entered {frame : Frame} (entry : trap input = some frame ∨ handler input = some frame) :
      (∀ d, ((machine.enter c frame).cpu d).proc.toList =
        ((machine.enter c frame).stack (.scheduler d)).flatMap Frame.serves) ∧
      ∀ d p, OnCpu (machine.enter c frame) d p →
        p ∈ ((machine.enter c frame).stack (.scheduler d)).flatMap Frame.serves := by
    have moved := enter_restacks machine c frame
    have procs (d : Nat) : ((machine.enter c frame).cpu d).proc = (machine.cpu d).proc := by
      by_cases here : d = c
      · simp [Machine.enter, Machine.setStack, Machine.setCpu, here]
      · simp [Machine.enter, Machine.setStack, Machine.setCpu, here]
    have silent : frame.serves = [] := by
      rcases entry_cases entry with ⟨pc, rfl⟩ | ⟨irq, rfl⟩ <;> rfl
    have same (d : Nat) : ((machine.enter c frame).stack (.scheduler d)).flatMap Frame.serves =
        (machine.stack (.scheduler d)).flatMap Frame.serves := by
      rw [moved.stacked]
      by_cases current : .scheduler d = (machine.cpu c).thread
      · rw [current, Function.update_self, List.flatMap_cons, silent, List.nil_append]
      · rw [Function.update_of_ne current]
    refine ⟨fun d => ?_, fun d p onCpu => ?_⟩
    · rw [procs, same, serving.proc d]
    · rw [same]
      exact serving.onCpu d p ((moved.threads d).symm.trans onCpu)
  cases steps with
  | trap frame p running user entry =>
    obtain ⟨proc, onCpu⟩ := entered (.inl entry)
    exact ⟨proc, onCpu, fun _ => serving.picked_step sane transition⟩
  | interrupt frame entry enabled =>
    obtain ⟨proc, onCpu⟩ := entered (.inr entry)
    exact ⟨proc, onCpu, fun _ => serving.picked_step sane transition⟩
  | act frame callers act next top coded performed =>
    have picked (p : Nat) := serving.picked_step sane transition (p := p)
    rcases sane.moves top coded performed with
      moves | ⟨reason, _, halted⟩
    · exact ⟨serving.proc_act sane top coded moves performed,
        fun _ _ => serving.onCpu_act sane top coded moves, picked⟩
    · subst halted
      exact ⟨serving.proc, serving.onCpu, picked⟩

end Step

theorem serving_boot : Serving boot where
  proc _ := rfl
  onCpu := by
    intro c p running
    cases running
  picked := by
    intro p _ running
    rcases boot_proc p with ⟨_, isProc⟩ | isProc <;> rw [isProc] at running <;> cases running

theorem run_serving (schedule : List (Nat × Input)) : Serving (run schedule) :=
  run_holds Serving serving_boot
    (fun _ _ _ _ sane serving stepped => serving.step sane stepped) schedule

/-- In every run: while the lock of a process is free, the process is `RUNNING`
just if it is `c->proc` of exactly one CPU.  A CPU on the kernel stack of a
process has it as `c->proc`, and a process that is `c->proc` is `RUNNING` or its
lock is held by that CPU.  No two CPUs run on one kernel stack, a scheduler
switches only to a process that has left its CPU, the states change in the order
of their life cycle, and `freeproc` only meets processes without a CPU. -/
theorem one_cpu_per_process (schedule : List (Nat × Input)) :
    (∀ p, (run schedule).owner (.proc p) = none →
      (((run schedule).shared.proc p).state = .running ↔
        ∃! c, ((run schedule).cpu c).proc = some p)) ∧
    (∀ c p, OnCpu (run schedule) c p → ((run schedule).cpu c).proc = some p) ∧
    (∀ c p, ((run schedule).cpu c).proc = some p →
      ((run schedule).shared.proc p).state = .running ∨
        (run schedule).owner (.proc p) = some c) ∧
    (∀ c d p, OnCpu (run schedule) c p → OnCpu (run schedule) d p → c = d) ∧
    (∀ c input frame callers p after,
      (run schedule).stack ((run schedule).cpu c).thread = frame :: callers →
      code ((run schedule).cpu c).thread.proc? frame (run schedule).shared
        input = some (.swtch p after) →
      ∀ d, ¬ OnCpu (run schedule) d p) ∧
    (∀ c input next, kernel.step (run schedule) c input = some next →
      ∀ p, (next.shared.proc p).state = ((run schedule).shared.proc p).state ∨
        Advances ((run schedule).shared.proc p).state (next.shared.proc p).state) ∧
    ∀ c input frame callers p after,
      (run schedule).stack ((run schedule).cpu c).thread = frame :: callers →
      code ((run schedule).cpu c).thread.proc? frame (run schedule).shared
        input = some (.update (.freeproc p) after) →
      ∀ d, ¬ OnCpu (run schedule) d p := by
  have sane := run_sane schedule
  have serving := run_serving schedule
  generalize run schedule = machine at sane serving ⊢
  have alone (c d p : Nat) (here : OnCpu machine c p) (there : OnCpu machine d p) : c = d :=
    sane.owned.apart d c p there here
  have running (c p : Nat) (isProc : (machine.cpu c).proc = some p) :
      (machine.shared.proc p).state = .running ∨ machine.owner (.proc p) = some c :=
    (sane.served serving isProc).elim sane.onCpu_running .inr
  have proc (c p : Nat) (onCpu : OnCpu machine c p) : (machine.cpu c).proc = some p :=
    Option.mem_toList.mp (serving.proc c ▸ serving.onCpu c p onCpu)
  refine ⟨?_, proc, running, alone, ?_, ?_, ?_⟩
  · intro p free
    have onCpu (c : Nat) (isProc : (machine.cpu c).proc = some p) : OnCpu machine c p :=
      (sane.served serving isProc).resolve_right (by rw [free]; exact nofun)
    refine ⟨fun isRunning => ?_, fun ⟨c, isProc, _⟩ =>
      (running c p isProc).resolve_right (by rw [free]; exact nofun)⟩
    by_cases parked : Owned.Parked machine p
    · obtain ⟨d, picking⟩ := serving.picked p parked isRunning
      have owner := owner_of_picking sane.owned picking (sane.slots.picked d p picking).1
      cases free.symm.trans owner
    · obtain ⟨c, here⟩ := not_forall_not.mp parked
      exact ⟨c, proc c p here, fun d there => alone d c p (onCpu d there) here⟩
  · intro c input frame callers p after top coded
    exact sane.slots.target_parked sane.owned top (code_flows coded) rfl
  · intro c input next stepped
    exact sane.state_step (sane.transition stepped)
  · intro c input frame callers p after top coded
    have assigns : Assigns (machine.cpu c).thread.proc? machine.shared frame
        (.freeproc p) after := .makes (code_flows coded)
    obtain ⟨claim, claimed, _, held⟩ := assigns.free rfl
    exact sane.slots.claimed_parked sane.owned top claimed held

/-- `init` waits for an event, up to `sched`. -/
def initWaits : List (Nat × Input) := steps 8 0 ++ (0, .syscall .kqueueWait) :: steps 12 0

/-- `init` is `SLEEPING` and still `c->proc` of its CPU. -/
theorem sleeping_on_cpu : ¬ ∀ schedule p, ((run schedule).shared.proc p).state = .running ↔
      ∃! c, ((run schedule).cpu c).proc = some p := by
  intro claimed
  have isProc : ((run initWaits).cpu 0).proc = some 0 := by decide +kernel
  have here : ((run initWaits).cpu 0).thread = .process 0 := by decide +kernel
  have owner : (run initWaits).owner (.proc 0) = some 0 := by decide +kernel
  have asleep : ((run initWaits).shared.proc 0).state = .sleeping := by decide +kernel
  have alone (c : Nat) (there : ((run initWaits).cpu c).proc = some 0) : c = 0 := by
    rcases (run_sane _).served (run_serving _) there with onCpu | mine
    · exact (run_sane _).owned.apart 0 c 0 here onCpu
    · exact Option.some.inj (mine.symm.trans owner)
  have running := (claimed initWaits 0).mpr ⟨0, isProc, alone⟩
  cases running.symm.trans asleep

end Xv6KernelEvent.Process
