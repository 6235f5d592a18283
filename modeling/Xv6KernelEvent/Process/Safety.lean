import Xv6KernelEvent.Process.InodeLocks
import Xv6KernelEvent.Process.Waiting

/-!
# The invariant in every run

The kernel boots in a state that satisfies the invariant, each step of a CPU is
a transition, and so every schedule of every number of CPUs keeps to it.
-/

namespace Xv6KernelEvent.Process

open SpinThreads

variable {machine next : State} {c : Nat} {input : Input}

theorem handler_entry (entry : handler input = some frame) :
    ∃ irq, frame = .kerneltrap (.start irq) := by
  cases input with
  | interrupt irq => exact ⟨irq, (Option.some.inj entry).symm⟩
  | _ => cases entry

theorem entry_cases (entry : trap input = some frame ∨ handler input = some frame) :
    (∃ pc, frame = .usertrap pc) ∨ ∃ irq, frame = .kerneltrap (.start irq) := by
  rcases entry with isTrap | isHandler
  · cases input with
    | syscall call | userInterrupt irq | fault => exact .inl ⟨_, (Option.some.inj isTrap).symm⟩
    | _ => cases isTrap
  · exact .inr (handler_entry isHandler)

theorem entry_quiet (entry : trap input = some frame ∨ handler input = some frame) :
    frame.Quiet := by
  rcases entry_cases entry with ⟨pc, rfl⟩ | ⟨irq, rfl⟩ <;>
    exact ⟨rfl, rfl, rfl, rfl, fun _ _ => trivial⟩

theorem Transition.of_entry (unlocked : heldOn discipline machine c = [])
    (entry : trap input = some frame ∨ handler input = some frame) :
    Transition machine c input (machine.enter c frame) :=
  .enter frame unlocked (entry_quiet entry) (enter_restacks machine c frame)

section Step

variable (sane : Sane machine)

include sane

theorem Sane.follows (top : machine.At c frame callers)
    (coded : code (machine.cpu c).thread.proc? frame machine.shared input = some act) :
    Follows (machine.cpu c).thread.proc? frame callers act :=
  code_follows (sane.owned.nested_top top).1 (sane.freeBelowIput top) coded

/-- A process has left the state `RUNNING` when it calls `sched`. -/
theorem Sane.sched_stopped (top : machine.At c frame callers)
    (flows : Flows (machine.cpu c).thread.proc? machine.shared frame act) :
    ∀ after p, act = .sched after → (machine.cpu c).thread = .process p →
      kernel.running machine.shared p = false := by
  rintro after p rfl running
  rw [Machine.At, running] at top
  have isState := sane.slots.running c p running
  rw [top] at isState
  obtain ⟨_, _, _, ⟨chan, lk, rfl, _⟩ | ⟨rfl, _⟩ | ⟨status, rfl, _⟩⟩ := flows
  all_goals simp [kernel, isState, topMode, Frame.mode, Mode.state]

/-- An act of the code moves the threads, unless it is a panic. -/
theorem Sane.moves (top : machine.At c frame callers)
    (coded : code (machine.cpu c).thread.proc? frame machine.shared input = some act)
    (performed : kernel.perform machine c callers act = some next) :
    Moves kernel machine c callers next act ∨
      ∃ reason, act = .panic reason ∧ next = machine.halt (.code reason) :=
  sane.owned.moves top (sane.follows top coded).sound
    (sane.sched_stopped top (code_flows coded)) performed

theorem Sane.transition (stepped : kernel.step machine c input = some next) :
    Transition machine c input next := by
  cases (kernel.steps_of_step machine stepped).2 with
  | trap frame p running user entry =>
    have unlocked : heldOn discipline machine c = [] := by
      rw [heldOn, user]
      rfl
    exact .of_entry unlocked (.inl entry)
  | interrupt frame entry enabled => exact .of_entry (sane.owned.masked c enabled) (.inr entry)
  | act frame callers act next top coded performed =>
    rcases sane.moves top coded performed with
      moves | ⟨reason, _, rfl⟩
    · exact .act frame callers act top coded (sane.follows top coded) (code_flows coded) moves
    · exact .halt _

/-- What the top frame of CPU `c` does in a step that is not an interrupt. -/
theorem Sane.acts (top : machine.At c frame callers) (uninterrupted : handler input = none)
    (stepped : kernel.step machine c input = some next) :
    ∃ act, code (machine.cpu c).thread.proc? frame machine.shared input = some act ∧
      (Moves kernel machine c callers next act ∨
        ∃ reason, act = .panic reason ∧ next = machine.halt (.code reason)) := by
  cases (kernel.steps_of_step machine stepped).2 with
  | trap frame p running user entry => cases user.symm.trans top
  | interrupt frame entry enabled => cases uninterrupted.symm.trans entry
  | act first rest act next found coded performed =>
    cases found.symm.trans top
    exact ⟨act, coded, sane.moves top coded performed⟩

/-- The locks after a step, and the panics that a step can end in. -/
theorem Sane.owned_step (stepped : kernel.step machine c input = some next) :
    Owned kernel discipline next ∧ (next.panicked = none ∨
        ∃ reason, next.panicked = some (.code reason)) := by
  obtain ⟨alive, steps⟩ := kernel.steps_of_step machine stepped
  rw [← alive]
  refine sane.owned.step kernel_obeys steps ?_
  intro frame callers act top coded
  have flows := code_flows coded
  exact ⟨(sane.follows top coded).sound,
    fun p target => sane.slots.target_parked sane.owned top flows target,
    sane.sched_stopped top flows⟩

theorem Sane.step (stepped : kernel.step machine c input = some next) : Sane next := by
  have transition := sane.transition stepped
  exact
    { owned := (sane.owned_step stepped).1
      slots := sane.slots.step sane.owned transition
      stands := sane.stands_step transition
      possession := Possession.step sane transition
      references := References.step sane transition
      pids := Pids.step sane transition
      family := Family.step sane transition
      waiting := Waiting.step sane transition }

theorem Sane.inRange_of_running (here : (machine.cpu c).thread = .process p) : p < NPROC := by
  by_contra outside
  have running := sane.slots.running c p here
  rw [sane.slots.bounded p (not_lt.mp outside)] at running
  exact (Mode.state_ne _).1 running.symm

/-- A property of program points that the code keeps to. -/
theorem Sane.points_step {holds : Frame → Prop}
    (before : ∀ thread, ∀ frame ∈ machine.stack thread, holds frame)
    (entered : ∀ frame, trap input = some frame ∨ handler input = some frame → holds frame)
    (born : holds (.forkret .release)) (keeps : ∀ frame callers act,
      code (machine.cpu c).thread.proc? frame machine.shared input = some act →
      (∀ other ∈ frame :: callers, holds other) →
      ∀ other ∈ act.fresh kernel callers, holds other)
    (stepped : kernel.step machine c input = some next) :
    ∀ thread, ∀ frame ∈ next.stack thread, holds frame := by
  obtain ⟨alive, steps⟩ := kernel.steps_of_step machine stepped
  have pushed {first : Frame} (isHeld : holds first) :
      ∀ thread, ∀ frame ∈ (machine.enter c first).stack thread, holds frame := by
    intro thread frame member
    rcases (enter_restacks machine c first).mem_push member with ⟨_, rfl⟩ | below
    · exact isHeld
    · exact before thread frame below
  cases steps with
  | trap first p running user entry => exact pushed (entered first (.inl entry))
  | interrupt first entry enabled => exact pushed (entered first (.inr entry))
  | act first callers act next top coded performed =>
    rcases sane.moves top coded performed with
      moves | ⟨reason, _, halted⟩
    · intro thread frame member
      rcases moves.mem_stack member with
        ⟨_, isFresh⟩ | elsewhere | ⟨np, change, after, rfl, _⟩
      · refine keeps first callers act coded ?_ frame isFresh
        intro other onStack
        exact before _ other (top ▸ onStack)
      · exact before thread frame (elsewhere.mem top)
      · obtain ⟨rfl, _⟩ := code_flows coded
        exact born
    · subst halted
      exact before

end Step

section Boot

theorem boot_stack (member : frame ∈ boot.stack thread) :
    frame = .scheduler .idle ∨ frame = .forkret .release := by
  cases thread with
  | scheduler c => exact .inl (List.mem_singleton.mp member)
  | process p => exact .inr (List.mem_singleton.mp member)

theorem boot_threadOwns (thread : Thread) : threadOwns boot thread = [] := by cases thread <;> rfl

theorem boot_proc (q : Nat) :
    q = 0 ∧ boot.shared.proc q = firstProc ∨ boot.shared.proc q = noProc := by
  cases q with
  | zero => exact .inl ⟨rfl, rfl⟩
  | succ q => exact .inr rfl

theorem owned_boot : Owned kernel discipline boot where
  owns := by
    intro c lock
    refine ⟨fun owner => ?_, fun held => ?_⟩
    · cases owner
    · cases held
  nodup _ := List.nodup_nil
  nested := by
    intro thread
    cases thread with
    | scheduler c =>
      refine ⟨⟨rfl, by simp, fun _ => rfl⟩, ?_, trivial⟩
      intro called
      cases called
    | process p =>
      refine ⟨⟨rfl, by simp, fun isNone => by cases isNone⟩, ?_, trivial⟩
      intro called
      cases called
  depth _ := rfl
  masked _ _ := rfl
  parked _ _ := rfl
  waiting := by
    intro c p running
    cases running
  home := by
    intro c other running
    exact (Thread.scheduler.inj running).symm
  apart := by
    intro c other p running
    cases running

theorem slots_boot : Slots boot where
  running := by
    intro c p running
    cases running
  chans := by
    intro p
    rcases boot_proc p with ⟨_, isProc⟩ | isProc <;> rw [isProc] <;> rfl
  resting := by
    intro p _
    refine ⟨.forkret .release, [], rfl, ?_⟩
    rcases boot_proc p with ⟨_, isProc⟩ | isProc
    · rw [isProc]
      exact .published
    · rw [isProc]
      exact .unborn
  bounded := by
    intro p outside
    rcases boot_proc p with ⟨rfl, _⟩ | isProc
    · cases outside
    · rw [isProc]
      rfl
  callers := by
    intro thread frame member
    cases thread <;> cases member
  claims := by
    intro thread frame member q state claimed
    rcases boot_stack member with rfl | rfl <;> cases claimed
  distinct := by
    intro first second frame member other _ q claimed
    rcases boot_stack member with rfl | rfl <;> cases claimed
  picked := by
    intro c p picking
    cases picking

theorem possession_boot : Possession boot where
  locked := by
    intro lock
    refine ⟨fun locked => absurd rfl locked, ?_⟩
    rintro ⟨thread, owns⟩
    rw [boot_threadOwns] at owns
    cases owns
  exclusive := by
    intro resource _
    refine ⟨fun thread => ?_, fun first second inFirst _ => ?_⟩
    · rw [boot_threadOwns]
      exact Nat.zero_le 1
    · rw [boot_threadOwns] at inFirst
      cases inFirst

theorem references_boot : References boot where
  refs := by
    intro p i
    rw [boot_threadOwns]
    rcases boot_proc p with ⟨rfl, isProc⟩ | isProc
    · rw [isProc]
      cases i with
      | zero => exact Nat.le_refl 1
      | succ i => exact Nat.le_refl 0
    · rw [isProc]
      exact Nat.zero_le _
  counted :=
    { files := by
        intro k i used
        exact absurd rfl used
      opened := by
        intro p k
        rcases boot_proc p with ⟨_, isProc⟩ | isProc <;> rw [isProc] <;> exact Nat.le_refl 0
      closed := fun _ _ => rfl }

theorem pids_boot : Pids boot where
  unused := by
    intro q isUnused
    rcases boot_proc q with ⟨_, isProc⟩ | isProc
    · rw [isProc] at isUnused
      cases isUnused
    · rw [isProc]
      rfl
  used := by
    intro q used
    rcases boot_proc q with ⟨_, isProc⟩ | isProc
    · rw [isProc]
      exact ⟨Nat.one_pos, Nat.one_lt_two⟩
    · rw [isProc] at used
      exact absurd rfl used
  distinct := by
    intro q r used same
    rcases boot_proc q with ⟨rfl, isProc⟩ | isProc
    · rcases boot_proc r with ⟨rfl, _⟩ | isOther
      · rfl
      · rw [isProc, isOther] at same
        cases same
    · rw [isProc] at used
      exact absurd rfl used
  owned := by
    intro thread n owns
    rw [boot_threadOwns] at owns
    cases owns
  reaped := by
    intro reap member
    cases member
  once := List.nodup_nil
  exited := by
    intro exited member
    cases member
  living := by
    intro q _ member
    cases member
  exitOnce := List.nodup_nil

theorem family_boot : Family boot := by
  have noParent (q : Nat) : (boot.shared.proc q).parent = none := by
    rcases boot_proc q with ⟨_, isProc⟩ | isProc <;> rw [isProc] <;> rfl
  have noChild {q p : Nat} (isParent : (boot.shared.proc q).parent = some p) :
      False := by
    rw [noParent] at isParent
    cases isParent
  refine ⟨?_, trivial, ?_, ?_, ?_, ?_⟩
  · intro q _
    refine ⟨noParent q, ?_⟩
    rcases boot_proc q with ⟨_, isProc⟩ | isProc <;> rw [isProc] <;> rfl
  · intro q p isParent
    exact (noChild isParent).elim
  · intro q p isParent
    exact (noChild isParent).elim
  · intro q p isParent
    exact (noChild isParent).elim
  · intro q zombie
    rcases boot_proc q with ⟨_, isProc⟩ | isProc <;> rw [isProc] at zombie <;> cases zombie

theorem boot_topMode (thread : Thread) : topMode (boot.stack thread) = .calm := by
  cases thread <;> rfl

theorem waiting_boot : Waiting boot where
  passed := by
    intro thread chan i waking
    rw [boot_topMode] at waking
    cases waking
  notified := by
    intro p chan waits
    unfold Waits at waits
    rw [boot_topMode] at waits
    exact absurd waits (Mode.calm_not_waits rfl)
  hushed := by
    intro p parent hushed
    rw [boot_topMode] at hushed
    cases hushed
  wakesParent := by
    intro thread frame callers caller shape member
    cases thread with
    | scheduler c | process p =>
      cases shape
      cases member

theorem sane_boot : Sane boot where
  owned := owned_boot
  slots := slots_boot
  stands := by
    intro thread frame member
    rcases boot_stack member with rfl | rfl <;> trivial
  possession := possession_boot
  references := references_boot
  pids := pids_boot
  family := family_boot
  waiting := waiting_boot

end Boot

/-- Every state that the kernel reaches satisfies the invariant. -/
theorem run_sane (schedule : List (Nat × Input)) : Sane (run schedule) :=
  kernel.run_invariant boot (fun _ _ _ _ sane stepped => sane.step stepped) sane_boot schedule

/-- What holds at boot and is kept by every step that meets a condition holds in
every run whose steps all meet it. -/
theorem run_holds_along (holds : State → Prop) (atBoot : holds boot)
    (kept : ∀ machine next c input, Sane machine → holds machine →
      condition machine c input → kernel.step machine c input = some next →
      holds next) (along : kernel.Along condition boot schedule) : holds (run schedule) := by
  have both : ∀ machine next c input, Sane machine ∧ holds machine →
      condition machine c input → kernel.step machine c input = some next →
      Sane next ∧ holds next := by
    rintro machine next c input ⟨sane, before⟩ met stepped
    exact ⟨sane.step stepped, kept machine next c input sane before met stepped⟩
  exact (kernel.run_invariant_along boot both ⟨sane_boot, atBoot⟩ along).2

theorem run_holds (holds : State → Prop) (atBoot : holds boot)
    (kept : ∀ machine next c input, Sane machine → holds machine →
      kernel.step machine c input = some next → holds next)
    (schedule : List (Nat × Input)) : holds (run schedule) := by
  have along : kernel.Along (fun _ _ _ => True) boot schedule :=
    kernel.along_of_forall boot fun _ _ => trivial
  refine run_holds_along holds atBoot ?_ along
  intro machine next c input sane before _ stepped
  exact kept machine next c input sane before stepped

/-- Steps of one CPU in which pages are found and copies succeed. -/
def steps (n c : Nat) : List (Nat × Input) := List.replicate n (c, .go true)

/-- CPU 0 starts `init`, which forks and has released the lock of the child, and
CPU 1 picks up the child. -/
def childRuns : List (Nat × Input) := steps 8 0 ++ (0, .syscall .fork) :: steps 29 0 ++ steps 10 1

/-- `init` forks and is back in user mode before CPU 1 picks up the child. -/
def childWaits : List (Nat × Input) := steps 8 0 ++ (0, .syscall .fork) :: steps 235 0 ++ steps 10 1

end Xv6KernelEvent.Process
