import Xv6KernelEvent.Process.LostWakeups

/-!
# Every exit is reaped once

Who the parent of a process is, what `kwait` returns, and that a parent does not
sleep while it has a zombie to reap.
-/

namespace Xv6KernelEvent.Process

open SpinThreads

variable {machine next : State} {c : Nat} {input : Input}

/-- A return of `kwait` was preceded by the `kexit` of that process with that
status, and its caller is the creator, or `init` once the creator has exited. -/
def Reap.Due (shared : Shared) (reap : Reap) : Prop :=
  ∃ creator exitStatus, (creator, reap.birth) ∈ shared.forks ∧ (reap.parent = creator ∨
      reap.parent = (shared.proc shared.initproc).birth ∧
        ∃ status, (creator, status) ∈ shared.exits) ∧
    (reap.birth, exitStatus) ∈ shared.exits ∧
    ∀ copied ∈ reap.status, copied = exitStatus

theorem Update.apply_reaps (change : Update) (shared : Shared) :
    (change.apply shared).reaps = shared.reaps ∨ ∃ p pid status, change = .reap p pid status := by
  cases change with
  | reap p pid status => exact .inr ⟨p, pid, status, rfl⟩
  | _ => exact .inl rfl

theorem Reap.Due.apply {shared : Shared} {reap : Reap} {change : Update} (due : reap.Due shared)
    (sameInit : ((change.apply shared).proc shared.initproc).birth =
      (shared.proc shared.initproc).birth) : reap.Due (change.apply shared) := by
  obtain ⟨creator, exitStatus, forked, parent, exited, copied⟩ := due
  refine ⟨creator, exitStatus, Update.apply_forks forked, ?_, Update.apply_exits exited, copied⟩
  rcases parent with isCreator | ⟨isInit, status, creatorExited⟩
  · exact .inl isCreator
  · rw [Update.apply_initproc, sameInit]
    exact .inr ⟨isInit, status, Update.apply_exits creatorExited⟩

section Step

variable (sane : Sane machine)

include sane

theorem Sane.init_pid (top : machine.At c frame callers)
    (assigns : Assigns (machine.cpu c).thread.proc? machine.shared frame change after) :
    ((change.apply machine.shared).proc machine.shared.initproc).birth =
      (machine.shared.proc machine.shared.initproc).birth := by
  rcases sane.slots.pid_or_claimed top assigns sane.owned
    machine.shared.initproc with same | ⟨_, state, claimed, isState, _⟩
  · exact same
  · have alive := sane.family.init
    rw [isState] at alive
    rcases Frame.claim_state claimed with rfl | rfl | rfl <;> cases alive

theorem Sane.due_step (transition : Transition machine c input next)
    (due : ∀ reap ∈ machine.shared.reaps, reap.Due machine.shared) :
    ∀ reap ∈ next.shared.reaps, reap.Due next.shared := by
  refine transition.assigned due fun frame callers change after top assigns reap member => ?_
  have kept {other : Reap} (isDue : other.Due machine.shared) :
      other.Due (change.apply machine.shared) :=
    isDue.apply (sane.init_pid top assigns)
  rcases change.apply_reaps machine.shared with
    same | ⟨p, pid, status, rfl⟩
  · rw [same] at member
    exact kept (due reap member)
  · rcases List.mem_append.mp member with before | new
    · exact kept (due reap before)
    · obtain rfl := List.mem_singleton.mp new
      obtain ⟨isMe, addr, rfl, _⟩ := assigns.reaps
      have member : .kwait (.done pid status) addr ∈
          machine.stack (machine.cpu c).thread := top ▸ List.mem_cons_self
      obtain ⟨⟨creator, forked, parent⟩, exitStatus, exited, copied⟩ :=
        sane.stands _ _ member p isMe
      refine kept ⟨creator, exitStatus, forked, ?_, exited, copied⟩
      rcases parent with isCreator | ⟨rfl, creatorExited⟩
      · exact .inl isCreator
      · exact .inr ⟨rfl, creatorExited⟩

/-- While `wait_lock` is free, the parent of a process is its creator, or `init`
after the creator has exited. -/
theorem Sane.lineage_of_free (free : machine.owner .wait = none)
    (isParent : (machine.shared.proc q).parent = some p) :
    Lineage machine.shared p (machine.shared.proc q).birth := by
  rcases sane.family.lineage q p isParent with
    lineage | ⟨_, r, pc, status, _, member, leaving⟩
  · exact lineage
  · have held : .wait ∈ (Frame.kexit pc status).held (some r) := by
      cases pc <;> first
        | cases leaving
          done
        | simp [Frame.held, KexitPc.held]
    rcases sane.owned.owner_of_held member held with
      ⟨d, _, owner⟩ | ⟨_, isProc, _⟩
    · cases free.symm.trans owner
    · cases isProc

end Step

section Fails

variable (sane : Sane machine) (uninterrupted : handler input = none)
  (stepped : kernel.step machine c input = some next)

include sane uninterrupted stepped

/-- `kwait` does not panic. -/
theorem Sane.kwait_acts (top : machine.At c (.kwait pc addr) callers) :
    ∃ act, (∃ p, kwait p pc addr machine.shared input = some act) ∧
      Moves kernel machine c callers next act := by
  obtain ⟨act, coded, moved⟩ := sane.acts top uninterrupted stepped
  have member : .kwait pc addr ∈ machine.stack (machine.cpu c).thread := top ▸ List.mem_cons_self
  obtain ⟨p, isProcess⟩ := process_of_level sane.owned member (by simp [Frame.level])
  rw [isProcess] at coded
  refine ⟨act, ⟨p, coded⟩, ?_⟩
  rcases moved with moves | ⟨reason, rfl, _⟩
  · exact moves
  · have isCode : kwait p pc addr machine.shared input = some (.panic reason) := coded
    cases pc <;> simp only [kwait] at isCode
    all_goals repeat' split at isCode
    all_goals cases isCode

/-- `kwait` leaves the zombie alone if the exit status cannot be copied out. -/
theorem Sane.copyout_fails (top : machine.At c (.kwait (.copy child pid) true) callers)
    (notMemory : input.isMemory = false) (fails : input.ok = false) :
    (machine.shared.proc child).state = .zombie ∧ next.shared = machine.shared ∧
      next.stack (machine.cpu c).thread = .kwait .failing true :: callers := by
  have member : .kwait (.copy child pid) true ∈
      machine.stack (machine.cpu c).thread := top ▸ List.mem_cons_self
  refine ⟨sane.slots.claims _ _ member child .zombie rfl, ?_⟩
  obtain ⟨act, coded, moved⟩ := sane.kwait_acts uninterrupted stepped top
  obtain ⟨p, isCode⟩ := coded
  have isRelease : act = .release (.proc child) (.kwait .failing true) := by
    simpa [kwait, notMemory, fails, eq_comm] using isCode
  subst isRelease
  exact moved.advanced rfl

/-- The rest of `kwait` after a failure. -/
theorem Sane.kwait_fails (top : machine.At c (.kwait .failing addr) callers) :
    next.shared = machine.shared ∧
      next.stack (machine.cpu c).thread = .kwait .failed addr :: callers := by
  obtain ⟨act, ⟨p, isCode⟩, moved⟩ := sane.kwait_acts uninterrupted stepped top
  cases isCode
  exact moved.advanced rfl

theorem Sane.kwait_failed (top : machine.At c (.kwait .failed addr) callers) :
    ∃ caller rest, callers = caller :: rest ∧ next.shared = machine.shared ∧
      next.stack (machine.cpu c).thread = resume caller (-1) :: rest := by
  obtain ⟨act, ⟨p, isCode⟩, moved⟩ := sane.kwait_acts uninterrupted stepped top
  cases isCode
  exact moved.returned

end Fails

/-- The returns of `kwait` in every run. -/
theorem run_due (schedule : List (Nat × Input)) :
    ∀ reap ∈ (run schedule).shared.reaps, reap.Due (run schedule).shared := by
  refine run_holds (fun machine => ∀ reap ∈ machine.shared.reaps, reap.Due machine.shared) ?_ ?_
    schedule
  · intro reap member
    cases member
  · intro machine next c input sane due stepped
    exact sane.due_step (sane.transition stepped) due

/-- `nextpid` has not overflowed. -/
def PidsFit (machine : State) (_ : Nat) (_ : Input) : Prop := machine.shared.births ≤ 2147483647

instance : Decidable (PidsFit machine c input) := inferInstanceAs (Decidable (_ ≤ _))

theorem births_of_fits (fits : kernel.Along PidsFit boot schedule) :
    (run schedule).shared.births ≤ 2147483648 := by
  refine run_holds_along (fun machine => machine.shared.births ≤ 2147483648) (by decide) ?_ fits
  intro machine next c input sane _ fits stepped
  rcases (sane.transition stepped).effect with
    same | ⟨frame, callers, change, after, top, assigns, shared⟩
  · rw [same]
    exact Nat.le_succ_of_le fits
  · rw [shared]
    cases change with
    | allocpid => exact Nat.succ_le_succ fits
    | _ => exact Nat.le_succ_of_le fits

theorem pidOf_toInt (fits : birth < 2147483648) : (pidOf birth).toInt = birth :=
  Int32.toInt_ofNat_of_lt fits

/-- In every run in which `nextpid` does not overflow: parents are alive, and are
the creator or, after its exit, `init`; each pid is returned by at most one
`kwait`, after the `kexit` of that process and with its status; nobody sleeps in
`kwait` with a zombie to reap; and a failed `copyout` changes nothing. -/
theorem exits_reaped_once (schedule : List (Nat × Input))
    (fits : kernel.Along PidsFit boot schedule) : ((run schedule).owner .wait = none →
      ∀ q p, ((run schedule).shared.proc q).state ≠ .unused →
        ((run schedule).shared.proc q).parent = some p →
        ((run schedule).shared.proc p).state ≠ .unused ∧
          ((run schedule).shared.proc p).state ≠ .zombie ∧
          Lineage (run schedule).shared p ((run schedule).shared.proc q).birth) ∧
    ((run schedule).shared.reaps.map fun reap => pidOf reap.birth).Nodup ∧
    ((run schedule).shared.reaps.map Reap.birth).Nodup ∧
    ((run schedule).shared.exits.map Prod.fst).Nodup ∧
    (∀ reap ∈ (run schedule).shared.reaps, reap.Due (run schedule).shared) ∧
    ((run schedule).owner .wait = none → ∀ p, SleepsOn (run schedule) p (.proc p) →
        ∀ q, ((run schedule).shared.proc q).parent = some p →
          ((run schedule).shared.proc q).state ≠ .zombie) ∧
    ∀ c input next callers, handler input = none → kernel.step (run schedule) c input = some next →
      (∀ child pid, (run schedule).stack ((run schedule).cpu c).thread =
          .kwait (.copy child pid) true :: callers →
        input.isMemory = false → input.ok = false →
        ((run schedule).shared.proc child).state = .zombie ∧ next.shared = (run schedule).shared ∧
          next.stack ((run schedule).cpu c).thread = .kwait .failing true :: callers) ∧
      (∀ addr, (run schedule).stack ((run schedule).cpu c).thread =
          .kwait .failing addr :: callers →
        next.shared = (run schedule).shared ∧ next.stack ((run schedule).cpu c).thread =
            .kwait .failed addr :: callers) ∧
      ∀ addr, (run schedule).stack ((run schedule).cpu c).thread = .kwait .failed addr :: callers →
        ∃ caller rest, callers = caller :: rest ∧ next.shared = (run schedule).shared ∧
          next.stack ((run schedule).cpu c).thread = resume caller (-1) :: rest := by
  have sane := run_sane schedule
  refine ⟨?_, ?_, sane.pids.once, sane.pids.exitOnce, run_due schedule, ?_, ?_⟩
  · intro free q p _ isParent
    have alive := sane.family.parents q p isParent
    refine ⟨alive.used, ?_, sane.lineage_of_free free isParent⟩
    intro zombie
    rw [zombie] at alive
    exact alive
  · have below (reap : Reap) (member : reap ∈ (run schedule).shared.reaps) :
        (pidOf reap.birth).toInt = reap.birth :=
      pidOf_toInt ((sane.pids.reaped reap member).2.1.trans_le (births_of_fits fits))
    have same : (run schedule).shared.reaps.map (Int32.toInt ∘ fun reap => pidOf reap.birth) =
        (run schedule).shared.reaps.map (Int.ofNat ∘ Reap.birth) := List.map_congr_left below
    refine List.Nodup.of_map Int32.toInt ?_
    rw [List.map_map, same, ← List.map_map]
    exact sane.pids.once.map Int.ofNat_injective
  · intro free p sleeps q isChild
    have none : NoZombie (run schedule).shared p NPROC := sane.mustWait_of_free sleeps free
    exact none q (sane.family.inRange q p isChild) isChild
  · intro c input next callers uninterrupted stepped
    refine ⟨?_, ?_, ?_⟩
    · intro child pid top notMemory fails
      exact sane.copyout_fails uninterrupted stepped top notMemory fails
    · intro addr top
      exact sane.kwait_fails uninterrupted stepped top
    · intro addr top
      exact sane.kwait_failed uninterrupted stepped top

/-- The child of `childWaits` exits with status 7, and then `init` waits for it. -/
def childReaped : List (Nat × Input) :=
  childWaits ++ (1, .syscall (.exit 7)) :: steps 9 1 ++ (1, .fs (.finish 0)) :: steps 8 1 ++
    (1, .fs (.finish 0)) :: steps 265 1 ++ (0, .syscall (.wait true)) :: steps 17 0

theorem exits_reaped_once_child : kernel.Along PidsFit boot childReaped ∧
    (run childReaped).shared.reaps = [⟨1, 2, some 7⟩] ∧
    ((run childReaped).shared.reaps.map fun reap => pidOf reap.birth).Nodup := by
  have fits : kernel.Along PidsFit boot childReaped := by decide +kernel
  exact ⟨fits, by decide +kernel, (exits_reaped_once childReaped fits).2.1⟩

end Xv6KernelEvent.Process
