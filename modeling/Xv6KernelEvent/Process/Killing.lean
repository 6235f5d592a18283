import Xv6KernelEvent.Process.Alone
import Xv6KernelEvent.Process.CallGraph

/-!
# What `kkill` marks

`kkill` compares its argument with the pid of every slot, and a slot that is
`UNUSED` has pid 0.  So `kkill(0)` marks a free slot, and the next process in it
starts out killed.  If it is never called, `kkill` only meets live processes and
a new process starts clean.
-/

namespace Xv6KernelEvent.Process

open SpinThreads

/-- Program points on the way to `kkill(0)`. -/
def Frame.KillsZero : Frame → Prop
  | kkill _ pid => pid = 0
  | usertrap (.syscall call) | usertrap (.checked call) | usertrap (.enable call)
  | usertrap (.dispatch call) => call = .kill 0
  | _ => False

theorem resume_killsZero (kills : (resume frame value).KillsZero) : frame.KillsZero := by
  unfold resume at kills
  split at kills
  all_goals first
    | exact kills
    | split at kills <;> first
        | exact kills
        | cases kills

theorem Syscall.frame_killsZero
    {call : Syscall} (kills : call.frame.KillsZero) : call = .kill 0 := by
  cases call with
  | kill pid => exact congrArg Syscall.kill kills
  | _ => cases kills

theorem usertrap_killsZero (coded : usertrap p pc shared = some act)
    (fresh : other ∈ act.fresh kernel callers) (kills : other.KillsZero) :
    (Frame.usertrap pc).KillsZero := by
  cases pc with
  | syscall call =>
    cases coded
    rcases List.mem_cons.mp fresh with rfl | isAfter
    · cases kills
    · obtain rfl := List.mem_singleton.mp isAfter
      exact kills
  | enable call =>
    cases coded
    obtain rfl := List.mem_singleton.mp fresh
    exact kills
  | dispatch call =>
    simp only [usertrap] at coded
    split at coded <;> cases coded
    · rcases List.mem_cons.mp fresh with rfl | isAfter
      · exact Syscall.frame_killsZero kills
      · obtain rfl := List.mem_singleton.mp isAfter
        cases kills
    · obtain rfl := List.mem_singleton.mp fresh
      cases kills
  | device irq =>
    cases coded
    rcases List.mem_cons.mp fresh with rfl | isAfter
    · cases irq <;> cases kills
    · obtain rfl := List.mem_singleton.mp isAfter
      cases kills
  | fault | handled timer | exiting =>
    cases coded
    rcases List.mem_cons.mp fresh with rfl | isAfter
    · cases kills
    · obtain rfl := List.mem_singleton.mp isAfter
      cases kills
  | leaving timer =>
    simp only [usertrap] at coded
    split at coded <;> cases coded
    · rcases List.mem_cons.mp fresh with rfl | isAfter
      · cases kills
      · obtain rfl := List.mem_singleton.mp isAfter
        cases kills
    · obtain rfl := List.mem_singleton.mp fresh
      cases kills
  | disable =>
    cases coded
    obtain rfl := List.mem_singleton.mp fresh
    cases kills
  | leave =>
    cases coded
    cases fresh
  | _ => cases coded

theorem code_killsZero (coded : code me frame shared input = some act)
    (fresh : other ∈ act.fresh kernel callers) (kills : other.KillsZero) :
    frame.KillsZero ∨ ∃ caller ∈ callers, caller.KillsZero := by
  cases frame with
  | usertrap pc =>
    cases me with
    | none => cases coded
    | some p => exact .inl (usertrap_killsZero coded fresh kills)
  | _ =>
    rcases Act.fresh_call coded fresh with
      same | calls | ⟨caller, member, value, rfl⟩
    · cases other with
      | kkill pc pid => cases same <;> exact .inl kills
      | usertrap pc => cases same
      | _ => cases kills
    · cases other with
      | kkill pc pid | usertrap pc => cases calls
      | _ => cases kills
    · exact .inr ⟨caller, member, resume_killsZero kills⟩

theorem entry_killsZero (allowed : input ≠ .syscall (.kill 0))
    (entry : trap input = some frame ∨ handler input = some frame) : ¬ frame.KillsZero := by
  intro kills
  rcases entry with isTrap | isHandler
  · cases input with
    | syscall call =>
      cases isTrap
      exact allowed (congrArg Input.syscall kills)
    | userInterrupt irq | fault =>
      cases isTrap
      cases kills
    | _ => cases isTrap
  · cases input with
    | interrupt irq =>
      cases isHandler
      cases kills
    | _ => cases isHandler

/-- No thread is on the way to `kkill(0)`. -/
def NoKillZero (machine : State) : Prop := Annotated (fun _ _ frame => ¬ frame.KillsZero) machine

/-- Free slots are not marked. -/
def Unmarked (machine : State) : Prop :=
  ∀ q, (machine.shared.proc q).state = .unused → (machine.shared.proc q).killed = false

theorem Update.apply_killed (change : Update) (shared : Shared) (q : Nat) :
    ((change.apply shared).proc q).killed = (shared.proc q).killed ∨
      ((change.apply shared).proc q).killed = false ∨
      change = .kill q ∨ change = .setKilled q := by
  by_cases target : change.target? = some q
  · rw [Update.apply_target target]
    cases change with
    | kill p | setKilled p =>
      cases target
      simp
    | freeproc p => exact .inr (.inl rfl)
    | _ => exact .inl rfl
  · rw [Update.apply_of_ne target]
    exact .inl rfl

theorem Assigns.kills
    {after : Frame} {q : Nat} (assigns : Assigns me shared frame (.kill q) after) :
    ∃ pid : Int32, frame = .kkill (.check q) pid ∧ (shared.proc q).pid = pid ∧
      after = .kkill (.found q) pid := by
  cases assigns with
  | makes makes =>
    cases makes with
    | kill found => exact ⟨_, rfl, found, rfl⟩

theorem Assigns.setsKilled
    (assigns : Assigns me shared frame (.setKilled q) after) : me = some q := by
  cases assigns with
  | makes makes =>
    cases makes with
    | setKilled running => exact running

section Step

variable (sane : Sane machine)

include sane

theorem NoKillZero.step (none : NoKillZero machine) (allowed : input ≠ .syscall (.kill 0))
    (stepped : kernel.step machine c input = some next) : NoKillZero next := by
  refine sane.points_step none ?_ id ?_ stepped
  · intro frame entry
    exact entry_killsZero allowed entry
  · intro frame callers act coded innocent other fresh kills
    rcases code_killsZero coded fresh kills with mine | ⟨caller, below, theirs⟩
    · exact innocent frame List.mem_cons_self mine
    · exact innocent caller (List.mem_cons_of_mem _ below) theirs

theorem Unmarked.step (unmarked : Unmarked machine) (none : NoKillZero machine)
    (stepped : kernel.step machine c input = some next) : Unmarked next := by
  intro q isUnused
  rcases (sane.transition stepped).effect with
    same | ⟨frame, callers, change, after, top, assigns, shared⟩
  · rw [same] at isUnused ⊢
    exact unmarked q isUnused
  · rw [shared] at isUnused ⊢
    rcases Update.apply_unused isUnused with already | rfl
    · rcases Update.apply_killed change machine.shared q with
        same | cleared | rfl | rfl
      · exact same.trans (unmarked q already)
      · exact cleared
      · obtain ⟨pid, rfl, found, _⟩ := assigns.kills
        have innocent : ¬ (Frame.kkill (.check q) pid).KillsZero :=
          none _ _ (top ▸ List.mem_cons_self)
        rw [Proc.pid, sane.pids.unused q already] at found
        exact absurd found.symm innocent
      · have running := sane.slots.running c q (Thread.eq_process assigns.setsKilled)
        rw [already] at running
        exact absurd running.symm (Mode.state_ne _).1
    · rw [Update.apply_target rfl]
      rfl

/-- What `allocproc` returns. -/
theorem Sane.allocproc_clean (unmarked : Unmarked machine) (top : machine.At c frame callers)
    (coded : code (machine.cpu c).thread.proc? frame machine.shared input =
      some (.spawn np first change after)) (uninterrupted : handler input = none)
    (stepped : kernel.step machine c input = some next) :
    (next.shared.proc np).killed = false ∧ (next.shared.proc np).chan = none ∧
      (next.shared.proc np).xstate = 0 := by
  obtain ⟨act, isCode, moved⟩ := sane.acts top uninterrupted stepped
  cases coded.symm.trans isCode
  have parked := sane.slots.target_parked sane.owned top (code_flows coded) rfl
  obtain ⟨rfl, pid, rfl, rfl, rfl⟩ := code_flows coded
  have isUnused : (machine.shared.proc np).state = .unused :=
    sane.slots.claims _ _ (top ▸ List.mem_cons_self) np .unused rfl
  have shared : next.shared = (Update.allocproc np pid).apply machine.shared := by
    rcases moved with moves | ⟨reason, isPanic, _⟩
    · cases moves with
      | spawn _ _ _ _ shared stacked threads => exact shared
      | advance _ after isAfter moved => cases isAfter
    · cases isPanic
  rw [shared, Update.apply_target rfl]
  refine ⟨unmarked np isUnused, ?_, (sane.family.unborn np isUnused).2⟩
  obtain ⟨first, rest, shape, rests⟩ := sane.slots.resting np parked
  have isChan := sane.slots.chans np
  rw [shape] at isChan
  rw [isUnused] at rests
  refine isChan.trans ?_
  cases rests <;> rfl

end Step

section Alone

/-- What `kkill` does from slot `i` on. -/
inductive Kills (shared : Shared) (pid : Int32) (i : Nat) : Int → Shared → Prop
    where
  | found (j : Nat) (later : i ≤ j) (inRange : j < NPROC) (matching : (shared.proc j).pid = pid) :
      Kills shared pid i 0 ((Update.kill j).apply shared)
  | absent (none : ∀ j, i ≤ j → j < NPROC → (shared.proc j).pid ≠ pid) :
      Kills shared pid i (-1) shared

theorem Kills.earlier (kills : Kills shared pid (i + 1) value result)
    (differs : (shared.proc i).pid ≠ pid) : Kills shared pid i value result := by
  cases kills with
  | found j later inRange matching => exact .found j (Nat.le_of_succ_le later) inRange matching
  | absent none =>
    refine .absent ?_
    intro j later inRange
    rcases Nat.lt_or_eq_of_le later with above | rfl
    · exact none j above inRange
    · exact differs

/-- `kkill` comes to an end, if nobody holds the lock of a process. -/
theorem kkill_alone (free : ∀ j < NPROC, owner (.proc j) = none) (remaining : Nat)
    (isRemaining : i + remaining = NPROC)
    (alone : Alone machine c (.process p) (.kkill (.next i) pid :: caller :: rest) shared owner) :
    ∃ n value result, Kills shared pid i value result ∧
      Alone (kernel.run machine (steps n c)) c (.process p)
        (resume caller value :: rest) result owner := by
  induction remaining generalizing i machine with
  | zero =>
    have atEnd : ¬ i < NPROC := by omega
    refine ⟨1, -1, shared, .absent ?_, alone.ret ?_⟩
    · intro j later inRange
      exact absurd (later.trans_lt inRange) atEnd
    · exact if_neg atEnd
  | succ remaining induction =>
    have inRange : i < NPROC := by omega
    have acquired := alone.acquire (if_pos inRange) (free i inRange)
    by_cases found : (shared.proc i).pid = pid
    · have marked := acquired.update (if_pos found)
      have released := marked.release rfl
      have returned := released.ret rfl
      rw [released_owner (free i inRange)] at returned
      refine ⟨1 + 1 + 1 + 1, 0, _, .found i le_rfl inRange found, ?_⟩
      rw [run_steps_add, run_steps_add, run_steps_add]
      exact returned
    · have released := acquired.release (if_neg found)
      rw [released_owner (free i inRange)] at released
      obtain ⟨n, value, result, kills, returned⟩ := induction (by omega) released
      refine ⟨1 + 1 + n, value, result, kills.earlier found, ?_⟩
      rw [run_steps_add, run_steps_add]
      exact returned

end Alone

section Live

variable (sane : Sane machine)

include sane

/-- Slots with a pid other than 0 are live. -/
theorem Sane.live_of_pid {q : Nat} {pid : Int32} (notZero : pid ≠ 0)
    (isPid : (machine.shared.proc q).pid = pid) : (machine.shared.proc q).state ≠ .unused := by
  intro isUnused
  rw [Proc.pid, sane.pids.unused q isUnused] at isPid
  exact notZero isPid.symm

/-- The result of `kkill` says whether there is a live process with the pid. -/
theorem Sane.kills_live {pid : Int32} {value : Int} {result : Shared} (notZero : pid ≠ 0)
    (kills : Kills machine.shared pid 0 value result) :
    value = 0 ∧ (∃ q, (machine.shared.proc q).state ≠ .unused ∧ (machine.shared.proc q).pid = pid) ∨
      value = -1 ∧ (¬ ∃ q, (machine.shared.proc q).state ≠ .unused ∧
        (machine.shared.proc q).pid = pid) ∧ result = machine.shared := by
  cases kills with
  | found q later inRange matching =>
    exact .inl ⟨rfl, q, sane.live_of_pid notZero matching, matching⟩
  | absent none =>
    refine .inr ⟨rfl, ?_, rfl⟩
    rintro ⟨q, used, matching⟩
    refine none q (Nat.zero_le q) ?_ matching
    by_contra outside
    exact used (sane.slots.bounded q (not_lt.mp outside))

/-- A step of `kkill` marks a live process with the pid, or changes nothing. -/
theorem Sane.kkill_step (none : NoKillZero machine) {pc : KkillPc} {pid : Int32}
    (top : machine.At c (.kkill pc pid) callers)
    (stepped : kernel.step machine c input = some next) :
    next.shared = machine.shared ∨ ∃ q, (machine.shared.proc q).state ≠ .unused ∧
        (machine.shared.proc q).pid = pid ∧
        next.shared = (Update.kill q).apply machine.shared := by
  have member : .kkill pc pid ∈ machine.stack (machine.cpu c).thread := top ▸ List.mem_cons_self
  obtain ⟨p, isProcess⟩ := process_of_level sane.owned member (by simp [Frame.level])
  cases sane.transition stepped with
  | enter first unlocked quiet moved => exact .inl moved.shared
  | halt reason => exact .inl rfl
  | act frame rest act found coded follows flows moves =>
    cases found.symm.trans top
    rw [isProcess] at coded
    replace coded : kkill pc pid machine.shared = some act := coded
    cases pc with
    | next i =>
      simp only [kkill] at coded
      split at coded <;> cases coded
      · exact .inl (moves.advanced rfl).1
      · obtain ⟨_, _, _, same, _⟩ := moves.returned
        exact .inl same
    | check i =>
      simp only [kkill] at coded
      split at coded <;> cases coded
      · rename_i matching
        cases moves with
        | advance _ after isAfter moved => cases isAfter
        | update _ _ moved =>
          exact .inr ⟨i, sane.live_of_pid (none _ _ member) matching, matching, moved.shared⟩
      · exact .inl (moves.advanced rfl).1
    | found i =>
      cases coded
      exact .inl (moves.advanced rfl).1
    | done =>
      cases coded
      obtain ⟨_, _, _, same, _⟩ := moves.returned
      exact .inl same

end Live

/-- `kkill(0)` is never called. -/
def NeverKillsZero (schedule : List (Nat × Input)) : Prop :=
  ∀ step ∈ schedule, step.2 ≠ .syscall (.kill 0)

theorem run_clean (never : NeverKillsZero schedule) :
    NoKillZero (run schedule) ∧ Unmarked (run schedule) := by
  refine run_holds_along (fun machine => NoKillZero machine ∧ Unmarked machine) ?_ ?_
    (kernel.along_of_forall boot never)
  · refine ⟨?_, ?_⟩
    · intro thread frame member
      rcases boot_stack member with rfl | rfl <;> exact id
    · intro q _
      rcases boot_proc q with ⟨_, isProc⟩ | isProc <;> rw [isProc] <;> rfl
  · rintro machine next c input sane ⟨none, unmarked⟩ allowed stepped
    exact ⟨none.step sane allowed stepped, unmarked.step sane none stepped⟩

/-- If `kkill(0)` is never called: a `kkill` that is not disturbed returns 0 if
and only if there is a live process with the pid, and otherwise returns -1 and
changes nothing; whatever the other CPUs do, it marks only live processes with
the pid; and what `allocproc` returns is clean. -/
theorem kkill_meets_live_processes
    (schedule : List (Nat × Input)) (never : NeverKillsZero schedule) :
    (∀ c p pid caller rest, (run schedule).panicked = none →
      ((run schedule).cpu c).thread = .process p →
      (run schedule).stack (.process p) = .kkill (.next 0) pid :: caller :: rest →
      (∀ q < NPROC, (run schedule).owner (.proc q) = none) →
      ∃ n value, (kernel.run (run schedule) (steps n c)).stack (.process p) =
          resume caller value :: rest ∧
        (value = 0 ∧ (∃ q, ((run schedule).shared.proc q).state ≠ .unused ∧
            ((run schedule).shared.proc q).pid = pid) ∨
          value = -1 ∧ (¬ ∃ q, ((run schedule).shared.proc q).state ≠ .unused ∧
            ((run schedule).shared.proc q).pid = pid) ∧
          (kernel.run (run schedule) (steps n c)).shared = (run schedule).shared)) ∧
    (∀ c input next pc pid callers, (run schedule).stack ((run schedule).cpu c).thread =
        .kkill pc pid :: callers →
      kernel.step (run schedule) c input = some next →
      next.shared = (run schedule).shared ∨ ∃ q, ((run schedule).shared.proc q).state ≠ .unused ∧
          ((run schedule).shared.proc q).pid = pid ∧
          next.shared = (Update.kill q).apply (run schedule).shared) ∧
    ∀ c input next frame callers np first change after,
      (run schedule).stack ((run schedule).cpu c).thread = frame :: callers →
      code ((run schedule).cpu c).thread.proc? frame (run schedule).shared
        input = some (.spawn np first change after) →
      handler input = none →
      kernel.step (run schedule) c input = some next →
      (next.shared.proc np).killed = false ∧ (next.shared.proc np).chan = none ∧
        (next.shared.proc np).xstate = 0 := by
  have sane := run_sane schedule
  obtain ⟨none, unmarked⟩ := run_clean never
  refine ⟨?_, ?_, ?_⟩
  · intro c p pid caller rest alive current stacked free
    have notZero : pid ≠ 0 :=
      none (.process p) (.kkill (.next 0) pid) (by
        rw [stacked]
        exact List.mem_cons_self)
    obtain ⟨n, value, result, kills, alone⟩ := kkill_alone free NPROC
      (Nat.zero_add NPROC) ⟨sane, alive, current, stacked, rfl, rfl⟩
    refine ⟨n, value, alone.stacked, ?_⟩
    rw [alone.isShared]
    exact sane.kills_live notZero kills
  · intro c input next pc pid callers top stepped
    exact sane.kkill_step none top stepped
  · intro c input next frame callers np first change after top coded uninterrupted stepped
    exact sane.allocproc_clean unmarked top coded uninterrupted stepped

/-- `init` calls `kkill(1)`, up to its loop. -/
def initKillsItself : List (Nat × Input) := steps 8 0 ++ (0, .syscall (.kill 1)) :: steps 7 0

/-- `init` finds itself. -/
theorem kkill_meets_live_processes_init : NeverKillsZero initKillsItself ∧
      ∃ n, (kernel.run (run initKillsItself) (steps n 0)).stack (.process 0) =
        [resume (.usertrap (.handled false)) 0] := by
  have never : NeverKillsZero initKillsItself := by simp [NeverKillsZero, initKillsItself, steps]
  have alive : (run initKillsItself).panicked = none := by decide +kernel
  have current : ((run initKillsItself).cpu 0).thread = .process 0 := by decide +kernel
  have stacked : (run initKillsItself).stack (.process 0) =
      [.kkill (.next 0) 1, .usertrap (.handled false)] := by
    decide +kernel
  have free : ∀ q < NPROC, (run initKillsItself).owner (.proc q) = none := by decide +kernel
  have isInit : ((run initKillsItself).shared.proc 0).state ≠ .unused ∧
      ((run initKillsItself).shared.proc 0).pid = 1 := by
    decide +kernel
  obtain ⟨n, value, returned, ⟨rfl, _⟩ | ⟨_, absent, _⟩⟩ :=
    (kkill_meets_live_processes initKillsItself never).1 0 0 1
      (.usertrap (.handled false)) [] alive current stacked free
  · exact ⟨never, n, returned⟩
  · exact absurd ⟨0, isInit⟩ absent

/-- The argument and the result of a `kkill` that returns next on CPU `c`. -/
def kkillReturns (machine : State) (c : Nat) : Option (Int32 × Int) :=
  match machine.stack (machine.cpu c).thread with
  | .kkill pc pid :: _ =>
    match kkill pc pid machine.shared with
    | some (.ret value) => some (pid, value)
    | _ => none
  | _ => none

/-- `init` calls `kkill(0)`, up to its return. -/
def initKillsZero : List (Nat × Input) := steps 8 0 ++ (0, .syscall (.kill 0)) :: steps 12 0

/-- `init` goes on to call `fork`, up to the return of `allocproc`. -/
def initForksAfter : List (Nat × Input) := steps 9 0 ++ (0, .syscall .fork) :: steps 16 0

/-- `kkill(0)` returns 0 although no live process has pid 0, and the next
process starts out killed. -/
theorem kkill_marks_free_slot : kkillReturns (run initKillsZero) 0 = some (0, 0) ∧
      (∀ q, ((run initKillsZero).shared.proc q).state ≠ .unused →
        ((run initKillsZero).shared.proc q).pid ≠ 0) ∧
      ((run (initKillsZero ++ initForksAfter)).shared.proc 1).state = .used ∧
      ((run (initKillsZero ++ initForksAfter)).shared.proc 1).pid = 2 ∧
      ((run (initKillsZero ++ initForksAfter)).shared.proc 1).killed = true := by
  refine ⟨by decide +kernel, ?_, by decide +kernel, by decide +kernel, by decide +kernel⟩
  intro q used
  have births : (run initKillsZero).shared.births = 2 := by decide +kernel
  obtain ⟨positive, below⟩ := (run_sane initKillsZero).pids.used q used
  rw [births] at below
  have isInit : ((run initKillsZero).shared.proc q).birth = 1 := by omega
  rw [Proc.pid, isInit]
  decide

end Xv6KernelEvent.Process
