import Mathlib.Data.List.Induction
import Xv6KernelEvent.Log.Invariant

/-!
# Crash atomicity of the redo log

Every step of the log keeps the invariant, so a run that ends with a completed
recovery ends with the durable contents on disk.
-/

namespace Xv6KernelEvent

open AtomicStore

namespace LogMachine

variable {machine next : LogMachine} {ledger : Ledger Nat Block}

section

variable (invariant : machine.Invariant ledger)

include invariant

/-- A step that only changes buffers of home blocks, not what they hold. -/
theorem Invariant.of_buffers (start : next.start = machine.start) (disk : next.disk = machine.disk)
    (lh : next.lh = machine.lh) (phase : next.phase = machine.phase)
    (outstanding : next.outstanding = machine.outstanding) (active : next.active = machine.active)
    (buffers : machine.phase ≠ .stopped → ∀ pinned contents,
      machine.Buffers pinned contents → next.Buffers pinned contents) : next.Invariant ledger := by
  have pins : next.pinned = machine.pinned := by simp only [pinned, phase, lh]
  have seen : next.contents ledger = machine.contents ledger := by simp only [contents, phase, disk]
  refine ⟨?_, ?_, ?_⟩
  · rw [start, disk, lh, phase]
    exact invariant.disk
  · intro live
    rw [phase] at live
    rw [pins, seen]
    exact buffers live _ _ (invariant.buffers live)
  · intro live
    rw [phase] at live
    obtain ⟨counted, idle⟩ := invariant.disciplined live
    exact ⟨by rw [outstanding, active, counted], by rw [phase, active]; exact idle⟩

theorem Invariant.bread (home : HomeBlock machine.start block)
    (reads : machine.bread process block = some next) : next.Invariant ledger := by
  obtain ⟨free, ⟨⟩⟩ := Option.ite_none_right_eq_some.mp reads
  refine invariant.of_buffers rfl rfl rfl rfl rfl rfl ?_
  intro _live pinned contents buffers
  have logged : block ∉ machine.unlogged := by
    intro member
    obtain ⟨_, holder, _, holds⟩ := buffers.held block member
    simp [free] at holds
  refine buffers.setBuf home (buffers.data block home) ?_ (fun member => absurd member logged)
  have counted := buffers.refcnt block home
  simp only [free, if_true] at counted
  simp only [counted, reduceCtorEq, if_false]
  omega

theorem Invariant.brelse (home : HomeBlock machine.start block) (logged : block ∉ machine.unlogged)
    (releases : machine.brelse process block = some next) : next.Invariant ledger := by
  obtain ⟨holds, rfl⟩ := of_cached releases
  refine invariant.of_buffers rfl rfl rfl rfl rfl rfl ?_
  intro _live pinned contents buffers
  have counted := buffers.refcnt block home
  refine buffers.setBuf home (buffers.data block home) ?_ (fun member => absurd member logged)
  simp only [holds, reduceCtorEq, if_false] at counted
  simp only [counted, if_true]
  omega

theorem Invariant.drop (drops : machine.Drops dropped) :
    (machine.drop dropped).Invariant ledger := by
  refine invariant.of_buffers rfl rfl rfl rfl rfl rfl ?_
  intro _live pinned contents buffers
  exact buffers.drop drops

theorem Invariant.evict (evicts : machine.evict block = some next) : next.Invariant ledger := by
  obtain ⟨unreferenced, rfl⟩ := of_cached evicts
  exact invariant.drop (drops_evict unreferenced)

end

/-- Only an active operation finds the log `running`. -/
theorem Disciplined.running (disciplined : machine.Disciplined)
    (active : process ∈ machine.active) : machine.phase = .running := by
  by_contra notRunning
  rw [disciplined.idle notRunning] at active
  simp at active

theorem Invariant.running (invariant : machine.Invariant ledger)
    (serving : machine.phase.serving = true) (active : process ∈ machine.active) :
    machine.phase = .running ∧ machine.Disciplined ∧
      Installing machine.start machine.disk ledger.durable [] 0 ∧
      EntriesValid machine.start machine.lh ∧
      machine.Buffers machine.lh ledger.logical := by
  have live : machine.phase ≠ .stopped := by
    intro stopped
    simp [stopped, LogPhase.serving] at serving
  have disciplined := invariant.disciplined live
  have running := disciplined.running active
  have agrees := invariant.disk
  have buffers := invariant.buffers live
  simp only [running, DiskAgrees] at agrees
  simp only [pinned, contents, running] at buffers
  exact ⟨running, disciplined, agrees.1, agrees.2, buffers⟩

/-- An invariant state of the phase `running`, from its parts. -/
theorem Invariant.of_running (running : machine.phase = .running)
    (disciplined : machine.Disciplined)
    (clean : Installing machine.start machine.disk ledger.durable [] 0)
    (valid : EntriesValid machine.start machine.lh)
    (buffers : machine.Buffers machine.lh ledger.logical) : machine.Invariant ledger := by
  refine ⟨?_, fun _ => ?_, fun _ => disciplined⟩
  · rw [running]
    exact ⟨clean, valid⟩
  · simp only [pinned, contents, running]
    exact buffers

section

variable (invariant : machine.Invariant ledger)

include invariant

theorem Invariant.modify (serving : machine.phase.serving = true)
    (active : process ∈ machine.active) (home : HomeBlock machine.start block)
    (modifies : machine.modify process block data = some next) :
    next.Invariant (ledger.record block data) := by
  obtain ⟨running, disciplined, clean, valid, buffers⟩ := invariant.running serving active
  obtain ⟨holds, rfl⟩ := of_cached modifies
  refine Invariant.of_running running ⟨disciplined.counted, disciplined.idle⟩ clean valid ?_
  rw [Ledger.logical_record]
  exact buffers.modify home active holds data

theorem Invariant.panic : machine.panic.Invariant ledger :=
  ⟨invariant.disk.recoverable, fun live => absurd rfl live, fun live => absurd rfl live⟩

theorem Invariant.logWrite (serving : machine.phase.serving = true)
    (active : process ∈ machine.active) (home : HomeBlock machine.start block)
    (logs : machine.logWrite process block = some next) : next.Invariant ledger := by
  obtain ⟨running, disciplined, clean, valid, buffers⟩ := invariant.running serving active
  rcases logWrite_cases logs with ⟨rfl, -⟩ | ⟨absorbed, rfl⟩ | ⟨fresh, room, rfl⟩
  · exact invariant.panic
  · exact Invariant.of_running running ⟨disciplined.counted, disciplined.idle⟩ clean valid
      (buffers.log absorbed)
  · refine Invariant.of_running running ⟨disciplined.counted, disciplined.idle⟩ clean
      (EntriesValid.concat valid home fresh room) ?_
    exact ((buffers.pin home fresh).log (by simp)).of_fetch_eq rfl rfl

theorem Invariant.beginOp (begins : machine.beginOp process = some next) :
    next.Invariant ledger := by
  obtain ⟨running, begins⟩ := Option.ite_none_left_eq_some.mp begins
  obtain ⟨-, ⟨⟩⟩ := Option.ite_none_left_eq_some.mp begins
  have phase := not_not.mp running
  have live : machine.phase ≠ .stopped := by simp [phase]
  obtain ⟨counted, _idle⟩ := invariant.disciplined live
  have agrees := invariant.disk
  have buffers := invariant.buffers live
  simp only [phase, DiskAgrees] at agrees
  simp only [pinned, contents, phase] at buffers
  refine Invariant.of_running phase ⟨?_, fun idle => absurd phase idle⟩ agrees.1 agrees.2 ?_
  · simp [counted]
  · refine ⟨buffers.data, buffers.refcnt, ?_, buffers.settled, buffers.through⟩
    intro block member
    obtain ⟨home, holder, active, holds⟩ := buffers.held block member
    exact ⟨home, holder, List.mem_cons_of_mem _ active, holds⟩

end

/-- An operation that ends holds no modified buffer. -/
theorem Buffers.endOp {pinned : List Nat} {contents : Nat → Block}
    (buffers : machine.Buffers pinned contents)
    (released : ∀ block ∈ machine.unlogged, (machine.fetch block).holder ≠ some process)
    (phase : LogPhase) (outstanding : Nat) :
    Buffers
      { machine with
        outstanding := outstanding
        phase := phase
        active := machine.active.erase process }
      pinned contents := by
  refine ⟨buffers.data, buffers.refcnt, ?_, buffers.settled, buffers.through⟩
  intro block member
  obtain ⟨home, holder, active, holds⟩ := buffers.held block member
  refine ⟨home, holder, ?_, holds⟩
  have different : holder ≠ process := by
    rintro rfl
    exact released block member holds
  exact (List.mem_erase_of_ne different).mpr active

theorem Invariant.endOp (invariant : machine.Invariant ledger)
    (serving : machine.phase.serving = true) (active : process ∈ machine.active)
    (released : ∀ block ∈ machine.unlogged, (machine.fetch block).holder ≠ some process)
    (ends : machine.endOp process = some next) : next.Invariant ledger := by
  obtain ⟨running, disciplined, clean, valid, buffers⟩ := invariant.running serving active
  have counted : machine.outstanding - 1 = (machine.active.erase process).length := by
    rw [List.length_erase_of_mem active, disciplined.counted]
  simp only [LogMachine.endOp, running] at ends
  split at ends
  · rename_i last
    cases ends
    have idle : machine.active.erase process = [] := by
      rw [← List.length_eq_zero_iff, ← counted]
      exact last
    by_cases empty : machine.lh = []
    · simp only [empty, if_true]
      refine ⟨⟨rfl, clean⟩, fun _ => ?_, fun _ => ⟨counted, fun _ => idle⟩⟩
      have ended := buffers.endOp released (.committing .finish) (machine.outstanding - 1)
      rw [empty] at ended
      exact ended.of_fetch_eq rfl rfl
    · simp only [empty, if_false]
      refine ⟨⟨clean, valid, ?_⟩, fun _ => ?_, fun _ => ⟨counted, fun _ => idle⟩⟩
      · intro index block below
        omega
      · exact buffers.endOp released (.committing (.writeLog 0)) (machine.outstanding - 1)
  · cases ends
    refine Invariant.of_running rfl ⟨counted, fun idle => absurd rfl idle⟩ clean valid ?_
    exact buffers.endOp released .running (machine.outstanding - 1)

theorem Buffers.unlogged_nil {pinned : List Nat} {contents : Nat → Block}
    (buffers : machine.Buffers pinned contents)
    (idle : machine.active = []) : machine.unlogged = [] := by
  rw [List.eq_nil_iff_forall_not_mem]
  intro block member
  obtain ⟨_home, process, active, _holds⟩ := buffers.held block member
  simp [idle] at active

/-- No operation is in progress while the log commits or recovers. -/
structure Idle (machine : LogMachine) : Prop where
  active : machine.active = []
  outstanding : machine.outstanding = 0
  unlogged : machine.unlogged = []

theorem Invariant.busy (invariant : machine.Invariant ledger) (isPhase : machine.phase = now)
    (busy : now ≠ .running ∧ now ≠ .stopped) :
    machine.Idle ∧ DiskAgrees machine.start machine.disk machine.lh ledger now ∧
      machine.Buffers machine.pinned (machine.contents ledger) := by
  subst isPhase
  have buffers := invariant.buffers busy.2
  obtain ⟨counted, idle⟩ := invariant.disciplined busy.2
  have active := idle busy.1
  refine ⟨⟨active, ?_, buffers.unlogged_nil active⟩, invariant.disk, buffers⟩
  rw [counted, active]
  rfl

theorem Idle.invariant (idle : machine.Idle)
    (same : (next.active, next.outstanding, next.unlogged) =
      (machine.active, machine.outstanding, machine.unlogged))
    (agrees : DiskAgrees next.start next.disk next.lh ledger next.phase)
    (buffers : next.Buffers next.pinned (next.contents ledger)) : next.Invariant ledger := by
  simp only [idle.active, idle.outstanding, Prod.mk.injEq] at same
  refine ⟨agrees, fun _ => buffers, fun _ => ⟨?_, fun _ => same.1⟩⟩
  rw [same.1, same.2.1]
  rfl

section

variable (invariant : machine.Invariant ledger)

include invariant

theorem Invariant.commit_writeLog (phase : machine.phase = .committing (.writeLog tail))
    (commits : machine.commit = some next) : next.Invariant ledger := by
  obtain ⟨idle, ⟨clean, valid, copied⟩, buffers⟩ := invariant.busy phase (by simp)
  simp only [pinned, contents, phase] at buffers
  simp only [LogMachine.commit, phase] at commits
  cases entry : machine.lh[tail]? with
  | none =>
    simp only [entry, Option.some.injEq] at commits
    subst next
    have past := List.getElem?_eq_none_iff.mp entry
    refine idle.invariant rfl ⟨clean, valid, ?_⟩
      (buffers.of_fetch_eq rfl rfl)
    intro index block below
    exact copied index block (below.trans_le past)
  | some block =>
    obtain ⟨below, _⟩ := List.getElem?_eq_some_iff.mp entry
    have room : tail < LOGBLOCKS := below.trans_le valid.short
    have home := valid.home block (List.mem_of_getElem? entry)
    simp only [entry] at commits
    obtain ⟨written, writes, ⟨⟩⟩ := Option.bind_eq_some_iff.mp commits
    obtain ⟨free, ⟨⟩⟩ := Option.ite_none_right_eq_some.mp writes
    refine idle.invariant rfl ⟨clean.write_log room _, valid,
        copied.write_log entry (buffers.data block home)⟩ ?_
    refine Buffers.setPhase (Buffers.bwrite_log
      (buffers.setBuf_fetch block) (not_homeBlock_log room) ?_) _
    exact free.1

theorem Invariant.commit_writeHead (phase : machine.phase = .committing .writeHead)
    (commits : machine.commit = some next) : next.Invariant ledger.commit := by
  obtain ⟨idle, ⟨_clean, valid, copied⟩, buffers⟩ := invariant.busy phase (by simp)
  simp only [pinned, contents, phase] at buffers
  simp only [LogMachine.commit, phase] at commits
  obtain ⟨written, writes, ⟨⟩⟩ := Option.bind_eq_some_iff.mp commits
  obtain ⟨free, ⟨⟩⟩ := Option.ite_none_right_eq_some.mp writes
  refine idle.invariant rfl ⟨?_, ?_⟩ ?_
  · rw [Ledger.durable_commit]
    refine Installing.write_head valid copied ?_ _
    intro block home absent
    exact buffers.settled block home absent (by simp [idle.unlogged])
  · rw [Ledger.durable_commit, Ledger.logical_commit]
  · rw [← Ledger.logical_commit] at buffers
    refine Buffers.setPhase (Buffers.bwrite_log buffers not_homeBlock_start ?_) _
    exact free

theorem Invariant.commit_installTrans (phase : machine.phase = .committing (.installTrans tail))
    (commits : machine.commit = some next) : next.Invariant ledger := by
  obtain ⟨idle, ⟨installing, committed⟩, buffers⟩ := invariant.busy phase (by simp)
  simp only [pinned, contents, phase] at buffers
  simp only [LogMachine.commit, phase] at commits
  cases entry : machine.lh[tail]? with
  | none =>
    simp only [entry, Option.some.injEq] at commits
    subst next
    have past := List.getElem?_eq_none_iff.mp entry
    rw [List.drop_eq_nil_of_le past] at buffers
    exact idle.invariant rfl ⟨rfl, committed, machine.lh, installing.done past⟩
      (buffers.of_fetch_eq rfl rfl)
  | some block =>
    obtain ⟨below, found⟩ := List.getElem?_eq_some_iff.mp entry
    have room : tail < LOGBLOCKS := below.trans_le installing.valid.short
    have home := installing.valid.home block (List.mem_of_getElem? entry)
    have pins : machine.lh.drop tail = block :: machine.lh.drop (tail + 1) := by
      rw [List.drop_eq_getElem_cons below, found]
    have logData := (buffers.through _ (not_homeBlock_log room)).1
    have refcnt := buffers.refcnt block home
    simp only [entry] at commits
    obtain ⟨written, writes, ⟨⟩⟩ := Option.bind_eq_some_iff.mp commits
    obtain ⟨free, ⟨⟩⟩ := Option.ite_none_right_eq_some.mp writes
    rw [pins] at buffers refcnt
    simp only [free.2, List.mem_cons, true_or, if_true] at refcnt
    have data : (machine.fetch (machine.start + tail + 1)).data = ledger.logical block := by
      rw [logData, committed]
      exact installing.copied tail block below entry
    refine idle.invariant rfl ⟨?_, committed⟩ ?_
    · have installed := installing.install entry
      rw [← logData] at installed
      exact installed
    · have distinct : (block :: machine.lh.drop (tail + 1)).Nodup := by
        rw [← pins]
        exact installing.valid.distinct.sublist (List.drop_sublist _ _)
      refine Buffers.setPhase (Buffers.bwrite_home
        (buffers.setBuf_fetch _) home rfl distinct ?_ ?_ ?_ ?_) _
      · exact data
      · exact free.2
      · simp [refcnt]
      · simp [setBuf, idle.unlogged]

end

/-- Writing the cleared header ends an installation. -/
theorem Installing.clear_head {start : Nat} {disk durable : Nat → Block}
    (installing : Installing start disk durable entries entries.length) (block : Block) :
    Installing start (Function.update disk start (Header.put [] block)) durable [] 0 :=
  Installing.write_head (EntriesValid.nil start) (by simp [Copied])
    (fun _ home _ => installing.complete home) block

section

variable (invariant : machine.Invariant ledger)

include invariant

theorem Invariant.commit_clearHead (phase : machine.phase = .committing .clearHead)
    (commits : machine.commit = some next) : next.Invariant ledger := by
  obtain ⟨idle, ⟨cleared, _committed, entries, installing⟩, buffers⟩ :=
    invariant.busy phase (by simp)
  simp only [pinned, contents, phase] at buffers
  simp only [LogMachine.commit, phase] at commits
  obtain ⟨written, writes, ⟨⟩⟩ := Option.bind_eq_some_iff.mp commits
  obtain ⟨free, ⟨⟩⟩ := Option.ite_none_right_eq_some.mp writes
  rw [cleared]
  refine idle.invariant rfl ⟨cleared, Installing.clear_head installing _⟩ ?_
  refine Buffers.setPhase (Buffers.bwrite_log buffers not_homeBlock_start ?_) _
  exact free

theorem Invariant.commit_finish (phase : machine.phase = .committing .finish)
    (commits : machine.commit = some next) : next.Invariant ledger := by
  obtain ⟨idle, ⟨cleared, clean⟩, buffers⟩ := invariant.busy phase (by simp)
  simp only [pinned, contents, phase] at buffers
  simp only [LogMachine.commit, phase, Option.some.injEq] at commits
  subst next
  refine idle.invariant rfl ⟨clean, ?_⟩ (buffers.setPhase _)
  show EntriesValid machine.start machine.lh
  rw [cleared]
  exact EntriesValid.nil _

theorem Invariant.recover_readHead (phase : machine.phase = .recovering .readHead)
    (recovers : machine.recover = some next) : next.Invariant ledger := by
  obtain ⟨idle, ⟨_cleared, committed, entries, installing⟩, buffers⟩ :=
    invariant.busy phase (by simp)
  simp only [pinned, contents, phase] at buffers
  have header := (buffers.through _ not_homeBlock_start).1
  simp only [LogMachine.recover, phase, LogMachine.readHead,
    Option.bind_eq_bind, header, installing.header, Option.bind_some,
    Option.some.injEq] at recovers
  subst next
  refine idle.invariant rfl ⟨installing, committed⟩ ?_
  exact (buffers.setBuf_fetch machine.start).of_fetch_eq rfl rfl

theorem Invariant.recover_installTrans (phase : machine.phase = .recovering (.installTrans tail))
    (recovers : machine.recover = some next) : next.Invariant ledger := by
  obtain ⟨idle, ⟨installing, committed⟩, buffers⟩ := invariant.busy phase (by simp)
  simp only [pinned, contents, phase] at buffers
  simp only [LogMachine.recover, phase] at recovers
  cases entry : machine.lh[tail]? with
  | none =>
    simp only [entry, Option.some.injEq] at recovers
    subst next
    have past := List.getElem?_eq_none_iff.mp entry
    exact idle.invariant rfl ⟨rfl, committed, machine.lh, installing.done past⟩
      (buffers.of_fetch_eq rfl rfl)
  | some block =>
    obtain ⟨below, _⟩ := List.getElem?_eq_some_iff.mp entry
    have room : tail < LOGBLOCKS := below.trans_le installing.valid.short
    have home := installing.valid.home block (List.mem_of_getElem? entry)
    have logData := (buffers.through _ (not_homeBlock_log room)).1
    have refcnt := buffers.refcnt block home
    simp only [entry] at recovers
    obtain ⟨written, writes, ⟨⟩⟩ := Option.bind_eq_some_iff.mp recovers
    obtain ⟨free, ⟨⟩⟩ := Option.ite_none_right_eq_some.mp writes
    refine idle.invariant rfl ⟨?_, committed⟩ ?_
    · have installed := installing.install entry
      rw [← logData] at installed
      exact installed
    · refine Buffers.setPhase (Buffers.bwrite_recovering (buffers.setBuf_fetch _) ?_ ?_ ?_) _
      · simp [setBuf, idle.unlogged]
      · exact free.2
      · simpa [free.2] using refcnt

theorem Invariant.recover_clearHead (phase : machine.phase = .recovering .clearHead)
    (recovers : machine.recover = some next) : next.Invariant ledger := by
  obtain ⟨idle, ⟨cleared, committed, entries, installing⟩, buffers⟩ :=
    invariant.busy phase (by simp)
  simp only [pinned, contents, phase] at buffers
  have settled := buffers.of_contents_eq fun _ home =>
    (installing.complete home).trans (congrFun committed.symm _)
  simp only [LogMachine.recover, phase] at recovers
  obtain ⟨written, writes, ⟨⟩⟩ := Option.bind_eq_some_iff.mp recovers
  obtain ⟨free, ⟨⟩⟩ := Option.ite_none_right_eq_some.mp writes
  rw [cleared]
  rw [← cleared] at settled
  refine idle.invariant rfl ⟨Installing.clear_head installing _, ?_⟩ ?_
  · show EntriesValid machine.start machine.lh
    rw [cleared]
    exact EntriesValid.nil _
  · refine Buffers.setPhase (Buffers.bwrite_log settled not_homeBlock_start ?_) _
    exact free

end

/-- The memory after a boot: nothing cached, no operation. -/
theorem Invariant.booted {start : Nat} {disk : Nat → Block}
    (recoverable : Recoverable start disk ledger.durable)
    (forgotten : ledger.logical = ledger.durable) :
    (bootedMachine start disk).Invariant ledger := by
  have idle : (bootedMachine start disk).Idle := ⟨rfl, rfl, rfl⟩
  refine idle.invariant rfl ⟨rfl, forgotten, recoverable⟩ ?_
  refine ⟨fun _ _ => rfl, fun _ _ => rfl, ?_, fun _ _ _ _ => rfl, fun _ _ => ⟨rfl, rfl⟩⟩
  intro block member
  simp [bootedMachine] at member

section

variable (invariant : machine.Invariant ledger)

include invariant

theorem Invariant.commit (commits : machine.commit = some next) :
    next.Invariant (machine.account .commit ledger) := by
  cases phase : machine.phase with
  | committing pc =>
    cases pc with
    | writeLog tail => simpa [account, phase] using invariant.commit_writeLog phase commits
    | writeHead => simpa [account, phase] using invariant.commit_writeHead phase commits
    | installTrans tail => simpa [account, phase] using invariant.commit_installTrans phase commits
    | clearHead => simpa [account, phase] using invariant.commit_clearHead phase commits
    | finish => simpa [account, phase] using invariant.commit_finish phase commits
  | _ => simp [LogMachine.commit, phase] at commits

theorem Invariant.recover (recovers : machine.recover = some next) : next.Invariant ledger := by
  cases phase : machine.phase with
  | recovering pc =>
    cases pc with
    | readHead => exact invariant.recover_readHead phase recovers
    | installTrans tail => exact invariant.recover_installTrans phase recovers
    | clearHead => exact invariant.recover_clearHead phase recovers
  | _ => simp [LogMachine.recover, phase] at recovers

/-- Every step keeps the invariant. -/
theorem Invariant.step {step : LogStep} (steps : machine.step step = some next) :
    next.Invariant (machine.account step ledger) := by
  simp only [LogMachine.step] at steps
  split at steps
  · rename_i allowed
    cases step with
    | beginOp process => exact invariant.beginOp steps
    | bread process block => exact invariant.bread allowed.2 steps
    | modify process block data => exact invariant.modify allowed.1 allowed.2.1 allowed.2.2 steps
    | logWrite process block => exact invariant.logWrite allowed.1 allowed.2.1 allowed.2.2 steps
    | brelse process block => exact invariant.brelse allowed.2.1 allowed.2.2 steps
    | endOp process => exact invariant.endOp allowed.1 allowed.2.1 allowed.2.2 steps
    | evict block => exact invariant.evict steps
    | commit => exact invariant.commit steps
    | recover => exact invariant.recover steps
    | crash =>
      cases steps
      exact Invariant.booted invariant.disk.recoverable rfl
  · simp at steps

end

end LogMachine

/-- So does every run. -/
theorem logRun_invariant (runs : logRun device steps = some (machine, ledger)) :
    machine.Invariant ledger := by
  induction steps using List.reverseRecOn generalizing machine ledger with
  | nil =>
    simp only [logRun, List.foldlM_nil, Option.pure_def, Option.some.injEq, Prod.mk.injEq] at runs
    obtain ⟨rfl, rfl⟩ := runs
    refine LogMachine.Invariant.booted ⟨[], ?_⟩ rfl
    exact ⟨device.cleared, Header.get_of_count_eq_zero device.cleared,
      EntriesValid.nil _, by simp [Copied], fun _ _ _ => rfl⟩
  | append_singleton steps step induction =>
    rw [logRun_concat, Option.bind_eq_some_iff] at runs
    obtain ⟨⟨before, earlier⟩, run, last⟩ := runs
    simp only [Option.bind_eq_some_iff, Option.some.injEq, Prod.mk.injEq]
      at last
    obtain ⟨next, steps, rfl, rfl⟩ := last
    exact (induction run).step steps

theorem LogMachine.step_start {machine next : LogMachine} {step : LogStep}
    (steps : machine.step step = some next) : next.start = machine.start := by
  simp only [LogMachine.step] at steps
  split at steps
  · cases step with
    | beginOp process => grind [beginOp]
    | bread process block => grind [bread, setBuf]
    | modify process block data => grind [modify, setBuf, Option.bind_eq_some_iff]
    | logWrite process block => grind [logWrite, setBuf, panic]
    | brelse process block => grind [brelse, setBuf, Option.bind_eq_some_iff]
    | endOp process => grind [endOp, panic]
    | evict block => grind [evict, Option.bind_eq_some_iff]
    | commit =>
      simp only [commit] at steps
      split at steps <;> grind [writeLogBlock, writeHead, installBlock,
        setPhase, setBuf, bwrite, Option.bind_eq_some_iff]
    | recover =>
      simp only [recover] at steps
      split at steps <;> grind [readHead, writeHead, installBlock,
        setPhase, setBuf, bwrite, Option.bind_eq_some_iff]
    | crash => grind [bootedMachine]
  · simp at steps

/-- The log stays where it was found, and the ledger starts from the first
disk. -/
theorem logRun_device {device : LogDisk} {steps : List LogStep} {machine : LogMachine}
    {ledger : Ledger Nat Block} (runs : logRun device steps = some (machine, ledger)) :
    machine.start = device.start ∧ ledger.initial = device.disk := by
  induction steps using List.reverseRecOn generalizing machine ledger with
  | nil =>
    simp only [logRun, List.foldlM_nil, Option.pure_def, Option.some.injEq, Prod.mk.injEq] at runs
    obtain ⟨rfl, rfl⟩ := runs
    exact ⟨rfl, rfl⟩
  | append_singleton steps step induction =>
    rw [logRun_concat, Option.bind_eq_some_iff] at runs
    obtain ⟨⟨before, earlier⟩, run, last⟩ := runs
    simp only [Option.bind_eq_some_iff, Option.some.injEq, Prod.mk.injEq]
      at last
    obtain ⟨next, taken, rfl, rfl⟩ := last
    obtain ⟨start, initial⟩ := induction run
    refine ⟨(LogMachine.step_start taken).trans start, ?_⟩
    rw [← initial]
    cases step <;> simp only [LogMachine.account] <;> try rfl
    split <;> rfl

/-- Crash atomicity.  Whenever a run with any crashes ends with a completed
recovery, every home block has its contents after exactly the groups whose
first `write_head` reached the disk, and the header is clear. -/
theorem recovered_disk_is_durable (device : LogDisk) (steps : List LogStep) (machine : LogMachine)
    (ledger : Ledger Nat Block)
    (runs : logRun device (steps ++ [.recover]) = some (machine, ledger))
    (completed : machine.phase = .running) :
    (∀ block, HomeBlock device.start block → machine.disk block =
        applyUpdates device.disk ledger.groups.flatten block) ∧
      Header.count (machine.disk device.start) = 0 := by
  have agrees := (logRun_invariant runs).disk
  obtain ⟨start, initial⟩ := logRun_device runs
  rw [completed, start] at agrees
  obtain ⟨clean, _valid⟩ := agrees
  refine ⟨?_, ?_⟩
  · intro block home
    rw [clean.installed block home (by simp), Ledger.durable, initial]
  · exact clean.counted

/-- A disk of zeros with the log behind the superblock. -/
def zeroDisk : LogDisk :=
  { start := 2
    disk := fun _ => Vector.replicate BSIZE 0
    cleared := by decide +kernel }

/-- A crash after the header of a group was written, and another one in the
middle of the recovery. -/
def interruptedCommit : List LogStep :=
  [.recover, .recover, .recover, .beginOp 1, .bread 1 40,
    .modify 1 40 (Vector.replicate BSIZE 7), .logWrite 1 40, .brelse 1 40,
    .endOp 1, .commit, .commit, .commit, .crash, .recover, .recover, .crash,
    .recover, .recover, .recover]

theorem recovered_disk_is_durable_interrupted : ∃ machine ledger,
      logRun zeroDisk (interruptedCommit ++ [.recover]) = some (machine, ledger) ∧
      machine.phase = .running ∧ ledger.groups.length = 1 ∧
      machine.disk 40 = applyUpdates zeroDisk.disk ledger.groups.flatten 40 := by
  have defined : (logRun zeroDisk (interruptedCommit ++ [.recover])).any
      (fun result => result.1.phase = .running ∧
        result.2.groups.length = 1) = true := by decide +kernel
  rw [Option.any_eq_true] at defined
  obtain ⟨⟨machine, ledger⟩, runs, final⟩ := defined
  simp only [decide_eq_true_eq] at final
  exact ⟨machine, ledger, runs, final.1, final.2,
    (recovered_disk_is_durable zeroDisk interruptedCommit machine ledger runs
      final.1).1 40 (by decide)⟩

end Xv6KernelEvent
