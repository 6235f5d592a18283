import Xv6KernelEvent.Log.Protocol

/-!
# Log space set aside by `begin_op`

`begin_op` admits an operation only when the log has room for `MAXOPBLOCKS`
blocks of every operation in progress and of the new one.  What is left of these
reservations and the blocks already logged fit into the log together.

`log_write` looks for room before it looks for the block: it stops the machine
when the log is full, even if the block is already logged and needs no room.
-/

namespace Xv6KernelEvent

open Runs

namespace LogSystem

/-- An operation logs at most `MAXOPBLOCKS` distinct blocks. -/
def Modest (system : LogSystem) : LogStep → Prop
  | .logWrite process block =>
    ∀ operation ∈ system.history.pending, operation.process = process →
      (operation.blocks.insert block).length ≤ MAXOPBLOCKS
  | _ => True

/-- A block is logged again only while the log is not full. -/
def Roomy (system : LogSystem) : LogStep → Prop
  | .logWrite _ block => block ∈ system.machine.lh → system.machine.lh.length < LOGBLOCKS
  | _ => True

instance (system : LogSystem) (step : LogStep) : Decidable (system.Modest step) :=
  match step with
  | .logWrite _ _ => inferInstanceAs (Decidable (∀ _ ∈ _, _ → _))
  | .beginOp _ | .bread _ _ | .modify _ _ _ | .brelse _ _ | .endOp _ | .evict _ | .commit
  | .recover | .crash => isTrue trivial

instance (system : LogSystem) (step : LogStep) : Decidable (system.Roomy step) :=
  match step with
  | .logWrite _ _ => inferInstanceAs (Decidable (_ → _))
  | .beginOp _ | .bread _ _ | .modify _ _ _ | .brelse _ _ | .endOp _ | .evict _ | .commit
  | .recover | .crash => isTrue trivial

/-- The logged blocks and the reservations fit into the log. -/
def Reserved (system : LogSystem) : Prop :=
  system.machine.lh.length + (system.history.pending.map Operation.reserve).sum ≤ LOGBLOCKS

variable {system : LogSystem}

theorem Reserved.of_idle (protocol : Protocol system) (idle : system.machine.active = []) :
    system.Reserved := by
  have none := protocol.pending
  rw [idle, List.map_eq_nil_iff] at none
  rw [Reserved, none]
  exact protocol.short

theorem sum_reserve_le (operations : List Operation) : (operations.map Operation.reserve).sum ≤
      operations.length * MAXOPBLOCKS := by
  have bound := List.sum_le_card_nsmul (operations.map Operation.reserve) MAXOPBLOCKS (by
      intro reserved member
      obtain ⟨operation, _, rfl⟩ := List.mem_map.mp member
      exact Nat.sub_le _ _)
  rwa [List.length_map] at bound

theorem Reserved.beginOp (protocol : Protocol system) (alive : system.machine.phase ≠ .stopped)
    (begins : system.machine.beginOp process = some after) :
    after.phase ≠ .stopped ∧ Reserved
      { machine := after
        history := system.history.record system.machine (.beginOp process) } := by
  have counted : system.history.pending.length = system.machine.outstanding := by
    rw [protocol.counted, ← protocol.pending, List.length_map]
  have bound := sum_reserve_le system.history.pending
  obtain ⟨-, begins⟩ := Option.ite_none_left_eq_some.mp begins
  obtain ⟨room, ⟨⟩⟩ := Option.ite_none_left_eq_some.mp begins
  refine ⟨alive, ?_⟩
  rw [counted] at bound
  have reserve : Operation.reserve { process := process, blocks := [], ended := false } =
      MAXOPBLOCKS := rfl
  simp only [LogHistory.pending] at bound
  simp only [Reserved, LogHistory.record, LogHistory.pending,
    decide_true, List.filter_cons_of_pos, List.map_cons, List.sum_cons, reserve]
  rw [Nat.add_mul] at room
  omega

theorem reserve_log_le (process block : Nat) (operation : Operation) :
    (operation.log process block).reserve ≤ operation.reserve := by
  simp only [Operation.log, Operation.reserve]
  split
  · have longer : operation.blocks.length ≤ (operation.blocks.insert block).length :=
      List.length_le_length_insert
    exact Nat.sub_le_sub_left longer _
  · exact le_rfl

/-- A new block is paid for by the operation that logs it. -/
theorem reserve_log_lt {process block : Nat} {operation : Operation}
    (mine : operation.process = process) (unfinished : operation.ended = false)
    (fresh : block ∉ operation.blocks)
    (modest : (operation.blocks.insert block).length ≤ MAXOPBLOCKS) :
    (operation.log process block).reserve < operation.reserve := by
  rw [List.length_insert_of_not_mem fresh] at modest
  simp only [Operation.log, Operation.reserve, mine, unfinished, and_self,
    if_true, List.length_insert_of_not_mem fresh]
  omega

/-- With its operation in progress, a new block finds the log not full. -/
theorem Reserved.fresh (reserved : system.Reserved) (protocol : Protocol system)
    {process block : Nat} (inside : process ∈ system.machine.active)
    (modest : system.Modest (.logWrite process block)) (fresh : block ∉ system.machine.lh) :
    system.machine.lh.length + ((system.history.pending.map (Operation.log process block)).map
        Operation.reserve).sum < LOGBLOCKS := by
  obtain ⟨operation, member, mine⟩ := protocol.operation_of_mem inside
  obtain ⟨listed, unfinished⟩ := List.mem_filter.mp member
  have notYet : block ∉ operation.blocks := fun logged => fresh
    ((protocol.logged_running (protocol.running_of_mem inside) block).mp
      ⟨operation, listed, logged⟩)
  have less := List.sum_lt_sum (Operation.reserve ∘ Operation.log process block) Operation.reserve
    (fun other _ => reserve_log_le process block other)
    ⟨operation, member, reserve_log_lt mine (of_decide_eq_true unfinished)
      notYet (modest operation member mine)⟩
  rw [List.map_map]
  exact Nat.lt_of_lt_of_le (Nat.add_lt_add_left less _) reserved

theorem Reserved.logWrite (reserved : system.Reserved) (protocol : Protocol system)
    (inside : process ∈ system.machine.active) (modest : system.Modest (.logWrite process block))
    (roomy : system.Roomy (.logWrite process block))
    (logs : system.machine.logWrite process block = some after) :
    after.phase ≠ .stopped ∧
    Reserved
      { machine := after
        history := system.history.record system.machine (.logWrite process block) } := by
  have running := protocol.running_of_mem inside
  have pending : (system.history.record system.machine (.logWrite process block)).pending =
        system.history.pending.map (Operation.log process block) :=
    pending_log process block system.history.operations
  have room : system.machine.lh.length < LOGBLOCKS := by
    by_cases logged : block ∈ system.machine.lh
    · exact roomy logged
    · have bound := reserved.fresh protocol inside modest logged
      omega
  rcases LogMachine.logWrite_cases logs with ⟨-, full | none⟩ | ⟨-, rfl⟩ | ⟨fresh, -, rfl⟩
  · omega
  · have positive := List.length_pos_of_mem inside
    rw [protocol.counted] at none
    omega
  · refine ⟨by simp [running], ?_⟩
    have less := List.sum_le_sum (l := system.history.pending)
      fun other (_ : other ∈ system.history.pending) => reserve_log_le process block other
    rw [Reserved, pending, List.map_map]
    exact Nat.le_trans (Nat.add_le_add_left less _) reserved
  · refine ⟨by simp [LogMachine.setBuf, running], ?_⟩
    have bound := reserved.fresh protocol inside modest fresh
    rw [Reserved, pending]
    simp only [List.length_append, List.length_singleton]
    omega

theorem reserve_filter_finish_le (process : Nat) (operations : List Operation) :
    (((operations.map (Operation.finish process)).filter
        fun operation => operation.ended = false).map Operation.reserve).sum ≤
      ((operations.filter fun operation => operation.ended = false).map Operation.reserve).sum := by
  induction operations with
  | nil => exact le_rfl
  | cons operation operations induction =>
    by_cases ended : operation.ended = false
    · by_cases same : operation.process = process
      · simp only [List.map_cons, Operation.finish, same, ended, if_true,
          List.filter_cons, List.sum_cons, decide_true, reduceCtorEq,
          decide_false, Bool.false_eq_true, if_false]
        exact induction.trans (Nat.le_add_left _ _)
      · simp only [List.map_cons, Operation.finish, same, ended, if_true,
          List.filter_cons, List.sum_cons, decide_true, if_false]
        exact Nat.add_le_add_left induction _
    · by_cases same : operation.process = process
      · simpa [Operation.finish, same, ended] using induction
      · simpa [Operation.finish, same, ended] using induction

theorem Reserved.endOp (reserved : system.Reserved)
    (ends : system.machine.endOp process = some after) :
    Reserved
      { machine := after
        history := system.history.record system.machine (.endOp process) } := by
  have lh : after.lh = system.machine.lh := by
    simp only [LogMachine.endOp] at ends
    split at ends
    · cases ends
      rfl
    · split at ends
      all_goals
        cases ends
        rfl
    · cases ends
  have less := reserve_filter_finish_le process system.history.operations
  simp only [Reserved, lh]
  exact Nat.le_trans (Nat.add_le_add_left less _) reserved

/-- A step that obeys both rules does not panic and keeps the reservations. -/
theorem Reserved.step (reserved : system.Reserved) (protocol : Protocol system)
    {step : LogStep} (modest : system.Modest step)
    (roomy : system.Roomy step) (taken : system.next step = some after) :
    after.machine.phase ≠ .stopped ∧ after.Reserved := by
  obtain ⟨alive, orderly, machine, performs, rfl⟩ := next_eq taken
  cases step with
  | beginOp process => exact Reserved.beginOp protocol alive performs
  | bread process block =>
    obtain ⟨-, ⟨⟩⟩ := Option.ite_none_right_eq_some.mp performs
    exact ⟨alive, reserved⟩
  | modify process block data | brelse process block | evict block =>
    obtain ⟨-, rfl⟩ := LogMachine.of_cached performs
    exact ⟨alive, reserved⟩
  | logWrite process block => exact reserved.logWrite protocol orderly modest roomy performs
  | endOp process => exact ⟨(protocol.endOp orderly performs).2, reserved.endOp performs⟩
  | commit =>
    obtain ⟨kept, unstopped⟩ := protocol.commit performs
    refine ⟨unstopped, .of_idle kept ?_⟩
    have busy : system.machine.phase ≠ .running := by
      intro running
      simp [LogMachine.perform, LogMachine.commit, running] at performs
    have none := protocol.pending
    rw [protocol.idle busy] at none
    rw [← kept.pending]
    simp only [LogHistory.record]
    split
    · exact none
    · rfl
    · exact none
  | recover | crash => exact orderly.elim

end LogSystem

theorem reservations_suffice (start : Nat) (disk : Nat → Block) (steps : List LogStep)
    (system : LogSystem) (runs : run LogSystem.next (.initial start disk) steps = some system)
    (modest : Along LogSystem.next LogSystem.Modest (.initial start disk) steps)
    (roomy : Along LogSystem.next LogSystem.Roomy (.initial start disk) steps) :
    system.machine.phase ≠ .stopped := by
  have kept : ∀ {before : LogSystem} {step : LogStep} {after : LogSystem},
      (Protocol before ∧ before.machine.phase ≠ .stopped ∧ before.Reserved) →
      (before.Modest step ∧ before.Roomy step) →
      before.next step = some after →
      Protocol after ∧ after.machine.phase ≠ .stopped ∧ after.Reserved := by
    intro before step after holds rules taken
    obtain ⟨alive, reserved⟩ := holds.2.2.step holds.1 rules.1 rules.2 taken
    exact ⟨holds.1.step taken alive, alive, reserved⟩
  have start : Protocol (.initial start disk) := .initial start disk
  exact (run_preserves kept runs (modest.and roomy)
    ⟨start, by simp [LogSystem.initial], .of_idle start rfl⟩).2.1

/-- The steps of an operation that logs some blocks. -/
def logBlocks (process : Nat) (blocks : List Nat) : List LogStep :=
  blocks.flatMap fun block => [.bread process block, .logWrite process block, .brelse process block]

/-- Three operations that log ten blocks each. -/
def threeOperations : List LogStep :=
  [.beginOp 1, .beginOp 2, .beginOp 3] ++ logBlocks 1 (List.range' 40 10) ++
    logBlocks 2 (List.range' 50 10) ++ logBlocks 3 (List.range' 60 10)

def zeroLog : LogSystem := .initial 2 fun _ => Vector.replicate BSIZE 0

theorem reservations_suffice_threeOperations :
    ∃ system, run LogSystem.next zeroLog threeOperations = some system ∧
      system.machine.lh.length = LOGBLOCKS ∧
      system.machine.phase ≠ .stopped := by
  have facts : (run LogSystem.next zeroLog threeOperations).any
        (fun system => system.machine.lh.length = LOGBLOCKS) = true ∧
      Along LogSystem.next LogSystem.Modest zeroLog threeOperations ∧
      Along LogSystem.next LogSystem.Roomy zeroLog threeOperations := by
    decide +kernel
  obtain ⟨full, modest, roomy⟩ := facts
  rw [Option.any_eq_true] at full
  obtain ⟨system, runs, length⟩ := full
  exact ⟨system, runs, of_decide_eq_true length,
    reservations_suffice 2 _ threeOperations system runs modest roomy⟩

/-- Each of the three operations keeps to its ten blocks, and the first one
logs one of its blocks once more. -/
theorem relogging_in_full_log_panics : Along LogSystem.next LogSystem.Modest zeroLog
        (threeOperations ++ [.bread 1 40, .logWrite 1 40]) ∧
      (run LogSystem.next zeroLog (threeOperations ++ [.bread 1 40])).any
        (fun system => 40 ∈ system.machine.lh ∧ system.machine.outstanding = 3 ∧
          system.machine.lh.length = LOGBLOCKS) = true ∧
      (run LogSystem.next zeroLog (threeOperations ++ [.bread 1 40, .logWrite 1 40])).any
        (fun system => system.machine.phase = .stopped) = true := by
  decide +kernel

end Xv6KernelEvent
