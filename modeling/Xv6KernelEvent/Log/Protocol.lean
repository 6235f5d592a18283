import Mathlib.Algebra.Order.BigOperators.Group.List
import Mathlib.Data.List.Nodup
import Xv6KernelEvent.Library.Runs
import Xv6KernelEvent.Log.CrashSafety

/-!
# Group commit

The protocol of `begin_op`, `log_write`, `end_op` and `commit` after the log
has been recovered.  Processes only keep to the order of `begin_op` and
`end_op`: what they read, change, log and release is up to them.  A history
beside the machine records the operations begun since the last commit, the
`bpin`s made for them and the blocks that the commit in progress has installed.
-/

namespace Xv6KernelEvent

/-- An operation begun since the last commit and the distinct blocks that it
has passed to `log_write`. -/
structure Operation where
  process : Nat
  blocks : List Nat
  ended : Bool

namespace Operation

def log (process block : Nat) (operation : Operation) : Operation :=
  if operation.process = process ∧ operation.ended = false then
    { operation with blocks := operation.blocks.insert block }
  else operation

def finish (process : Nat) (operation : Operation) : Operation :=
  if operation.process = process then { operation with ended := true }
  else operation

/-- The log blocks that `begin_op` set aside and the operation has not
used. -/
def reserve (operation : Operation) : Nat := MAXOPBLOCKS - operation.blocks.length

end Operation

structure LogHistory where
  operations : List Operation
  pins : List Nat
  installed : List Nat

namespace LogHistory

def empty : LogHistory := { operations := [], pins := [], installed := [] }

def pending (history : LogHistory) : List Operation :=
  history.operations.filter fun operation => operation.ended = false

/-- What a step adds to the history. -/
def record (machine : LogMachine) (history : LogHistory) : LogStep → LogHistory
  | .beginOp process =>
    { history with
      operations := { process := process, blocks := [], ended := false } :: history.operations }
  | .logWrite process block =>
    { history with
      operations := history.operations.map (Operation.log process block)
      pins :=
        if block ∈ machine.lh then history.pins
        else history.pins ++ [block] }
  | .endOp process =>
    { history with
      operations := history.operations.map (Operation.finish process) }
  | .commit =>
    match machine.phase with
    | .committing (.installTrans tail) =>
      { history with
        installed := history.installed ++ machine.lh[tail]?.toList }
    | .committing .finish => empty
    | _ => history
  | _ => history

end LogHistory

/-- What a step does, whatever the processes' habits. -/
def LogMachine.perform (machine : LogMachine) : LogStep → Option LogMachine
  | .beginOp process => machine.beginOp process
  | .bread process block => machine.bread process block
  | .modify process block data => machine.modify process block data
  | .logWrite process block => machine.logWrite process block
  | .brelse process block => machine.brelse process block
  | .endOp process => machine.endOp process
  | .evict block => machine.evict block
  | .commit => machine.commit
  | .recover => machine.recover
  | .crash => some (bootedMachine machine.start machine.disk)

structure LogSystem where
  machine : LogMachine
  history : LogHistory

namespace LogSystem

/-- The discipline of `begin_op` and `end_op`. -/
def Orderly (system : LogSystem) : LogStep → Prop
  | .beginOp process => process ∉ system.machine.active
  | .logWrite process _ | .endOp process => process ∈ system.machine.active
  | .recover | .crash => False
  | _ => True

instance (system : LogSystem) (step : LogStep) : Decidable (system.Orderly step) :=
  match step with
  | .beginOp _ => inferInstanceAs (Decidable (¬_))
  | .bread _ _ | .modify _ _ _ => isTrue trivial
  | .logWrite _ _ => inferInstanceAs (Decidable (_ ∈ _))
  | .brelse _ _ => isTrue trivial
  | .endOp _ => inferInstanceAs (Decidable (_ ∈ _))
  | .evict _ | .commit => isTrue trivial
  | .recover | .crash => isFalse id

/-- A panic stops the machine. -/
def next (system : LogSystem) (step : LogStep) : Option LogSystem :=
  if system.machine.phase ≠ .stopped ∧ system.Orderly step then
    (system.machine.perform step).map fun after =>
      { machine := after
        history := system.history.record system.machine step }
  else none

/-- The log after its recovery. -/
def initial (start : Nat) (disk : Nat → Block) : LogSystem :=
  { machine := { bootedMachine start disk with phase := .running }
    history := .empty }

/-- The blocks of the current group. -/
def group (system : LogSystem) : List Nat :=
  match system.machine.phase with
  | .committing .clearHead | .committing .finish => system.history.installed
  | _ => system.machine.lh

end LogSystem

/-- References are the holder's and those of `log_write`. -/
def LogMachine.Referenced (machine : LogMachine) : Prop :=
  ∀ block, (machine.fetch block).refcnt =
    (if (machine.fetch block).holder = none then 0 else 1) + machine.pinned.count block

/-- How far a commit has come with the group. -/
def CommitProgress (lh pins installed : List Nat) : LogPhase → Prop
  | .running | .committing (.writeLog _) | .committing .writeHead => pins = lh ∧ installed = []
  | .committing (.installTrans tail) => pins = lh ∧ installed = lh.take tail
  | .committing .clearHead | .committing .finish => lh = []
  | _ => False

structure Protocol (system : LogSystem) : Prop where
  counted : system.machine.outstanding = system.machine.active.length
  single : system.machine.active.Nodup
  pending : system.history.pending.map Operation.process = system.machine.active
  idle : system.machine.phase ≠ .running → system.machine.active = []
  distinct : system.machine.lh.Nodup
  short : system.machine.lh.length ≤ LOGBLOCKS
  quiet : system.machine.phase = .running → system.machine.active = [] → system.machine.lh = []
  referenced : system.machine.Referenced
  progress : CommitProgress system.machine.lh system.history.pins
    system.history.installed system.machine.phase
  logged : ∀ block, (∃ operation ∈ system.history.operations, block ∈ operation.blocks) ↔
      block ∈ system.group

namespace LogMachine

variable {machine : LogMachine}

theorem Referenced.setBuf (referenced : machine.Referenced)
    (refcnt : buf.refcnt = (if buf.holder = none then 0 else 1) + machine.pinned.count block) :
    (machine.setBuf block buf).Referenced := by
  intro other
  rw [fetch_setBuf]
  split
  · subst other
    exact refcnt
  · exact referenced other

/-- Contents do not matter. -/
theorem Referenced.of_fetch (referenced : machine.Referenced) {other : LogMachine}
    (same : ∀ block, ((other.fetch block).refcnt, (other.fetch block).holder) =
      ((machine.fetch block).refcnt, (machine.fetch block).holder))
    (pinned : other.pinned = machine.pinned) : other.Referenced := by
  intro block
  simp only [Prod.mk.injEq] at same
  rw [(same block).1, (same block).2, pinned]
  exact referenced block

/-- The parts of `struct log` that a step of a commit leaves alone. -/
structure SameLog (before after : LogMachine) : Prop where
  outstanding : after.outstanding = before.outstanding
  active : after.active = before.active
  lh : after.lh = before.lh

/-- A write to the log leaves the references of the blocks alone, too. -/
structure LogOnly (before after : LogMachine) : Prop extends SameLog before after where
  references (block : Nat) : ((after.fetch block).refcnt, (after.fetch block).holder) =
    ((before.fetch block).refcnt, (before.fetch block).holder)

theorem writeLogBlock_log (writes : machine.writeLogBlock tail block = some after) :
    machine.LogOnly after := by
  obtain ⟨-, ⟨⟩⟩ := Option.ite_none_right_eq_some.mp writes
  refine ⟨⟨rfl, rfl, rfl⟩, ?_⟩
  intro other
  rw [fetch_bwrite, LogMachine.setBuf_fetch]
  split
  · subst other
    rfl
  · rfl

theorem writeHead_log (writes : machine.writeHead = some after) : machine.LogOnly after := by
  obtain ⟨-, ⟨⟩⟩ := Option.ite_none_right_eq_some.mp writes
  refine ⟨⟨rfl, rfl, rfl⟩, ?_⟩
  intro other
  rw [fetch_bwrite]
  split
  · subst other
    rfl
  · rfl

theorem installBlock_log (writes : machine.installBlock false tail block = some after) :
    SameLog machine after ∧ (machine.fetch block).holder = none ∧ ∀ other,
        (after.fetch other).refcnt = (if other = block then (machine.fetch other).refcnt - 1
          else (machine.fetch other).refcnt) ∧
        (after.fetch other).holder = (machine.fetch other).holder := by
  obtain ⟨free, ⟨⟩⟩ := Option.ite_none_right_eq_some.mp writes
  refine ⟨⟨rfl, rfl, rfl⟩, free.2, ?_⟩
  intro other
  rw [fetch_bwrite, LogMachine.setBuf_fetch]
  split
  · subst other
    exact ⟨rfl, rfl⟩
  · exact ⟨rfl, rfl⟩

end LogMachine

theorem Operation.finish_blocks (process : Nat) (operation : Operation) :
    (operation.finish process).blocks = operation.blocks := by
  unfold Operation.finish
  split <;> rfl

theorem Operation.log_process (process block : Nat) (operation : Operation) :
    (operation.log process block).process = operation.process := by
  unfold Operation.log
  split <;> rfl

theorem Operation.log_ended (process block : Nat) (operation : Operation) :
    (operation.log process block).ended = operation.ended := by
  unfold Operation.log
  split <;> rfl

theorem pending_log (process block : Nat) (operations : List Operation) :
    (operations.map (Operation.log process block)).filter
        (fun operation => operation.ended = false) =
      (operations.filter fun operation => operation.ended = false).map
        (Operation.log process block) := by
  rw [List.filter_map]
  congr 1
  apply List.filter_congr
  intro operation _
  simp only [Function.comp_apply, Operation.log_ended]

/-- A logged block belongs to its operation. -/
theorem logged_log {process : Nat} {operations : List Operation} {operation : Operation}
    (member : operation ∈ operations) (mine : operation.process = process)
    (unfinished : operation.ended = false) (block other : Nat) :
    (∃ operation ∈ operations.map (Operation.log process block), other ∈ operation.blocks) ↔
      other = block ∨ ∃ operation ∈ operations, other ∈ operation.blocks := by
  constructor
  · rintro ⟨logged, found, inside⟩
    obtain ⟨before, earlier, rfl⟩ := List.mem_map.mp found
    unfold Operation.log at inside
    split at inside
    · rcases List.mem_insert_iff.mp inside with same | old
      · exact .inl same
      · exact .inr ⟨before, earlier, old⟩
    · exact .inr ⟨before, earlier, inside⟩
  · rintro (rfl | ⟨before, earlier, inside⟩)
    · refine ⟨_, List.mem_map_of_mem member, ?_⟩
      simp [Operation.log, mine, unfinished]
    · refine ⟨_, List.mem_map_of_mem earlier, ?_⟩
      unfold Operation.log
      split
      · exact List.mem_insert_of_mem inside
      · exact inside

theorem pending_finish (process : Nat) (operations : List Operation) :
    ((operations.map (Operation.finish process)).filter
        fun operation => operation.ended = false).map Operation.process =
      ((operations.filter fun operation => operation.ended = false).map
          Operation.process).filter (· != process) := by
  induction operations with
  | nil => rfl
  | cons operation operations induction =>
    by_cases same : operation.process = process
    · by_cases ended : operation.ended = false
      · simpa [Operation.finish, same, ended] using induction
      · simpa [Operation.finish, same, ended] using induction
    · by_cases ended : operation.ended = false
      · simpa [Operation.finish, same, ended] using induction
      · simpa [Operation.finish, same, ended] using induction

theorem LogSystem.next_eq {system : LogSystem} (taken : system.next step = some after) :
    system.machine.phase ≠ .stopped ∧ system.Orderly step ∧
      ∃ machine, system.machine.perform step = some machine ∧
        after = ⟨machine, system.history.record system.machine step⟩ := by
  obtain ⟨⟨alive, orderly⟩, taken⟩ := Option.ite_none_right_eq_some.mp taken
  obtain ⟨machine, performs, rfl⟩ := Option.map_eq_some_iff.mp taken
  exact ⟨alive, orderly, machine, performs, rfl⟩

namespace Protocol

variable {system : LogSystem}

theorem initial (start : Nat) (disk : Nat → Block) : Protocol (.initial start disk) := by
  constructor
  · rfl
  · exact List.nodup_nil
  · rfl
  · exact fun _ => rfl
  · exact List.nodup_nil
  · exact Nat.zero_le _
  · exact fun _ _ => rfl
  · intro block
    rfl
  · exact ⟨rfl, rfl⟩
  · intro block
    simp [LogSystem.initial, LogHistory.empty, LogSystem.group, bootedMachine]

section

variable (protocol : Protocol system)

include protocol

/-- Steps outside the log only have to keep the references right. -/
theorem of_buffers (outstanding : after.outstanding = system.machine.outstanding)
    (active : after.active = system.machine.active) (phase : after.phase = system.machine.phase)
    (lh : after.lh = system.machine.lh) (referenced : after.Referenced) :
    Protocol { machine := after, history := system.history } := by
  obtain ⟨counted, single, pending, idle, distinct, short, quiet, -, progress, logged⟩ := protocol
  refine ⟨?_, ?_, ?_, ?_, ?_, ?_, ?_, referenced, ?_, ?_⟩ <;>
    simp only [LogSystem.group, outstanding, active, phase, lh]
  · exact counted
  · exact single
  · exact pending
  · exact idle
  · exact distinct
  · exact short
  · exact quiet
  · exact progress
  · exact logged

theorem bread (reads : system.machine.bread process block = some after) :
    Protocol { machine := after, history := system.history } := by
  obtain ⟨free, ⟨⟩⟩ := Option.ite_none_right_eq_some.mp reads
  refine protocol.of_buffers rfl rfl rfl rfl (protocol.referenced.setBuf ?_)
  have before := protocol.referenced block
  simp only [free, if_true] at before
  simp only [before, reduceCtorEq, if_false]
  omega

theorem brelse (releases : system.machine.brelse process block = some after) :
    Protocol { machine := after, history := system.history } := by
  obtain ⟨holds, rfl⟩ := LogMachine.of_cached releases
  refine protocol.of_buffers rfl rfl rfl rfl (protocol.referenced.setBuf ?_)
  have before := protocol.referenced block
  simp only [holds, reduceCtorEq, if_false] at before
  simp only [if_true]
  omega

theorem modify (modifies : system.machine.modify process block data = some after) :
    Protocol { machine := after, history := system.history } := by
  obtain ⟨-, rfl⟩ := LogMachine.of_cached modifies
  have referenced := protocol.referenced.setBuf
    (show ({ system.machine.fetch block with data := data } : Buf).refcnt = _ from
      protocol.referenced block)
  exact protocol.of_buffers rfl rfl rfl rfl (referenced.of_fetch (fun _ => rfl) rfl)

theorem drop (drops : system.machine.Drops dropped) : Protocol
      { machine := system.machine.drop dropped, history := system.history } := by
  refine protocol.of_buffers rfl rfl rfl rfl ?_
  intro block
  change _ = _ + system.machine.pinned.count block
  have before := protocol.referenced block
  rcases drops.fetch block with same | ⟨gone, absent⟩
  · rw [same]
    exact before
  · rw [gone] at before
    have unpinned : system.machine.pinned.count block = 0 := by omega
    simp [absent, unpinned]

theorem evict (evicts : system.machine.evict block = some after) :
    Protocol { machine := after, history := system.history } := by
  obtain ⟨unreferenced, rfl⟩ := LogMachine.of_cached evicts
  exact protocol.drop (LogMachine.drops_evict unreferenced)

theorem beginOp (outside : process ∉ system.machine.active)
    (begins : system.machine.beginOp process = some after) :
    Protocol
      { machine := after
        history := system.history.record system.machine (.beginOp process) } := by
  obtain ⟨notBusy, begins⟩ := Option.ite_none_left_eq_some.mp begins
  obtain ⟨-, ⟨⟩⟩ := Option.ite_none_left_eq_some.mp begins
  have running := not_not.mp notBusy
  refine ⟨?_, ?_, ?_, ?_, protocol.distinct, protocol.short, ?_, ?_, protocol.progress, ?_⟩
  · simp [protocol.counted]
  · exact List.nodup_cons.mpr ⟨outside, protocol.single⟩
  · have pending := protocol.pending
    simpa [LogHistory.record, LogHistory.pending] using pending
  · exact fun busy => absurd running busy
  · intro _ empty
    cases empty
  · exact protocol.referenced.of_fetch (fun _ => rfl) rfl
  · intro block
    have logged := protocol.logged block
    simp only [LogSystem.group, running] at logged
    simp only [LogHistory.record, LogSystem.group, running,
      List.mem_cons, exists_eq_or_imp, List.not_mem_nil, false_or]
    exact logged

theorem running_of_mem (member : process ∈ system.machine.active) :
    system.machine.phase = .running := by
  by_contra busy
  rw [protocol.idle busy] at member
  cases member

theorem logged_running (running : system.machine.phase = .running) (block : Nat) :
    (∃ operation ∈ system.history.operations, block ∈ operation.blocks) ↔
      block ∈ system.machine.lh := by
  have logged := protocol.logged block
  simp only [LogSystem.group, running] at logged
  exact logged

/-- The operation of a process in progress. -/
theorem operation_of_mem (member : process ∈ system.machine.active) :
    ∃ operation ∈ system.history.pending, operation.process = process := by
  rw [← protocol.pending, List.mem_map] at member
  exact member

theorem endOp (inside : process ∈ system.machine.active)
    (ends : system.machine.endOp process = some after) :
    Protocol
      { machine := after
        history := system.history.record system.machine (.endOp process) } ∧
      after.phase ≠ .stopped := by
  have running := protocol.running_of_mem inside
  have positive : 0 < system.machine.active.length := List.length_pos_of_mem inside
  have pending : (system.history.record system.machine (.endOp process)).pending.map
        Operation.process = system.machine.active.erase process := by
    rw [protocol.single.erase_eq_filter, ← protocol.pending]
    simp only [LogHistory.record, LogHistory.pending]
    exact pending_finish process system.history.operations
  have logged (block : Nat) : (∃ operation ∈
          (system.history.record system.machine (.endOp process)).operations,
        block ∈ operation.blocks) ↔ block ∈ system.machine.lh := by
    rw [← protocol.logged_running running block]
    simp [LogHistory.record, Operation.finish_blocks]
  have counted : system.machine.outstanding - 1 = (system.machine.active.erase process).length := by
    rw [List.length_erase_of_mem inside, protocol.counted]
  have progress := protocol.progress
  rw [running] at progress
  have pinned : system.machine.pinned = system.machine.lh := by
    simp only [LogMachine.pinned, running]
  simp only [LogMachine.endOp, running] at ends
  split at ends
  · rename_i last
    cases ends
    have done : system.machine.active.erase process = [] :=
      List.eq_nil_of_length_eq_zero (counted.symm.trans last)
    refine ⟨?_, by simp⟩
    by_cases empty : system.machine.lh = []
    · refine ⟨counted, protocol.single.erase _, pending, fun _ => done,
        protocol.distinct, protocol.short, fun _ _ => empty, ?_, ?_, ?_⟩
      · refine protocol.referenced.of_fetch (fun _ => rfl) ?_
        rw [pinned]
        simp [LogMachine.pinned, empty]
      · simp [CommitProgress, empty]
      · intro block
        rw [logged block]
        simp [LogSystem.group, empty, LogHistory.record, progress.2]
    · refine ⟨counted, protocol.single.erase _, pending, fun _ => done,
        protocol.distinct, protocol.short, ?_, ?_, ?_, ?_⟩
      · simp [empty]
      · refine protocol.referenced.of_fetch (fun _ => rfl) ?_
        rw [pinned]
        simp [LogMachine.pinned, empty]
      · simp only [empty, if_false]
        exact progress
      · intro block
        rw [logged block]
        simp [LogSystem.group, empty]
  · rename_i others
    cases ends
    refine ⟨⟨counted, protocol.single.erase _, pending, ?_, protocol.distinct,
      protocol.short, ?_, ?_, ?_, ?_⟩, ?_⟩
    · exact fun busy => absurd rfl busy
    · intro _ done
      exact absurd (counted.trans (congrArg List.length done)) others
    · exact protocol.referenced.of_fetch (fun _ => rfl) pinned.symm
    · exact progress
    · exact logged
    · simp

theorem referenced_pin (running : system.machine.phase = .running) (block : Nat) :
    (system.machine.pin block).Referenced := by
  intro other
  have before := protocol.referenced other
  have pinned : system.machine.pinned = system.machine.lh := by
    simp only [LogMachine.pinned, running]
  have pins : (system.machine.pin block).pinned = system.machine.lh ++ [block] := by
    simp only [LogMachine.pinned, LogMachine.setBuf, running]
  rw [pinned] at before
  rw [pins, show (system.machine.pin block).fetch other = _ from
    LogMachine.fetch_setBuf block other _, List.count_append]
  by_cases same : other = block
  · subst other
    simp only [if_true, before, List.count_singleton_self]
    omega
  · rw [if_neg same, before]
    simp [Ne.symm same]

theorem logWrite {process block : Nat} {after : LogMachine}
    (inside : process ∈ system.machine.active)
    (logs : system.machine.logWrite process block = some after) (alive : after.phase ≠ .stopped) :
    Protocol
      { machine := after
        history := system.history.record system.machine (.logWrite process block) } := by
  have running := protocol.running_of_mem inside
  obtain ⟨operation, member, mine⟩ := protocol.operation_of_mem inside
  have pending : (system.history.record system.machine
        (.logWrite process block)).pending.map Operation.process =
          system.machine.active := by
    have kept : Operation.process ∘ Operation.log process block =
        Operation.process := by
      funext operation
      exact Operation.log_process process block operation
    rw [← protocol.pending]
    simp only [LogHistory.record, LogHistory.pending, pending_log, List.map_map, kept]
  have logged (other : Nat) : (∃ operation ∈ (system.history.record system.machine
          (.logWrite process block)).operations, other ∈ operation.blocks) ↔
        other = block ∨ other ∈ system.machine.lh := by
    rw [← protocol.logged_running running other]
    obtain ⟨found, unfinished⟩ := List.mem_filter.mp member
    exact logged_log found mine (of_decide_eq_true unfinished) block other
  obtain ⟨pins, installed⟩ : system.history.pins = system.machine.lh ∧
      system.history.installed = [] := by
    have progress := protocol.progress
    rwa [running] at progress
  rcases LogMachine.logWrite_cases logs with ⟨rfl, -⟩ | ⟨absorbed, rfl⟩ | ⟨fresh, room, rfl⟩
  · exact absurd rfl alive
  · refine ⟨protocol.counted, protocol.single, pending, protocol.idle,
      protocol.distinct, protocol.short, protocol.quiet, ?_, ?_, ?_⟩
    · exact protocol.referenced.of_fetch (fun _ => rfl) rfl
    · simpa [LogHistory.record, absorbed] using protocol.progress
    · intro other
      rw [logged other]
      simp only [LogSystem.group, running]
      constructor
      · rintro (rfl | old)
        · exact absorbed
        · exact old
      · exact .inr
  · refine ⟨protocol.counted, protocol.single, pending, protocol.idle,
      ?_, ?_, ?_, referenced_pin protocol running block, ?_, ?_⟩
    · have distinct := List.Nodup.concat fresh protocol.distinct
      rwa [List.concat_eq_append] at distinct
    · simp only [List.length_append, List.length_singleton]
      omega
    · intro _ done
      rw [show system.machine.active = [] from done] at inside
      cases inside
    · simp [LogHistory.record, LogMachine.setBuf, running,
        CommitProgress, fresh, pins, installed]
    · intro other
      rw [logged other]
      simp [LogSystem.group, LogMachine.setBuf, running, or_comm]

/-- A step of a commit changes neither the operations nor the group. -/
theorem of_commit (busy : system.machine.phase ≠ .running)
    (outstanding : after.outstanding = system.machine.outstanding)
    (active : after.active = system.machine.active) (still : after.phase ≠ .running)
    (distinct : after.lh.Nodup) (short : after.lh.length ≤ LOGBLOCKS)
    (referenced : after.Referenced)
    (progress : CommitProgress after.lh system.history.pins installed after.phase)
    (group : LogSystem.group
        { machine := after
          history := { system.history with installed := installed } } =
      system.group) :
    Protocol
      { machine := after
        history := { system.history with installed := installed } } := by
  have idle := protocol.idle busy
  refine ⟨?_, ?_, ?_, ?_, distinct, short, ?_, referenced, progress, ?_⟩
  · rw [outstanding, active]
    exact protocol.counted
  · rw [active]
    exact protocol.single
  · rw [active]
    exact protocol.pending
  · exact fun _ => active.trans idle
  · exact fun running => absurd running still
  · intro block
    rw [group]
    exact protocol.logged block

/-- A write to the log only moves the commit to its next phase. -/
theorem of_log (phase : system.machine.phase = .committing pc)
    (logged : system.machine.LogOnly written) (live : later ≠ .running ∧ later ≠ .stopped)
    (pinned : { system.machine with phase := later }.pinned = system.machine.pinned)
    (progress : CommitProgress system.machine.lh system.history.pins system.history.installed
      (.committing pc) → CommitProgress system.machine.lh system.history.pins
        system.history.installed later)
    (group : LogSystem.group
      { system with machine := { system.machine with phase := later } } = system.group) :
    Protocol { machine := written.setPhase later, history := system.history } ∧
      (written.setPhase later).phase ≠ .stopped := by
  obtain ⟨same, references⟩ := logged
  have busy : system.machine.phase ≠ .running := by simp [phase]
  refine ⟨protocol.of_commit busy same.outstanding same.active live.1 ?_ ?_ ?_ ?_ ?_, live.2⟩
  · exact same.lh ▸ protocol.distinct
  · exact same.lh ▸ protocol.short
  · refine protocol.referenced.of_fetch references ?_
    rw [← pinned]
    simp only [LogMachine.pinned, LogMachine.setPhase, same.lh]
  · simp only [LogMachine.setPhase, same.lh]
    exact progress (phase ▸ protocol.progress)
  · rw [← group]
    simp only [LogSystem.group, LogMachine.setPhase, same.lh]

theorem commit_writeLog (phase : system.machine.phase = .committing (.writeLog tail))
    (commits : system.machine.commit = some after) :
    Protocol { machine := after, history := system.history } ∧ after.phase ≠ .stopped := by
  simp only [LogMachine.commit, phase] at commits
  split at commits
  · obtain ⟨written, writes, commits⟩ := Option.bind_eq_some_iff.mp commits
    cases commits
    exact protocol.of_log phase (LogMachine.writeLogBlock_log writes) (by simp)
      (by simp [LogMachine.pinned, phase]) id (by simp [LogSystem.group, phase])
  · cases commits
    exact protocol.of_log phase ⟨⟨rfl, rfl, rfl⟩, fun _ => rfl⟩ (by simp)
      (by simp [LogMachine.pinned, phase]) id (by simp [LogSystem.group, phase])

theorem commit_installTrans (phase : system.machine.phase = .committing (.installTrans tail))
    (commits : system.machine.commit = some after) :
    Protocol
      { machine := after
        history :=
          { system.history with
            installed := system.history.installed ++ system.machine.lh[tail]?.toList } } ∧
      after.phase ≠ .stopped := by
  have busy : system.machine.phase ≠ .running := by simp [phase]
  obtain ⟨pins, installed⟩ : system.history.pins = system.machine.lh ∧
      system.history.installed = system.machine.lh.take tail := by
    have progress := protocol.progress
    rwa [phase] at progress
  have pinned : system.machine.pinned = system.machine.lh.drop tail := by
    simp only [LogMachine.pinned, phase]
  simp only [LogMachine.commit, phase] at commits
  split at commits
  · rename_i block entry
    obtain ⟨below, found⟩ := List.getElem?_eq_some_iff.mp entry
    obtain ⟨written, writes, commits⟩ := Option.bind_eq_some_iff.mp commits
    cases commits
    obtain ⟨same, free, fetched⟩ := LogMachine.installBlock_log writes
    refine ⟨protocol.of_commit busy same.outstanding same.active ?_ ?_ ?_ ?_ ?_ ?_, ?_⟩
    · simp [LogMachine.setPhase]
    · exact same.lh ▸ protocol.distinct
    · exact same.lh ▸ protocol.short
    · intro other
      have before := protocol.referenced other
      have later : LogMachine.pinned (written.setPhase (.committing (.installTrans (tail + 1)))) =
          system.machine.lh.drop (tail + 1) := by
        simp [LogMachine.pinned, LogMachine.setPhase, same.lh]
      rw [pinned, List.drop_eq_getElem_cons below, found] at before
      rw [later]
      change (written.fetch other).refcnt =
        (if (written.fetch other).holder = none then 0 else 1) + _
      rw [(fetched other).1, (fetched other).2]
      by_cases here : other = block
      · subst other
        simp only [free, if_true, List.count_cons_self] at before ⊢
        omega
      · rw [if_neg here, before, List.count_cons_of_ne (Ne.symm here)]
    · simp only [CommitProgress, LogMachine.setPhase, same.lh]
      refine ⟨pins, ?_⟩
      rw [installed, List.take_add_one]
    · simp [LogSystem.group, LogMachine.setPhase, phase, same.lh]
    · simp [LogMachine.setPhase]
  · rename_i beyond
    have complete := List.getElem?_eq_none_iff.mp beyond
    cases commits
    refine ⟨protocol.of_commit busy rfl rfl ?_ List.nodup_nil (Nat.zero_le _) ?_ rfl ?_, ?_⟩
    · simp
    · refine protocol.referenced.of_fetch (fun _ => rfl) ?_
      rw [pinned, List.drop_eq_nil_of_le complete]
      rfl
    · simp [LogSystem.group, phase, installed, beyond, List.take_of_length_le complete]
    · simp

theorem commit_finish (phase : system.machine.phase = .committing .finish)
    (commits : system.machine.commit = some after) :
    Protocol { machine := after, history := .empty } ∧ after.phase ≠ .stopped := by
  have busy : system.machine.phase ≠ .running := by simp [phase]
  have idle := protocol.idle busy
  have empty : system.machine.lh = [] := by
    have progress := protocol.progress
    rwa [phase] at progress
  simp only [LogMachine.commit, phase] at commits
  cases commits
  refine ⟨⟨protocol.counted, protocol.single, idle.symm, fun _ => idle,
    protocol.distinct, protocol.short, fun _ _ => empty, ?_, ⟨empty.symm, rfl⟩,
    ?_⟩, ?_⟩
  · refine protocol.referenced.of_fetch (fun _ => rfl) ?_
    simp [LogMachine.pinned, LogMachine.setPhase, phase]
  · intro block
    simp [LogSystem.group, LogHistory.empty, LogMachine.setPhase, empty]
  · simp [LogMachine.setPhase]

theorem commit (commits : system.machine.commit = some after) :
    Protocol
      { machine := after
        history := system.history.record system.machine .commit } ∧
      after.phase ≠ .stopped := by
  cases phase : system.machine.phase with
  | committing pc =>
    simp only [LogHistory.record, phase]
    cases pc with
    | writeLog tail => exact protocol.commit_writeLog phase commits
    | installTrans tail => exact protocol.commit_installTrans phase commits
    | writeHead | clearHead =>
      simp only [LogMachine.commit, phase] at commits
      obtain ⟨written, writes, commits⟩ := Option.bind_eq_some_iff.mp commits
      cases commits
      exact protocol.of_log phase (LogMachine.writeHead_log writes) (by simp)
        (by simp [LogMachine.pinned, phase]) id (by simp [LogSystem.group, phase])
    | finish => exact protocol.commit_finish phase commits
  | _ => simp [LogMachine.commit, phase] at commits

/-- While the group has blocks to write, each was pinned for it. -/
theorem pins_eq (member : block ∈ system.machine.lh) : system.history.pins = system.machine.lh := by
  have progress := protocol.progress
  cases phase : system.machine.phase with
  | committing pc =>
    rw [phase] at progress
    cases pc with
    | clearHead | finish =>
      rw [show system.machine.lh = [] from progress] at member
      cases member
    | _ => exact progress.1
  | recovering pc | stopped =>
    rw [phase] at progress
    exact progress.elim
  | running =>
    rw [phase] at progress
    exact progress.1

/-- No operation is in progress during a commit. -/
theorem ended (busy : system.machine.phase ≠ .running)
    (member : operation ∈ system.history.operations) : operation.ended = true := by
  have none := protocol.pending
  rw [protocol.idle busy, List.map_eq_nil_iff, LogHistory.pending, List.filter_eq_nil_iff] at none
  simpa using none operation member

theorem step {step : LogStep} (taken : system.next step = some after)
    (alive : after.machine.phase ≠ .stopped) : Protocol after := by
  obtain ⟨-, orderly, machine, performs, rfl⟩ := LogSystem.next_eq taken
  cases step with
  | beginOp process => exact protocol.beginOp orderly performs
  | bread process block => exact protocol.bread performs
  | modify process block data => exact protocol.modify performs
  | logWrite process block => exact protocol.logWrite orderly performs alive
  | brelse process block => exact protocol.brelse performs
  | endOp process => exact (protocol.endOp orderly performs).1
  | evict block => exact protocol.evict performs
  | commit => exact (protocol.commit performs).1
  | recover | crash => exact orderly.elim

end

end Protocol

open Runs

theorem protocol_of_run {start : Nat} {disk : Nat → Block} {steps : List LogStep}
    {system : LogSystem} (runs : run LogSystem.next (.initial start disk) steps = some system)
    (alive : system.machine.phase ≠ .stopped) : Protocol system := by
  have kept : ∀ {before : LogSystem} {step : LogStep} {after : LogSystem},
      (before.machine.phase ≠ .stopped → Protocol before) →
      before.next step = some after →
      after.machine.phase ≠ .stopped → Protocol after := by
    intro before step after holds taken alive
    exact (holds (LogSystem.next_eq taken).1).step taken alive
  exact run_invariant kept runs (fun _ => Protocol.initial start disk) alive

/-- A round of `install_trans` writes the log block to its home and nothing
else. -/
theorem LogMachine.commit_installTrans_disk {machine after : LogMachine}
    (phase : machine.phase = .committing (.installTrans tail))
    (commits : machine.commit = some after) :
    after.disk = machine.lh[tail]?.elim machine.disk fun block =>
      Function.update machine.disk block (machine.fetch (machine.start + tail + 1)).data := by
  simp only [LogMachine.commit, phase] at commits
  cases entry : machine.lh[tail]? with
  | none =>
    simp only [entry, Option.some.injEq] at commits
    subst after
    rfl
  | some block =>
    simp only [entry] at commits
    obtain ⟨written, writes, ⟨⟩⟩ := Option.bind_eq_some_iff.mp commits
    obtain ⟨-, ⟨⟩⟩ := Option.ite_none_right_eq_some.mp writes
    rfl

/-- The blocks that a commit has installed when `install_trans` is done. -/
def LogSystem.Installed (system : LogSystem) : Prop :=
  system.machine.phase = .committing .clearHead ∨ system.machine.phase = .committing .finish

theorem log_protocol (start : Nat) (disk : Nat → Block) (steps : List LogStep) (system : LogSystem)
    (runs : run LogSystem.next (.initial start disk) steps = some system)
    (alive : system.machine.phase ≠ .stopped) :
    (∀ pc, system.machine.phase = .committing pc → system.machine.outstanding = 0 ∧
        ∀ process block, system.next (.logWrite process block) = none) ∧
    (∀ process after, system.next (.endOp process) = some after → after.machine.phase ≠ .stopped) ∧
    system.machine.lh.Nodup ∧ system.machine.lh.length ≤ LOGBLOCKS ∧
    (∀ block ∈ system.machine.lh, system.history.pins.count block = 1) ∧
    (∀ block, (system.machine.fetch block).refcnt =
      (if (system.machine.fetch block).holder = none then 0 else 1) +
        system.machine.pinned.count block) ∧
    (system.machine.phase = .running → system.machine.outstanding = 0 → system.machine.lh = [] ∧
        ∀ process, (system.machine.beginOp process).isSome) ∧
    (∀ tail after, system.machine.phase = .committing (.installTrans tail) →
      system.next .commit = some after →
      after.history.installed = system.history.installed ++ system.machine.lh[tail]?.toList ∧
      after.machine.disk = system.machine.lh[tail]?.elim system.machine.disk fun block =>
        Function.update system.machine.disk block
          (system.machine.fetch (system.machine.start + tail + 1)).data) ∧
    (system.Installed → ∀ block, block ∈ system.history.installed ↔
      ∃ operation ∈ system.history.operations,
        operation.ended = true ∧ block ∈ operation.blocks) := by
  have protocol := protocol_of_run runs alive
  refine ⟨?_, ?_, protocol.distinct, protocol.short, ?_, protocol.referenced, ?_, ?_, ?_⟩
  · intro pc committing
    have idle := protocol.idle (by simp [committing])
    refine ⟨by rw [protocol.counted, idle]; rfl, ?_⟩
    intro process block
    simp [LogSystem.next, LogSystem.Orderly, idle]
  · intro process after taken
    obtain ⟨-, orderly, machine, performs, rfl⟩ := LogSystem.next_eq taken
    exact (protocol.endOp orderly performs).2
  · intro block member
    rw [protocol.pins_eq member]
    exact List.count_eq_one_of_mem protocol.distinct member
  · intro running none
    have idle : system.machine.active = [] :=
      List.eq_nil_of_length_eq_zero (protocol.counted.symm.trans none)
    have empty := protocol.quiet running idle
    refine ⟨empty, ?_⟩
    intro process
    simp [LogMachine.beginOp, running, empty, none, MAXOPBLOCKS, LOGBLOCKS]
  · intro tail after phase taken
    obtain ⟨-, -, machine, performs, rfl⟩ := LogSystem.next_eq taken
    exact ⟨by simp only [LogHistory.record, phase],
      LogMachine.commit_installTrans_disk phase performs⟩
  · intro installed block
    have logged := protocol.logged block
    have group : system.group = system.history.installed := by
      rcases installed with phase | phase <;> simp only [LogSystem.group, phase]
    have busy : system.machine.phase ≠ .running := by
      rcases installed with phase | phase <;> simp [phase]
    rw [← group, ← logged]
    constructor
    · rintro ⟨operation, member, inside⟩
      exact ⟨operation, member, protocol.ended busy member, inside⟩
    · rintro ⟨operation, member, _, inside⟩
      exact ⟨operation, member, inside⟩

/-- Two operations that share a block, up to the end of `install_trans`. -/
def sharedBlock : List LogStep :=
  [.beginOp 1, .beginOp 2, .bread 1 40, .logWrite 1 40, .brelse 1 40,
    .bread 2 40, .logWrite 2 40, .brelse 2 40, .bread 2 41, .logWrite 2 41,
    .brelse 2 41, .endOp 1, .endOp 2] ++ List.replicate 7 .commit

theorem log_protocol_sharedBlock : ∃ system,
      run LogSystem.next (.initial 2 fun _ => Vector.replicate BSIZE 0) sharedBlock = some system ∧
      system.Installed ∧ system.history.installed = [40, 41] ∧
      (∃ operation ∈ system.history.operations,
        operation.ended = true ∧ 41 ∈ operation.blocks) := by
  have defined : (run LogSystem.next (.initial 2 fun _ => Vector.replicate BSIZE 0)
        sharedBlock).any (fun system =>
          system.machine.phase = .committing .clearHead ∧
            system.history.installed = [40, 41]) = true := by
    decide +kernel
  rw [Option.any_eq_true] at defined
  obtain ⟨system, runs, final⟩ := defined
  simp only [decide_eq_true_eq] at final
  obtain ⟨_, _, _, _, _, _, _, _, installed⟩ :=
    log_protocol 2 (fun _ => Vector.replicate BSIZE 0) sharedBlock system runs (by simp [final.1])
  refine ⟨system, runs, .inl final.1, final.2, ?_⟩
  rw [← installed (.inl final.1) 41, final.2]
  simp

end Xv6KernelEvent
