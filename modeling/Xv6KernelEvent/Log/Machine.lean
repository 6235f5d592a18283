import Xv6KernelEvent.Library.AtomicStore
import Xv6KernelEvent.Log.Header

/-!
# The redo log as a machine

`kernel/log.c` over the buffer cache of `kernel/bio.c`.  A step of the machine
ends with at most one disk write.  `begin_op`, `log_write` and the two halves
of `end_op` run under `log.lock`; an iteration of `write_log` or
`install_trans` and a `write_head` hold the sleep-locks of the buffers they
use.  Processes outside the log read, modify, log and release buffers, the
cache drops unreferenced buffers at any time, and the machine may lose its
memory between any two steps.
-/

namespace Xv6KernelEvent

open AtomicStore

/-- `struct buf` of a cached block, its contents valid.  `holder` is the
process that holds its sleep-lock. -/
structure Buf where
  data : Block
  refcnt : Nat
  holder : Option Nat

/-- Where a `commit` stands. -/
inductive CommitPc where
  | writeLog (tail : Nat)
  | writeHead
  | installTrans (tail : Nat)
  | clearHead
  | finish
  deriving DecidableEq

/-- Where a `recover_from_log` stands. -/
inductive RecoverPc where
  | readHead
  | installTrans (tail : Nat)
  | clearHead
  deriving DecidableEq

/-- What the log is doing.  `log.committing` is set in `committing`, and
`stopped` is the state after a panic. -/
inductive LogPhase where
  | recovering (pc : RecoverPc)
  | running
  | committing (pc : CommitPc)
  | stopped
  deriving DecidableEq

/-- The disk, the buffer cache and `struct log`; `lh` are the entries
`log.lh.block[0..n)`.  `active` are the processes between `begin_op` and
`end_op`, and `unlogged` the blocks modified since they were last passed to
`log_write`. -/
structure LogMachine where
  start : Nat
  disk : Nat → Block
  cache : Nat → Option Buf
  lh : List Nat
  outstanding : Nat
  phase : LogPhase
  active : List Nat
  unlogged : List Nat

/-- The blocks of the log: its header and `LOGBLOCKS` data blocks. -/
def InLogArea (start block : Nat) : Prop := start ≤ block ∧ block ≤ start + LOGBLOCKS

instance (start block : Nat) : Decidable (InLogArea start block) :=
  inferInstanceAs (Decidable (_ ∧ _))

/-- The blocks that file-system code may use: any block number outside the
log. -/
def HomeBlock (start block : Nat) : Prop := block < 2 ^ 32 ∧ ¬InLogArea start block

instance (start block : Nat) : Decidable (HomeBlock start block) :=
  inferInstanceAs (Decidable (_ ∧ _))

namespace LogMachine

variable (machine : LogMachine)

/-- The buffer that `bget` finds or fills, before it is locked. -/
def fetch (block : Nat) : Buf :=
  (machine.cache block).getD { data := machine.disk block, refcnt := 0, holder := none }

def setBuf (block : Nat) (buf : Buf) : LogMachine :=
  { machine with cache := Function.update machine.cache block (some buf) }

/-- `bwrite` of a buffer with new contents. -/
def bwrite (block : Nat) (buf : Buf) : LogMachine :=
  { machine.setBuf block buf with
    disk := Function.update machine.disk block buf.data }

/-- `bread` by a process; it waits while the buffer is locked. -/
def bread (process block : Nat) : Option LogMachine :=
  let buf := machine.fetch block
  if buf.holder = none then
    some (machine.setBuf block { buf with refcnt := buf.refcnt + 1, holder := some process })
  else none

def brelse (process block : Nat) : Option LogMachine := do
  let buf ← machine.cache block
  if buf.holder = some process then
    some (machine.setBuf block { buf with refcnt := buf.refcnt - 1, holder := none })
  else none

/-- A change of `b->data` by the process that holds the buffer. -/
def modify (process block : Nat) (data : Block) : Option LogMachine := do
  let buf ← machine.cache block
  if buf.holder = some process then
    some
      { machine.setBuf block { buf with data := data } with
        unlogged := block :: machine.unlogged }
  else none

/-- The cache recycles an unreferenced buffer. -/
def evict (block : Nat) : Option LogMachine := do
  let buf ← machine.cache block
  if buf.refcnt = 0 then some { machine with cache := Function.update machine.cache block none }
  else none

def panic : LogMachine := { machine with phase := .stopped }

/-- One pass of `begin_op` over its loop; `none` when it sleeps. -/
def beginOp (process : Nat) : Option LogMachine :=
  if machine.phase ≠ .running then none
  else if machine.lh.length + (machine.outstanding + 1) * MAXOPBLOCKS > LOGBLOCKS then none
  else some
    { machine with
      outstanding := machine.outstanding + 1
      active := process :: machine.active }

/-- `log_write` by the process that holds the buffer. -/
def logWrite (process block : Nat) : Option LogMachine :=
  match machine.cache block with
  | none => none
  | some buf =>
    if buf.holder ≠ some process then none
    else if machine.lh.length ≥ LOGBLOCKS then some machine.panic
    else if machine.outstanding < 1 then some machine.panic
    else if block ∈ machine.lh then
      some
        { machine with
          unlogged := machine.unlogged.filter (· ≠ block) }
    else
      some
        { machine.setBuf block { buf with refcnt := buf.refcnt + 1 } with
          lh := machine.lh ++ [block]
          unlogged := machine.unlogged.filter (· ≠ block) }

/-- The first critical section of `end_op`.  The last operation starts a
commit, which has nothing to do for an empty group. -/
def endOp (process : Nat) : Option LogMachine :=
  let outstanding := machine.outstanding - 1
  let ended :=
    { machine with
      outstanding := outstanding
      active := machine.active.erase process }
  match machine.phase with
  | .committing _ => some ended.panic
  | .running =>
    if outstanding = 0 then
      some
        { ended with
          phase := .committing (if machine.lh = [] then .finish else .writeLog 0) }
    else some ended
  | _ => none

/-- An iteration of `write_log`: the cached block goes to its log block. -/
def writeLogBlock (tail block : Nat) : Option LogMachine :=
  let target := machine.fetch (machine.start + tail + 1)
  let source := machine.fetch block
  if target.holder = none ∧ source.holder = none then
    some ((machine.setBuf block source).bwrite (machine.start + tail + 1)
      { target with data := source.data })
  else none

/-- An iteration of `install_trans`: the log block goes to its home.  A commit
also drops the reference that `log_write` took. -/
def installBlock (recovering : Bool) (tail block : Nat) : Option LogMachine :=
  let lbuf := machine.fetch (machine.start + tail + 1)
  let dbuf := machine.fetch block
  if lbuf.holder = none ∧ dbuf.holder = none then
    some ((machine.setBuf (machine.start + tail + 1) lbuf).bwrite block
      { dbuf with
        data := lbuf.data
        refcnt := if recovering then dbuf.refcnt else dbuf.refcnt - 1 })
  else none

def writeHead : Option LogMachine :=
  let buf := machine.fetch machine.start
  if buf.holder = none then
    some (machine.bwrite machine.start { buf with data := Header.put machine.lh buf.data })
  else none

def readHead : Option LogMachine := do
  let buf := machine.fetch machine.start
  let lh ← Header.get buf.data
  some { machine.setBuf machine.start buf with lh := lh }

def setPhase (phase : LogPhase) : LogMachine := { machine with phase := phase }

/-- The next step of `commit` and of the end of `end_op`. -/
def commit : Option LogMachine :=
  match machine.phase with
  | .committing (.writeLog tail) =>
    match machine.lh[tail]? with
    | some block => do
      let next ← machine.writeLogBlock tail block
      some (next.setPhase (.committing (.writeLog (tail + 1))))
    | none => some (machine.setPhase (.committing .writeHead))
  | .committing .writeHead => do
    let next ← machine.writeHead
    some (next.setPhase (.committing (.installTrans 0)))
  | .committing (.installTrans tail) =>
    match machine.lh[tail]? with
    | some block => do
      let next ← machine.installBlock false tail block
      some (next.setPhase (.committing (.installTrans (tail + 1))))
    | none => some { machine with lh := [], phase := .committing .clearHead }
  | .committing .clearHead => do
    let next ← machine.writeHead
    some (next.setPhase (.committing .finish))
  | .committing .finish => some (machine.setPhase .running)
  | _ => none

/-- The next step of `recover_from_log`. -/
def recover : Option LogMachine :=
  match machine.phase with
  | .recovering .readHead => do
    let next ← machine.readHead
    some (next.setPhase (.recovering (.installTrans 0)))
  | .recovering (.installTrans tail) =>
    match machine.lh[tail]? with
    | some block => do
      let next ← machine.installBlock true tail block
      some (next.setPhase (.recovering (.installTrans (tail + 1))))
    | none => some { machine with lh := [], phase := .recovering .clearHead }
  | .recovering .clearHead => do
    let next ← machine.writeHead
    some (next.setPhase .running)
  | _ => none

end LogMachine

/-- A machine that has lost its memory and is about to recover. -/
def bootedMachine (start : Nat) (disk : Nat → Block) : LogMachine :=
  { start := start
    disk := disk
    cache := fun _ => none
    lh := []
    outstanding := 0
    phase := .recovering .readHead
    active := []
    unlogged := [] }

/-- What happens next: a process does something, the cache recycles a buffer,
a commit or a recovery goes on, or the machine crashes. -/
inductive LogStep where
  | beginOp (process : Nat)
  | bread (process block : Nat)
  | modify (process block : Nat) (data : Block)
  | logWrite (process block : Nat)
  | brelse (process block : Nat)
  | endOp (process : Nat)
  | evict (block : Nat)
  | commit
  | recover
  | crash

/-- File-system code is up: neither recovery nor a panic stands in its way. -/
def LogPhase.serving : LogPhase → Bool
  | .running | .committing _ => true
  | _ => false

/-- The rules for processes: buffers outside the log only, changes only within
an operation, every change logged before its buffer is released. -/
def LogMachine.Allowed (machine : LogMachine) : LogStep → Prop
  | .beginOp process => machine.phase.serving = true ∧ process ∉ machine.active
  | .bread _ block => machine.phase.serving = true ∧ HomeBlock machine.start block
  | .modify process block _ | .logWrite process block =>
    machine.phase.serving = true ∧ process ∈ machine.active ∧ HomeBlock machine.start block
  | .brelse _ block =>
    machine.phase.serving = true ∧ HomeBlock machine.start block ∧ block ∉ machine.unlogged
  | .endOp process =>
    machine.phase.serving = true ∧ process ∈ machine.active ∧ ∀ block ∈ machine.unlogged,
        (machine.fetch block).holder ≠ some process
  | .evict _ | .commit | .recover | .crash => True

instance (machine : LogMachine) (step : LogStep) : Decidable (machine.Allowed step) :=
  match step with
  | .beginOp _ | .bread _ _ => inferInstanceAs (Decidable (_ ∧ _))
  | .modify _ _ _ | .logWrite _ _ | .brelse _ _ => inferInstanceAs (Decidable (_ ∧ _ ∧ _))
  | .endOp _ => inferInstanceAs (Decidable (_ ∧ _ ∧ ∀ _ ∈ _, _))
  | .evict _ | .commit | .recover | .crash => isTrue trivial

def LogMachine.step (machine : LogMachine) (step : LogStep) : Option LogMachine :=
  if machine.Allowed step then
    match step with
    | .beginOp process => machine.beginOp process
    | .bread process block => machine.bread process block
    | .modify process block data => machine.modify process block data
    | .logWrite process block => machine.logWrite process block
    | .brelse process block => machine.brelse process block
    | .endOp process => machine.endOp process
    | .evict block => machine.evict block
    | .commit => machine.commit
    | .recover => machine.recover
    | .crash => some (bootedMachine machine.start machine.disk)
  else none

/-- What a step means for the store that the log implements: a change is
recorded in the current group, the group becomes durable with the `write_head`
that precedes `install_trans`, and a crash forgets the current group. -/
def LogMachine.account (machine : LogMachine) (step : LogStep)
    (ledger : Ledger Nat Block) : Ledger Nat Block :=
  match step with
  | .modify _ block data => ledger.record block data
  | .commit => if machine.phase = .committing .writeHead then ledger.commit else ledger
  | .crash => ledger.crash
  | _ => ledger

/-- A log area on a disk whose header says that the log is empty. -/
structure LogDisk where
  start : Nat
  disk : Nat → Block
  cleared : Header.count (disk start) = 0

/-- A run from the first boot. -/
def logRun (device : LogDisk) (steps : List LogStep) : Option (LogMachine × Ledger Nat Block) :=
  steps.foldlM (fun (machine, ledger) step => do
      let next ← machine.step step
      some (next, machine.account step ledger))
    (bootedMachine device.start device.disk, Ledger.empty device.disk)

theorem logRun_concat (device : LogDisk) (steps : List LogStep) (step : LogStep) :
    logRun device (steps ++ [step]) = (logRun device steps).bind fun (machine, ledger) =>
        (machine.step step).bind fun next =>
          some (next, machine.account step ledger) := by
  simp [logRun, List.foldlM_append]

end Xv6KernelEvent
