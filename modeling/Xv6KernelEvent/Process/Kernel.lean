import Xv6KernelEvent.Process.Code

/-!
# The kernel as a machine

The rest of the code, the system calls and the traps, put together as a kernel
whose CPUs interleave at every lock operation, assignment, call and return.
-/

namespace Xv6KernelEvent.Process

open SpinThreads

def TableOp.lock : TableOp → Lock
  | allocpid => .pid
  | kmem => .kmem
  | filealloc _ | filedup _ _ => .ftable
  | idup _ _ | iget _ => .itable
  | other n => .leaf n

/-- The assignment of a table operation and the value it returns. -/
def TableOp.effect (p : Nat) (shared : Shared) : TableOp → Update × Int
  | allocpid => (.allocpid, shared.births)
  | kmem => (.skip, 0)
  | filealloc k => if shared.frefs k = [] then (.filealloc k p, k) else (.skip, -1)
  | filedup k q => (.filedup k q, 0)
  | idup i np => (.idup i np, 0)
  | iget i => (.iref i p, 0)
  | other _ => (.skip, 0)

/-- `allocpid`, `kalloc`, `filealloc`, `filedup`, `idup`, `iget` and the like.
`filedup` panics on a file without references. -/
def table (p : Nat) (pc : TablePc) (op : TableOp) (shared : Shared) : Doing :=
  match pc with
  | .lock => some (.acquire op.lock (.table .body op))
  | .body =>
    match op with
    | .filedup k q =>
      if shared.frefs k = [] then some (.panic .filedup)
      else some (.update (.filedup k q) (.table (.unlock 0) (.filedup k q)))
    | op => some (.update (op.effect p shared).1 (.table (.unlock (op.effect p shared).2) op))
  | .unlock value => some (.release op.lock (.table (.done value) op))
  | .done value => some (.ret value)

/-- A critical section of the log or of a driver, which may sleep and wake
others on channels of its lock, and take an inner lock as `bpin` does in
`log_write`. -/
def criticalSection (pc : SectionPc) (n : Nat) (sleeps : Bool) (input : Input) : Doing :=
  match pc with
  | .acquire => some (.acquire (.cond n) (.section .body n sleeps))
  | .body =>
    match input with
    | .section (.inner m) => some (.acquire (.leaf m) (.section (.inner m) n sleeps))
    | .section (.sleep m) =>
      if sleeps then
        some (.call (.sleep .acquireProc (.other n m) (.cond n)) (.section .asleep n sleeps))
      else none
    | .section (.wake m) => some (.call (.wakeup (.next 0) (.other n m)) (.section .body n sleeps))
    | .section .finish => some (.release (.cond n) (.section .done n sleeps))
    | _ => none
  | .inner m => some (.release (.leaf m) (.section .body n sleeps))
  | .asleep => none
  | .done => some (.ret 0)

/-- File-system code may lock a buffer, an inode it has a reference to, or the
inode of an open file. -/
def mayLock (p : Nat) (refs : List Nat) (shared : Shared) : FsLock → Bool
  | (.buf _, _) => true
  | (.inode i, none) => i ∈ refs
  | (.inode i, some k) => k ∈ (shared.proc p).ofile ∧ shared.fkind k = .inode i

/-- The open file takes over the reference to an inode that may be locked. -/
def throughFile (i k : Nat) (lock : FsLock) : FsLock :=
  if lock = (.inode i, none) then (.inode i, some k) else lock

/-- One step of file-system code with `refs` and `locks`; only the outer code of
a system call works with references, three at most.  It may put back a reference
to an inode that it has locked if it keeps another one. -/
def fs (p : Nat) (outer : Bool) (refs : List Nat) (locks : List FsLock)
    (shared : Shared) : FsOp → Doing
  | .table n => some (.call (.table .lock (.other n)) (.fs outer refs locks (some (.table n))))
  | .memory => some (.call (.table .lock .kmem) (.fs outer refs locks (some .memory)))
  | .section n => some (.call (.section .acquire n true) (.fs outer refs locks (some (.section n))))
  | .lock lock =>
    if mayLock p refs shared lock then
      some (.call (.acquiresleep .acquire lock.1) (.fs outer refs locks (some (.lock lock))))
    else none
  | .unlock lock =>
    if lock ∈ locks then
      some (.call (.releasesleep .acquire lock.1)
        (.fs outer refs (locks.erase lock) (some (.unlock lock))))
    else none
  | .iget i =>
    if outer ∧ refs.length < 3 then
      some (.call (.table .lock (.iget i)) (.fs outer refs locks (some (.iget i))))
    else none
  | .iput i =>
    if outer ∧ i ∈ refs ∧ ((.inode i, none) ∉ locks ∨ i ∈ refs.erase i) then
      some (.call (.iput .acquire i) (.fs outer (refs.erase i) locks (some (.iput i))))
    else none
  | .filealloc k =>
    if outer then
      some (.call (.table .lock (.filealloc k)) (.fs outer refs locks (some (.filealloc k))))
    else none
  | .filedup k =>
    if outer ∧ k ∈ (shared.proc p).ofile then
      some (.call (.table .lock (.filedup k p)) (.fs outer refs locks (some (.filedup k))))
    else none
  | .bindInode k i =>
    if outer ∧ i ∈ refs ∧ k ∈ (shared.proc p).ofile ∧ shared.fkind k = .none then
      some (.update (.bindInode k i p)
        (.fs outer (refs.erase i) (locks.map (throughFile i k)) none))
    else none
  | .bindPipe k i writable =>
    if outer ∧ k ∈ (shared.proc p).ofile ∧ shared.fkind k = .none then
      some (.update (.bindPipe k i writable) (.fs outer refs locks none))
    else none
  | .chdir i =>
    match (shared.proc p).cwd with
    | some old =>
      if outer ∧ i ∈ refs ∧ (.inode i, none) ∉ locks then
        some (.update (.chdir p i) (.fs outer (old :: refs.erase i) locks none))
      else none
    | none => none
  | .finish value => if refs = [] ∧ locks = [] then some (.ret value) else none

/-- `sys_pause`. -/
def pause (p : Nat) (pc : PausePc) (n : UInt32) (shared : Shared) : Doing :=
  match pc with
  | .acquire => some (.acquire .ticks (.pause .start n))
  | .start => some (.update .skip (.pause (.test shared.ticks) n))
  | .test ticks0 =>
    if shared.ticks - ticks0 < n then some (.call (.killed .lock) (.pause (.checking ticks0) n))
    else some (.release .ticks (.pause .post n))
  | .checking _ => none
  | .sleep ticks0 => some (.call (.sleep .acquireProc .ticks .ticks) (.pause (.asleep ticks0) n))
  | .asleep _ => none
  | .post => some (.call (.kqueuePost .acquire ⟨.sleep, (shared.proc p).birth⟩) (.pause .done n))
  | .done => some (.ret 0)
  | .failing => some (.release .ticks (.pause .failed n))
  | .failed => some (.ret (-1))

/-- `piperead`. -/
def piperead (pc : PipereadPc) (i n : Nat) (shared : Shared) (input : Input) : Doing :=
  let pipe := shared.pipe i
  match pc with
  | .acquire => some (.acquire (.pipe i) (.piperead .test i n))
  | .test =>
    if pipe.nread = pipe.nwrite ∧ pipe.writeopen = true then
      some (.call (.killed .lock) (.piperead .checking i n))
    else some (.update .skip (.piperead (.copy 0) i n))
  | .checking => none
  | .sleep => some (.call (.sleep .acquireProc (.pipeRead i) (.pipe i)) (.piperead .asleep i n))
  | .asleep => none
  | .copy copied =>
    if copied < n ∧ pipe.nread ≠ pipe.nwrite then
      if input.isMemory then
        some (.call (.table .lock .kmem) (.piperead (.copy copied) i n))
      else if input.ok then
        some (.update (.setPipe i { pipe with nread := pipe.nread + 1 })
          (.piperead (.copy (copied + 1)) i n))
      else some (.update .skip (.piperead (.wake (if copied = 0 then -1 else copied)) i n))
    else some (.update .skip (.piperead (.wake copied) i n))
  | .wake value => some (.call (.wakeup (.next 0) (.pipeWrite i)) (.piperead (.release value) i n))
  | .release value => some (.release (.pipe i) (.piperead (.done value) i n))
  | .done value => some (.ret value)
  | .failing => some (.release (.pipe i) (.piperead .failed i n))
  | .failed => some (.ret (-1))

/-- `pipewrite`. -/
def pipewrite (pc : PipewritePc) (i n : Nat) (shared : Shared) (input : Input) : Doing :=
  let pipe := shared.pipe i
  match pc with
  | .acquire => some (.acquire (.pipe i) (.pipewrite (.test 0) i n))
  | .test written =>
    if written < n then
      if pipe.readopen = false then some (.update .skip (.pipewrite .failing i n))
      else some (.call (.killed .lock) (.pipewrite (.checking written) i n))
    else some (.call (.wakeup (.next 0) (.pipeRead i)) (.pipewrite (.release written) i n))
  | .checking _ => none
  | .put written =>
    if pipe.nwrite = pipe.nread + UInt32.ofNat PIPESIZE then
      some (.call (.wakeup (.next 0) (.pipeRead i)) (.pipewrite (.sleep written) i n))
    else if input.isMemory then
      some (.call (.table .lock .kmem) (.pipewrite (.put written) i n))
    else if input.ok then
      some (.update (.setPipe i { pipe with nwrite := pipe.nwrite + 1 })
        (.pipewrite (.test (written + 1)) i n))
    else some (.call (.wakeup (.next 0) (.pipeRead i)) (.pipewrite (.release written) i n))
  | .sleep written =>
    some (.call (.sleep .acquireProc (.pipeWrite i) (.pipe i)) (.pipewrite (.asleep written) i n))
  | .asleep _ => none
  | .release value => some (.release (.pipe i) (.pipewrite (.done value) i n))
  | .done value => some (.ret value)
  | .failing => some (.release (.pipe i) (.pipewrite .failed i n))
  | .failed => some (.ret (-1))

/-- `consoleread`. -/
def consoleread (pc : ConsolereadPc) (target : Nat) (shared : Shared) (input : Input) : Doing :=
  let read := shared.consRead
  let write := shared.consWrite
  match pc with
  | .acquire => some (.acquire .cons (.consoleread (.outer target) target))
  | .outer n =>
    if 0 < n then some (.update .skip (.consoleread (.test n) target))
    else some (.update .skip (.consoleread (.release n) target))
  | .test n =>
    if read = write then some (.call (.killed .lock) (.consoleread (.checking n) target))
    else some (.update .skip (.consoleread (.take n) target))
  | .checking _ => none
  | .sleep n => some (.call (.sleep .acquireProc .consRead .cons) (.consoleread (.asleep n) target))
  | .asleep _ => none
  | .take n =>
    if input.isMemory then some (.call (.table .lock .kmem) (.consoleread (.take n) target))
    else
      match input.found with
      | .eof =>
        some (.update (.setCons (if n < target then read else read + 1) write)
          (.consoleread (.release n) target))
      | .unmapped => some (.update (.setCons (read + 1) write) (.consoleread (.release n) target))
      | .newline =>
        some (.update (.setCons (read + 1) write) (.consoleread (.release (n - 1)) target))
      | .plain => some (.update (.setCons (read + 1) write) (.consoleread (.outer (n - 1)) target))
  | .release n => some (.release .cons (.consoleread (.done n) target))
  | .done n => some (.ret (target - n))
  | .failing => some (.release .cons (.consoleread .failed target))
  | .failed => some (.ret (-1))

/-- `sys_write`; `filewrite` writes to a pipe, or to a file or a device. -/
def sysWrite (p : Nat) (pc : SysWritePc) (pipe : Option (Nat × Nat)) (shared : Shared) : Doing :=
  match pc with
  | .start =>
    match pipe with
    | some (i, n) => some (.call (.pipewrite .acquire i n) (.sysWrite .wrote pipe))
    | none => some (.call (fsStart true) (.sysWrite .wrote pipe))
  | .wrote => none
  | .post result =>
    if 0 < result then
      some (.call (.kqueuePost .acquire ⟨.write, (shared.proc p).birth⟩)
        (.sysWrite (.done result) pipe))
    else some (.update .skip (.sysWrite (.done result) pipe))
  | .done result => some (.ret result)

/-- `clockintr`; whether this is CPU 0 is an input. -/
def clockintr (pc : ClockintrPc) (input : Input) : Doing :=
  match pc with
  | .start =>
    if input.ok then some (.acquire .ticks (.clockintr .tick))
    else some (.update .skip (.clockintr .done))
  | .tick => some (.update .tick (.clockintr .wake))
  | .wake => some (.call (.wakeup (.next 0) .ticks) (.clockintr .release))
  | .release => some (.release .ticks (.clockintr .done))
  | .done => some (.ret 0)

/-- `consoleintr`; a character that ends a line moves `cons.w`, and `procdump`
prints with the lock of `printf`. -/
def consoleintr (pc : ConsoleintrPc) (shared : Shared) (input : Input) : Doing :=
  match pc with
  | .acquire => some (.acquire .cons (.consoleintr .edit))
  | .edit =>
    match input with
    | .line write => some (.update (.setCons shared.consRead write) (.consoleintr .wake))
    | .procdump n => some (.acquire (.leaf n) (.consoleintr (.print n)))
    | _ => some (.update .skip (.consoleintr .release))
  | .print n => some (.release (.leaf n) (.consoleintr .edit))
  | .wake => some (.call (.wakeup (.next 0) .consRead) (.consoleintr .release))
  | .release => some (.release .cons (.consoleintr .done))
  | .done => some (.ret 0)

/-- `devintr`. -/
def Irq.frame : Irq → Frame
  | timer => .clockintr .start
  | uart => .consoleintr .acquire
  | device n => .section .acquire n false

def Syscall.frame : Syscall → Frame
  | fork => .kfork (.scan 0)
  | exit status => .kexit .start status
  | wait addr => .kwait .acquire addr
  | kill pid => .kkill (.next 0) pid
  | pause n => .pause .acquire n
  | kqueueWait => .kqueueWait .acquire
  | kqueuePost name pid => .kqueuePost .acquire ⟨.user name, pid⟩
  | write pipe => .sysWrite .start pipe
  | piperead i n => .piperead .acquire i n
  | consoleread n => .consoleread .acquire n
  | close k => .fileclose .acquire k
  | fs => fsStart true

/-- `argfd` finds only open files. -/
def Syscall.valid (p : Nat) (shared : Shared) : Syscall → Bool
  | close k => k ∈ (shared.proc p).ofile
  | _ => true

/-- `usertrap`. -/
def usertrap (p : Nat) (pc : UsertrapPc) (shared : Shared) : Doing :=
  match pc with
  | .syscall call => some (.call (.killed .lock) (.usertrap (.checked call)))
  | .checked _ => none
  | .enable call => some (.interrupts true (.usertrap (.dispatch call)))
  | .dispatch call =>
    if call.valid p shared then some (.call call.frame (.usertrap (.handled false)))
    else some (.update .skip (.usertrap (.handled false)))
  | .device irq => some (.call irq.frame (.usertrap (.handled (irq = .timer))))
  | .fault => some (.call (.setkilled .lock) (.usertrap (.handled false)))
  | .handled timer => some (.call (.killed .lock) (.usertrap (.checkedAgain timer)))
  | .checkedAgain _ => none
  | .leaving timer =>
    if timer then some (.call (.yield .acquire) (.usertrap .disable))
    else some (.update .skip (.usertrap .disable))
  | .disable => some (.interrupts false (.usertrap .leave))
  | .leave => some .leave
  | .exiting => some (.call (.kexit .start (-1)) (.usertrap .exited))
  | .exited => none

/-- `kerneltrap`. -/
def kerneltrap (me : Option Nat) (pc : KerneltrapPc) : Doing :=
  match pc with
  | .start irq => some (.call irq.frame (.kerneltrap (.handled irq)))
  | .handled irq =>
    if irq = .timer ∧ me.isSome then some (.call (.yield .acquire) (.kerneltrap .leave))
    else some (.update .skip (.kerneltrap .leave))
  | .leave => some .leave

/-- The code of the thread of process `p`. -/
def processCode (p : Nat) (frame : Frame) (shared : Shared) (input : Input) : Doing :=
  match frame with
  | .sleep pc chan lk => sleep p pc chan lk shared
  | .wakeup pc chan => wakeup (some p) pc chan
  | .killed pc => killed p pc shared
  | .setkilled pc => setkilled p pc
  | .kqueuePost pc post => kqueuePostCode pc post shared input
  | .kqueueWait pc => kqueueWait pc shared
  | .kkill pc pid => kkill pc pid shared
  | .scheduler _ => none
  | .yield pc => yield p pc
  | .forkret pc => forkret p pc
  | .kfork pc => kfork p pc shared input
  | .kexit pc status => kexit p pc status shared
  | .kwait pc addr => kwait p pc addr shared input
  | .acquiresleep pc lock => acquiresleep p pc lock shared
  | .releasesleep pc lock => releasesleep pc lock
  | .iput pc i => iput p pc i shared input
  | .fileclose pc k => fileclose p pc k shared
  | .table pc op => table p pc op shared
  | .section pc n sleeps => criticalSection pc n sleeps input
  | .fs outer refs locks pending =>
    match pending, input with
    | none, .fs op => fs p outer refs locks shared op
    | _, _ => none
  | .pause pc n => pause p pc n shared
  | .piperead pc i n => piperead pc i n shared input
  | .pipewrite pc i n => pipewrite pc i n shared input
  | .consoleread pc target => consoleread pc target shared input
  | .sysWrite pc pipe => sysWrite p pc pipe shared
  | .clockintr pc => clockintr pc input
  | .consoleintr pc => consoleintr pc shared input
  | .usertrap pc => usertrap p pc shared
  | .kerneltrap pc => kerneltrap (some p) pc

/-- The code of the scheduler thread of a CPU, which only interrupts leave. -/
def schedulerCode (frame : Frame) (shared : Shared) (input : Input) : Doing :=
  match frame with
  | .scheduler pc => scheduler pc shared
  | .kerneltrap pc => kerneltrap none pc
  | .clockintr pc => clockintr pc input
  | .consoleintr pc => consoleintr pc shared input
  | .section pc n false => criticalSection pc n false input
  | .wakeup pc chan => wakeup none pc chan
  | _ => none

def code (me : Option Nat) (frame : Frame) (shared : Shared) (input : Input) : Doing :=
  match me with
  | some p => processCode p frame shared input
  | none => schedulerCode frame shared input

/-- What a call that has returned leads to in its caller. -/
def resume (frame : Frame) (value : Int) : Frame :=
  match frame with
  | .kqueueWait .asleep => .kqueueWait .test
  | .kfork (.allocated np) => .kfork (.named np value.toNat)
  | .kwait .checking addr => .kwait (if value = 0 then .sleep else .failing) addr
  | .kwait .asleep addr => .kwait (.scan 0 false) addr
  | .acquiresleep .asleep lock => .acquiresleep .test lock
  | .iput .locking i => .iput .locked i
  | .section .asleep n sleeps => .section .body n sleeps
  | .fs outer refs locks (some (.iget i)) => .fs outer (i :: refs) locks none
  | .fs outer refs locks (some (.lock lock)) => .fs outer refs (lock :: locks) none
  | .fs outer refs locks (some _) => .fs outer refs locks none
  | .pause (.checking ticks0) n => .pause (if value = 0 then .sleep ticks0 else .failing) n
  | .pause (.asleep ticks0) n => .pause (.test ticks0) n
  | .piperead .checking i n => .piperead (if value = 0 then .sleep else .failing) i n
  | .piperead .asleep i n => .piperead .test i n
  | .pipewrite (.checking written) i n =>
    .pipewrite (if value = 0 then .put written else .failing) i n
  | .pipewrite (.asleep written) i n => .pipewrite (.test written) i n
  | .consoleread (.checking left) target =>
    .consoleread (if value = 0 then .sleep left else .failing) target
  | .consoleread (.asleep left) target => .consoleread (.test left) target
  | .sysWrite .wrote pipe => .sysWrite (.post value) pipe
  | .usertrap (.checked call) => .usertrap (if value = 0 then .enable call else .exiting)
  | .usertrap (.checkedAgain timer) => .usertrap (if value = 0 then .leaving timer else .exiting)
  | frame => frame

def handler : Input → Option Frame
  | .interrupt irq => some (.kerneltrap (.start irq))
  | _ => none

def trap : Input → Option Frame
  | .syscall call => some (.usertrap (.syscall call))
  | .userInterrupt irq => some (.usertrap (.device irq))
  | .fault => some (.usertrap .fault)
  | _ => none

def kernel : Kernel Lock Frame Shared Update Input Reason where
  code := code
  apply := fun change shared => change.apply shared
  resume := resume
  handler := handler
  trap := trap
  procLock := .proc
  running := fun shared p => (shared.proc p).state = .running

abbrev State : Type := Machine Lock Frame Shared Reason

/-- The slot of a process that does not exist. -/
def noProc : Proc :=
  { state := .unused
    chan := none
    killed := false
    xstate := 0
    birth := 0
    parent := none
    ofile := []
    cwd := none }

/-- The first process, as `userinit` makes it, with the root directory as its
`cwd`. -/
def firstProc : Proc := { noProc with state := .runnable, birth := 1, cwd := some 0 }

def bootShared : Shared :=
  { proc := fun p => if p = 0 then firstProc else noProc
    births := 2
    initproc := 0
    kq := kqueueinit
    posts := []
    forks := []
    exits := []
    reaps := []
    locked := fun _ => none
    irefs := fun i => if i = 0 then [.process 0] else []
    frefs := fun _ => []
    fkind := fun _ => .none
    ticks := 0
    pipe := fun _ => { nread := 0, nwrite := 0, readopen := true, writeopen := true }
    consRead := 0
    consWrite := 0 }

/-- Every CPU has just called `scheduler`. -/
def boot : State :=
  { shared := bootShared
    owner := fun _ => none
    cpu := fun c =>
      { thread := .scheduler c
        proc := none
        noff := 0
        intena := false
        sie := false }
    stack := fun thread =>
      match thread with
      | .scheduler _ => [.scheduler .idle]
      | .process _ => [.forkret .release]
    saved := fun _ => none
    panicked := none }

/-- The state after a schedule: which CPU takes each step, with what input. -/
def run (schedule : List (Nat × Input)) : State := kernel.run boot schedule

end Xv6KernelEvent.Process
