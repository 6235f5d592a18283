import Xv6KernelEvent.Library.SpinThreads
import Xv6KernelEvent.Process.Frames

/-!
# The code of the process core

`kernel/proc.c`, `kernel/sleeplock.c`, the loops of `kernel/pipe.c`,
`kernel/console.c` and `kernel/sysproc.c` that sleep, `fileclose`, `iput`, and
the traps that lead to them.  `p` is `myproc()`.
-/

namespace Xv6KernelEvent.Process

open SpinThreads

abbrev Doing : Type := Option (Act Lock Frame Update Reason)

/-- `sleep`. -/
def sleep (p : Nat) (pc : SleepPc) (chan : Chan) (lk : Lock) (shared : Shared) : Doing :=
  match pc with
  | .acquireProc => some (.acquire (.proc p) (.sleep .releaseCond chan lk))
  | .releaseCond => some (.release lk (.sleep .mark chan lk))
  | .mark => some (.update (.goToSleep p chan) (.sleep .switch chan lk))
  | .switch => some (.sched (.sleep .resumed chan lk))
  | .resumed => some (.update (.clearChan p) (.sleep .releaseProc chan lk))
  | .releaseProc => some (.release (.proc p) (.sleep .post chan lk))
  | .post =>
    if chan = .kq then some (.update .skip (.sleep .acquireCond chan lk))
    else
      some (.call (.kqueuePost .acquire ⟨.sleep, (shared.proc p).birth⟩)
        (.sleep .acquireCond chan lk))
  | .acquireCond => some (.acquire lk (.sleep .done chan lk))
  | .done => some (.ret 0)

/-- `wakeup`. -/
def wakeup (me : Option Nat) (pc : WakeupPc) (chan : Chan) : Doing :=
  match pc with
  | .next i =>
    if i < NPROC then
      if me = some i then some (.update .skip (.wakeup (.next (i + 1)) chan))
      else some (.acquire (.proc i) (.wakeup (.check i) chan))
    else some (.ret 0)
  | .check i => some (.update (.wake i chan) (.wakeup (.unlock i) chan))
  | .unlock i => some (.release (.proc i) (.wakeup (.next (i + 1)) chan))

/-- `killed`, of the calling process. -/
def killed (p : Nat) (pc : KilledPc) (shared : Shared) : Doing :=
  match pc with
  | .lock => some (.acquire (.proc p) (.killed .read))
  | .read => some (.update .skip (.killed (.unlock (shared.proc p).killed)))
  | .unlock k => some (.release (.proc p) (.killed (.done k)))
  | .done k => some (.ret (if k then 1 else 0))

/-- `setkilled`, of the calling process. -/
def setkilled (p : Nat) (pc : SetkilledPc) : Doing :=
  match pc with
  | .lock => some (.acquire (.proc p) (.setkilled .mark))
  | .mark => some (.update (.setKilled p) (.setkilled .unlock))
  | .unlock => some (.release (.proc p) (.setkilled .done))
  | .done => some (.ret 0)

/-- `kqueue_post`. -/
def kqueuePostCode (pc : KqueuePostPc) (post : Post) (shared : Shared) (input : Input) : Doing :=
  match pc with
  | .acquire => some (.acquire .kq (.kqueuePost .insert post))
  | .insert =>
    match kqueuePost post.nameByte (Int32.ofInt post.pid) input.now shared.kq with
    | some kq => some (.update (.post post kq) (.kqueuePost .wake post))
    | none => some (.panic .eventIndex)
  | .wake => some (.call (.wakeup (.next 0) .kq) (.kqueuePost .release post))
  | .release => some (.release .kq (.kqueuePost .done post))
  | .done => some (.ret 0)

/-- `kqueue_wait_internal`. -/
def kqueueWait (pc : KqueueWaitPc) (shared : Shared) : Doing :=
  match pc with
  | .acquire => some (.acquire .kq (.kqueueWait .test))
  | .test =>
    if shared.kq.count = 0 then some (.call (.sleep .acquireProc .kq .kq) (.kqueueWait .asleep))
    else
      match kqueueTake shared.kq with
      | some (_, kq) => some (.update (.take kq) (.kqueueWait .release))
      | none => some (.panic .eventIndex)
  | .asleep => none
  | .release => some (.release .kq (.kqueueWait .done))
  | .done => some (.ret 0)

/-- `kkill`. -/
def kkill (pc : KkillPc) (pid : Int32) (shared : Shared) : Doing :=
  match pc with
  | .next i =>
    if i < NPROC then some (.acquire (.proc i) (.kkill (.check i) pid))
    else some (.ret (-1))
  | .check i =>
    if (shared.proc i).pid = pid then some (.update (.kill i) (.kkill (.found i) pid))
    else some (.release (.proc i) (.kkill (.next (i + 1)) pid))
  | .found i => some (.release (.proc i) (.kkill .done pid))
  | .done => some (.ret 0)

/-- `scheduler`. -/
def scheduler (pc : SchedulerPc) (shared : Shared) : Doing :=
  match pc with
  | .idle => some (.interrupts true (.scheduler .masked))
  | .masked => some (.interrupts false (.scheduler (.next 0)))
  | .next i =>
    if i < NPROC then some (.acquire (.proc i) (.scheduler (.check i)))
    else some (.update .skip (.scheduler .idle))
  | .check i =>
    if (shared.proc i).state = .runnable then
      some (.update (.dispatch i) (.scheduler (.assign i)))
    else some (.release (.proc i) (.scheduler (.next (i + 1))))
  | .assign i => some (.setProc (some i) (.scheduler (.switch i)))
  | .switch i => some (.swtch i (.scheduler (.back i)))
  | .back i => some (.setProc none (.scheduler (.release i)))
  | .release i => some (.release (.proc i) (.scheduler (.next (i + 1))))

/-- `yield`. -/
def yield (p : Nat) (pc : YieldPc) : Doing :=
  match pc with
  | .acquire => some (.acquire (.proc p) (.yield .mark))
  | .mark => some (.update (.yield p) (.yield .switch))
  | .switch => some (.sched (.yield .release))
  | .release => some (.release (.proc p) (.yield .done))
  | .done => some (.ret 0)

/-- `forkret`. -/
def forkret (p : Nat) (pc : ForkretPc) : Doing :=
  match pc with
  | .release => some (.release (.proc p) (.forkret .leave))
  | .leave => some .leave

/-- `kfork`, with `allocproc` and the failures of both. -/
def kfork (p : Nat) (pc : KforkPc) (shared : Shared) (input : Input) : Doing :=
  match pc with
  | .scan np =>
    if np < NPROC then some (.acquire (.proc np) (.kfork (.check np)))
    else some (.ret (-1))
  | .check np =>
    if (shared.proc np).state = .unused then
      some (.call (.table .lock .allocpid) (.kfork (.allocated np)))
    else some (.release (.proc np) (.kfork (.scan (np + 1))))
  | .allocated _ => none
  | .named np pid =>
    some (.spawn np (.forkret .release) (.allocproc np pid) (.kfork (.memory np pid)))
  | .memory np pid =>
    if input.isMemory then some (.call (.table .lock .kmem) (.kfork (.memory np pid)))
    else if input.ok then some (.update .skip (.kfork (.files np pid (shared.proc p).ofile)))
    else some (.update .skip (.kfork (.abort np)))
  | .abort np =>
    if input.isMemory then some (.call (.table .lock .kmem) (.kfork (.abort np)))
    else some (.update (.freeproc np) (.kfork (.abortUnlock np)))
  | .abortUnlock np => some (.release (.proc np) (.kfork .failed))
  | .files np pid ofile =>
    match ofile, (shared.proc p).cwd with
    | k :: rest, _ => some (.call (.table .lock (.filedup k np)) (.kfork (.files np pid rest)))
    | [], some i => some (.call (.table .lock (.idup i np)) (.kfork (.unlock np pid)))
    | [], none => none
  | .unlock np pid => some (.release (.proc np) (.kfork (.lockWait np pid)))
  | .lockWait np pid => some (.acquire .wait (.kfork (.adopt np pid)))
  | .adopt np pid => some (.update (.adopt np p) (.kfork (.unlockWait np pid)))
  | .unlockWait np pid => some (.release .wait (.kfork (.lockChild np pid)))
  | .lockChild np pid => some (.acquire (.proc np) (.kfork (.publish np pid)))
  | .publish np pid => some (.update (.publish np) (.kfork (.unlockChild np pid)))
  | .unlockChild np pid => some (.release (.proc np) (.kfork (.post np pid)))
  | .post _ pid => some (.call (.kqueuePost .acquire ⟨.fork, pid⟩) (.kfork (.done pid)))
  | .done pid => some (.ret (pidOf pid).toInt)
  | .failed => some (.ret (-1))

/-- The frame of a piece of file-system code that holds nothing yet. -/
def fsStart (outer : Bool) : Frame := .fs outer [] [] none

/-- `kexit` and `reparent`.  The process gives up its `cwd` before `iput`
rather than after `end_op`; no other process reads it. -/
def kexit (p : Nat) (pc : KexitPc) (status : Int) (shared : Shared) : Doing :=
  match pc with
  | .start =>
    if p = shared.initproc then some (.panic .initExiting)
    else some (.update .skip (.kexit .files status))
  | .files =>
    match (shared.proc p).ofile with
    | k :: _ => some (.call (.fileclose .acquire k) (.kexit .files status))
    | [] => some (.call (fsStart false) (.kexit .begun status))
  | .begun =>
    match (shared.proc p).cwd with
    | some i => some (.update (.leaveCwd p) (.kexit (.put i) status))
    | none => none
  | .put i => some (.call (.iput .acquire i) (.kexit .endOp status))
  | .endOp => some (.call (fsStart false) (.kexit .acquireWait status))
  | .acquireWait => some (.acquire .wait (.kexit (.reparent 0) status))
  | .reparent child =>
    if child < NPROC then
      if (shared.proc child).parent = some p then
        some (.update (.reparent child) (.kexit (.wakeInit child) status))
      else some (.update .skip (.kexit (.reparent (child + 1)) status))
    else some (.update .skip (.kexit .wakeParent status))
  | .wakeInit child =>
    some (.call (.wakeup (.next 0) (.proc shared.initproc)) (.kexit (.reparent (child + 1)) status))
  | .wakeParent =>
    match (shared.proc p).parent with
    | some parent => some (.call (.wakeup (.next 0) (.proc parent)) (.kexit .lockSelf status))
    | none => some (.update .skip (.kexit .lockSelf status))
  | .lockSelf => some (.acquire (.proc p) (.kexit .mark status))
  | .mark => some (.update (.exit p status) (.kexit .unlockWait status))
  | .unlockWait => some (.release .wait (.kexit .switch status))
  | .switch => some (.sched (.kexit .dead status))
  | .dead => some (.panic .zombieExit)

/-- `kwait`, with the `copyout` of the exit status. -/
def kwait (p : Nat) (pc : KwaitPc) (addr : Bool) (shared : Shared) (input : Input) : Doing :=
  match pc with
  | .acquire => some (.acquire .wait (.kwait (.scan 0 false) addr))
  | .scan child havekids =>
    if child < NPROC then
      if (shared.proc child).parent = some p then
        some (.acquire (.proc child) (.kwait (.check child) addr))
      else some (.update .skip (.kwait (.scan (child + 1) havekids) addr))
    else if havekids then some (.call (.killed .lock) (.kwait .checking addr))
    else some (.update .skip (.kwait .failing addr))
  | .check child =>
    if (shared.proc child).state = .zombie then
      some (.update .skip (.kwait (.copy child (shared.proc child).birth) addr))
    else some (.release (.proc child) (.kwait (.scan (child + 1) true) addr))
  | .copy child pid =>
    if addr = false then some (.update .skip (.kwait (.free child pid none) addr))
    else if input.isMemory then some (.call (.table .lock .kmem) (.kwait (.copy child pid) addr))
    else if input.ok then
      some (.update .skip (.kwait (.free child pid (some (shared.proc child).xstate)) addr))
    else some (.release (.proc child) (.kwait .failing addr))
  | .free child pid status =>
    if input.isMemory then some (.call (.table .lock .kmem) (.kwait (.free child pid status) addr))
    else some (.update (.freeproc child) (.kwait (.unlockChild child pid status) addr))
  | .unlockChild child pid status =>
    some (.release (.proc child) (.kwait (.unlockWait pid status) addr))
  | .unlockWait pid status => some (.release .wait (.kwait (.done pid status) addr))
  | .done pid status => some (.update (.reap p pid status) (.kwait (.returned pid) addr))
  | .returned pid => some (.ret (pidOf pid).toInt)
  | .checking => none
  | .sleep => some (.call (.sleep .acquireProc (.proc p) .wait) (.kwait .asleep addr))
  | .asleep => none
  | .failing => some (.release .wait (.kwait .failed addr))
  | .failed => some (.ret (-1))

/-- `acquiresleep`. -/
def acquiresleep (p : Nat) (pc : AcquiresleepPc) (lock : SleepLock) (shared : Shared) : Doing :=
  match pc with
  | .acquire => some (.acquire (.inner lock) (.acquiresleep .test lock))
  | .test =>
    if (shared.locked lock).isSome then
      some (.call (.sleep .acquireProc (.sleepLock lock) (.inner lock))
        (.acquiresleep .asleep lock))
    else some (.update (.lockSleep lock (shared.proc p).birth) (.acquiresleep .release lock))
  | .asleep => none
  | .release => some (.release (.inner lock) (.acquiresleep .done lock))
  | .done => some (.ret 0)

/-- `releasesleep`. -/
def releasesleep (pc : ReleasesleepPc) (lock : SleepLock) : Doing :=
  match pc with
  | .acquire => some (.acquire (.inner lock) (.releasesleep .clear lock))
  | .clear => some (.update (.unlockSleep lock) (.releasesleep .wake lock))
  | .wake => some (.call (.wakeup (.next 0) (.sleepLock lock)) (.releasesleep .release lock))
  | .release => some (.release (.inner lock) (.releasesleep .done lock))
  | .done => some (.ret 0)

/-- `iput`.  Whether the inode is valid and has no links is an input. -/
def iput (p : Nat) (pc : IputPc) (i : Nat) (shared : Shared) (input : Input) : Doing :=
  match pc with
  | .acquire => some (.acquire .itable (.iput .test i))
  | .test =>
    if (shared.irefs i).length = 1 ∧ input.ok = true then
      some (.call (.acquiresleep .acquire (.inode i)) (.iput .locking i))
    else some (.update .skip (.iput .drop i))
  | .locking => none
  | .locked => some (.release .itable (.iput .trunc i))
  | .trunc => some (.call (fsStart false) (.iput .truncated i))
  | .truncated => some (.call (.releasesleep .acquire (.inode i)) (.iput .unlocked i))
  | .unlocked => some (.acquire .itable (.iput .drop i))
  | .drop => some (.update (.idrop i p) (.iput .release i))
  | .release => some (.release .itable (.iput .done i))
  | .done => some (.ret 0)

/-- The state of a pipe after one end is closed. -/
def PipeState.close (pipe : PipeState) (writable : Bool) : PipeState :=
  if writable then { pipe with writeopen := false }
  else { pipe with readopen := false }

/-- Where those wait who use the other end of a pipe. -/
def otherEnd (i : Nat) (writable : Bool) : Chan := if writable then .pipeRead i else .pipeWrite i

theorem otherEnd_lock (i : Nat) (writable : Bool) : (otherEnd i writable).lock = .pipe i := by
  cases writable <;> rfl

/-- `fileclose`, with `pipeclose`.  The descriptor is cleared together with the
reference. -/
def fileclose (p : Nat) (pc : FileclosePc) (k : Nat) (shared : Shared) : Doing :=
  match pc with
  | .acquire => some (.acquire .ftable (.fileclose .drop k))
  | .drop =>
    if shared.frefs k = [] then some (.panic .fileclose)
    else if (shared.frefs k).erase p = [] then
      some (.update (.filedrop k p) (.fileclose (.releaseLast (shared.fkind k)) k))
    else some (.update (.filedrop k p) (.fileclose .releaseShared k))
  | .releaseShared => some (.release .ftable (.fileclose .done k))
  | .releaseLast kind =>
    match kind with
    | .none => some (.release .ftable (.fileclose .done k))
    | .pipe i writable => some (.release .ftable (.fileclose (.pipeLock i writable) k))
    | .inode i => some (.release .ftable (.fileclose (.beginOp i) k))
  | .pipeLock i writable => some (.acquire (.pipe i) (.fileclose (.pipeMark i writable) k))
  | .pipeMark i writable =>
    some (.update (.setPipe i ((shared.pipe i).close writable))
      (.fileclose (.pipeWake i writable) k))
  | .pipeWake i writable =>
    some (.call (.wakeup (.next 0) (otherEnd i writable)) (.fileclose (.pipeUnlock i) k))
  | .pipeUnlock i =>
    if (shared.pipe i).readopen ∨ (shared.pipe i).writeopen then
      some (.release (.pipe i) (.fileclose .done k))
    else some (.release (.pipe i) (.fileclose .pipeFree k))
  | .pipeFree => some (.call (.table .lock .kmem) (.fileclose .done k))
  | .beginOp i => some (.call (fsStart false) (.fileclose (.put i) k))
  | .put i => some (.call (.iput .acquire i) (.fileclose .endOp k))
  | .endOp => some (.call (fsStart false) (.fileclose .done k))
  | .done => some (.ret 0)

end Xv6KernelEvent.Process
