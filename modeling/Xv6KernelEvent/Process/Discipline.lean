import Xv6KernelEvent.Library.LockOwnership
import Xv6KernelEvent.Process.Kernel

/-!
# The lock discipline of the process core

Which spin locks every frame holds, and below which callers it runs.  The order
of the locks is by rank: condition locks, then the locks of processes, then
those of the tables.  A frame fits below callers whose locks leave room for the
ones it takes; the code follows the discipline except that `acquiresleep` must
not sleep below `iput`, which calls it with `itable.lock` held.
-/

namespace Xv6KernelEvent.Process

open SpinThreads

def Lock.rank : Lock → Nat
  | kq | wait | ticks | cons | pipe _ | inner _ | cond _ => 0
  | proc _ => 1
  | pid | ftable | itable | kmem | leaf _ => 2

@[simp] theorem Lock.rank_proc (p : Nat) : (Lock.proc p).rank = 1 := rfl

@[simp] theorem Chan.lock_rank (chan : Chan) : chan.lock.rank = 0 := by cases chan <;> rfl

@[simp] theorem TableOp.lock_rank (op : TableOp) : op.lock.rank = 2 := by cases op <;> rfl

/-- The lock of the process that a thread runs for. -/
def own : Option Nat → List Lock
  | some p => [.proc p]
  | none => []

def SleepPc.held (me : Option Nat) (lk : Lock) : SleepPc → List Lock
  | acquireProc => [lk]
  | releaseCond => own me ++ [lk]
  | mark | switch | resumed | releaseProc => own me
  | post | acquireCond => []
  | done => [lk]

def WakeupPc.held : WakeupPc → List Lock
  | next _ => []
  | check i | unlock i => [.proc i]

def KilledPc.held (me : Option Nat) : KilledPc → List Lock
  | lock => []
  | read | unlock _ => own me
  | done _ => []

def SetkilledPc.held (me : Option Nat) : SetkilledPc → List Lock
  | lock => []
  | mark | unlock => own me
  | done => []

def KqueuePostPc.held : KqueuePostPc → List Lock
  | acquire => []
  | insert | wake | release => [.kq]
  | done => []

def KqueueWaitPc.held : KqueueWaitPc → List Lock
  | acquire => []
  | test => [.kq]
  | asleep => []
  | release => [.kq]
  | done => []

def KkillPc.held : KkillPc → List Lock
  | next _ => []
  | check i | found i => [.proc i]
  | done => []

def SchedulerPc.held : SchedulerPc → List Lock
  | check i | assign i | switch i | back i | release i => [.proc i]
  | _ => []

def YieldPc.held (me : Option Nat) : YieldPc → List Lock
  | acquire => []
  | mark | switch | release => own me
  | done => []

def ForkretPc.held (me : Option Nat) : ForkretPc → List Lock
  | release => own me
  | leave => []

def KforkPc.held : KforkPc → List Lock
  | check np | allocated np | named np _ | memory np _ | abort np | abortUnlock np
  | files np _ _ | unlock np _ => [.proc np]
  | adopt _ _ | unlockWait _ _ => [.wait]
  | publish np _ | unlockChild np _ => [.proc np]
  | _ => []

def KexitPc.held (me : Option Nat) : KexitPc → List Lock
  | reparent _ | wakeInit _ | wakeParent | lockSelf => [.wait]
  | mark | unlockWait => own me ++ [.wait]
  | switch | dead => own me
  | _ => []

def KwaitPc.held : KwaitPc → List Lock
  | scan _ _ => [.wait]
  | check child | copy child _ | free child _ _ | unlockChild child _ _ => [.proc child, .wait]
  | unlockWait _ _ | checking | sleep | failing => [.wait]
  | _ => []

def AcquiresleepPc.held (lock : SleepLock) : AcquiresleepPc → List Lock
  | test | release => [.inner lock]
  | _ => []

def ReleasesleepPc.held (lock : SleepLock) : ReleasesleepPc → List Lock
  | clear | wake | release => [.inner lock]
  | _ => []

def IputPc.held : IputPc → List Lock
  | test | locking | locked | drop | release => [.itable]
  | _ => []

def FileclosePc.held : FileclosePc → List Lock
  | drop | releaseShared | releaseLast _ => [.ftable]
  | pipeMark i _ | pipeWake i _ | pipeUnlock i => [.pipe i]
  | _ => []

def TablePc.held (op : TableOp) : TablePc → List Lock
  | body | unlock _ => [op.lock]
  | _ => []

def SectionPc.held (n : Nat) : SectionPc → List Lock
  | body => [.cond n]
  | inner m => [.leaf m, .cond n]
  | _ => []

def PausePc.held : PausePc → List Lock
  | start | test _ | checking _ | sleep _ | failing => [.ticks]
  | _ => []

def PipereadPc.held (i : Nat) : PipereadPc → List Lock
  | acquire | asleep | done _ | failed => []
  | _ => [.pipe i]

def PipewritePc.held (i : Nat) : PipewritePc → List Lock
  | acquire | asleep _ | done _ | failed => []
  | _ => [.pipe i]

def ConsolereadPc.held : ConsolereadPc → List Lock
  | acquire | asleep _ | done _ | failed => []
  | _ => [.cons]

def ClockintrPc.held : ClockintrPc → List Lock
  | tick | wake | release => [.ticks]
  | _ => []

def ConsoleintrPc.held : ConsoleintrPc → List Lock
  | edit | wake | release => [.cons]
  | print n => [.leaf n, .cons]
  | _ => []

/-- The spin locks that a frame itself holds. -/
def Frame.held (me : Option Nat) : Frame → List Lock
  | sleep pc _ lk => pc.held me lk
  | wakeup pc _ => pc.held
  | killed pc | setkilled pc => pc.held me
  | kqueuePost pc _ | kqueueWait pc | kkill pc _ | scheduler pc => pc.held
  | yield pc | forkret pc => pc.held me
  | kfork pc => pc.held
  | kexit pc _ => pc.held me
  | kwait pc _ => pc.held
  | acquiresleep pc lock | releasesleep pc lock => pc.held lock
  | iput pc _ | fileclose pc _ => pc.held
  | table pc op => pc.held op
  | .section pc n _ => pc.held n
  | pause pc _ => pc.held
  | piperead pc i _ | pipewrite pc i _ => pc.held i
  | consoleread pc _ | clockintr pc | consoleintr pc => pc.held
  | fs _ _ _ _ | sysWrite _ _ | usertrap _ | kerneltrap _ => []

/-- `sleep` returns with the condition lock. -/
def Frame.returns : Frame → List Lock
  | sleep _ _ lk => [lk]
  | _ => []

def Frame.awaits : Frame → List Lock
  | kqueueWait .asleep => [.kq]
  | kwait .asleep _ => [.wait]
  | acquiresleep .asleep lock => [.inner lock]
  | .section .asleep n _ => [.cond n]
  | pause (.asleep _) _ => [.ticks]
  | piperead .asleep i _ | pipewrite (.asleep _) i _ => [.pipe i]
  | consoleread (.asleep _) _ => [.cons]
  | _ => []

/-- What a function does for its caller. -/
inductive Errand where
  | plain
  | allocpid
  | lock (lock : SleepLock)
  | unlock (lock : SleepLock)
  | iget (i : Nat)
  deriving DecidableEq

def TableOp.gives : TableOp → Errand
  | allocpid => .allocpid
  | iget i => .iget i
  | _ => .plain

def Frame.gives : Frame → Errand
  | acquiresleep _ lock => .lock lock
  | releasesleep _ lock => .unlock lock
  | table _ op => op.gives
  | _ => .plain

def Frame.wants : Frame → Errand
  | kfork (.allocated _) => .allocpid
  | fs _ _ _ (some (.lock lock)) => .lock lock.1
  | fs _ _ _ (some (.unlock lock)) => .unlock lock.1
  | fs _ _ _ (some (.iget i)) => .iget i
  | iput .locking i => .lock (.inode i)
  | iput .unlocked i => .unlock (.inode i)
  | _ => .plain

def Frame.root : Frame → Bool
  | scheduler _ | forkret _ | usertrap _ | kerneltrap _ => true
  | _ => false

/-- How far the calls below a frame can reach; `0` is the level of what
interrupt handlers run as well. -/
def Frame.level : Frame → Nat
  | forkret _ => 8
  | usertrap _ => 7
  | kexit _ _ | kfork _ | kwait _ _ | kkill _ _ | kqueueWait _ | pause _ _ | piperead _ _ _
  | consoleread _ _ | sysWrite _ _ => 6
  | fileclose _ _ | pipewrite _ _ _ => 5
  | fs outer _ _ _ => if outer then 4 else 2
  | iput _ _ => 3
  | acquiresleep _ _ | releasesleep _ _ | table _ _ => 1
  | _ => 0

/-- The slot of the child while `kfork` works on it. -/
def KforkPc.child? : KforkPc → Option Nat
  | scan _ => none
  | check np | allocated np | named np _ | memory np _ | abort np | abortUnlock np
  | files np _ _ | unlock np _ | lockWait np _ | adopt np _ | unlockWait np _
  | lockChild np _ | publish np _ | unlockChild np _ | post np _ => some np
  | done _ | failed => none

/-- The locks that the callers of a frame may hold. -/
def Frame.Room (locks : List Lock) : Frame → Prop
  | sleep _ chan lk => locks = [] ∧ lk = chan.lock
  | wakeup pc chan =>
    chan.lock ∈ locks ∧ (∀ lock ∈ locks, lock.rank = 0) ∧ match pc with
      | .next _ => True
      | .check i | .unlock i => i < NPROC
  | killed _ | setkilled _ => ∀ lock ∈ locks, lock.rank = 0
  | table _ _ => ∀ lock ∈ locks, lock.rank < 2
  | acquiresleep _ _ => locks = [] ∨ locks = [.itable]
  | scheduler (.check i) => locks = [] ∧ i < NPROC
  | kfork pc => locks = [] ∧ ∀ np ∈ pc.child?, np < NPROC
  | _ => locks = []

/-- A frame that fits below its callers on the thread of `me`. -/
structure Fits (me : Option Nat) (frame : Frame) (callers : List Frame) : Prop where
  room : frame.Room (callers.flatMap (Frame.held me))
  below : 0 < frame.level → ∀ caller ∈ callers, frame.level < caller.level
  thread : me = none → frame.level = 0

def discipline : Discipline Lock Errand Frame where
  held := Frame.held
  returns := Frame.returns
  awaits := Frame.awaits
  gives := Frame.gives
  wants := Frame.wants
  root := Frame.root
  fits := Fits

end Xv6KernelEvent.Process
