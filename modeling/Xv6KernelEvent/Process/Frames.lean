import Xv6KernelEvent.Process.State

/-!
# Frames of the process core

Each kernel function is a frame with its arguments and a program counter: the
lock operation, assignment, call or return that it comes to next.  File-system
code between two lock operations is one frame, `fs`, that takes references and
sleep locks in any order a system call may take them.
-/

namespace Xv6KernelEvent.Process

inductive SleepPc where
  | acquireProc
  | releaseCond
  | mark
  | switch
  | resumed
  | releaseProc
  | post
  | acquireCond
  | done
  deriving DecidableEq

inductive WakeupPc where
  | next (i : Nat)
  | check (i : Nat)
  | unlock (i : Nat)
  deriving DecidableEq

inductive KilledPc where
  | lock
  | read
  | unlock (k : Bool)
  | done (k : Bool)
  deriving DecidableEq

inductive SetkilledPc where
  | lock
  | mark
  | unlock
  | done
  deriving DecidableEq

inductive KqueuePostPc where
  | acquire
  | insert
  | wake
  | release
  | done
  deriving DecidableEq

inductive KqueueWaitPc where
  | acquire
  | test
  | asleep
  | release
  | done
  deriving DecidableEq

inductive KkillPc where
  | next (i : Nat)
  | check (i : Nat)
  | found (i : Nat)
  | done
  deriving DecidableEq

inductive SchedulerPc where
  | idle
  | masked
  | next (i : Nat)
  | check (i : Nat)
  | assign (i : Nat)
  | switch (i : Nat)
  | back (i : Nat)
  | release (i : Nat)
  deriving DecidableEq

inductive YieldPc where
  | acquire
  | mark
  | switch
  | release
  | done
  deriving DecidableEq

inductive ForkretPc where
  | release
  | leave
  deriving DecidableEq

/-- `np` is the slot of the child and `pid` its birth. -/
inductive KforkPc where
  | scan (np : Nat)
  | check (np : Nat)
  | allocated (np : Nat)
  | named (np pid : Nat)
  | memory (np pid : Nat)
  | abort (np : Nat)
  | abortUnlock (np : Nat)
  | files (np pid : Nat) (ofile : List Nat)
  | unlock (np pid : Nat)
  | lockWait (np pid : Nat)
  | adopt (np pid : Nat)
  | unlockWait (np pid : Nat)
  | lockChild (np pid : Nat)
  | publish (np pid : Nat)
  | unlockChild (np pid : Nat)
  | post (np pid : Nat)
  | done (pid : Nat)
  | failed
  deriving DecidableEq

inductive KexitPc where
  | start
  | files
  | begun
  | put (i : Nat)
  | endOp
  | acquireWait
  | reparent (child : Nat)
  | wakeInit (child : Nat)
  | wakeParent
  | lockSelf
  | mark
  | unlockWait
  | switch
  | dead
  deriving DecidableEq

/-- `havekids` is the variable of `kwait`, and `status` the exit status that it
has copied out. -/
inductive KwaitPc where
  | acquire
  | scan (child : Nat) (havekids : Bool)
  | check (child : Nat)
  | copy (child pid : Nat)
  | free (child pid : Nat) (status : Option Int)
  | unlockChild (child pid : Nat) (status : Option Int)
  | unlockWait (pid : Nat) (status : Option Int)
  | done (pid : Nat) (status : Option Int)
  | returned (pid : Nat)
  | checking
  | sleep
  | asleep
  | failing
  | failed
  deriving DecidableEq

inductive AcquiresleepPc where
  | acquire
  | test
  | asleep
  | release
  | done
  deriving DecidableEq

inductive ReleasesleepPc where
  | acquire
  | clear
  | wake
  | release
  | done
  deriving DecidableEq

inductive IputPc where
  | acquire
  | test
  | locking
  | locked
  | trunc
  | truncated
  | unlocked
  | drop
  | release
  | done
  deriving DecidableEq

inductive FileclosePc where
  | acquire
  | drop
  | releaseShared
  | releaseLast (kind : FileKind)
  | pipeLock (i : Nat) (writable : Bool)
  | pipeMark (i : Nat) (writable : Bool)
  | pipeWake (i : Nat) (writable : Bool)
  | pipeUnlock (i : Nat)
  | pipeFree
  | beginOp (i : Nat)
  | put (i : Nat)
  | endOp
  | done
  deriving DecidableEq

/-- Critical sections of one lock in which no other lock is taken. -/
inductive TableOp where
  | allocpid
  | kmem
  | filealloc (k : Nat)
  | filedup (k p : Nat)
  | idup (i np : Nat)
  | iget (i : Nat)
  | other (n : Nat)
  deriving DecidableEq

inductive TablePc where
  | lock
  | body
  | unlock (value : Int)
  | done (value : Int)
  deriving DecidableEq

inductive SectionPc where
  | acquire
  | body
  | inner (m : Nat)
  | asleep
  | done
  deriving DecidableEq

/-- A sleep lock that file-system code holds, with the open file through which
it has found the inode, if it has no reference of its own. -/
abbrev FsLock : Type := SleepLock × Option Nat

inductive FsOp where
  | table (n : Nat)
  | memory
  | section (n : Nat)
  | iget (i : Nat)
  | iput (i : Nat)
  | lock (lock : FsLock)
  | unlock (lock : FsLock)
  | filealloc (k : Nat)
  | filedup (k : Nat)
  | bindInode (k i : Nat)
  | bindPipe (k i : Nat) (writable : Bool)
  | chdir (i : Nat)
  | finish (value : Int)
  deriving DecidableEq

/-- `ticks0` is the variable of `sys_pause`. -/
inductive PausePc where
  | acquire
  | start
  | test (ticks0 : UInt32)
  | checking (ticks0 : UInt32)
  | sleep (ticks0 : UInt32)
  | asleep (ticks0 : UInt32)
  | post
  | done
  | failing
  | failed
  deriving DecidableEq

inductive PipereadPc where
  | acquire
  | test
  | checking
  | sleep
  | asleep
  | copy (i : Nat)
  | wake (value : Int)
  | release (value : Int)
  | done (value : Int)
  | failing
  | failed
  deriving DecidableEq

inductive PipewritePc where
  | acquire
  | test (i : Nat)
  | checking (i : Nat)
  | put (i : Nat)
  | sleep (i : Nat)
  | asleep (i : Nat)
  | release (value : Int)
  | done (value : Int)
  | failing
  | failed
  deriving DecidableEq

/-- `n` is what `consoleread` has left to read. -/
inductive ConsolereadPc where
  | acquire
  | outer (n : Nat)
  | test (n : Nat)
  | checking (n : Nat)
  | sleep (n : Nat)
  | asleep (n : Nat)
  | take (n : Nat)
  | release (n : Nat)
  | done (n : Nat)
  | failing
  | failed
  deriving DecidableEq

inductive SysWritePc where
  | start
  | wrote
  | post (result : Int)
  | done (result : Int)
  deriving DecidableEq

inductive ClockintrPc where
  | start
  | tick
  | wake
  | release
  | done
  deriving DecidableEq

inductive ConsoleintrPc where
  | acquire
  | edit
  | print (n : Nat)
  | wake
  | release
  | done
  deriving DecidableEq

/-- The system calls.  `addr` says whether `wait` was given an address, and `fs`
is any call that works on the file system. -/
inductive Syscall where
  | fork
  | exit (status : Int)
  | wait (addr : Bool)
  | kill (pid : Int32)
  | pause (n : UInt32)
  | kqueueWait
  | kqueuePost (name : List UInt8) (pid : Int)
  | write (pipe : Option (Nat × Nat))
  | piperead (i n : Nat)
  | consoleread (n : Nat)
  | close (k : Nat)
  | fs
  deriving DecidableEq

inductive Irq where
  | timer
  | uart
  | device (n : Nat)
  deriving DecidableEq

inductive UsertrapPc where
  | syscall (call : Syscall)
  | checked (call : Syscall)
  | enable (call : Syscall)
  | dispatch (call : Syscall)
  | device (irq : Irq)
  | fault
  | handled (timer : Bool)
  | checkedAgain (timer : Bool)
  | leaving (timer : Bool)
  | disable
  | leave
  | exiting
  | exited
  deriving DecidableEq

inductive KerneltrapPc where
  | start (irq : Irq)
  | handled (irq : Irq)
  | leave
  deriving DecidableEq

inductive Frame where
  | sleep (pc : SleepPc) (chan : Chan) (lk : Lock)
  | wakeup (pc : WakeupPc) (chan : Chan)
  | killed (pc : KilledPc)
  | setkilled (pc : SetkilledPc)
  | kqueuePost (pc : KqueuePostPc) (post : Post)
  | kqueueWait (pc : KqueueWaitPc)
  | kkill (pc : KkillPc) (pid : Int32)
  | scheduler (pc : SchedulerPc)
  | yield (pc : YieldPc)
  | forkret (pc : ForkretPc)
  | kfork (pc : KforkPc)
  | kexit (pc : KexitPc) (status : Int)
  | kwait (pc : KwaitPc) (addr : Bool)
  | acquiresleep (pc : AcquiresleepPc) (lock : SleepLock)
  | releasesleep (pc : ReleasesleepPc) (lock : SleepLock)
  | iput (pc : IputPc) (i : Nat)
  | fileclose (pc : FileclosePc) (k : Nat)
  | table (pc : TablePc) (op : TableOp)
  | section (pc : SectionPc) (n : Nat) (sleeps : Bool)
  | fs (outer : Bool) (refs : List Nat) (locks : List FsLock) (pending : Option FsOp)
  | pause (pc : PausePc) (n : UInt32)
  | piperead (pc : PipereadPc) (i n : Nat)
  | pipewrite (pc : PipewritePc) (i n : Nat)
  | consoleread (pc : ConsolereadPc) (target : Nat)
  | sysWrite (pc : SysWritePc) (pipe : Option (Nat × Nat))
  | clockintr (pc : ClockintrPc)
  | consoleintr (pc : ConsoleintrPc)
  | usertrap (pc : UsertrapPc)
  | kerneltrap (pc : KerneltrapPc)
  deriving DecidableEq

/-- What `consoleread` finds in the console buffer. -/
inductive ConsoleChar where
  | eof
  | unmapped
  | newline
  | plain
  deriving DecidableEq

inductive SectionOp where
  | inner (m : Nat)
  | sleep (m : Nat)
  | wake (m : Nat)
  | finish

/-- What a step depends on besides the state: whether a page was found and a
copy succeeded, the clock, the characters that were typed, what a system call
does next to the file system, and the traps. -/
inductive Input where
  | go (ok : Bool)
  | memory
  | time (now : UInt64)
  | char (found : ConsoleChar)
  | line (write : UInt32)
  | procdump (n : Nat)
  | section (op : SectionOp)
  | fs (op : FsOp)
  | syscall (call : Syscall)
  | userInterrupt (irq : Irq)
  | fault
  | interrupt (irq : Irq)

namespace Input

def ok : Input → Bool
  | .go ok => ok
  | _ => false

def isMemory : Input → Bool
  | .memory => true
  | _ => false

def now : Input → UInt64
  | .time now => now
  | _ => 0

def found : Input → ConsoleChar
  | .char seen => seen
  | _ => .plain

end Input

inductive Reason where
  | initExiting
  | zombieExit
  | filedup
  | fileclose
  | eventIndex
  deriving DecidableEq

end Xv6KernelEvent.Process
