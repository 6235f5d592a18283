import Mathlib.Logic.Function.Basic
import Xv6KernelEvent.Event.Queue
import Xv6KernelEvent.Param

/-!
# The data of the process core

The process table, the event queue, the sleep locks and the reference counts
that `kernel/proc.c`, `kernel/sleeplock.c`, `kernel/file.c` and `iput` share
between CPUs, with the assignments that the code makes between two lock
operations.
-/

namespace Xv6KernelEvent.Process

inductive ProcState where
  | unused
  | used
  | sleeping
  | runnable
  | running
  | zombie
  deriving DecidableEq

/-- `struct sleeplock`s of in-core inodes and of disk buffers. -/
inductive SleepLock where
  | inode (i : Nat)
  | buf (b : Nat)
  deriving DecidableEq

/-- The addresses that processes sleep on.  `other n m` are those of the drivers
and of the log, with the condition lock `n`. -/
inductive Chan where
  | kq
  | proc (p : Nat)
  | ticks
  | consRead
  | pipeRead (i : Nat)
  | pipeWrite (i : Nat)
  | sleepLock (lock : SleepLock)
  | other (n m : Nat)
  deriving DecidableEq

/-- The spin locks.  `inner` is the spin lock inside a sleep lock, `cond` a
condition lock of a driver or of the log, and `leaf` a lock under which no
other lock is taken. -/
inductive Lock where
  | kq
  | wait
  | ticks
  | cons
  | pipe (i : Nat)
  | inner (lock : SleepLock)
  | cond (n : Nat)
  | proc (p : Nat)
  | pid
  | ftable
  | itable
  | kmem
  | leaf (n : Nat)
  deriving DecidableEq

/-- The condition lock of a channel. -/
def Chan.lock : Chan → Lock
  | kq => .kq
  | proc _ => .wait
  | ticks => .ticks
  | consRead => .cons
  | pipeRead i | pipeWrite i => .pipe i
  | sleepLock lock => .inner lock
  | other n _ => .cond n

/-- `birth` is the number of the process among all that `allocpid` has named, so
it tells processes apart even when they have the same pid. -/
structure Proc where
  state : ProcState
  chan : Option Chan
  killed : Bool
  xstate : Int
  birth : Nat
  parent : Option Nat
  ofile : List Nat
  cwd : Option Nat

/-- The pid of a process, an `int` that overflows. -/
def pidOf (birth : Nat) : Int32 := Int32.ofNat birth

/-- `p->pid`. -/
def Proc.pid (proc : Proc) : Int32 := pidOf proc.birth

/-- The names that the kernel gives to its own events, and those that come from
`sys_kqueue_post`. -/
inductive EventName where
  | fork
  | write
  | sleep
  | user (name : List UInt8)
  deriving DecidableEq

def EventName.bytes : EventName → List UInt8
  | fork => [102, 111, 114, 107]
  | write => [119, 114, 105, 116, 101]
  | sleep => [115, 108, 101, 101, 112]
  | user name => name

/-- The arguments of `kqueue_post`; the queue keeps the pid as an `int`. -/
structure Post where
  name : EventName
  pid : Int
  deriving DecidableEq

def Post.nameByte (post : Post) (offset : Nat) : UInt8 := post.name.bytes.getD offset 0

structure PipeState where
  nread : UInt32
  nwrite : UInt32
  readopen : Bool
  writeopen : Bool

/-- Who counts in the `ref` field of an in-core inode: a pointer of a process,
its `cwd` or a variable of a system call, or an open file. -/
inductive Holder where
  | process (p : Nat)
  | file (k : Nat)
  deriving DecidableEq

inductive FileKind where
  | none
  | pipe (i : Nat) (writable : Bool)
  | inode (i : Nat)
  deriving DecidableEq

/-- A return of `kwait`: the births of the caller and of the child, and the exit
status that was copied out, if an address was given. -/
structure Reap where
  parent : Nat
  birth : Nat
  status : Option Int
  deriving DecidableEq

/-- `births` is `nextpid` without its overflow.  `posts` are the events of all
calls of `kqueue_post`, oldest first.  `forks` are the births of parent and child
of every `kfork`, `exits` the birth and status of every process that became a
zombie, and `reaps` the returns of `kwait`.
`locked l` is `none` for a free sleep lock and the `pid` field otherwise.
`ip->ref` is the length of `irefs`, and `f->ref` the one of `frefs`. -/
structure Shared where
  proc : Nat → Proc
  births : Nat
  initproc : Nat
  kq : Kqueue
  posts : List Post
  forks : List (Nat × Nat)
  exits : List (Nat × Int)
  reaps : List Reap
  locked : SleepLock → Option Nat
  irefs : Nat → List Holder
  frefs : Nat → List Nat
  fkind : Nat → FileKind
  ticks : UInt32
  pipe : Nat → PipeState
  consRead : UInt32
  consWrite : UInt32

/-- The assignments. -/
inductive Update where
  | skip
  | goToSleep (p : Nat) (chan : Chan)
  | clearChan (p : Nat)
  | wake (p : Nat) (chan : Chan)
  | kill (p : Nat)
  | setKilled (p : Nat)
  | yield (p : Nat)
  | dispatch (p : Nat)
  | allocpid
  | allocproc (np pid : Nat)
  | freeproc (p : Nat)
  | reap (p : Nat) (pid : Nat) (status : Option Int)
  | adopt (np p : Nat)
  | publish (np : Nat)
  | reparent (child : Nat)
  | exit (p : Nat) (status : Int)
  | post (post : Post) (kq : Kqueue)
  | take (kq : Kqueue)
  | lockSleep (lock : SleepLock) (pid : Nat)
  | unlockSleep (lock : SleepLock)
  | filealloc (k p : Nat)
  | filedup (k p : Nat)
  | filedrop (k p : Nat)
  | bindInode (k i p : Nat)
  | bindPipe (k i : Nat) (writable : Bool)
  | iref (i p : Nat)
  | idup (i np : Nat)
  | idrop (i p : Nat)
  | chdir (p i : Nat)
  | leaveCwd (p : Nat)
  | tick
  | setPipe (i : Nat) (pipe : PipeState)
  | setCons (read write : UInt32)

namespace Shared

def setProc (shared : Shared) (p : Nat) (change : Proc → Proc) : Shared :=
  { shared with
    proc := Function.update shared.proc p (change (shared.proc p)) }

/-- The state after a process that sleeps has been woken up. -/
def wake (state : ProcState) : ProcState := if state = .sleeping then .runnable else state

/-- What `freeproc` resets. -/
def freeproc (proc : Proc) : Proc :=
  { proc with
    state := .unused
    chan := none
    killed := false
    xstate := 0
    birth := 0
    parent := none }

/-- The references after `fileclose` has dropped one of process `p`.  The
reference of a file that is closed for good is then held by the process. -/
def filedrop (shared : Shared) (k p : Nat) : Shared :=
  let rest := (shared.frefs k).erase p
  { shared.setProc p fun proc => { proc with ofile := proc.ofile.erase k } with
    frefs := Function.update shared.frefs k rest
    fkind :=
      if rest = [] then Function.update shared.fkind k .none
      else shared.fkind
    irefs :=
      match rest, shared.fkind k with
      | [], .inode i =>
        Function.update shared.irefs i ((shared.irefs i).replace (.file k) (.process p))
      | _, _ => shared.irefs }

end Shared

open Shared in
def Update.apply (shared : Shared) : Update → Shared
  | skip => shared
  | goToSleep p chan =>
    shared.setProc p fun proc => { proc with chan := some chan, state := .sleeping }
  | clearChan p => shared.setProc p fun proc => { proc with chan := none }
  | wake p chan =>
    shared.setProc p fun proc =>
      { proc with state := if proc.chan = some chan then Shared.wake proc.state else proc.state }
  | kill p =>
    shared.setProc p fun proc => { proc with killed := true, state := Shared.wake proc.state }
  | setKilled p => shared.setProc p fun proc => { proc with killed := true }
  | yield p => shared.setProc p fun proc => { proc with state := .runnable }
  | dispatch p => shared.setProc p fun proc => { proc with state := .running }
  | allocpid => { shared with births := shared.births + 1 }
  | allocproc np pid => shared.setProc np fun proc => { proc with birth := pid, state := .used }
  | freeproc p => shared.setProc p Shared.freeproc
  | reap p pid status =>
    { shared with
      reaps := shared.reaps ++ [⟨(shared.proc p).birth, pid, status⟩] }
  | adopt np p =>
    { shared.setProc np fun proc => { proc with parent := some p } with
      forks := shared.forks ++ [((shared.proc p).birth, (shared.proc np).birth)] }
  | publish np => shared.setProc np fun proc => { proc with state := .runnable }
  | reparent child => shared.setProc child fun proc => { proc with parent := some shared.initproc }
  | exit p status =>
    { shared.setProc p fun proc =>
        { proc with xstate := status, state := .zombie } with
      exits := shared.exits ++ [((shared.proc p).birth, status)] }
  | post event kq => { shared with kq := kq, posts := shared.posts ++ [event] }
  | take kq => { shared with kq := kq }
  | lockSleep lock pid => { shared with locked := Function.update shared.locked lock (some pid) }
  | unlockSleep lock => { shared with locked := Function.update shared.locked lock none }
  | filealloc k p =>
    { shared.setProc p fun proc =>
        { proc with ofile := k :: proc.ofile } with
      frefs := Function.update shared.frefs k [p] }
  | filedup k p =>
    { shared.setProc p fun proc =>
        { proc with ofile := k :: proc.ofile } with
      frefs := Function.update shared.frefs k (p :: shared.frefs k) }
  | filedrop k p => shared.filedrop k p
  | bindInode k i p =>
    { shared with
      fkind := Function.update shared.fkind k (.inode i)
      irefs := Function.update shared.irefs i ((shared.irefs i).replace (.process p) (.file k)) }
  | bindPipe k i writable =>
    { shared with
      fkind := Function.update shared.fkind k (.pipe i writable) }
  | iref i p =>
    { shared with
      irefs := Function.update shared.irefs i (.process p :: shared.irefs i) }
  | idup i np =>
    { shared.setProc np fun proc => { proc with cwd := some i } with
      irefs := Function.update shared.irefs i (.process np :: shared.irefs i) }
  | idrop i p =>
    { shared with
      irefs := Function.update shared.irefs i ((shared.irefs i).erase (.process p)) }
  | chdir p i => shared.setProc p fun proc => { proc with cwd := some i }
  | leaveCwd p => shared.setProc p fun proc => { proc with cwd := none }
  | tick => { shared with ticks := shared.ticks + 1 }
  | setPipe i pipe => { shared with pipe := Function.update shared.pipe i pipe }
  | setCons read write => { shared with consRead := read, consWrite := write }

end Xv6KernelEvent.Process
