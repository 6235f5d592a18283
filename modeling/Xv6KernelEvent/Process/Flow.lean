import Xv6KernelEvent.Process.Soundness

/-!
# What the code may do

`Makes` lists every assignment of the code with the program points around it.
`Frame.owns` are the sleep locks and inode references that a frame has to give
back, and `Frame.Assert` is what holds at a program point whatever the other
CPUs do.  `code_flows` checks all points of the code once; the invariants below
only look at the few points that matter to them.
-/

namespace Xv6KernelEvent.Process

open SpinThreads

/-- A reference to an in-core inode, a sleep lock, or a pid that is in no slot of
the process table. -/
inductive Resource where
  | ref (i : Nat)
  | sleep (lock : SleepLock)
  | pid (n : Nat)
  deriving DecidableEq

def AcquiresleepPc.owns (lock : SleepLock) : AcquiresleepPc → List Resource
  | release | done => [.sleep lock]
  | _ => []

def ReleasesleepPc.owns (lock : SleepLock) : ReleasesleepPc → List Resource
  | acquire | clear => [.sleep lock]
  | _ => []

def IputPc.owns (i : Nat) : IputPc → List Resource
  | locked | trunc | truncated => [.sleep (.inode i), .ref i]
  | release | done => []
  | _ => [.ref i]

def FileclosePc.owns : FileclosePc → List Resource
  | releaseLast (.inode i) | beginOp i | put i => [.ref i]
  | _ => []

def KforkPc.owns : KforkPc → List Resource
  | named _ pid => [.pid pid]
  | _ => []

def KexitPc.owns : KexitPc → List Resource
  | put i => [.ref i]
  | _ => []

def KwaitPc.owns : KwaitPc → List Resource
  | unlockChild _ pid _ | unlockWait pid _ | done pid _ => [.pid pid]
  | _ => []

/-- The resources that come with the return of a function. -/
def Errand.yields (value : Int) : Errand → List Resource
  | .allocpid => [.pid value.toNat]
  | .lock held => [.sleep held]
  | .iget i => [.ref i]
  | _ => []

def TablePc.owns (op : TableOp) : TablePc → List Resource
  | unlock value | done value => op.gives.yields value
  | _ => []

/-- The resources of a frame. -/
def Frame.owns : Frame → List Resource
  | acquiresleep pc lock | releasesleep pc lock => pc.owns lock
  | iput pc i => pc.owns i
  | fileclose pc _ | kfork pc | kexit pc _ | kwait pc _ => pc.owns
  | table pc op => pc.owns op
  | fs _ refs locks _ => refs.map .ref ++ locks.map fun lock => .sleep lock.1
  | _ => []

/-- What a frame has to do with sleeping and waking: it has released the
condition lock and is about to sleep, it has gone to sleep or has woken up, it
goes through the table from slot `i` on, it has just woken up its parent and is
about to become a zombie, or it is about to switch to a process. -/
inductive Mode where
  | calm
  | marking (chan : Chan)
  | asleep (chan : Chan)
  | woken (chan : Chan)
  | yielding
  | hushed
  | dying
  | waking (chan : Chan) (i : Nat)
  | picking (p : Nat)
  deriving DecidableEq

def WakeupPc.index : WakeupPc → Nat
  | next i | check i => i
  | unlock i => i + 1

def Frame.mode : Frame → Mode
  | sleep .mark chan _ => .marking chan
  | sleep .switch chan _ => .asleep chan
  | sleep .resumed chan _ => .woken chan
  | yield .switch => .yielding
  | kexit .lockSelf _ | kexit .mark _ => .hushed
  | kexit .unlockWait _ | kexit .switch _ => .dying
  | wakeup pc chan => .waking chan pc.index
  | scheduler (.assign p) | scheduler (.switch p) => .picking p
  | _ => .calm

/-- The state of a process that runs in a mode. -/
def Mode.state : Mode → ProcState
  | asleep _ => .sleeping
  | yielding => .runnable
  | dying => .zombie
  | _ => .running

/-- The channel of a process in a mode. -/
def Mode.chan : Mode → Option Chan
  | asleep chan | woken chan => some chan
  | _ => none

/-- None of the first `n` slots is a zombie child of process `p`. -/
def NoZombie (shared : Shared) (p n : Nat) : Prop :=
  ∀ child < n, (shared.proc child).parent = some p → (shared.proc child).state ≠ .zombie

/-- None of the first `n` slots is a child of process `p`. -/
def NoChild (shared : Shared) (p n : Nat) : Prop := ∀ child < n, (shared.proc child).parent ≠ some p

/-- What makes it right to go to sleep on a channel. -/
def MustWait (shared : Shared) : Chan → Prop
  | .kq => shared.kq.count = 0
  | .sleepLock lock => shared.locked lock ≠ none
  | .proc p => NoZombie shared p NPROC
  | _ => True

/-- File-system code has an inode locked through a reference of its own or
through an open file of its process. -/
def Justified (me : Option Nat) (refs : List Nat) (shared : Shared) : FsLock → Prop
  | (.buf _, _) => True
  | (.inode i, none) => i ∈ refs
  | (.inode i, some k) => ∃ p, me = some p ∧ k ∈ (shared.proc p).ofile ∧ shared.fkind k = .inode i

/-- The sleep lock that file-system code is taking or giving back. -/
def FsOp.locks : Option FsOp → List FsLock
  | some (.lock taken) => [taken]
  | some (.unlock given) => [given]
  | _ => []

/-- The slot whose state a frame relies on. -/
def Frame.claim? : Frame → Option (Nat × ProcState)
  | kfork (.allocated np) | kfork (.named np _) => some (np, .unused)
  | kfork (.memory np _) | kfork (.abort np) | kfork (.files np _ _) | kfork (.unlock np _)
  | kfork (.lockWait np _) | kfork (.adopt np _) | kfork (.unlockWait np _)
  | kfork (.lockChild np _) | kfork (.publish np _) => some (np, .used)
  | kwait (.copy child _) _ | kwait (.free child _ _) _ => some (child, .zombie)
  | _ => none

/-- A pid that no zombie has had. -/
def Unexited (shared : Shared) (pid : Nat) : Prop := pid ∉ shared.exits.map Prod.fst

/-- The pid of `kfork`'s child. -/
def KforkPc.Stands (shared : Shared) : KforkPc → Prop
  | named _ pid => Unexited shared pid
  | memory np pid | files np pid _ | unlock np pid | lockWait np pid | adopt np pid
  | unlockWait np pid | lockChild np pid | publish np pid => (shared.proc np).birth = pid
  | _ => True

/-- `init` does not come past the first line of `kexit`, and `reparent` leaves no
child behind. -/
def KexitPc.Stands (p : Nat) (shared : Shared) : KexitPc → Prop
  | start => True
  | reparent n => p ≠ shared.initproc ∧ NoChild shared p n
  | wakeInit n => p ≠ shared.initproc ∧ NoChild shared p (n + 1)
  | wakeParent | lockSelf | mark => p ≠ shared.initproc ∧ NoChild shared p NPROC
  | _ => p ≠ shared.initproc

/-- A process has been the creator of a pid, or is the one that children of an
exited creator are given to. -/
def Lineage (shared : Shared) (p pid : Nat) : Prop :=
  ∃ creator, (creator, pid) ∈ shared.forks ∧ ((shared.proc p).birth = creator ∨
      p = shared.initproc ∧ ∃ status, (creator, status) ∈ shared.exits)

/-- What the last part of `kwait` knows of the child that it has freed. -/
def Reaped (p : Nat) (shared : Shared) (pid : Nat) (status : Option Int) : Prop :=
  Lineage shared p pid ∧ ∃ exitStatus, (pid, exitStatus) ∈ shared.exits ∧
      ∀ copied ∈ status, copied = exitStatus

/-- The zombie that `kwait` has found, and what it has looked at before. -/
def KwaitPc.Stands (p : Nat) (shared : Shared) : KwaitPc → Prop
  | scan child _ => NoZombie shared p child
  | check child => NoZombie shared p child ∧ (shared.proc child).parent = some p
  | copy child pid => (shared.proc child).parent = some p ∧ (shared.proc child).birth = pid
  | free child pid status =>
    (shared.proc child).parent = some p ∧ (shared.proc child).birth = pid ∧
      ∀ copied ∈ status, copied = (shared.proc child).xstate
  | unlockChild _ pid status | unlockWait pid status | done pid status => Reaped p shared pid status
  | checking | sleep => NoZombie shared p NPROC
  | _ => True

/-- The kernel posts its own events for the process that it runs for. -/
def Post.Genuine (me : Option Nat) (shared : Shared) (post : Post) : Prop :=
  post.name = .write ∨ post.name = .sleep → ∀ p ∈ me, post.pid = (shared.proc p).birth

/-- What holds at a program point, whatever the other CPUs do. -/
def Frame.Stands (me : Option Nat) (shared : Shared) : Frame → Prop
  | sleep .acquireProc chan _ | sleep .releaseCond chan _ => MustWait shared chan
  | kqueuePost .acquire post | kqueuePost .insert post => post.Genuine me shared
  | kfork pc => pc.Stands shared
  | kexit pc _ | kwait pc _ => ∀ p ∈ me, pc.Stands p shared
  | table pc op => ∀ pid, .pid pid ∈ pc.owns op → Unexited shared pid
  | fs _ refs locks pending => ∀ lock ∈ locks ++ FsOp.locks pending, Justified me refs shared lock
  | iput .locking i => (shared.irefs i).length = 1
  | _ => True

/-- What a frame may claim after a step: what it did before, or what it has just
seen. -/
def Frame.Claims (shared : Shared) (frame next : Frame) : Prop :=
  ∀ q state, next.claim? = some (q, state) → frame.claim? = some (q, state) ∨
      (shared.proc q).state = state ∧ state ≠ .used

/-- Two points of an activation between which nothing of interest happens. -/
structure Frame.Tame (me : Option Nat) (shared : Shared) (frame next : Frame) : Prop where
  mode : next.mode = frame.mode
  owns : next.owns = frame.owns
  claim : frame.Claims shared next
  stands : frame.Stands me shared → next.Stands me shared

/-- The assignments, with the program points before and after them. -/
inductive Makes (me : Option Nat) (shared : Shared) : Frame → Update → Frame → Prop where
  | skip {frame next : Frame} (tame : frame.Tame me shared next) : Makes me shared frame .skip next
  | goToSleep {p : Nat} {chan : Chan} {lk : Lock} (running : me = some p) :
      Makes me shared (.sleep .mark chan lk) (.goToSleep p chan) (.sleep .switch chan lk)
  | clearChan {p : Nat} {chan : Chan} {lk : Lock} (running : me = some p) :
      Makes me shared (.sleep .resumed chan lk) (.clearChan p) (.sleep .releaseProc chan lk)
  | skipSelf {i : Nat} {chan : Chan} (self : me = some i) :
      Makes me shared (.wakeup (.next i) chan) .skip (.wakeup (.next (i + 1)) chan)
  | wake {i : Nat} {chan : Chan} : Makes me shared (.wakeup (.check i) chan) (.wake i chan)
        (.wakeup (.unlock i) chan)
  | kill {i : Nat} {pid : Int32} (found : (shared.proc i).pid = pid) :
      Makes me shared (.kkill (.check i) pid) (.kill i) (.kkill (.found i) pid)
  | setKilled {p : Nat} (running : me = some p) :
      Makes me shared (.setkilled .mark) (.setKilled p) (.setkilled .unlock)
  | yield {p : Nat} (running : me = some p) :
      Makes me shared (.yield .mark) (.yield p) (.yield .switch)
  | dispatch {i : Nat} (runnable : (shared.proc i).state = .runnable) :
      Makes me shared (.scheduler (.check i)) (.dispatch i) (.scheduler (.assign i))
  | freeChild {child pid : Nat} {status : Option Int} {addr : Bool} :
      Makes me shared (.kwait (.free child pid status) addr) (.freeproc child)
        (.kwait (.unlockChild child pid status) addr)
  | reap {p pid : Nat} {status : Option Int} {addr : Bool} (running : me = some p) :
      Makes me shared (.kwait (.done pid status) addr) (.reap p pid status)
        (.kwait (.returned pid) addr)
  | freeNew {np : Nat} : Makes me shared (.kfork (.abort np)) (.freeproc np)
        (.kfork (.abortUnlock np))
  | adopt {p np pid : Nat} (running : me = some p) :
      Makes me shared (.kfork (.adopt np pid)) (.adopt np p) (.kfork (.unlockWait np pid))
  | publish {np pid : Nat} : Makes me shared (.kfork (.publish np pid)) (.publish np)
        (.kfork (.unlockChild np pid))
  | reparent {p child : Nat} {status : Int} (running : me = some p)
      (mine : (shared.proc child).parent = some p) :
      Makes me shared (.kexit (.reparent child) status) (.reparent child)
        (.kexit (.wakeInit child) status)
  | noParent {p : Nat} {status : Int} (running : me = some p)
      (orphan : (shared.proc p).parent = none) :
      Makes me shared (.kexit .wakeParent status) .skip (.kexit .lockSelf status)
  | exit {p : Nat} {status : Int} (running : me = some p) :
      Makes me shared (.kexit .mark status) (.exit p status) (.kexit .unlockWait status)
  | leaveCwd {p i : Nat} {status : Int} (running : me = some p)
      (cwd : (shared.proc p).cwd = some i) :
      Makes me shared (.kexit .begun status) (.leaveCwd p) (.kexit (.put i) status)
  | post {post : Post} {kq : Kqueue} (time : UInt64)
      (posted : kqueuePost post.nameByte (Int32.ofInt post.pid) time shared.kq = some kq) :
      Makes me shared (.kqueuePost .insert post) (.post post kq) (.kqueuePost .wake post)
  | take {event : Event} {kq : Kqueue} (nonempty : shared.kq.count ≠ 0)
      (taken : kqueueTake shared.kq = some (event, kq)) :
      Makes me shared (.kqueueWait .test) (.take kq) (.kqueueWait .release)
  | lockSleep {p : Nat} {lock : SleepLock} (running : me = some p)
      (free : shared.locked lock = none) :
      Makes me shared (.acquiresleep .test lock)
        (.lockSleep lock (shared.proc p).birth) (.acquiresleep .release lock)
  | unlockSleep {lock : SleepLock} :
      Makes me shared (.releasesleep .clear lock) (.unlockSleep lock) (.releasesleep .wake lock)
  | allocpid : Makes me shared (.table .body .allocpid) .allocpid
        (.table (.unlock shared.births) .allocpid)
  | filealloc {p k : Nat} {value : Int} (running : me = some p) (free : shared.frefs k = []) :
      Makes me shared (.table .body (.filealloc k)) (.filealloc k p)
        (.table (.unlock value) (.filealloc k))
  | filedup {k q : Nat} (used : shared.frefs k ≠ []) :
      Makes me shared (.table .body (.filedup k q)) (.filedup k q)
        (.table (.unlock 0) (.filedup k q))
  | idup {i np : Nat} : Makes me shared (.table .body (.idup i np)) (.idup i np)
        (.table (.unlock 0) (.idup i np))
  | iref {p i : Nat} (running : me = some p) :
      Makes me shared (.table .body (.iget i)) (.iref i p) (.table (.unlock 0) (.iget i))
  | idrop {p i : Nat} (running : me = some p) :
      Makes me shared (.iput .drop i) (.idrop i p) (.iput .release i)
  | filedropLast {p k : Nat} (running : me = some p)
      (used : shared.frefs k ≠ []) (last : (shared.frefs k).erase p = []) :
      Makes me shared (.fileclose .drop k) (.filedrop k p)
        (.fileclose (.releaseLast (shared.fkind k)) k)
  | filedrop {p k : Nat} (running : me = some p) (others : (shared.frefs k).erase p ≠ []) :
      Makes me shared (.fileclose .drop k) (.filedrop k p) (.fileclose .releaseShared k)
  | bindInode {p k i : Nat} {refs : List Nat} {locks : List FsLock}
      (running : me = some p) (ref : i ∈ refs)
      (isOpen : k ∈ (shared.proc p).ofile) (fresh : shared.fkind k = .none) :
      Makes me shared (.fs true refs locks none) (.bindInode k i p)
        (.fs true (refs.erase i) (locks.map (throughFile i k)) none)
  | bindPipe {p k i : Nat} {writable : Bool} {refs : List Nat}
      {locks : List FsLock} (running : me = some p)
      (isOpen : k ∈ (shared.proc p).ofile) (fresh : shared.fkind k = .none) :
      Makes me shared (.fs true refs locks none) (.bindPipe k i writable) (.fs true refs locks none)
  | chdir {p i old : Nat} {refs : List Nat} {locks : List FsLock}
      (running : me = some p) (ref : i ∈ refs)
      (unlocked : (.inode i, none) ∉ locks)
      (cwd : (shared.proc p).cwd = some old) :
      Makes me shared (.fs true refs locks none) (.chdir p i)
        (.fs true (old :: refs.erase i) locks none)
  | tick : Makes me shared (.clockintr .tick) .tick (.clockintr .wake)
  | setPipe {frame next : Frame} {i : Nat} {pipe : PipeState} (tame : frame.Tame me shared next)
      (stands : ∀ shared, next.Stands me shared) :
      Makes me shared frame (.setPipe i pipe) next
  | setCons {frame next : Frame} {read write : UInt32} (tame : frame.Tame me shared next)
      (stands : ∀ shared, next.Stands me shared) :
      Makes me shared frame (.setCons read write) next

/-- The modes of a callee and of the frame that waits for it.  Only `kexit` is
called back by `wakeup` to a point where its parent is known to be awake. -/
inductive Calls (me : Option Nat) (shared : Shared) : (callee next : Frame) → Prop where
  | calm {callee next : Frame} (calleeCalm : callee.mode = .calm)
      (nextCalm : next.mode = .calm) : Calls me shared callee next
  | wakeup {chan : Chan} {next : Frame} (nextCalm : next.mode = .calm) :
      Calls me shared (.wakeup (.next 0) chan) next
  | wakeParent {p parent : Nat} {status : Int} (running : me = some p)
      (isParent : (shared.proc p).parent = some parent) :
      Calls me shared (.wakeup (.next 0) (.proc parent)) (.kexit .lockSelf status)

/-- What each act of the code has to do with modes, resources and
assertions. -/
def Flows (me : Option Nat) (shared : Shared) (frame : Frame) : Act Lock Frame Update Reason → Prop
  | .update change next => Makes me shared frame change next
  | .acquire _ next | .interrupts _ next | .setProc _ next => frame.Tame me shared next
  | .release lock next =>
    frame.Tame me shared next ∨ ∃ chan, frame = .sleep .releaseCond chan lock ∧
        next = .sleep .mark chan lock
  | .call callee next =>
    frame.mode = .calm ∧ Calls me shared callee next ∧ (callee.owns ++ next.owns).Perm frame.owns ∧
      callee.claim? = none ∧ frame.Claims shared next ∧
      (frame.Stands me shared → callee.Stands me shared ∧ next.Stands me shared)
  | .ret value =>
    (frame.mode = .calm ∨ ∃ chan i, frame = .wakeup (.next i) chan ∧ NPROC ≤ i) ∧
      frame.owns = frame.gives.yields value
  | .leave => frame.mode = .calm ∧ frame.owns = []
  | .sched next =>
    next.owns = frame.owns ∧ next.claim? = none ∧ (frame.Stands me shared → next.Stands me shared) ∧
      ((∃ chan lk, frame = .sleep .switch chan lk ∧ next = .sleep .resumed chan lk) ∨
        frame = .yield .switch ∧ next = .yield .release ∨
        ∃ status, frame = .kexit .switch status ∧ next = .kexit .dead status)
  | .swtch p next =>
    me = none ∧ frame = .scheduler (.switch p) ∧ next = .scheduler (.back p)
  | .spawn np first change next =>
    first = .forkret .release ∧ ∃ pid, frame = .kfork (.named np pid) ∧ change = .allocproc np pid ∧
        next = .kfork (.memory np pid)
  | .panic _ => True

variable {frame next callee : Frame}

theorem Frame.claims_of_eq (claim : next.claim? = frame.claim? ∨ next.claim? = none) :
    frame.Claims shared next := by
  intro q s claimed
  rcases claim with same | gone
  · exact .inl (same ▸ claimed)
  · rw [gone] at claimed
    cases claimed

/-- Program points that differ in none of the accounts. -/
theorem Frame.tame
    (same : (next.mode, next.owns, next.claim?) = (frame.mode, frame.owns, frame.claim?))
    (stands : frame.Stands me shared → next.Stands me shared) : frame.Tame me shared next := by
  simp only [Prod.mk.injEq] at same
  exact ⟨same.1, same.2.1, Frame.claims_of_eq (.inl same.2.2), stands⟩

theorem flows_call (mode : frame.mode = .calm) (calls : Calls me shared callee next)
    (owns : callee.owns ++ next.owns = frame.owns)
    (claims : (callee.claim?, next.claim?) = (none, frame.claim?))
    (stands : frame.Stands me shared → callee.Stands me shared ∧ next.Stands me shared) :
    Flows me shared frame (.call callee next) := by
  simp only [Prod.mk.injEq] at claims
  exact ⟨mode, calls, owns ▸ .refl _, claims.1, Frame.claims_of_eq (.inl claims.2), stands⟩

/-- A call after which the caller still stands where it did. -/
theorem flows_plain (modes : (frame.mode, callee.mode, next.mode) = (.calm, .calm, .calm))
    (owns : callee.owns ++ next.owns = frame.owns)
    (claims : (callee.claim?, next.claim?) = (none, frame.claim?))
    (calleeStands : callee.Stands me shared)
    (stands : frame.Stands me shared → next.Stands me shared) :
    Flows me shared frame (.call callee next) := by
  simp only [Prod.mk.injEq] at modes
  exact flows_call modes.1 (.calm modes.2.1 modes.2.2) owns claims
    fun holds => ⟨calleeStands, stands holds⟩

theorem flows_wakeup (modes : (frame.mode, next.mode) = (.calm, .calm))
    (same : (next.owns, next.claim?) = (frame.owns, frame.claim?))
    (stands : frame.Stands me shared → next.Stands me shared) :
    Flows me shared frame (.call (.wakeup (.next 0) chan) next) := by
  simp only [Prod.mk.injEq] at modes same
  exact flows_call modes.1 (.wakeup modes.2) same.1 (congrArg (none, ·) same.2)
    fun holds => ⟨trivial, stands holds⟩

theorem fsStart_stands : (fsStart outer).Stands me shared := by
  intro lock member
  cases member

theorem table_stands : (Frame.table .lock op).Stands me shared := by
  intro pid member
  cases member

theorem genuine_own : (Post.mk name (shared.proc p).birth).Genuine (some p) shared := by
  intro _ q isMe
  cases isMe
  rfl

theorem genuine_of_ne {post : Post} (notWrite : post.name ≠ .write)
    (notSleep : post.name ≠ .sleep) : post.Genuine me shared := by
  rintro (isWrite | isSleep)
  · exact absurd isWrite notWrite
  · exact absurd isSleep notSleep

theorem sleep_flows (coded : sleep p pc chan lk shared = some act) :
    Flows (some p) shared (.sleep pc chan lk) act := by
  cases pc <;> simp only [sleep] at coded
  all_goals repeat' split at coded
  all_goals cases coded
  all_goals first
    | exact Frame.tame rfl id
    | exact Frame.tame rfl fun _ => trivial
    | exact .inl (Frame.tame rfl id)
    | exact .inr ⟨chan, rfl, rfl⟩
    | exact .skip (Frame.tame rfl id)
    | exact flows_plain rfl rfl rfl genuine_own id
    | exact ⟨.inl rfl, rfl⟩
    | exact .goToSleep rfl
    | exact .clearChan rfl
    | exact ⟨rfl, rfl, id, .inl ⟨chan, lk, rfl, rfl⟩⟩

theorem kfork_flows {pc : KforkPc} (coded : kfork p pc shared input = some act) :
    Flows (some p) shared (.kfork pc) act := by
  cases pc <;> simp only [kfork] at coded
  all_goals repeat' split at coded
  all_goals cases coded
  all_goals first
    | exact Frame.tame rfl id
    | exact .inl (Frame.tame rfl id)
    | exact .skip (Frame.tame rfl id)
    | exact .skip (Frame.tame rfl fun _ => trivial)
    | exact flows_plain rfl rfl rfl table_stands id
    | exact flows_plain rfl rfl rfl (genuine_of_ne (by simp) (by simp)) id
    | exact ⟨.inl rfl, rfl⟩
    | exact .freeNew
    | exact .adopt rfl
    | exact .publish
    | exact ⟨rfl, _, rfl, rfl, rfl⟩
    | skip
  rename_i np isUnused
  refine ⟨rfl, .calm rfl rfl, .refl _, rfl, ?_, fun _ => ⟨table_stands, trivial⟩⟩
  intro q state claimed
  cases claimed
  exact .inr ⟨isUnused, by simp⟩

/-- One more slot that is no child. -/
theorem NoChild.succ (none : NoChild shared p n)
    (next : (shared.proc n).parent ≠ some p) : NoChild shared p (n + 1) := by
  intro child inRange
  rcases Nat.lt_succ_iff_lt_or_eq.mp inRange with earlier | rfl
  · exact none child earlier
  · exact next

theorem kexit_reparent_flows (coded : kexit p (.reparent child) status shared = some act) :
    Flows (some p) shared (.kexit (.reparent child) status) act := by
  simp only [kexit] at coded
  split at coded
  · split at coded
    · rename_i mine
      cases coded
      exact .reparent rfl mine
    · rename_i notMine
      cases coded
      refine .skip (Frame.tame rfl ?_)
      intro stands q isMe
      cases isMe
      exact ⟨(stands p rfl).1, (stands p rfl).2.succ notMine⟩
  · rename_i atEnd
    cases coded
    refine .skip (Frame.tame rfl ?_)
    intro stands q isMe
    refine ⟨(stands q isMe).1, ?_⟩
    intro other inRange
    exact (stands q isMe).2 other (inRange.trans_le (not_lt.mp atEnd))

theorem kexit_flows (coded : kexit p pc status shared = some act) :
    Flows (some p) shared (.kexit pc status) act := by
  cases pc with
  | start =>
    simp only [kexit] at coded
    split at coded
    · cases coded
      trivial
    · rename_i notInit
      cases coded
      refine .skip (Frame.tame rfl ?_)
      intro _ q isMe
      cases isMe
      exact notInit
  | acquireWait =>
    cases coded
    refine Frame.tame rfl ?_
    intro stands q isMe
    exact ⟨stands q isMe, fun child inRange => by cases inRange⟩
  | reparent child => exact kexit_reparent_flows coded
  | wakeParent =>
    simp only [kexit] at coded
    split at coded
    · rename_i isParent
      cases coded
      exact flows_call rfl (.wakeParent rfl isParent) rfl rfl fun stands => ⟨trivial, stands⟩
    · rename_i orphan
      cases coded
      exact .noParent rfl orphan
  | _ =>
    simp only [kexit] at coded
    repeat' split at coded
    all_goals cases coded
    all_goals first
      | exact Frame.tame rfl id
      | exact .inl (Frame.tame rfl id)
      | exact .inl (Frame.tame rfl fun stands q isMe => (stands q isMe).1)
      | exact flows_plain rfl rfl rfl trivial id
      | exact flows_plain rfl rfl rfl fsStart_stands id
      | exact flows_wakeup rfl rfl id
      | exact .leaveCwd rfl ‹_›
      | exact .exit rfl
      | exact ⟨rfl, rfl, id, .inr (.inr ⟨status, rfl, rfl⟩)⟩
      | exact trivial

/-- One more slot that is no zombie child. -/
theorem NoZombie.succ (none : NoZombie shared p n)
    (next : (shared.proc n).parent = some p → (shared.proc n).state ≠ .zombie) :
    NoZombie shared p (n + 1) := by
  intro child inRange
  rcases Nat.lt_succ_iff_lt_or_eq.mp inRange with earlier | rfl
  · exact none child earlier
  · exact next

theorem kwait_scan_flows (coded : kwait p (.scan child havekids) addr shared input = some act) :
    Flows (some p) shared (.kwait (.scan child havekids) addr) act := by
  simp only [kwait] at coded
  split at coded
  · split at coded
    · rename_i mine
      cases coded
      refine Frame.tame rfl ?_
      intro stands q isMe
      cases isMe
      exact ⟨stands p rfl, mine⟩
    · rename_i notMine
      cases coded
      refine .skip (Frame.tame rfl ?_)
      intro stands q isMe
      cases isMe
      exact NoZombie.succ (stands p rfl) fun mine => absurd mine notMine
  · rename_i atEnd
    split at coded
    · cases coded
      refine flows_plain rfl rfl rfl trivial ?_
      intro stands q isMe other inRange
      exact stands q isMe other (inRange.trans_le (not_lt.mp atEnd))
    · cases coded
      exact .skip (Frame.tame rfl fun _ _ _ => trivial)

theorem kwait_check_flows (coded : kwait p (.check child) addr shared input = some act) :
    Flows (some p) shared (.kwait (.check child) addr) act := by
  simp only [kwait] at coded
  split at coded
  · rename_i isZombie
    cases coded
    refine .skip ⟨rfl, rfl, ?_, fun stands q isMe => ⟨(stands q isMe).2, rfl⟩⟩
    intro q state claimed
    cases claimed
    exact .inr ⟨isZombie, by simp⟩
  · rename_i notZombie
    cases coded
    refine .inl (Frame.tame rfl ?_)
    intro stands q isMe
    exact (stands q isMe).1.succ fun _ => notZombie

theorem kwait_copy_flows (coded : kwait p (.copy child pid) addr shared input = some act) :
    Flows (some p) shared (.kwait (.copy child pid) addr) act := by
  simp only [kwait] at coded
  repeat' split at coded
  all_goals cases coded
  · refine .skip (Frame.tame rfl ?_)
    intro stands q isMe
    exact ⟨(stands q isMe).1, (stands q isMe).2, by simp⟩
  · exact flows_plain rfl rfl rfl table_stands id
  · refine .skip (Frame.tame rfl ?_)
    intro stands q isMe
    refine ⟨(stands q isMe).1, (stands q isMe).2, ?_⟩
    intro copied isCopied
    exact (Option.some.inj isCopied).symm
  · exact .inl ⟨rfl, rfl, Frame.claims_of_eq (.inr rfl), fun _ _ _ => trivial⟩

theorem kwait_flows (coded : kwait p pc addr shared input = some act) :
    Flows (some p) shared (.kwait pc addr) act := by
  cases pc with
  | scan child havekids => exact kwait_scan_flows coded
  | check child => exact kwait_check_flows coded
  | copy child pid => exact kwait_copy_flows coded
  | acquire =>
    cases coded
    refine Frame.tame rfl ?_
    intro _ q _ child inRange
    cases inRange
  | sleep =>
    cases coded
    exact flows_call rfl (.calm rfl rfl) rfl rfl
      fun stands => ⟨stands p rfl, fun _ _ => trivial⟩
  | _ =>
    simp only [kwait] at coded
    repeat' split at coded
    all_goals cases coded
    all_goals first
      | exact Frame.tame rfl id
      | exact .inl (Frame.tame rfl id)
      | exact flows_plain rfl rfl rfl table_stands id
      | exact ⟨.inl rfl, rfl⟩
      | exact .freeChild
      | exact .reap rfl

theorem acquiresleep_flows (coded : acquiresleep p pc lock shared = some act) :
    Flows (some p) shared (.acquiresleep pc lock) act := by
  cases pc with
  | test =>
    simp only [acquiresleep] at coded
    split at coded
    · rename_i isLocked
      cases coded
      refine flows_plain rfl rfl rfl ?_ id
      intro free
      rw [free] at isLocked
      cases isLocked
    · rename_i free
      cases coded
      exact .lockSleep rfl (by simpa using free)
  | acquire =>
    cases coded
    exact Frame.tame rfl id
  | asleep => cases coded
  | release =>
    cases coded
    exact .inl (Frame.tame rfl id)
  | done =>
    cases coded
    exact ⟨.inl rfl, rfl⟩

theorem table_flows (coded : table p pc op shared = some act) :
    Flows (some p) shared (.table pc op) act := by
  cases pc with
  | body =>
    cases op <;> simp only [table, TableOp.effect] at coded
    all_goals repeat' split at coded
    all_goals cases coded
    all_goals first
      | exact .skip (Frame.tame rfl id)
      | exact .allocpid
      | exact .filealloc rfl ‹_›
      | exact .filedup ‹_›
      | exact .idup
      | exact .iref rfl
      | exact trivial
  | lock =>
    cases coded
    exact Frame.tame rfl id
  | unlock value =>
    cases coded
    exact .inl (Frame.tame rfl id)
  | done value =>
    cases coded
    cases op <;> exact ⟨.inl rfl, rfl⟩

theorem justified_of_mayLock (may : mayLock p refs shared lock = true) :
    Justified (some p) refs shared lock := by
  obtain ⟨target, file⟩ := lock
  cases target with
  | buf b => trivial
  | inode i =>
    cases file with
    | none => simpa [mayLock, Justified] using may
    | some k =>
      have both : k ∈ (shared.proc p).ofile ∧ shared.fkind k = .inode i := by
        simpa [mayLock] using may
      exact ⟨p, rfl, both⟩

/-- A reference that is not used for a lock, or not the only one, may go. -/
theorem justified_erase {refs : List Nat} {locks : List FsLock} {i : Nat} {lock : FsLock}
    (spare : (.inode i, none) ∉ locks ∨ i ∈ refs.erase i) (member : lock ∈ locks)
    (justified : Justified me refs shared lock) : Justified me (refs.erase i) shared lock := by
  obtain ⟨target, file⟩ := lock
  cases target with
  | buf b => trivial
  | inode j =>
    cases file with
    | some k => exact justified
    | none =>
      by_cases same : j = i
      · subst same
        exact spare.resolve_left (· member)
      · exact (List.mem_erase_of_ne same).mpr justified

theorem fs_flows {outer : Bool} {refs : List Nat} {locks : List FsLock} {op : FsOp}
    (coded : fs p outer refs locks shared op = some act) :
    Flows (some p) shared (.fs outer refs locks none) act := by
  cases op with
  | table n | memory =>
    cases coded
    exact flows_plain rfl rfl rfl table_stands id
  | «section» n =>
    cases coded
    exact flows_plain rfl rfl rfl trivial id
  | lock lock =>
    obtain ⟨may, ⟨⟩⟩ := Option.ite_none_right_eq_some.mp coded
    refine ⟨rfl, .calm rfl rfl, .refl _, rfl, Frame.claims_of_eq (.inl rfl), ?_⟩
    intro stands
    refine ⟨trivial, ?_⟩
    intro other member
    rcases List.mem_append.mp member with held | taken
    · exact stands other (List.mem_append_left _ held)
    · obtain rfl := List.mem_singleton.mp taken
      exact justified_of_mayLock may
  | unlock lock =>
    obtain ⟨held, ⟨⟩⟩ := Option.ite_none_right_eq_some.mp coded
    refine ⟨rfl, .calm rfl rfl, ?_, rfl, Frame.claims_of_eq (.inl rfl), ?_⟩
    · have fewer := (List.perm_cons_erase held).map fun lock : FsLock => Resource.sleep lock.1
      have moved : (.sleep lock.1 :: (Frame.fs outer refs
          (locks.erase lock) (some (.unlock lock))).owns).Perm
          (refs.map .ref ++ .sleep lock.1 :: (locks.erase lock).map fun lock => .sleep lock.1) :=
        List.perm_middle.symm
      exact moved.trans (fewer.symm.append_left _)
    · intro stands
      refine ⟨trivial, ?_⟩
      intro other member
      apply stands other
      rcases List.mem_append.mp member with kept | given
      · exact List.mem_append_left _ (List.mem_of_mem_erase kept)
      · obtain rfl := List.mem_singleton.mp given
        exact List.mem_append_left _ held
  | iput i =>
    obtain ⟨⟨_, ref, spare⟩, ⟨⟩⟩ := Option.ite_none_right_eq_some.mp coded
    refine ⟨rfl, .calm rfl rfl, ?_, rfl, Frame.claims_of_eq (.inl rfl), ?_⟩
    · have fewer := (List.perm_cons_erase ref).map Resource.ref
      exact fewer.symm.append_right _
    · intro stands
      refine ⟨trivial, ?_⟩
      intro lock member
      have held : lock ∈ locks := by simpa [FsOp.locks] using member
      exact justified_erase spare held (stands lock (List.mem_append_left _ held))
  | bindInode k i =>
    obtain ⟨⟨isOuter, ref, isOpen, fresh⟩, ⟨⟩⟩ := Option.ite_none_right_eq_some.mp coded
    subst isOuter
    exact .bindInode rfl ref isOpen fresh
  | bindPipe k i writable =>
    obtain ⟨⟨isOuter, isOpen, fresh⟩, ⟨⟩⟩ := Option.ite_none_right_eq_some.mp coded
    subst isOuter
    exact .bindPipe rfl isOpen fresh
  | chdir i =>
    simp only [fs] at coded
    split at coded
    · rename_i old cwd
      obtain ⟨⟨isOuter, ref, unlocked⟩, ⟨⟩⟩ := Option.ite_none_right_eq_some.mp coded
      subst isOuter
      exact .chdir rfl ref unlocked cwd
    · cases coded
  | finish value =>
    obtain ⟨⟨noRefs, noLocks⟩, ⟨⟩⟩ := Option.ite_none_right_eq_some.mp coded
    subst noRefs noLocks
    exact ⟨.inl rfl, rfl⟩
  | _ =>
    obtain ⟨_, ⟨⟩⟩ := Option.ite_none_right_eq_some.mp coded
    exact flows_plain rfl rfl rfl table_stands id

theorem criticalSection_flows (coded : criticalSection pc n sleeps input = some act) :
    Flows me shared (.section pc n sleeps) act := by
  cases pc <;> simp only [criticalSection] at coded
  all_goals repeat' split at coded
  all_goals cases coded
  all_goals first
    | exact Frame.tame rfl id
    | exact .inl (Frame.tame rfl id)
    | exact flows_plain rfl rfl rfl trivial id
    | exact flows_wakeup rfl rfl id
    | exact ⟨.inl rfl, rfl⟩

theorem kerneltrap_flows (coded : kerneltrap me pc = some act) :
    Flows me shared (.kerneltrap pc) act := by
  cases pc with
  | start irq =>
    cases coded
    cases irq <;> exact flows_plain rfl rfl rfl trivial id
  | handled irq =>
    simp only [kerneltrap] at coded
    split at coded
    · cases coded
      exact flows_plain rfl rfl rfl trivial id
    · cases coded
      exact .skip (Frame.tame rfl id)
  | leave =>
    cases coded
    exact ⟨rfl, rfl⟩

theorem usertrap_flows (coded : usertrap p pc shared = some act) :
    Flows (some p) shared (.usertrap pc) act := by
  cases pc with
  | dispatch call =>
    simp only [usertrap] at coded
    split at coded
    · cases coded
      cases call
      all_goals first
        | exact flows_plain rfl rfl rfl trivial id
        | exact flows_wakeup rfl rfl id
        | exact flows_plain rfl rfl rfl fsStart_stands id
        | exact flows_plain rfl rfl rfl (fun _ _ => trivial) id
        | exact flows_plain rfl rfl rfl (genuine_of_ne (by simp) (by simp)) id
    · cases coded
      exact .skip (Frame.tame rfl id)
  | device irq =>
    cases coded
    cases irq <;> exact flows_plain rfl rfl rfl trivial id
  | _ =>
    simp only [usertrap] at coded
    repeat' split at coded
    all_goals cases coded
    all_goals first
      | exact Frame.tame rfl id
      | exact .inl (Frame.tame rfl id)
      | exact .skip (Frame.tame rfl id)
      | exact flows_plain rfl rfl rfl trivial id
      | exact flows_wakeup rfl rfl id
      | exact flows_plain rfl rfl rfl (fun _ _ => trivial) id
      | exact ⟨rfl, rfl⟩

theorem code_flows (coded : code me frame shared input = some act) : Flows me shared frame act := by
  cases frame with
  | kerneltrap pc => cases me <;> exact kerneltrap_flows coded
  | «section» pc n sleeps =>
    cases me <;> cases sleeps
    all_goals first
      | exact criticalSection_flows coded
      | cases coded
  | fs outer refs locks pending =>
    cases me with
    | none => cases coded
    | some p =>
      simp only [code, processCode] at coded
      split at coded
      · exact fs_flows coded
      · cases coded
  | sleep | kfork | kexit | kwait | acquiresleep | table | usertrap =>
    cases me with
    | none => cases coded
    | some p =>
      first
        | exact sleep_flows coded
        | exact kfork_flows coded
        | exact kexit_flows coded
        | exact kwait_flows coded
        | exact acquiresleep_flows coded
        | exact table_flows coded
        | exact usertrap_flows coded
  | scheduler pc | wakeup pc chan | clockintr pc | consoleintr pc
  | kqueuePost pc post | kqueueWait pc | killed pc | setkilled pc | kkill pc pid | yield pc
  | forkret pc | releasesleep pc lock | iput pc i | fileclose pc k | pause pc n
  | piperead pc i n | pipewrite pc i n | consoleread pc target | sysWrite pc pipe =>
    cases me <;> cases pc
    all_goals simp only [code, schedulerCode, processCode, scheduler, wakeup, clockintr,
      consoleintr, kqueuePostCode, kqueueWait, killed, setkilled, kkill, yield, forkret,
      releasesleep,
      iput, fileclose, pause, piperead, pipewrite, consoleread, sysWrite] at coded
    all_goals repeat' split at coded
    all_goals cases coded
    all_goals first
      | exact Frame.tame rfl id
      | exact .inl (Frame.tame rfl id)
      | exact .skip (Frame.tame rfl id)
      | exact flows_plain rfl rfl rfl trivial id
      | exact flows_wakeup rfl rfl id
      | exact flows_plain rfl rfl rfl fsStart_stands id
      | exact flows_plain rfl rfl rfl genuine_own id
      | exact flows_plain rfl rfl rfl table_stands id
      | exact flows_plain rfl rfl rfl trivial fun _ => And.left ‹_ ∧ _›
      | exact ⟨.inl rfl, rfl⟩
      | exact ⟨rfl, rfl⟩
      | exact .dispatch ‹_›
      | exact ⟨rfl, rfl, rfl⟩
      | exact .skipSelf ‹_›
      | exact ⟨.inr ⟨chan, _, rfl, Nat.le_of_not_lt ‹_›⟩, rfl⟩
      | exact .wake
      | exact .tick
      | exact .post input.now ‹_›
      | exact .take ‹_› ‹_›
      | exact flows_plain rfl rfl rfl ‹_› id
      | exact .idrop rfl
      | exact .filedropLast rfl ‹_› ‹_›
      | exact .filedrop rfl ‹_›
      | exact .setKilled rfl
      | exact .kill ‹_›
      | exact .yield rfl
      | exact ⟨rfl, rfl, id, .inr (.inl ⟨rfl, rfl⟩)⟩
      | exact .unlockSleep
      | exact .setPipe (Frame.tame rfl id) fun _ => trivial
      | exact .setCons (Frame.tame rfl id) fun _ => trivial
      | exact trivial

end Xv6KernelEvent.Process
