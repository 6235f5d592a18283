import Xv6KernelEvent.Library.ThreadMoves
import Xv6KernelEvent.Process.Kernel

/-!
# Who calls whom

A frame is a program point of one call of a function.  Its code stays within
that call until it returns, and it calls the functions that `Call.Calls` lists.
-/

namespace Xv6KernelEvent.Process

open SpinThreads

/-- A function with its arguments. -/
inductive Call where
  | sleep (chan : Chan) (lk : Lock)
  | wakeup (chan : Chan)
  | killed
  | setkilled
  | kqueuePost (post : Post)
  | kqueueWait
  | kkill (pid : Int32)
  | scheduler
  | yield
  | forkret
  | kfork
  | kexit (status : Int)
  | kwait (addr : Bool)
  | acquiresleep (lock : SleepLock)
  | releasesleep (lock : SleepLock)
  | iput (i : Nat)
  | fileclose (k : Nat)
  | table (op : TableOp)
  | section (n : Nat) (sleeps : Bool)
  | fs (outer : Bool)
  | pause (n : UInt32)
  | piperead (i n : Nat)
  | pipewrite (i n : Nat)
  | consoleread (target : Nat)
  | sysWrite (pipe : Option (Nat × Nat))
  | clockintr
  | consoleintr
  | usertrap
  | kerneltrap

def Frame.call : Frame → Call
  | sleep _ chan lk => .sleep chan lk
  | wakeup _ chan => .wakeup chan
  | killed _ => .killed
  | setkilled _ => .setkilled
  | kqueuePost _ post => .kqueuePost post
  | kqueueWait _ => .kqueueWait
  | kkill _ pid => .kkill pid
  | scheduler _ => .scheduler
  | yield _ => .yield
  | forkret _ => .forkret
  | kfork _ => .kfork
  | kexit _ status => .kexit status
  | kwait _ addr => .kwait addr
  | acquiresleep _ lock => .acquiresleep lock
  | releasesleep _ lock => .releasesleep lock
  | iput _ i => .iput i
  | fileclose _ k => .fileclose k
  | table _ op => .table op
  | .section _ n sleeps => .section n sleeps
  | fs outer _ _ _ => .fs outer
  | pause _ n => .pause n
  | piperead _ i n => .piperead i n
  | pipewrite _ i n => .pipewrite i n
  | consoleread _ target => .consoleread target
  | sysWrite _ pipe => .sysWrite pipe
  | clockintr _ => .clockintr
  | consoleintr _ => .consoleintr
  | usertrap _ => .usertrap
  | kerneltrap _ => .kerneltrap

/-- The handlers that `devintr` calls. -/
def Call.Handler : Call → Prop
  | clockintr | consoleintr => True
  | .section _ sleeps => sleeps = false
  | _ => False

/-- The functions that a process calls from `usertrap`. -/
def Call.FromUser : Call → Prop
  | killed | setkilled | yield | kexit _ | kfork | kwait _ | kkill _ | pause _ | kqueueWait => True
  | kqueuePost post => ∃ name, post.name = .user name
  | sysWrite _ | piperead _ _ | consoleread _ | fileclose _ => True
  | fs outer => outer = true
  | _ => False

def Call.Calls : Call → Call → Prop
  | sleep _ _, kqueuePost post => post.name = .sleep
  | kqueuePost _, wakeup chan => chan = .kq
  | kqueueWait, sleep chan lk => chan = .kq ∧ lk = .kq
  | kfork, table _ => True
  | kfork, kqueuePost post => post.name = .fork
  | kexit _, fileclose _ | kexit _, fs _ | kexit _, iput _ | kexit _, wakeup _
  | kwait _, killed => True
  | kwait _, table op => op = .kmem
  | kwait _, sleep _ lk => lk = .wait
  | acquiresleep lock, sleep chan lk => chan = .sleepLock lock ∧ lk = .inner lock
  | releasesleep lock, wakeup chan => chan = .sleepLock lock
  | iput i, acquiresleep lock => lock = .inode i
  | iput _, fs outer => outer = false
  | iput i, releasesleep lock => lock = .inode i
  | fileclose _, wakeup _ => True
  | fileclose _, table op => op = .kmem
  | fileclose _, fs _ | fileclose _, iput _ => True
  | .section n sleeps, sleep _ lk => sleeps = true ∧ lk = .cond n
  | .section _ _, wakeup _ | fs _, table _ | fs _, .section _ _ | fs _, acquiresleep _
  | fs _, releasesleep _ | fs _, iput _ | pause _, killed => True
  | pause _, sleep chan lk => chan = .ticks ∧ lk = .ticks
  | pause _, kqueuePost post => post.name = .sleep
  | piperead _ _, killed => True
  | piperead i _, sleep chan lk => chan = .pipeRead i ∧ lk = .pipe i
  | piperead _ _, table op | pipewrite _ _, table op | consoleread _, table op => op = .kmem
  | piperead _ _, wakeup _ | pipewrite _ _, killed => True
  | pipewrite i _, sleep chan lk => chan = .pipeWrite i ∧ lk = .pipe i
  | pipewrite _ _, wakeup _ | consoleread _, killed => True
  | consoleread _, sleep chan lk => chan = .consRead ∧ lk = .cons
  | sysWrite _, pipewrite _ _ | sysWrite _, fs _ => True
  | sysWrite _, kqueuePost post => post.name = .write
  | clockintr, wakeup chan => chan = .ticks
  | consoleintr, wakeup chan => chan = .consRead
  | kerneltrap, yield => True
  | kerneltrap, callee => callee.Handler
  | usertrap, callee => callee.Handler ∨ callee.FromUser
  | _, _ => False

/-- The code stays within its call or makes another one. -/
def Within (frame : Frame) : Act Lock Frame Update Reason → Prop
  | .update _ next | .acquire _ next | .release _ next
  | .interrupts _ next => next.call = frame.call
  | .setProc _ next => next.call = frame.call ∧ frame.call = .scheduler
  | .call callee next => next.call = frame.call ∧ frame.call.Calls callee.call
  | .sched next | .swtch _ next | .spawn _ _ _ next => next.call = frame.call
  | _ => True

theorem Irq.frame_handler (irq : Irq) : irq.frame.call.Handler := by cases irq <;> trivial

theorem Syscall.frame_fromUser (call : Syscall) : call.frame.call.FromUser := by
  cases call with
  | kqueuePost name pid => exact ⟨name, rfl⟩
  | fs => rfl
  | _ => trivial

theorem usertrap_within (coded : usertrap p pc shared = some act) : Within (.usertrap pc) act := by
  cases pc <;> simp only [usertrap] at coded
  all_goals repeat' split at coded
  all_goals cases coded
  all_goals first
    | exact rfl
    | exact trivial
    | exact ⟨rfl, .inr trivial⟩
    | exact ⟨rfl, .inr (Syscall.frame_fromUser _)⟩
    | exact ⟨rfl, .inl (Irq.frame_handler _)⟩

theorem kerneltrap_within (coded : kerneltrap me pc = some act) : Within (.kerneltrap pc) act := by
  cases pc with
  | start irq =>
    cases coded
    cases irq with
    | device n => exact ⟨rfl, rfl⟩
    | _ => exact ⟨rfl, trivial⟩
  | handled irq =>
    simp only [kerneltrap] at coded
    split at coded <;> cases coded
    · exact ⟨rfl, trivial⟩
    · exact rfl
  | leave =>
    cases coded
    trivial

theorem criticalSection_within (coded : criticalSection pc n sleeps input = some act) :
    Within (.section pc n sleeps) act := by
  cases pc <;> simp only [criticalSection] at coded
  all_goals repeat' split at coded
  all_goals cases coded
  all_goals first
    | exact rfl
    | exact trivial
    | exact ⟨rfl, trivial⟩
    | exact ⟨rfl, ‹_›, rfl⟩

theorem fs_within (coded : fs p outer refs locks shared op = some act) :
    Within (.fs outer refs locks none) act := by
  cases op <;> simp only [fs] at coded
  all_goals repeat' split at coded
  all_goals cases coded
  all_goals first
    | exact rfl
    | exact trivial
    | exact ⟨rfl, trivial⟩

theorem code_within (coded : code me frame shared input = some act) : Within frame act := by
  cases frame with
  | usertrap pc =>
    cases me with
    | none => cases coded
    | some p => exact usertrap_within coded
  | kerneltrap pc => cases me <;> exact kerneltrap_within coded
  | fs outer refs locks pending =>
    cases me with
    | none => cases coded
    | some p =>
      simp only [code, processCode] at coded
      split at coded
      · exact fs_within coded
      · cases coded
  | «section» pc n sleeps =>
    cases me <;> cases sleeps
    all_goals first
      | exact criticalSection_within coded
      | cases coded
  | scheduler pc | wakeup pc chan | clockintr pc | consoleintr pc
  | table pc op | sleep pc chan lk | killed pc | setkilled pc | kqueuePost pc post
  | kqueueWait pc | kkill pc pid | yield pc | forkret pc | kfork pc
  | kexit pc status | kwait pc addr | acquiresleep pc lock
  | releasesleep pc lock | iput pc i | fileclose pc k | pause pc n
  | piperead pc i n | pipewrite pc i n | consoleread pc target
  | sysWrite pc pipe =>
    cases me <;> cases pc
    all_goals simp only [code, schedulerCode, processCode, scheduler, wakeup, clockintr,
      consoleintr, table, sleep, killed, setkilled,
      kqueuePostCode, kqueueWait, kkill, yield, forkret, kfork, kexit, kwait,
      acquiresleep, releasesleep, iput, fileclose, pause, piperead, pipewrite,
      consoleread, sysWrite] at coded
    all_goals repeat' split at coded
    all_goals cases coded
    all_goals first
      | exact rfl
      | exact trivial
      | exact ⟨rfl, trivial⟩
      | exact ⟨rfl, rfl⟩
      | exact ⟨rfl, rfl, rfl⟩

/-- Where the calls of the new frames come from. -/
theorem Act.fresh_call (coded : code me frame shared input = some act)
    (fresh : other ∈ act.fresh kernel callers) :
    other.call = frame.call ∨ frame.call.Calls other.call ∨
      ∃ caller ∈ callers, ∃ value, other = resume caller value := by
  have within := code_within coded
  cases act with
  | call callee after =>
    rcases List.mem_cons.mp fresh with rfl | isAfter
    · exact .inr (.inl within.2)
    · obtain rfl := List.mem_singleton.mp isAfter
      exact .inl within.1
  | ret value =>
    obtain ⟨caller, isCaller, rfl⟩ := List.mem_map.mp fresh
    have isHead := Option.mem_toList.mp isCaller
    exact .inr (.inr ⟨caller, List.mem_of_mem_head? isHead, value, rfl⟩)
  | leave | panic reason => cases fresh
  | setProc p after =>
    obtain rfl := List.mem_singleton.mp fresh
    exact .inl within.1
  | _ =>
    obtain rfl := List.mem_singleton.mp fresh
    exact .inl within

end Xv6KernelEvent.Process
