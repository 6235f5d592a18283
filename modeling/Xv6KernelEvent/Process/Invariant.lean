import Xv6KernelEvent.Library.Possession
import Xv6KernelEvent.Library.ThreadMoves
import Xv6KernelEvent.Process.Changes

/-!
# The invariant of the process core

What holds in every state that the kernel reaches: the states of the slots of
the process table against the stacks of the threads, the owners of sleep locks,
inode references and pids, the parents, and the sleepers that somebody is about
to wake up.  `Transition` says what a step can do; the following modules show
for each part that it survives a transition.
-/

namespace Xv6KernelEvent.Process

open SpinThreads

/-- The mode of a thread; a process in user mode is calm. -/
def topMode : List Frame → Mode
  | [] => .calm
  | frame :: _ => frame.mode

/-- The modes in which a frame is at work on another process. -/
def Mode.Acts : Mode → Prop
  | waking _ _ | picking _ => True
  | _ => False

/-- The modes of frames that others run on top of. -/
def Mode.Settled (me : Option Nat) (mode : Mode) : Prop :=
  mode = .calm ∨ mode = .hushed ∨ me = none ∧ ¬ mode.Acts

/-- Where a process of each state is switched out; one that is `RUNNING` has been
picked by a scheduler. -/
inductive Frame.Rests : ProcState → Frame → Prop where
  | unborn : Frame.Rests .unused (.forkret .release)
  | freed (status : Int) : Frame.Rests .unused (.kexit .dead status)
  | new : Frame.Rests .used (.forkret .release)
  | published : Frame.Rests .runnable (.forkret .release)
  | yielded : Frame.Rests .runnable (.yield .release)
  | woken (chan : Chan) (lk : Lock) : Frame.Rests .runnable (.sleep .resumed chan lk)
  | starting : Frame.Rests .running (.forkret .release)
  | continuing : Frame.Rests .running (.yield .release)
  | waking (chan : Chan) (lk : Lock) : Frame.Rests .running (.sleep .resumed chan lk)
  | asleep (chan : Chan) (lk : Lock) : Frame.Rests .sleeping (.sleep .resumed chan lk)
  | dead (status : Int) : Frame.Rests .zombie (.kexit .dead status)

/-- The state and the channel of every process against its stack. -/
structure Placed (machine : State) : Prop where
  running : ∀ c p, (machine.cpu c).thread = .process p → (machine.shared.proc p).state =
      (topMode (machine.stack (.process p))).state
  chans : ∀ p, (machine.shared.proc p).chan = (topMode (machine.stack (.process p))).chan
  resting : ∀ p, Owned.Parked machine p →
    ∃ frame callers, machine.stack (.process p) = frame :: callers ∧
      frame.Rests (machine.shared.proc p).state

/-- The process table against the threads. -/
structure Slots (machine : State) : Prop extends Placed machine where
  bounded : ∀ p, NPROC ≤ p → (machine.shared.proc p).state = .unused
  callers : ∀ thread, ∀ frame ∈ (machine.stack thread).tail, frame.mode.Settled thread.proc?
  claims : ∀ thread, ∀ frame ∈ machine.stack thread, ∀ q state,
    frame.claim? = some (q, state) → (machine.shared.proc q).state = state
  distinct : ∀ first second, ∀ frame ∈ machine.stack first, ∀ other ∈ machine.stack second, ∀ q,
    frame.claim? = some (q, .used) → other.claim? = some (q, .used) →
    first = second
  picked : ∀ c p, topMode (machine.stack (.scheduler c)) = .picking p →
    (machine.cpu c).thread = .scheduler c ∧ (machine.shared.proc p).state = .running ∧
      Owned.Parked machine p

/-- What the frames of a thread own. -/
def threadOwns (machine : State) (thread : Thread) : List Resource :=
  (machine.stack thread).flatMap Frame.owns

/-- Resources that at most one thread has. -/
def Resource.Exclusive : Resource → Prop
  | ref _ => False
  | sleep _ | pid _ => True

/-- A sleep lock is locked while some frame has to release it. -/
structure Possession (machine : State) : Prop where
  locked : ∀ lock, machine.shared.locked lock ≠ none ↔
    ∃ thread, .sleep lock ∈ threadOwns machine thread
  exclusive : ∀ resource : Resource, resource.Exclusive → AtMostOne (threadOwns machine) resource

/-- Open files against the counts. -/
structure Counted (shared : Shared) : Prop where
  files : ∀ k i, shared.frefs k ≠ [] → shared.fkind k = .inode i → .file k ∈ shared.irefs i
  opened : ∀ p k, (shared.proc p).ofile.count k ≤ (shared.frefs k).count p
  closed : ∀ k, shared.frefs k = [] → shared.fkind k = .none

/-- The pointers of processes to inodes, and open files, against the counts. -/
structure References (machine : State) : Prop where
  refs : ∀ p i, (threadOwns machine (.process p)).count (.ref i) +
      (machine.shared.proc p).cwd.toList.count i ≤
    (machine.shared.irefs i).count (.process p)
  counted : Counted machine.shared

/-- A pid is in one slot, in the hands of one thread, or has been returned by one
`kwait`. -/
structure Pids (machine : State) : Prop where
  unused : ∀ q, (machine.shared.proc q).state = .unused → (machine.shared.proc q).birth = 0
  used : ∀ q, (machine.shared.proc q).state ≠ .unused → 0 < (machine.shared.proc q).birth ∧
      (machine.shared.proc q).birth < machine.shared.births
  distinct : ∀ q r, (machine.shared.proc q).state ≠ .unused →
    (machine.shared.proc q).birth = (machine.shared.proc r).birth → q = r
  owned : ∀ thread n, .pid n ∈ threadOwns machine thread → 0 < n ∧ n < machine.shared.births ∧
      (∀ q, (machine.shared.proc q).birth ≠ n) ∧
      ∀ reap ∈ machine.shared.reaps, reap.birth ≠ n
  reaped : ∀ reap ∈ machine.shared.reaps, 0 < reap.birth ∧ reap.birth < machine.shared.births ∧
      ∀ q, (machine.shared.proc q).birth ≠ reap.birth
  once : (machine.shared.reaps.map Reap.birth).Nodup
  exited : ∀ exited ∈ machine.shared.exits, 0 < exited.1 ∧ exited.1 < machine.shared.births
  living : ∀ q, (machine.shared.proc q).state ≠ .zombie →
    (machine.shared.proc q).birth ∉ machine.shared.exits.map Prod.fst
  exitOnce : (machine.shared.exits.map Prod.fst).Nodup

/-- The states of a process that can be a parent. -/
def ProcState.Alive : ProcState → Prop
  | sleeping | runnable | running => True
  | _ => False

/-- The part of `kexit` under `wait_lock` in which children change hands. -/
def KexitPc.Leaving : KexitPc → Prop
  | reparent _ | wakeInit _ | wakeParent | lockSelf | mark => True
  | _ => False

/-- A creator that has not become a zombie yet, but has given a child away. -/
def Leaves (machine : State) (pid : Nat) : Prop :=
  ∃ r pc status, ((machine.shared.proc r).birth, pid) ∈ machine.shared.forks ∧
    .kexit pc status ∈ machine.stack (.process r) ∧ pc.Leaving

/-- Parents and exit statuses. -/
structure Family (machine : State) : Prop where
  unborn : ∀ q, (machine.shared.proc q).state = .unused →
    (machine.shared.proc q).parent = none ∧ (machine.shared.proc q).xstate = 0
  init : (machine.shared.proc machine.shared.initproc).state.Alive
  inRange : ∀ q p, (machine.shared.proc q).parent = some p → q < NPROC
  parents : ∀ q p, (machine.shared.proc q).parent = some p → (machine.shared.proc p).state.Alive
  lineage : ∀ q p, (machine.shared.proc q).parent = some p →
    Lineage machine.shared p (machine.shared.proc q).birth ∨
      p = machine.shared.initproc ∧ Leaves machine (machine.shared.proc q).birth
  zombies : ∀ q, (machine.shared.proc q).state = .zombie →
    ((machine.shared.proc q).birth, (machine.shared.proc q).xstate) ∈ machine.shared.exits

/-- A process has released the condition lock in `sleep` and is `SLEEPING` on
the channel, or about to be. -/
def Mode.Waits (mode : Mode) (state : ProcState) (chan : Chan) : Prop :=
  mode = .marking chan ∨ mode.chan = some chan ∧ state = .sleeping

def Waits (machine : State) (p : Nat) (chan : Chan) : Prop :=
  (topMode (machine.stack (.process p))).Waits (machine.shared.proc p).state chan

/-- The thread with this frame on top will wake up process `p`. -/
inductive Notifies (shared : Shared) (p : Nat) : Chan → Frame → Prop where
  | post (post : Post) : Notifies shared p .kq (.kqueuePost .wake post)
  | unlock (lock : SleepLock) : Notifies shared p (.sleepLock lock) (.releasesleep .wake lock)
  | reparent (child : Nat) (status : Int) : Notifies shared p (.proc shared.initproc)
        (.kexit (.wakeInit child) status)
  | wakeup {frame : Frame} (chan : Chan) (i : Nat)
      (waking : frame.mode = .waking chan i) (ahead : i ≤ p) :
      Notifies shared p chan frame

/-- Sleepers that have nothing to wait for any more are about to be woken up. -/
structure Waiting (machine : State) : Prop where
  passed : ∀ thread chan i, topMode (machine.stack thread) = .waking chan i →
    ∀ p < i, ¬ Waits machine p chan
  notified : ∀ p chan, Waits machine p chan → MustWait machine.shared chan ∨
      ∃ thread frame callers, machine.stack thread = frame :: callers ∧
        Notifies machine.shared p chan frame
  hushed : ∀ p parent, topMode (machine.stack (.process p)) = .hushed →
    (machine.shared.proc p).parent = some parent →
    ∀ q, ¬ Waits machine q (.proc parent)
  wakesParent : ∀ thread frame callers caller,
    machine.stack thread = frame :: callers → caller ∈ callers →
    caller.mode = .hushed →
    ∃ p parent i rest, thread = .process p ∧ callers = caller :: rest ∧
      (machine.shared.proc p).parent = some parent ∧
      frame.mode = .waking (.proc parent) i

structure Sane (machine : State) : Prop where
  owned : Owned kernel discipline machine
  slots : Slots machine
  stands : Annotated Frame.Stands machine
  possession : Possession machine
  references : References machine
  pids : Pids machine
  family : Family machine
  waiting : Waiting machine

/-- A frame that has nothing and promises nothing. -/
structure Frame.Quiet (frame : Frame) : Prop where
  root : frame.root = true
  calm : frame.mode = .calm
  owns : frame.owns = []
  claim : frame.claim? = none
  stands : ∀ me shared, frame.Stands me shared

/-- What a step of CPU `c` can do. -/
inductive Transition (machine : State) (c : Nat) (input : Input) : State → Prop where
  | enter {next : State} (frame : Frame) (unlocked : heldOn discipline machine c = [])
      (quiet : frame.Quiet) (moved : Restacks machine next c
        (frame :: machine.stack (machine.cpu c).thread) machine.shared) :
      Transition machine c input next
  | act {next : State} (frame : Frame) (callers : List Frame) (act : Act Lock Frame Update Reason)
      (top : machine.At c frame callers)
      (coded : code (machine.cpu c).thread.proc? frame machine.shared input = some act)
      (follows : Follows (machine.cpu c).thread.proc? frame callers act)
      (flows : Flows (machine.cpu c).thread.proc? machine.shared frame act)
      (moves : Moves kernel machine c callers next act) : Transition machine c input next
  | halt (reason : Panic Reason) : Transition machine c input (machine.halt reason)

/-- A step leaves the shared state alone, or makes one assignment. -/
theorem Transition.effect (transition : Transition machine c input next) :
    next.shared = machine.shared ∨ ∃ frame callers change after,
        machine.At c frame callers ∧
        Assigns (machine.cpu c).thread.proc? machine.shared frame change after ∧
        next.shared = change.apply machine.shared := by
  cases transition with
  | enter frame unlocked quiet moved => exact .inl moved.shared
  | halt reason => exact .inl rfl
  | act frame callers act top coded follows flows moves =>
    cases moves with
    | update change after moved =>
      exact .inr ⟨frame, callers, change, after, top, .makes flows, moved.shared⟩
    | spawn np first change after shared stacked threads =>
      obtain ⟨rfl, pid, rfl, rfl, rfl⟩ := flows
      exact .inr ⟨_, callers, _, _, top, .allocproc, shared⟩
    | advance _ after isAfter moved | call callee after moved
    | ret value caller rest shape moved | leave moved | sched p after running moved
    | swtch p after idle moved => exact .inl moved.shared

@[elab_as_elim]
theorem Transition.assigned {motive : Shared → Prop} (transition : Transition machine c input next)
    (same : motive machine.shared) (assigned : ∀ frame callers change after,
      machine.At c frame callers →
      Assigns (machine.cpu c).thread.proc? machine.shared frame change after →
      motive (change.apply machine.shared)) : motive next.shared := by
  rcases transition.effect with
    isSame | ⟨frame, callers, change, after, top, assigns, shared⟩
  · rw [isSame]
    exact same
  · rw [shared]
    exact assigned frame callers change after top assigns

/-- What an act that only concerns locks and interrupts does. -/
theorem Flows.advance (flows : Flows me shared frame act) (isAfter : act.after? = some after) :
    frame.Tame me shared after ∨ ∃ chan lock,
      frame = .sleep .releaseCond chan lock ∧ after = .sleep .mark chan lock := by
  cases act with
  | acquire lock after | interrupts on after | setProc p after =>
    cases isAfter
    exact .inl flows
  | release lock after =>
    cases isAfter
    rcases flows with tame | ⟨chan, isFrame, isMark⟩
    · exact .inl tame
    · exact .inr ⟨chan, lock, isFrame, isMark⟩
  | _ => cases isAfter

end Xv6KernelEvent.Process
