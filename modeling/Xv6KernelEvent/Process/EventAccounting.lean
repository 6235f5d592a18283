import Xv6KernelEvent.Process.ForkOrder

/-!
# The events that the kernel posts

The kernel posts an event for a `kfork` that returns a pid, for a `sys_write`
that wrote something, for a process that goes on after it slept, and for a
`sys_pause` that returns 0.  The events in a run are those of what has happened
in it, up to the events that processes are just about to post, and those that
were posted for system calls that have not returned yet.
-/

namespace Xv6KernelEvent.Process

open SpinThreads

/-- The kernel posts the event itself. -/
def Post.own (post : Post) : Bool :=
  match post.name with
  | .user _ => false
  | _ => true

/-- The events that a process has to post. -/
def Frame.due (pid : Nat) : Frame → List Post
  | sleep .releaseProc chan _ | sleep .post chan _ => if chan = .kq then [] else [⟨.sleep, pid⟩]
  | kqueuePost .acquire post | kqueuePost .insert post => if post.own then [post] else []
  | _ => []

/-- The events for what the return of a function completes. -/
def Frame.early (pid : Nat) : Frame → List Post
  | kfork (.done child) => [⟨.fork, child⟩]
  | sysWrite (.done result) _ => if 0 < result then [⟨.write, pid⟩] else []
  | pause .done _ => [⟨.sleep, pid⟩]
  | _ => []

/-- What the kernel has events for. -/
inductive Cause where
  | forked (child : Nat)
  | wrote (pid : Nat)
  | resumed (pid : Nat) (chan : Chan)
  | paused (pid : Nat)
  deriving DecidableEq

def Cause.events : Cause → List Post
  | forked child => [⟨.fork, child⟩]
  | wrote pid => [⟨.write, pid⟩]
  | resumed pid chan => if chan = .kq then [] else [⟨.sleep, pid⟩]
  | paused pid => [⟨.sleep, pid⟩]

/-- `kfork` returns a pid, `sys_write` a positive number or `sys_pause` 0, or
`sleep` is back from `sched`. -/
def completes (pid : Nat) : Frame → Act Lock Frame Update Reason → List Cause
  | .kfork (.done child), .ret _ => [.forked child]
  | .sysWrite _ _, .ret value => if 0 < value then [.wrote pid] else []
  | .pause _ _, .ret value => if value = 0 then [.paused pid] else []
  | .sleep .resumed chan _, .update _ _ => [.resumed pid chan]
  | _, _ => []

/-- What a step of CPU `c` completes. -/
def caused (machine : State) (c : Nat) (input : Input) : List Cause :=
  match (machine.cpu c).thread, machine.stack (machine.cpu c).thread with
  | .process p, frame :: _ =>
    match handler input, processCode p frame machine.shared input with
    | none, some act =>
      if (kernel.step machine c input).isSome then completes (machine.shared.proc p).birth frame act
      else []
    | _, _ => []
  | _, _ => []

def causes (machine : State) : List (Nat × Input) → List Cause
  | [] => []
  | (c, input) :: schedule =>
    caused machine c input ++ causes ((kernel.step machine c input).getD machine) schedule

/-- The events that the frames of all processes stand for. -/
def gathered (events : Nat → Frame → List Post) (machine : State) : List Post :=
  (List.range NPROC).flatMap fun p =>
    (machine.stack (.process p)).flatMap (events (machine.shared.proc p).birth)

/-! ## The code -/

def posted : Act Lock Frame Update Reason → List Post
  | .update (.post post _) _ => if post.own then [post] else []
  | _ => []

/-- The functions that have to do with events. -/
def Call.Posting : Call → Prop
  | sleep _ _ | kqueuePost _ | kfork | pause _ | sysWrite _ => True
  | _ => False

/-- No event is due, and none was early. -/
def Frame.Silent (frame : Frame) : Prop := ∀ pid, frame.due pid = [] ∧ frame.early pid = []

variable {frame : Frame}

theorem Frame.silent_of_call (other : ¬ frame.call.Posting) : frame.Silent := by
  cases frame <;> first | exact absurd trivial other | exact fun _ => ⟨rfl, rfl⟩

theorem Frame.level_of_not_silent (sounds : ¬ frame.Silent) : frame.level < 7 := by
  cases frame <;> first
    | exact absurd (fun _ => ⟨rfl, rfl⟩) sounds
    | simp [Frame.level]

theorem Syscall.frame_silent (call : Syscall) : call.frame.Silent := by
  cases call <;> exact fun _ => ⟨rfl, rfl⟩

theorem Irq.frame_silent (irq : Irq) : irq.frame.Silent := by
  cases irq <;> exact fun _ => ⟨rfl, rfl⟩

/-- The other functions do not call `kqueue_post` for the kernel. -/
theorem processCode_callee (other : ¬ frame.call.Posting)
    (coded : processCode p frame shared input = some (.call callee after)) : callee.Silent := by
  cases frame with
  | sleep | kqueuePost | kfork | pause | sysWrite => exact absurd trivial other
  | fs outer refs locks pending =>
    simp only [processCode] at coded
    split at coded
    · rename_i op
      cases op <;> simp only [fs] at coded
      all_goals repeat' split at coded
      all_goals cases coded
      all_goals exact fun _ => ⟨rfl, rfl⟩
    · cases coded
  | usertrap pc | kerneltrap pc | scheduler pc | wakeup pc chan | killed pc | setkilled pc
  | kqueueWait pc | kkill pc target | yield pc | forkret pc | kexit pc status | kwait pc addr
  | acquiresleep pc lock | releasesleep pc lock | iput pc i | fileclose pc k
  | piperead pc i n | pipewrite pc i n | consoleread pc target | clockintr pc
  | consoleintr pc | table pc op | «section» pc n sleeps =>
    cases pc
    all_goals simp only [processCode, usertrap, kerneltrap, wakeup, killed, setkilled, kqueueWait,
      kkill, yield, forkret, kexit, kwait, acquiresleep, releasesleep, iput,
      fileclose, piperead, pipewrite, consoleread, clockintr, consoleintr,
      table, criticalSection] at coded
    all_goals repeat' split at coded
    all_goals cases coded
    all_goals first
      | exact fun _ => ⟨rfl, rfl⟩
      | exact Syscall.frame_silent _
      | exact Irq.frame_silent _

theorem fresh_silent (other : ¬ frame.call.Posting)
    (coded : processCode p frame shared input = some act) :
    ∀ fresh ∈ act.fresh kernel [], fresh.Silent := by
  have within := code_within (show code (some p) frame shared input = some act from coded)
  intro fresh member
  cases act with
  | call callee after =>
    rcases List.mem_cons.mp member with rfl | isAfter
    · exact processCode_callee other coded
    · obtain rfl := List.mem_singleton.mp isAfter
      exact Frame.silent_of_call (within.1 ▸ other)
  | ret | leave | panic => cases member
  | setProc q after =>
    obtain rfl := List.mem_singleton.mp member
    exact Frame.silent_of_call (within.1 ▸ other)
  | _ =>
    obtain rfl := List.mem_singleton.mp member
    have same : fresh.call = frame.call := within
    exact Frame.silent_of_call (same ▸ other)

theorem flatMap_silent {frames : List Frame} (silent : ∀ frame ∈ frames, frame.Silent) (pid : Nat) :
    frames.flatMap (Frame.due pid) = [] ∧ frames.flatMap (Frame.early pid) = [] :=
  ⟨List.flatMap_eq_nil_iff.mpr fun frame member => (silent frame member pid).1,
    List.flatMap_eq_nil_iff.mpr fun frame member => (silent frame member pid).2⟩

theorem posted_of_other (other : ¬ frame.call.Posting)
    (flows : Flows me shared frame act) : posted act = [] := by
  cases act with
  | update change after =>
    cases change with
    | post post kq =>
      have isPost := (Assigns.makes flows).posts
      subst isPost
      exact absurd trivial other
    | _ => rfl
  | _ => rfl

theorem scheduler_posted (coded : code none frame shared input = some act) : posted act = [] := by
  refine posted_of_other ?_ (code_flows coded)
  intro posting
  cases frame <;> first
    | exact posting
    | cases coded

theorem completes_of_other
    (other : ¬ frame.call.Posting) (pid : Nat) : completes pid frame act = [] := by
  cases frame <;> first | exact absurd trivial other | rfl

/-- A step of the code of a process posts and completes the same events, up to
those that are due and early. -/
theorem processCode_balance (coded : processCode p frame shared input = some act)
    (alive : ∀ reason, act ≠ .panic reason) (post : Post) :
    (posted act).count post + ((act.fresh kernel []).flatMap
          (Frame.due (shared.proc p).birth)).count post +
        (frame.early (shared.proc p).birth).count post =
      (frame.due (shared.proc p).birth).count post + ((act.fresh kernel []).flatMap
          (Frame.early (shared.proc p).birth)).count post +
        ((completes (shared.proc p).birth frame act).flatMap Cause.events).count post := by
  by_cases posting : frame.call.Posting
  · cases frame with
    | sleep pc chan lk | kqueuePost pc event | kfork pc | pause pc n
    | sysWrite pc pipe =>
      cases pc
      all_goals simp only [processCode, sleep, kqueuePostCode, kfork, pause, sysWrite] at coded
      all_goals repeat' split at coded
      all_goals cases coded
      all_goals simp_all [posted, Act.fresh, Frame.due, Frame.early,
        completes, Cause.events, Post.own, fsStart]
      all_goals split <;> first
        | rfl
        | simp [Cause.events]
        | omega
    | _ => exact absurd posting id
  · have quiet := flatMap_silent (fresh_silent posting coded) (shared.proc p).birth
    have silent := Frame.silent_of_call posting (shared.proc p).birth
    have flows : Flows (some p) shared frame act := code_flows coded
    rw [quiet.1, quiet.2, silent.1, silent.2, posted_of_other posting flows,
      completes_of_other posting]
    rfl

/-! ## The processes -/

theorem resume_events (frame : Frame) (value : Int) (pid : Nat) :
    (resume frame value).due pid = frame.due pid ∧
      (resume frame value).early pid = frame.early pid := by
  unfold resume
  split
  all_goals first
    | exact ⟨rfl, rfl⟩
    | split <;> exact ⟨rfl, rfl⟩

theorem entry_silent (entry : trap input = some frame ∨ handler input = some frame) :
    frame.Silent := by
  rcases entry_cases entry with ⟨pc, rfl⟩ | ⟨irq, rfl⟩ <;> exact fun _ => ⟨rfl, rfl⟩

theorem count_exchange (below : p < size) (same : ∀ q, q ≠ p → first q = second q) (post : Post) :
    ((List.range size).flatMap first).count post + (second p).count post =
      ((List.range size).flatMap second).count post + (first p).count post := by
  induction size with
  | zero => cases below
  | succ size induction =>
    rw [List.range_succ]
    simp only [List.flatMap_append, List.count_append, List.flatMap_singleton]
    by_cases last : p = size
    · subst last
      have front : (List.range p).flatMap first = (List.range p).flatMap second :=
        List.flatMap_congr fun q member => same q (List.mem_range.mp member).ne
      rw [front]
      omega
    · have previous := induction (by omega)
      rw [same size (Ne.symm last)]
      omega

/-- The stack of the acting thread after an act, as far as events go. -/
theorem stack_count (events : Nat → Frame → List Post) (post : Post) (pid : Nat)
    (resumed : ∀ frame value, events pid (resume frame value) = events pid frame)
    (moves : Moves kernel machine c callers next act)
    (notNew : ∀ q first change after, act = .spawn q first change after →
      (machine.cpu c).thread ≠ .process q) :
    ((next.stack (machine.cpu c).thread).flatMap (events pid)).count post =
      ((act.fresh kernel []).flatMap (events pid)).count post +
        (callers.flatMap (events pid)).count post := by
  by_cases returns : ∃ value, act = .ret value
  · obtain ⟨value, rfl⟩ := returns
    obtain ⟨caller, rest, rfl, _, continued⟩ := moves.returned
    rw [continued, List.flatMap_cons, List.flatMap_cons]
    rw [show kernel.resume caller value = resume caller value from rfl, resumed, List.count_append]
    exact (Nat.zero_add _).symm
  · have same : next.stack (machine.cpu c).thread = act.fresh kernel [] ++ callers := by
      rcases moves.here notNew rfl with
        pushed | ⟨value, _, _, isReturn, _⟩
      · cases act with
        | ret value => exact absurd ⟨value, rfl⟩ returns
        | _ => exact pushed
      · exact absurd ⟨value, isReturn⟩ returns
    rw [same, List.flatMap_append, List.count_append]

section Step

variable (sane : Sane machine)

include sane

/-- A process that has not been born, or is dead, posts no events. -/
theorem Sane.dormant_silent (parked : Owned.Parked machine q)
    (dormant : ¬ (machine.shared.proc q).state.Alive) :
    ∀ frame ∈ machine.stack (.process q), frame.Silent := by
  obtain ⟨first, rest, shape, rests⟩ := sane.slots.resting q parked
  have nested := sane.owned.nested (.process q)
  rw [shape] at nested ⊢
  have fits : Fits (some q) first rest := nested.1
  have high : 6 ≤ first.level ∧ first.Silent := by
    generalize (machine.shared.proc q).state = state at rests dormant
    cases rests with
    | unborn | freed | new | dead => exact ⟨by simp [Frame.level], fun _ => ⟨rfl, rfl⟩⟩
    | _ => exact absurd trivial dormant
  intro frame member
  rcases List.mem_cons.mp member with rfl | below
  · exact high.2
  · by_contra sounds
    have lower := fits.below (by omega) frame below
    have bound := Frame.level_of_not_silent sounds
    omega

section

variable (transition : Transition machine c input next)

include transition

/-- What a step does to another process: nothing that concerns its events. -/
theorem Sane.beside_quiet (differs : (machine.cpu c).thread ≠ .process q) :
    next.stack (.process q) = machine.stack (.process q) ∧
        (next.shared.proc q).birth = (machine.shared.proc q).birth ∨
      (∀ frame ∈ machine.stack (.process q), frame.Silent) ∧
        ∀ frame ∈ next.stack (.process q), frame.Silent := by
  have pids : (next.shared.proc q).birth = (machine.shared.proc q).birth ∨
      ∀ frame ∈ machine.stack (.process q), frame.Silent := by
    refine transition.assigned (.inl rfl) fun frame callers change after top assigns => ?_
    refine (sane.slots.pid_or_claimed top assigns sane.owned q).imp_right ?_
    rintro ⟨parked, state, claimed, isState, _⟩
    refine sane.dormant_silent parked ?_
    rw [isState]
    rcases Frame.claim_state claimed with rfl | rfl | rfl <;> exact id
  rcases sane.beside_step transition differs.symm with
    same | ⟨np, isNew, parked, isUnused, new⟩
  · rw [same]
    exact pids.imp (fun kept => ⟨rfl, kept⟩) fun silent => ⟨silent, silent⟩
  · cases isNew
    refine .inr ⟨sane.dormant_silent parked (by rw [isUnused]; exact id), ?_⟩
    rw [new]
    intro frame member
    obtain rfl := List.mem_singleton.mp member
    exact fun _ => ⟨rfl, rfl⟩

variable (events : Nat → Frame → List Post)
  (silent : ∀ frame pid, frame.Silent → events pid frame = [])

include silent

theorem Sane.beside_events (differs : (machine.cpu c).thread ≠ .process q) :
    (next.stack (.process q)).flatMap (events (next.shared.proc q).birth) =
      (machine.stack (.process q)).flatMap (events (machine.shared.proc q).birth) := by
  rcases sane.beside_quiet transition differs with
    ⟨sameStack, samePid⟩ | ⟨before, after⟩
  · rw [sameStack, samePid]
  · rw [List.flatMap_eq_nil_iff.mpr fun frame member => silent frame _ (before frame member),
      List.flatMap_eq_nil_iff.mpr fun frame member => silent frame _ (after frame member)]

/-- A step changes the events of the process that takes it. -/
theorem Sane.gathered_step (running : (machine.cpu c).thread = .process p) (post : Post) :
    (gathered events next).count post + ((machine.stack (.process p)).flatMap
          (events (machine.shared.proc p).birth)).count post =
      (gathered events machine).count post + ((next.stack (.process p)).flatMap
          (events (machine.shared.proc p).birth)).count post := by
  have inRange := sane.inRange_of_running running
  have samePid : (next.shared.proc p).birth = (machine.shared.proc p).birth :=
    sane.pid_kept transition fun parked => parked c running
  have exchanged := count_exchange inRange (fun q differs =>
    sane.beside_events transition events silent
      fun same => differs (Thread.process.inj (same.symm.trans running))) post
  rw [samePid] at exchanged
  exact exchanged

theorem Sane.gathered_idle (idle : ∀ p, (machine.cpu c).thread ≠ .process p) :
    gathered events next = gathered events machine := by
  unfold gathered
  congr 1
  funext q
  exact sane.beside_events transition events silent (idle q)

omit transition in
/-- An entered trap changes no events. -/
theorem Sane.gathered_enter (entry : trap input = some frame ∨ handler input = some frame)
    (transition : Transition machine c input (machine.enter c frame)) (post : Post) :
    (gathered events (machine.enter c frame)).count post =
      (gathered events machine).count post := by
  cases thread : (machine.cpu c).thread with
  | scheduler home => rw [sane.gathered_idle transition events silent (by rw [thread]; exact nofun)]
  | process p =>
    have exchanged := sane.gathered_step transition events silent thread post
    have pushed : (machine.enter c frame).stack (.process p) =
        frame :: machine.stack (.process p) := by
      simp [Machine.enter, Machine.setStack, Machine.setCpu, thread]
    rw [pushed, List.flatMap_cons, silent _ _ (entry_silent entry), List.nil_append] at exchanged
    exact Nat.add_right_cancel exchanged

end

omit sane in
theorem moves_posts (moves : Moves kernel machine c callers next act)
    (flows : Flows (machine.cpu c).thread.proc? machine.shared frame act) :
    next.shared.posts.filter Post.own = machine.shared.posts.filter Post.own ++ posted act := by
  cases moves with
  | update change after moved =>
    rw [moved.shared]
    change (change.apply machine.shared).posts.filter Post.own = _
    cases change with
    | post post kq =>
      simp only [Update.apply, List.filter_append, posted]
      cases own : post.own <;> simp [own]
    | _ => exact (List.append_nil _).symm
  | spawn np first change after shared stacked threads =>
    obtain ⟨rfl, pid, rfl, rfl, rfl⟩ := flows
    rw [shared]
    exact (List.append_nil _).symm
  | advance _ after isAfter moved =>
    rw [moved.shared]
    cases act <;> first
      | exact (List.append_nil _).symm
      | cases isAfter
  | call callee after moved | ret value caller rest shape moved | leave moved
  | sched p after running moved | swtch p after idle moved =>
    rw [moved.shared]
    exact (List.append_nil _).symm

/-- What an act of a process posts and completes. -/
theorem Sane.account_act (running : (machine.cpu c).thread = .process p)
    (top : machine.At c frame callers) (coded : processCode p frame machine.shared input = some act)
    (transition : Transition machine c input next)
    (moves : Moves kernel machine c callers next act) (post : Post) :
    (next.shared.posts.filter Post.own).count post + (gathered Frame.due next).count post +
        (gathered Frame.early machine).count post =
      (machine.shared.posts.filter Post.own).count post + (gathered Frame.due machine).count post +
        ((completes (machine.shared.proc p).birth frame act).flatMap Cause.events).count post +
        (gathered Frame.early next).count post := by
  have coded' : code (machine.cpu c).thread.proc? frame machine.shared input = some act := by
    rw [running]
    exact coded
  have flows := code_flows coded'
  have notNew (q : Nat) (first : Frame) (change : Update) (after : Frame)
      (spawned : act = .spawn q first change after) :
      (machine.cpu c).thread ≠ .process q := by
    subst spawned
    exact sane.slots.target_parked sane.owned top flows rfl c
  have alive (reason : Reason) : act ≠ .panic reason := by
    rintro rfl
    cases moves with
    | advance _ after isAfter moved => cases isAfter
  have dues := sane.gathered_step transition Frame.due
    (fun _ pid silent => (silent pid).1) running post
  have earlies := sane.gathered_step transition Frame.early
    (fun _ pid silent => (silent pid).2) running post
  have dueStack := stack_count Frame.due post (machine.shared.proc p).birth
    (fun frame value => (resume_events frame value _).1)
    moves notNew
  have earlyStack := stack_count Frame.early post (machine.shared.proc p).birth
    (fun frame value => (resume_events frame value _).2)
    moves notNew
  have balance := processCode_balance coded alive post
  rw [Machine.At, running] at top
  rw [running] at dueStack earlyStack
  rw [top, List.flatMap_cons, List.count_append] at dues earlies
  rw [moves_posts moves flows, List.count_append]
  omega

omit sane in
theorem caused_of_act (running : (machine.cpu c).thread = .process p)
    (top : machine.At c frame callers) (uninterrupted : handler input = none)
    (coded : processCode p frame machine.shared input = some act)
    (stepped : kernel.step machine c input = some next) :
    caused machine c input = completes (machine.shared.proc p).birth frame act := by
  rw [Machine.At, running] at top
  simp [caused, running, top, uninterrupted, coded, stepped]

/-- A step enters a trap and completes nothing, or it is an act. -/
theorem Sane.enters_or_acts (stepped : kernel.step machine c input = some next) :
    (∃ frame, (trap input = some frame ∨ handler input = some frame) ∧
      next = machine.enter c frame ∧ caused machine c input = []) ∨
    ∃ frame callers act, machine.stack (machine.cpu c).thread = frame :: callers ∧
      handler input = none ∧
      code (machine.cpu c).thread.proc? frame machine.shared input = some act ∧
      (Moves kernel machine c callers next act ∨
        ∃ reason, act = .panic reason ∧ next = machine.halt (.code reason)) := by
  cases stack : machine.stack (machine.cpu c).thread with
  | nil =>
    have nothing : caused machine c input = [] := by
      unfold caused
      rw [stack]
      split
      · rename_i shape
        cases shape
      · rfl
    obtain ⟨alive, steps⟩ := kernel.steps_of_step machine stepped
    cases steps with
    | trap frame p running user entry => exact .inl ⟨frame, .inl entry, rfl, nothing⟩
    | interrupt frame entry enabled => exact .inl ⟨frame, .inr entry, rfl, nothing⟩
    | act frame callers act next top coded performed => cases stack.symm.trans top
  | cons frame callers =>
    cases entry : handler input with
    | none =>
      obtain ⟨act, coded, outcome⟩ := sane.acts stack entry stepped
      exact .inr ⟨frame, callers, act, rfl, rfl, coded, outcome⟩
    | some first =>
      have nothing : caused machine c input = [] := by
        unfold caused
        rw [entry]
        split <;> rfl
      refine .inl ⟨first, .inr rfl, ?_, nothing⟩
      have alive := (kernel.steps_of_step machine stepped).1
      have isEntry : kernel.handler input = some first := entry
      simp only [Kernel.step, alive, stack, isEntry] at stepped
      simp at stepped
      exact stepped.2.symm

theorem Sane.account_step (stepped : kernel.step machine c input = some next) (post : Post) :
    (next.shared.posts.filter Post.own).count post + (gathered Frame.due next).count post +
        (gathered Frame.early machine).count post =
      (machine.shared.posts.filter Post.own).count post + (gathered Frame.due machine).count post +
        ((caused machine c input).flatMap Cause.events).count post +
        (gathered Frame.early next).count post := by
  have transition := sane.transition stepped
  rcases sane.enters_or_acts stepped with
    ⟨frame, entry, rfl, nothing⟩ | ⟨frame, callers, act, top, uninterrupted, coded, outcome⟩
  · rw [nothing,
      sane.gathered_enter Frame.due (fun _ pid silent => (silent pid).1) entry transition,
      sane.gathered_enter Frame.early (fun _ pid silent => (silent pid).2) entry transition]
    rfl
  · cases thread : (machine.cpu c).thread with
    | process p =>
      rw [thread] at coded
      rw [caused_of_act thread top uninterrupted coded stepped]
      rcases outcome with moves | ⟨reason, rfl, rfl⟩
      · exact sane.account_act thread top coded transition moves post
      · have nothing : completes (machine.shared.proc p).birth frame (.panic reason) = [] := by
          cases frame with
          | sleep pc chan lk | kfork pc => cases pc <;> rfl
          | _ => rfl
        rw [nothing]
        rfl
    | scheduler home =>
      have nothing : caused machine c input = [] := by
        unfold caused
        rw [thread]
      have idle : ∀ p, (machine.cpu c).thread ≠ .process p := by
        rw [thread]
        exact nofun
      rw [nothing,
        sane.gathered_idle transition Frame.due (fun _ pid silent => (silent pid).1) idle,
        sane.gathered_idle transition Frame.early (fun _ pid silent => (silent pid).2) idle]
      have flows := code_flows coded
      have quiet : next.shared.posts.filter Post.own = machine.shared.posts.filter Post.own := by
        rcases outcome with moves | ⟨reason, _, rfl⟩
        · rw [thread] at coded
          rw [moves_posts moves flows, scheduler_posted coded, List.append_nil]
        · rfl
      rw [quiet]
      rfl

end Step

/-- What has happened in a run, and the events that were posted for it. -/
theorem run_accounts (sane : Sane machine) (schedule : List (Nat × Input)) (post : Post) :
    ((kernel.run machine schedule).shared.posts.filter Post.own).count post +
        (gathered Frame.due (kernel.run machine schedule)).count post +
        (gathered Frame.early machine).count post =
      (machine.shared.posts.filter Post.own).count post + (gathered Frame.due machine).count post +
        ((causes machine schedule).flatMap Cause.events).count post +
        (gathered Frame.early (kernel.run machine schedule)).count post := by
  induction schedule generalizing machine with
  | nil => rfl
  | cons entry schedule induction =>
    obtain ⟨c, input⟩ := entry
    simp only [Kernel.run, causes, List.flatMap_append, List.count_append]
    cases stepped : kernel.step machine c input with
    | none =>
      have nothing : caused machine c input = [] := by
        unfold caused
        split
        · split
          · simp [stepped]
          · rfl
        · rfl
      have rest := induction sane
      rw [nothing]
      simpa using rest
    | some next =>
      have here := sane.account_step stepped post
      have rest := induction (sane.step stepped)
      simp only [Option.getD_some]
      omega

theorem boot_gathered (events : Nat → Frame → List Post)
    (silent : ∀ pid, events pid (.forkret .release) = []) : gathered events boot = [] :=
  List.flatMap_eq_nil_iff.mpr fun p _ =>
    List.flatMap_eq_nil_iff.mpr fun frame member => by
      obtain rfl := List.mem_singleton.mp member
      exact silent _

/-- In every run, the events that the kernel has posted and those that are due
are one for each `kfork` that returned a pid, `sys_write` that wrote something,
process that went on after it slept on a channel other than `&kq`, and
`sys_pause` that returned 0, and those for which it has posted early. -/
theorem kernel_events_are_accounted (schedule : List (Nat × Input)) :
    ((run schedule).shared.posts.filter Post.own ++ gathered Frame.due (run schedule)).Perm
      ((causes boot schedule).flatMap Cause.events ++ gathered Frame.early (run schedule)) := by
  rw [List.perm_iff_count]
  intro post
  have accounts := run_accounts sane_boot schedule post
  rw [boot_gathered Frame.due fun _ => rfl, boot_gathered Frame.early fun _ => rfl] at accounts
  simpa [run, boot, bootShared] using accounts

/-- `init` pauses for no ticks and is back in user mode. -/
def pauseZero : List (Nat × Input) := steps 8 0 ++ (0, .syscall (.pause 0)) :: steps 218 0

/-- A process that did not block has an event "sleep". -/
theorem pause_posts_without_sleep : (run pauseZero).shared.posts = [⟨.sleep, 1⟩] ∧
      causes boot pauseZero = [.paused 1] ∧
      (run pauseZero).stack (.process 0) = [] := by
  decide +kernel

end Xv6KernelEvent.Process
