import Xv6KernelEvent.Process.CallGraph
import Xv6KernelEvent.Process.Safety

/-!
# The `fork` event comes first

`kfork` makes the child `RUNNABLE`, releases its lock and only then posts the
event.  If no scheduler picks up the child before that, the event of `kfork` is
the first one that the kernel posts for the child.
-/

namespace Xv6KernelEvent.Process

open SpinThreads

variable {frame : Frame}

/-- The child that `kfork` has published, until its event is in the queue. -/
def Frame.owes : Frame → Option Int
  | kfork (.unlockChild _ pid) | kfork (.post _ pid) => some pid
  | kqueuePost .acquire post | kqueuePost .insert post =>
    if post.name = .fork then some post.pid else none
  | _ => none

def Unposted (machine : State) (pid : Nat) : Prop :=
  ∃ p < NPROC, ∃ frame ∈ machine.stack (.process p), frame.owes = some pid

instance (pid : Nat) : Decidable (Unposted machine pid) :=
  inferInstanceAs (Decidable (∃ p < NPROC, _))

/-- The event of the `kfork` that made the process; `init` has none. -/
def Recorded (shared : Shared) (pid : Nat) : Prop := pid = 1 ∨ ⟨.fork, pid⟩ ∈ shared.posts

/-- The events that the kernel posts for a process come after the one of its
`kfork`. -/
def ForksFirst (posts : List Post) : Prop :=
  ∀ before after name pid, posts = before ++ ⟨name, pid⟩ :: after →
    name = .write ∨ name = .sleep → pid = 1 ∨ ⟨.fork, pid⟩ ∈ before

/-- The scheduler does not pick up a process whose `fork` event is not posted
yet. -/
def AwaitsFork (machine : State) (c : Nat) (_ : Input) : Prop :=
  match machine.stack (machine.cpu c).thread with
  | .scheduler (.check q) :: _ =>
    (machine.shared.proc q).state = .runnable → ¬ Unposted machine (machine.shared.proc q).birth
  | _ => True

instance : Decidable (AwaitsFork machine c input) := by
  unfold AwaitsFork
  split <;> infer_instance

structure ForkOrder (machine : State) : Prop where
  published : ∀ q, (machine.shared.proc q).state ≠ .unused → (machine.shared.proc q).state ≠ .used →
    Recorded machine.shared (machine.shared.proc q).birth ∨
      Unposted machine (machine.shared.proc q).birth
  running : ∀ p, (machine.shared.proc p).state = .running →
    Recorded machine.shared (machine.shared.proc p).birth
  ordered : ForksFirst machine.shared.posts

theorem Update.apply_posts (change : Update) (shared : Shared) :
    (change.apply shared).posts = shared.posts ∨ ∃ post kq, change = .post post kq ∧
        (change.apply shared).posts = shared.posts ++ [post] := by
  cases change with
  | post post kq => exact .inr ⟨post, kq, rfl, rfl⟩
  | _ => exact .inl rfl

theorem Recorded.apply (recorded : Recorded shared pid) (change : Update) :
    Recorded (change.apply shared) pid := by
  rcases recorded with isInit | posted
  · exact .inl isInit
  · right
    rcases change.apply_posts shared with same | ⟨post, kq, _, more⟩
    · rw [same]
      exact posted
    · rw [more]
      exact List.mem_append_left _ posted

theorem Transition.recorded (transition : Transition machine c input next)
    (recorded : Recorded machine.shared pid) : Recorded next.shared pid := by
  exact transition.assigned recorded fun _ _ change _ _ _ => recorded.apply change

theorem Assigns.posts (assigns : Assigns me shared frame (.post post kq) after) :
    frame = .kqueuePost .insert post := by
  cases assigns with
  | makes makes =>
    cases makes with
    | post time posted => rfl

theorem Frame.owes_level (owes : frame.owes = some pid) : frame.level < 7 := by
  cases frame with
  | kfork pc | kqueuePost pc post => simp [Frame.level]
  | _ => cases owes

theorem resume_owes (value : Int) : (resume frame value).owes = frame.owes := by
  unfold resume
  split <;> rfl

theorem Post.owes {post : Post} {pid : Int}
    (owes : (if post.name = .fork then some post.pid else none) = some pid) :
    post = ⟨.fork, pid⟩ := by
  split at owes
  · rename_i isFork
    cases owes
    rw [← isFork]
  · cases owes

/-- The code on the way to the `fork` event. -/
theorem code_owes {me : Option Nat} {shared : Shared} {act : Act Lock Frame Update Reason}
    {pid : Int} (owes : frame.owes = some pid)
    (coded : code me frame shared input = some act) (callers : List Frame) :
    (∃ other ∈ act.fresh kernel callers, other.owes = some pid) ∨
      (∃ kq after, act = .update (.post ⟨.fork, pid⟩ kq) after) ∨
      ∃ reason, act = .panic reason := by
  cases me with
  | none =>
    cases frame with
    | kfork pc | kqueuePost pc post => cases coded
    | _ => cases owes
  | some p =>
    cases frame with
    | kfork pc =>
      cases pc with
      | unlockChild np child | post np child =>
        cases coded
        exact .inl ⟨_, List.mem_cons_self, owes⟩
      | _ => cases owes
    | kqueuePost pc post =>
      cases pc with
      | acquire =>
        cases coded
        exact .inl ⟨_, List.mem_cons_self, owes⟩
      | insert =>
        obtain rfl := Post.owes owes
        simp only [code, processCode, kqueuePostCode] at coded
        split at coded <;> cases coded
        · exact .inr (.inl ⟨_, _, rfl⟩)
        · exact .inr (.inr ⟨_, rfl⟩)
      | _ => cases owes
    | _ => cases owes

/-- A new event keeps the order if it is not one of the kernel for a process
without its `fork` event. -/
theorem ForksFirst.append (ordered : ForksFirst posts)
    (recorded : post.name = .write ∨ post.name = .sleep →
      post.pid = 1 ∨ ⟨.fork, post.pid⟩ ∈ posts) : ForksFirst (posts ++ [post]) := by
  intro before after name pid isSplit own
  rcases List.eq_nil_or_concat after with rfl | ⟨rest, last, rfl⟩
  · obtain ⟨rfl, isPost⟩ := List.append_inj' isSplit rfl
    obtain rfl := (List.cons.inj isPost).1
    exact recorded own
  · rw [List.concat_eq_append, ← List.cons_append, ← List.append_assoc] at isSplit
    obtain ⟨isSplit, _⟩ := List.append_inj' isSplit rfl
    exact ordered before rest name pid isSplit own

/-- Only the code of the top frame changes the shared state. -/
theorem Transition.acted (transition : Transition machine c input next)
    (top : machine.At c frame callers) (changed : next.shared ≠ machine.shared) :
    ∃ act, code (machine.cpu c).thread.proc? frame machine.shared input = some act ∧
      Moves kernel machine c callers next act := by
  cases transition with
  | halt reason => exact absurd rfl changed
  | enter first unlocked quiet moved => exact absurd moved.shared changed
  | act first rest act found coded follows flows moves =>
    cases found.symm.trans top
    exact ⟨act, coded, moves⟩

section Step

variable (sane : Sane machine)

include sane

/-- The stack of a free slot. -/
theorem Sane.level_of_unused (parked : Owned.Parked machine p)
    (isUnused : (machine.shared.proc p).state = .unused)
    (member : frame ∈ machine.stack (.process p)) :
    7 ≤ frame.level ∨ ∃ status, frame = .kexit .dead status := by
  obtain ⟨first, rest, shape, rests⟩ := sane.slots.resting p parked
  have nested := sane.owned.nested (.process p)
  rw [shape] at nested
  have fits : Fits (some p) first rest := nested.1
  rw [isUnused] at rests
  have level : 6 ≤ first.level := by cases rests <;> simp [Frame.level]
  rw [shape] at member
  rcases List.mem_cons.mp member with rfl | below
  · cases rests with
    | unborn => exact .inl (by simp [Frame.level])
    | freed status => exact .inr ⟨status, rfl⟩
  · have lower := fits.below (by omega) frame below
    exact .inl (by omega)

/-- `kfork` posts its event. -/
theorem Sane.unposted_step (transition : Transition machine c input next)
    (unposted : Unposted machine pid) : Recorded next.shared pid ∨ Unposted next pid := by
  obtain ⟨p, inRange, frame, member, owes⟩ := unposted
  rcases sane.frame_kept transition member with
    kept | ⟨value, resumed⟩ | ⟨callers, act, current, top, coded, moves, fresh⟩ |
      ⟨np, isNew, parked, isUnused⟩
  · exact .inr ⟨p, inRange, frame, kept, owes⟩
  · exact .inr ⟨p, inRange, _, resumed, (resume_owes value).trans owes⟩
  · rcases code_owes owes coded callers with
      ⟨other, isFresh, stillOwes⟩ | ⟨kq, after, rfl⟩ | ⟨reason, rfl⟩
    · exact .inr ⟨p, inRange, other, fresh other isFresh, stillOwes⟩
    · cases moves with
      | advance _ after isAfter moved => cases isAfter
      | update _ _ moved =>
        rw [moved.shared]
        exact .inl (.inr (List.mem_append_right _ List.mem_cons_self))
    · cases moves with
      | advance _ after isAfter moved => cases isAfter
  · cases isNew
    rcases sane.level_of_unused parked isUnused member with high | ⟨status, rfl⟩
    · exact absurd (Frame.owes_level owes) (by omega)
    · cases owes

/-- Only `kfork` makes a new process `RUNNABLE`. -/
theorem Sane.publishes (top : machine.At c frame callers)
    (assigns : Assigns (machine.cpu c).thread.proc? machine.shared frame change
      after) (before : (machine.shared.proc q).state = .used)
    (now : ((change.apply machine.shared).proc q).state = .runnable) :
    frame = .kfork (.publish q (machine.shared.proc q).birth) ∧ change = .publish q ∧
      after = .kfork (.unlockChild q (machine.shared.proc q).birth) := by
  rcases Update.apply_state change machine.shared q with same | sets
  · rw [now, before] at same
    cases same
  · have isNow := now
    rw [now] at sets
    cases sets with
    | wake chan =>
      rw [Update.apply_target rfl] at isNow
      simp only [Update.edit, Shared.wake] at isNow
      split at isNow <;> simp [before] at isNow
    | kill =>
      rw [Update.apply_target rfl] at isNow
      simp [Update.edit, Shared.wake, before] at isNow
    | yield =>
      cases assigns with
      | makes makes =>
        cases makes with
        | yield isMe =>
          have running := sane.slots.running c q (Thread.eq_process isMe)
          rw [before] at running
          exact absurd running.symm (Mode.state_ne _).2
    | publish =>
      cases assigns with
      | makes makes =>
        cases makes with
        | @publish _ pid =>
          have member := top.mem
          have isPid : (machine.shared.proc q).birth = pid := sane.stands _ _ member
          rw [isPid]
          exact ⟨rfl, rfl, rfl⟩

/-- A process that becomes `RUNNABLE` for the first time has its event ahead. -/
theorem Sane.unposted_of_published (transition : Transition machine c input next)
    (before : (machine.shared.proc q).state = .used) (used : (next.shared.proc q).state ≠ .unused)
    (notUsed : (next.shared.proc q).state ≠ .used) :
    Unposted next (machine.shared.proc q).birth := by
  rcases transition.effect with
    same | ⟨frame, callers, change, after, top, assigns, shared⟩
  · rw [same] at notUsed
    exact absurd before notUsed
  · have now : ((change.apply machine.shared).proc q).state = .runnable := by
      rw [shared] at used notUsed
      rcases sane.slots.advances top assigns q with same | advances
      · exact absurd (same.trans before) notUsed
      · generalize ((change.apply machine.shared).proc q).state = state at *
        rw [before] at advances
        cases advances with
        | publish => rfl
        | abandon => exact absurd rfl used
    obtain ⟨rfl, rfl, rfl⟩ := sane.publishes top assigns before now
    have changed : next.shared ≠ machine.shared := by
      intro same
      rw [same] at notUsed
      exact notUsed before
    obtain ⟨act, coded, moves⟩ := transition.acted top changed
    obtain ⟨p, isProcess⟩ := process_of_level sane.owned
      top.mem (by simp [Frame.level])
    rw [isProcess] at coded
    cases coded
    cases moves with
    | advance _ after isAfter moved => cases isAfter
    | update _ _ moved =>
      refine ⟨p, sane.inRange_of_running isProcess,
        .kfork (.unlockChild q (machine.shared.proc q).birth), ?_, rfl⟩
      rw [moved.stacked, isProcess, Function.update_self]
      exact List.mem_cons_self

section Keeps

variable (transition : Transition machine c input next) (order : ForkOrder machine)

include transition order

theorem ForkOrder.published_step (used : (next.shared.proc q).state ≠ .unused)
    (notUsed : (next.shared.proc q).state ≠ .used) :
    Recorded next.shared (next.shared.proc q).birth ∨ Unposted next (next.shared.proc q).birth := by
  have older (wasUsed : (machine.shared.proc q).state ≠ .unused)
      (isPid : (next.shared.proc q).birth = (machine.shared.proc q).birth) :
      Recorded next.shared (next.shared.proc q).birth ∨
        Unposted next (next.shared.proc q).birth := by
    rw [isPid]
    by_cases before : (machine.shared.proc q).state = .used
    · exact .inr (sane.unposted_of_published transition before used notUsed)
    · rcases order.published q wasUsed before with recorded | unposted
      · exact .inl (transition.recorded recorded)
      · exact sane.unposted_step transition unposted
  rcases transition.effect with
    same | ⟨frame, callers, change, after, top, assigns, shared⟩
  · rw [same] at used
    exact older used (by rw [same])
  · rw [shared] at used notUsed
    cases sane.pidChange top assigns q with
    | kept isPid sameUnused =>
      refine older (fun isUnused => used (sameUnused.mpr isUnused)) ?_
      rw [shared]
      exact isPid
    | freed free isPid isUnused => exact absurd isUnused used
    | named pid alloc isPid isUsed owned fresh => exact absurd isUsed notUsed

theorem ForkOrder.running_step (awaits : AwaitsFork machine c input) (p : Nat) :
    (next.shared.proc p).state = .running → Recorded next.shared (next.shared.proc p).birth := by
  refine transition.assigned (order.running p)
    fun frame callers change after top assigns isRunning => ?_
  cases sane.pidChange top assigns p with
  | freed free isPid isUnused => cases isRunning.symm.trans isUnused
  | named pid alloc isPid isUsed owned fresh => cases isRunning.symm.trans isUsed
  | kept isPid sameUnused =>
    rw [isPid]
    refine Recorded.apply ?_ change
    rcases Update.apply_state change machine.shared p with same | sets
    · exact order.running p (same.symm.trans isRunning)
    · rw [isRunning] at sets
      cases sets with
      | dispatch =>
        obtain ⟨rfl, runnable⟩ : frame = .scheduler (.check p) ∧
            (machine.shared.proc p).state = .runnable := by
          cases assigns with
          | makes makes =>
            cases makes with
            | dispatch runnable => exact ⟨rfl, runnable⟩
        refine (order.published p (by simp [runnable]) (by simp [runnable])).resolve_right ?_
        unfold AwaitsFork at awaits
        rw [top] at awaits
        exact awaits runnable

theorem ForkOrder.ordered_step : ForksFirst next.shared.posts := by
  rcases transition.effect with
    same | ⟨frame, callers, change, after, top, assigns, shared⟩
  · rw [same]
    exact order.ordered
  · rw [shared]
    rcases change.apply_posts machine.shared with same | ⟨post, kq, rfl, more⟩
    · rw [same]
      exact order.ordered
    · rw [more]
      obtain rfl := assigns.posts
      have member := top.mem
      have genuine : post.Genuine (machine.cpu c).thread.proc? machine.shared :=
        sane.stands _ _ member
      refine order.ordered.append fun own => ?_
      have changed : next.shared ≠ machine.shared := by
        intro same
        rw [← shared, same] at more
        simp at more
      obtain ⟨act, coded, _⟩ := transition.acted top changed
      obtain ⟨p, isProcess⟩ : ∃ p, (machine.cpu c).thread = .process p := by
        cases thread : (machine.cpu c).thread with
        | process p => exact ⟨p, rfl⟩
        | scheduler d =>
          rw [thread] at coded
          cases coded
      have isPid := genuine own p (by rw [isProcess]; rfl)
      rw [isPid]
      have running := sane.slots.running c p isProcess
      rw [← isProcess, top] at running
      rcases order.running p running with isInit | posted
      · exact .inl (by rw [isInit]; rfl)
      · exact .inr posted

end Keeps

end Step

theorem ForkOrder.step (sane : Sane machine) (order : ForkOrder machine)
    (awaits : AwaitsFork machine c input)
    (stepped : kernel.step machine c input = some next) : ForkOrder next where
  published _ used notUsed := order.published_step sane (sane.transition stepped) used notUsed
  running := order.running_step sane (sane.transition stepped) awaits
  ordered := order.ordered_step sane (sane.transition stepped)

theorem forkOrder_boot : ForkOrder boot where
  published := by
    intro q used _
    rcases boot_proc q with ⟨_, isProc⟩ | isProc
    · rw [isProc]
      exact .inl (.inl rfl)
    · rw [isProc] at used
      exact absurd rfl used
  running := by
    intro p running
    rcases boot_proc p with ⟨_, isProc⟩ | isProc <;> rw [isProc] at running <;> cases running
  ordered := by
    intro before after name pid isSplit
    cases before <;> cases isSplit

/-- In every run in which no scheduler picks up a process before its `fork` event
is in the queue, that event comes before all that the kernel posts for the
process. -/
theorem fork_posted_first (schedule : List (Nat × Input))
    (awaits : kernel.Along AwaitsFork boot schedule) : ForksFirst (run schedule).shared.posts :=
  (run_holds_along ForkOrder forkOrder_boot
    (fun _ _ _ _ sane order met stepped => order.step sane met stepped)
    awaits).ordered

/-- The child of `childRuns` writes to a file. -/
def childWrites : List (Nat × Input) :=
  (1, .syscall (.write none)) :: steps 8 1 ++ (1, .fs (.finish 1)) :: steps 3 1

theorem fork_posted_first_childWaits : kernel.Along AwaitsFork boot (childWaits ++ childWrites) ∧
      (run (childWaits ++ childWrites)).shared.posts = [⟨.fork, 2⟩, ⟨.write, 2⟩] ∧
      ForksFirst (run (childWaits ++ childWrites)).shared.posts := by
  have awaits : kernel.Along AwaitsFork boot (childWaits ++ childWrites) := by decide +kernel
  exact ⟨awaits, by decide +kernel, fork_posted_first _ awaits⟩

/-- The child can write before its parent posts the `fork` event. -/
theorem write_posted_before_fork : (1, 2) ∈ (run (childRuns ++ childWrites)).shared.forks ∧
      (run (childRuns ++ childWrites)).shared.posts = [⟨.write, 2⟩] ∧
      Unposted (run (childRuns ++ childWrites)) 2 ∧
      ¬ ForksFirst (run (childRuns ++ childWrites)).shared.posts := by
  have posts : (run (childRuns ++ childWrites)).shared.posts = [⟨.write, 2⟩] := by decide +kernel
  refine ⟨by decide +kernel, posts, by decide +kernel, ?_⟩
  intro ordered
  rcases ordered [] [] .write 2 posts (.inl rfl) with isInit | member
  · cases isInit
  · cases member

end Xv6KernelEvent.Process
