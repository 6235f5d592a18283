import Xv6KernelEvent.Library.LockOwnership

/-!
# What a step does to the threads

A step that follows the lock discipline halts the machine, or it changes the
stack of the thread that took it, perhaps the shared state, and at a context
switch the thread of its CPU.  `Moves` lists these changes without the locks,
for invariants that only speak about stacks and the shared state.
-/

namespace Xv6KernelEvent.SpinThreads

variable {Lock Token Frame Shared Update Input Reason : Type}

/-- No CPU changes its thread. -/
def SameThreads (machine next : Machine Lock Frame Shared Reason) : Prop :=
  ∀ c, (next.cpu c).thread = (machine.cpu c).thread

/-- The thread on CPU `c` gets a new stack. -/
structure Restacks (machine next : Machine Lock Frame Shared Reason) (c : Nat)
    (stack : List Frame) (shared : Shared) : Prop where
  shared : next.shared = shared
  stacked : next.stack = Function.update machine.stack (machine.cpu c).thread stack
  threads : SameThreads machine next

/-- CPU `c` goes over to another thread. -/
structure Switches (machine next : Machine Lock Frame Shared Reason) (c : Nat)
    (stack : List Frame) (shared : Shared) (thread : Thread) : Prop where
  shared : next.shared = shared
  stacked : next.stack = Function.update machine.stack (machine.cpu c).thread stack
  here : (next.cpu c).thread = thread
  elsewhere : ∀ other, other ≠ c → (next.cpu other).thread = (machine.cpu other).thread

theorem Switches.of_update {machine next : Machine Lock Frame Shared Reason}
    (current : (machine.cpu c).thread = own) (shared : next.shared = after)
    (stacked : next.stack = Function.update machine.stack own stack)
    (cpus : next.cpu = Function.update machine.cpu c cpu) (becomes : cpu.thread = thread) :
    Switches machine next c stack after thread where
  shared := shared
  stacked := by rw [current, stacked]
  here := by rw [cpus, Function.update_self, becomes]
  elsewhere := fun other differs => by rw [cpus, Function.update_of_ne differs]

/-- The frame after an act that only concerns locks and interrupts. -/
def Act.after? : Act Lock Frame Update Reason → Option Frame
  | .acquire _ after | .release _ after | .interrupts _ after | .setProc _ after => some after
  | _ => none

/-- The changes that an act of the thread on CPU `c` makes. -/
inductive Moves (kernel : Kernel Lock Frame Shared Update Input Reason)
    (machine : Machine Lock Frame Shared Reason) (c : Nat)
    (callers : List Frame) (next : Machine Lock Frame Shared Reason) :
    Act Lock Frame Update Reason → Prop where
  | update (change : Update) (after : Frame) (moved : Restacks machine next c (after :: callers)
        (kernel.apply change machine.shared)) :
      Moves kernel machine c callers next (.update change after)
  | advance (act : Act Lock Frame Update Reason) (after : Frame) (isAfter : act.after? = some after)
      (moved : Restacks machine next c (after :: callers) machine.shared) :
      Moves kernel machine c callers next act
  | call (callee after : Frame) (moved : Restacks machine next c (callee :: after :: callers)
        machine.shared) :
      Moves kernel machine c callers next (.call callee after)
  | ret (value : Int) (caller : Frame) (rest : List Frame) (shape : callers = caller :: rest)
      (moved : Restacks machine next c (kernel.resume caller value :: rest) machine.shared) :
      Moves kernel machine c callers next (.ret value)
  | leave (moved : Restacks machine next c callers machine.shared) :
      Moves kernel machine c callers next .leave
  | sched (p : Nat) (after : Frame) (running : (machine.cpu c).thread = .process p)
      (moved : Switches machine next c (after :: callers) machine.shared (.scheduler c)) :
      Moves kernel machine c callers next (.sched after)
  | swtch (p : Nat) (after : Frame) (idle : (machine.cpu c).thread = .scheduler c)
      (moved : Switches machine next c (after :: callers) machine.shared (.process p)) :
      Moves kernel machine c callers next (.swtch p after)
  | spawn (p : Nat) (first : Frame) (change : Update) (after : Frame)
      (shared : next.shared = kernel.apply change machine.shared)
      (stacked : next.stack = Function.update (Function.update machine.stack (machine.cpu c).thread
            (after :: callers)) (.process p) [first])
      (threads : SameThreads machine next) :
      Moves kernel machine c callers next (.spawn p first change after)

variable {kernel : Kernel Lock Frame Shared Update Input Reason}
  {discipline : Discipline Lock Token Frame} {machine next : Machine Lock Frame Shared Reason}
  {callers : List Frame} {act : Act Lock Frame Update Reason}

theorem sameThreads_setCpu (machine : Machine Lock Frame Shared Reason)
    (cpus : next.cpu = Function.update machine.cpu c cpu)
    (thread : cpu.thread = (machine.cpu c).thread) : SameThreads machine next := by
  intro other
  rw [cpus]
  by_cases here : other = c
  · rw [here, Function.update_self, thread]
  · rw [Function.update_of_ne here]

/-- A trap only pushes a frame. -/
theorem enter_restacks (machine : Machine Lock Frame Shared Reason) (c : Nat) (frame : Frame) :
    Restacks machine (machine.enter c frame) c
      (frame :: machine.stack (machine.cpu c).thread) machine.shared :=
  ⟨rfl, rfl, sameThreads_setCpu machine rfl rfl⟩

variable [DecidableEq Lock]

/-- A step that follows the discipline moves the threads, unless the code
panics. -/
theorem Owned.moves (owned : Owned kernel discipline machine) (top : machine.At c frame callers)
    (sound : discipline.Sound (machine.cpu c).thread.proc? kernel.procLock frame callers act)
    (stopped : ∀ after p, act = .sched after → (machine.cpu c).thread = .process p →
      kernel.running machine.shared p = false)
    (performed : kernel.perform machine c callers act = some next) :
    Moves kernel machine c callers next act ∨
      ∃ reason, act = .panic reason ∧ next = machine.halt (.code reason) := by
  cases act with
  | update change after =>
    cases performed
    exact .inl (.update change after ⟨rfl, rfl, fun _ => rfl⟩)
  | acquire lock after =>
    obtain ⟨-, rfl⟩ := owned.acquired top sound performed rfl
    exact .inl (.advance _ after rfl ⟨rfl, rfl, sameThreads_setCpu machine rfl rfl⟩)
  | release lock after =>
    obtain ⟨-, rfl⟩ := owned.released top sound performed rfl
    exact .inl (.advance _ after rfl ⟨rfl, rfl, sameThreads_setCpu machine rfl rfl⟩)
  | call callee after =>
    cases performed
    exact .inl (.call callee after ⟨rfl, rfl, fun _ => rfl⟩)
  | ret value =>
    cases callers with
    | nil => cases performed
    | cons caller rest =>
      cases performed
      exact .inl (.ret value caller rest rfl ⟨rfl, rfl, fun _ => rfl⟩)
  | interrupts on after | setProc p after =>
    cases performed
    exact .inl (.advance _ after rfl ⟨rfl, rfl, sameThreads_setCpu machine rfl rfl⟩)
  | leave =>
    cases performed
    exact .inl (.leave ⟨rfl, rfl, sameThreads_setCpu machine rfl rfl⟩)
  | sched after =>
    obtain ⟨p, running, -, rfl⟩ :=
      owned.scheduled top sound performed rfl (fun p => stopped after p rfl)
    exact .inl (.sched p after running (.of_update running rfl rfl rfl rfl))
  | swtch p after =>
    obtain ⟨idle, rfl⟩ := owned.switched sound performed rfl
    exact .inl (.swtch p after idle (.of_update idle rfl rfl rfl rfl))
  | spawn p first change after =>
    cases performed
    exact .inl (.spawn p first change after rfl rfl (fun _ => rfl))
  | panic reason =>
    cases performed
    exact .inr ⟨reason, rfl, rfl⟩

/-- Only an assignment changes `c->proc`. -/
theorem Kernel.perform_proc (performed : kernel.perform machine c callers act = some next) :
    (∃ p after, act = .setProc p after ∧
        next.cpu = Function.update machine.cpu c { machine.cpu c with proc := p }) ∨
      (∀ p after, act ≠ .setProc p after) ∧ ∀ d, (next.cpu d).proc = (machine.cpu d).proc := by
  have kept {cpu : Cpu} (proc : cpu.proc = (machine.cpu c).proc) (d : Nat) :
      (Function.update machine.cpu c cpu d).proc = (machine.cpu d).proc := by
    by_cases here : d = c
    · rw [here, Function.update_self, proc]
    · rw [Function.update_of_ne here]
  cases act with
  | setProc p after =>
    cases performed
    exact .inl ⟨p, after, rfl, rfl⟩
  | _ =>
    refine .inr ⟨fun _ _ equal => (by cases equal), ?_⟩
    simp only [Kernel.perform, Machine.acquire, Machine.release, Kernel.sched] at performed
    repeat' split at performed
    all_goals cases performed
    all_goals first
      | exact fun _ => rfl
      | exact kept rfl

omit [DecidableEq Lock]

theorem mem_heldOn (top : machine.At c frame callers)
    (held : lock ∈ discipline.held (machine.cpu c).thread.proc? frame) :
    lock ∈ heldOn discipline machine c := by
  rw [heldOn_top top]
  exact List.mem_append_left _ held

/-- Any frame but the running one: a caller of it, or a frame of another
thread. -/
inductive Elsewhere (machine : Machine Lock Frame Shared Reason) (c : Nat)
    (callers : List Frame) : Thread → Frame → Prop where
  | below {other : Frame} (member : other ∈ callers) :
      Elsewhere machine c callers (machine.cpu c).thread other
  | beside {thread : Thread} {other : Frame} (differs : thread ≠ (machine.cpu c).thread)
      (member : other ∈ machine.stack thread) :
      Elsewhere machine c callers thread other

theorem Elsewhere.mem (elsewhere : Elsewhere machine c callers thread other)
    (top : machine.At c frame callers) : other ∈ machine.stack thread := by
  cases elsewhere with
  | below member =>
    rw [top]
    exact List.mem_cons_of_mem _ member
  | beside differs member => exact member

section Exclusion

variable (owned : Owned kernel discipline machine)

include owned

/-- The owner of a lock that some thread holds, unless that is the lock of a
switched-out process. -/
theorem Owned.owner_of_held (member : other ∈ machine.stack thread)
    (held : lock ∈ discipline.held thread.proc? other) :
    (∃ d, (machine.cpu d).thread = thread ∧ machine.owner lock = some d) ∨
      ∃ q, lock = kernel.procLock q ∧ (thread = .process q ∧ Owned.Parked machine q ∨
          ∃ d, thread = .scheduler d ∧ (machine.cpu d).thread = .process q) := by
  have inStack : lock ∈ discipline.stackHeld thread.proc?
      (machine.stack thread) := List.mem_flatMap.mpr ⟨other, member, held⟩
  by_cases current : ∃ d, (machine.cpu d).thread = thread
  · obtain ⟨d, isCurrent⟩ := current
    refine .inl ⟨d, isCurrent, (owned.owns d lock).mpr ?_⟩
    rw [heldOn, isCurrent]
    exact inStack
  · cases thread with
    | process q =>
      have parked : Owned.Parked machine q := fun d isCurrent => current ⟨d, isCurrent⟩
      rw [show (Thread.process q).proc? = some q from rfl, owned.parked q parked] at inStack
      exact .inr ⟨q, List.mem_singleton.mp inStack, .inl ⟨rfl, parked⟩⟩
    | scheduler d =>
      cases onCpu : (machine.cpu d).thread with
      | scheduler home =>
        rw [owned.home d home onCpu] at onCpu
        exact absurd ⟨d, onCpu⟩ current
      | process q =>
        rw [show (Thread.scheduler d).proc? = none from rfl, owned.waiting d q onCpu] at inStack
        exact .inr ⟨q, List.mem_singleton.mp inStack, .inr ⟨d, rfl, onCpu⟩⟩

/-- No other frame holds a lock of the running one, unless a switched-out
process has left it to its scheduler. -/
theorem Owned.excludes (top : machine.At c frame callers)
    (held : lock ∈ discipline.held (machine.cpu c).thread.proc? frame)
    (elsewhere : Elsewhere machine c callers thread other)
    (again : lock ∈ discipline.held thread.proc? other) :
    ∃ q, lock = kernel.procLock q ∧ (thread = .process q ∧ Owned.Parked machine q ∨
        ∃ d, thread = .scheduler d ∧ (machine.cpu d).thread = .process q) := by
  rcases owned.owner_of_held (elsewhere.mem top) again with
    ⟨d, isCurrent, owner⟩ | switchedOut
  · have mine := (owned.owns c lock).mpr (mem_heldOn top held)
    rw [mine] at owner
    cases owner
    cases elsewhere with
    | beside differs member => exact absurd isCurrent.symm differs
    | below member =>
      have nodup := owned.nodup c
      rw [heldOn_top top] at nodup
      have below : lock ∈ discipline.stackHeld (machine.cpu c).thread.proc?
          callers := List.mem_flatMap.mpr ⟨other, member, again⟩
      exact absurd rfl ((List.nodup_append.mp nodup).2.2 lock held lock below)
  · exact switchedOut

end Exclusion

/-- The frames that an act puts on the stack of its thread. -/
def Act.fresh (kernel : Kernel Lock Frame Shared Update Input Reason)
    (callers : List Frame) : Act Lock Frame Update Reason → List Frame
  | .update _ after | .acquire _ after | .release _ after | .interrupts _ after
  | .setProc _ after => [after]
  | .call callee after => [callee, after]
  | .ret value => callers.head?.toList.map fun caller => kernel.resume caller value
  | .leave => []
  | .sched after | .swtch _ after | .spawn _ _ _ after => [after]
  | .panic _ => []

theorem Act.fresh_of_after {act : Act Lock Frame Update Reason}
    (isAfter : act.after? = some after) :
    act.fresh kernel callers = [after] := by
  cases act with
  | acquire lock after | release lock after | interrupts on after | setProc p after =>
    cases isAfter
    rfl
  | _ => cases isAfter

/-- A trap pushes one frame. -/
theorem Restacks.mem_push {first : Frame} {shared : Shared} (moved : Restacks machine next c
      (first :: machine.stack (machine.cpu c).thread) shared) (member : other ∈ next.stack thread) :
    thread = (machine.cpu c).thread ∧ other = first ∨ other ∈ machine.stack thread := by
  rw [moved.stacked] at member
  by_cases here : thread = (machine.cpu c).thread
  · subst here
    rw [Function.update_self] at member
    rcases List.mem_cons.mp member with rfl | below
    · exact .inl ⟨rfl, rfl⟩
    · exact .inr below
  · rw [Function.update_of_ne here] at member
    exact .inr member

/-- A lock operation only advances the top frame. -/
theorem Moves.advanced (moves : Moves kernel machine c callers next act)
    (isAfter : act.after? = some after) :
    next.shared = machine.shared ∧ next.stack (machine.cpu c).thread = after :: callers := by
  cases moves with
  | advance _ found isFound moved =>
    cases isFound.symm.trans isAfter
    exact ⟨moved.shared, by rw [moved.stacked, Function.update_self]⟩
  | _ => cases isAfter

/-- A return resumes the caller. -/
theorem Moves.returned (moves : Moves kernel machine c callers next (.ret value)) :
    ∃ caller rest, callers = caller :: rest ∧ next.shared = machine.shared ∧
      next.stack (machine.cpu c).thread = kernel.resume caller value :: rest := by
  cases moves with
  | advance _ after isAfter moved => cases isAfter
  | ret _ caller rest shape moved =>
    exact ⟨caller, rest, shape, moved.shared, by rw [moved.stacked, Function.update_self]⟩

section Kept

variable {thread : Thread} (moves : Moves kernel machine c callers next act)
  (notNew : ∀ p first change after, act = .spawn p first change after → thread ≠ .process p)

include moves notNew

/-- The other threads keep their stacks. -/
theorem Moves.beside (differs : thread ≠ (machine.cpu c).thread) :
    next.stack thread = machine.stack thread := by
  cases moves with
  | spawn p first change after shared stacked threads =>
    rw [stacked, Function.update_of_ne (notNew p first change after rfl),
      Function.update_of_ne differs]
  | update change after moved | advance _ after isAfter moved | call callee after moved
  | ret value caller rest shape moved | leave moved | sched p after running moved
  | swtch p after idle moved => rw [moved.stacked, Function.update_of_ne differs]

section

variable (current : thread = (machine.cpu c).thread)

include current

/-- What the stack of the thread becomes. -/
theorem Moves.here :
    next.stack thread = act.fresh kernel callers ++ callers ∨
      ∃ value caller rest, act = .ret value ∧ callers = caller :: rest ∧
        next.stack thread = kernel.resume caller value :: rest := by
  cases moves with
  | spawn p first change after shared stacked threads =>
    left
    rw [stacked, Function.update_of_ne (notNew p first change after rfl), current,
      Function.update_self]
    rfl
  | update change after moved | call callee after moved | leave moved
  | sched p after running moved | swtch p after idle moved =>
    left
    rw [moved.stacked, current, Function.update_self]
    rfl
  | advance _ after isAfter moved =>
    left
    rw [moved.stacked, current, Function.update_self, Act.fresh_of_after isAfter]
    rfl
  | ret value caller rest shape moved =>
    refine .inr ⟨value, caller, rest, rfl, shape, ?_⟩
    rw [moved.stacked, current, Function.update_self]

theorem Moves.fresh_mem (isFresh : other ∈ act.fresh kernel callers) :
    other ∈ next.stack thread := by
  rcases moves.here notNew current with
    pushed | ⟨value, caller, rest, rfl, rfl, resumed⟩
  · rw [pushed]
    exact List.mem_append_left _ isFresh
  · rw [resumed]
    obtain rfl := List.mem_singleton.mp isFresh
    exact List.mem_cons_self

/-- A caller stays on the stack until it is resumed. -/
theorem Moves.caller_mem (member : other ∈ callers) :
    other ∈ next.stack thread ∨
      ∃ value, act = .ret value ∧ kernel.resume other value ∈ next.stack thread := by
  rcases moves.here notNew current with
    pushed | ⟨value, caller, rest, rfl, rfl, resumed⟩
  · rw [pushed]
    exact .inl (List.mem_append_right _ member)
  · rw [resumed]
    rcases List.mem_cons.mp member with rfl | kept
    · exact .inr ⟨value, rfl, List.mem_cons_self⟩
    · exact .inl (List.mem_cons_of_mem _ kept)

end

end Kept

theorem Moves.spawned (moves : Moves kernel machine c callers next (.spawn p first change after)) :
    next.stack (.process p) = [first] := by
  cases moves with
  | spawn _ _ _ _ shared stacked threads => rw [stacked, Function.update_self]
  | advance _ after isAfter moved => cases isAfter

theorem Act.spawns_or (act : Act Lock Frame Update Reason) (thread : Thread) :
    (∃ p first change after, act = .spawn p first change after ∧ thread = .process p) ∨
      ∀ p first change after, act = .spawn p first change after → thread ≠ .process p := by
  by_cases isNew : ∃ p first change after, act = .spawn p first change after ∧ thread = .process p
  · exact .inl isNew
  · right
    intro p first change after spawned same
    exact isNew ⟨p, first, change, after, spawned, same⟩

/-- Where a frame comes from. -/
theorem Moves.mem_stack (moves : Moves kernel machine c callers next act)
    (member : other ∈ next.stack thread) :
    thread = (machine.cpu c).thread ∧ other ∈ act.fresh kernel callers ∨
      Elsewhere machine c callers thread other ∨
      ∃ p change after, act = .spawn p other change after ∧ thread = .process p := by
  rcases act.spawns_or thread with ⟨p, first, change, after, rfl, rfl⟩ | notNew
  · rw [moves.spawned] at member
    obtain rfl := List.mem_singleton.mp member
    exact .inr (.inr ⟨p, change, after, rfl, rfl⟩)
  · by_cases current : thread = (machine.cpu c).thread
    · rcases moves.here notNew current with
        pushed | ⟨value, caller, rest, rfl, rfl, resumed⟩
      · rw [pushed] at member
        rcases List.mem_append.mp member with isFresh | kept
        · exact .inl ⟨current, isFresh⟩
        · rw [current]
          exact .inr (.inl (.below kept))
      · rw [resumed] at member
        rcases List.mem_cons.mp member with rfl | kept
        · exact .inl ⟨current, List.mem_cons_self⟩
        · rw [current]
          exact .inr (.inl (.below (List.mem_cons_of_mem _ kept)))
    · rw [moves.beside notNew current] at member
      exact .inr (.inl (.beside current member))

/-- Only a call puts a frame below another one. -/
theorem Moves.mem_tail (moves : Moves kernel machine c callers next act)
    (top : machine.At c frame callers) (member : other ∈ (next.stack thread).tail) :
    other ∈ (machine.stack thread).tail ∨
      thread = (machine.cpu c).thread ∧ ∃ callee, act = .call callee other := by
  rcases act.spawns_or thread with ⟨p, first, change, after, rfl, rfl⟩ | notNew
  · rw [moves.spawned] at member
    cases member
  · by_cases current : thread = (machine.cpu c).thread
    · rcases moves.here notNew current with
        pushed | ⟨value, caller, rest, rfl, rfl, resumed⟩
      · rw [pushed] at member
        rw [current, top]
        cases act with
        | call callee after =>
          rcases List.mem_cons.mp member with rfl | kept
          · exact .inr ⟨rfl, callee, rfl⟩
          · exact .inl kept
        | ret value =>
          cases moves with
          | advance _ after isAfter moved => cases isAfter
          | ret _ caller rest shape moved =>
            subst shape
            exact .inl member
        | leave | panic reason => exact .inl (List.mem_of_mem_tail member)
        | _ => exact .inl member
      · rw [resumed] at member
        rw [current, top]
        exact .inl (List.mem_cons_of_mem _ member)
    · rw [moves.beside notNew current] at member
      exact .inl member

/-- The other CPUs keep their threads. -/
theorem Moves.thread_of_ne (moves : Moves kernel machine c callers next act) (differs : d ≠ c) :
    (next.cpu d).thread = (machine.cpu d).thread := by
  cases moves with
  | update change after moved | advance _ after isAfter moved | call callee after moved
  | ret value caller rest shape moved | leave moved => exact moved.threads d
  | spawn q first change after shared stacked threads => exact threads d
  | sched q after running moved | swtch q after idle moved => exact moved.elsewhere d differs

/-- A process without a CPU gets one only from a scheduler that switches to it. -/
theorem Moves.parked (moves : Moves kernel machine c callers next act)
    (parked : Owned.Parked machine p) (other : ∀ after, act ≠ .swtch p after) :
    Owned.Parked next p := by
  intro d running
  by_cases here : d = c
  · subst here
    cases moves with
    | update change after moved | advance _ after isAfter moved | call callee after moved
    | ret value caller rest shape moved | leave moved =>
      exact parked d ((moved.threads d).symm.trans running)
    | spawn q first change after shared stacked threads =>
      exact parked d ((threads d).symm.trans running)
    | sched q after wasRunning moved =>
      rw [moved.here] at running
      cases running
    | swtch q after idle moved =>
      rw [moved.here] at running
      cases running
      exact other after rfl
  · exact parked d ((moves.thread_of_ne here).symm.trans running)

/-- Every frame on every stack satisfies its assertion. -/
def Annotated (holds : Option Nat → Shared → Frame → Prop)
    (machine : Machine Lock Frame Shared Reason) : Prop :=
  ∀ thread, ∀ frame ∈ machine.stack thread, holds thread.proc? machine.shared frame

/-- The assertions of new frames are local, and those of all others must be
stable under the change of the shared state. -/
theorem Moves.annotated (moves : Moves kernel machine c callers next act)
    (fresh : ∀ frame ∈ act.fresh kernel callers,
      holds (machine.cpu c).thread.proc? next.shared frame)
    (first : ∀ p first change after, act = .spawn p first change after →
      holds (some p) next.shared first)
    (others : ∀ thread other, Elsewhere machine c callers thread other →
      holds thread.proc? next.shared other) : Annotated holds next := by
  intro thread frame member
  rcases moves.mem_stack member with
    ⟨here, isFresh⟩ | elsewhere | ⟨p, change, after, spawned, isNew⟩
  · rw [here]
    exact fresh frame isFresh
  · exact others thread frame elsewhere
  · rw [isNew]
    exact first p frame change after spawned

end Xv6KernelEvent.SpinThreads
