import Xv6KernelEvent.Process.Exclusion

/-!
# The process table against the threads

A process is on the CPU whose thread runs on its stack, and its state and its
channel are those of the frame on top.
-/

namespace Xv6KernelEvent.Process

open SpinThreads

variable {callers : List Frame}

section

variable (placed : Placed machine)

include placed

/-- A new stack for the thread on CPU `c`. -/
theorem Placed.of_restack (moved : Restacks machine next c stack shared)
    (own : ∀ p, (machine.cpu c).thread = .process p →
      (shared.proc p).state = (topMode stack).state ∧ (shared.proc p).chan = (topMode stack).chan)
    (others : ∀ q, (machine.cpu c).thread ≠ .process q → Undisturbed machine shared q) :
    Placed next := by
  have here : next.stack (machine.cpu c).thread = stack := by
    rw [moved.stacked, Function.update_self]
  have elsewhere (q : Nat) (differs : (machine.cpu c).thread ≠ .process q) :
      next.stack (.process q) = machine.stack (.process q) := by
    rw [moved.stacked, Function.update_of_ne differs.symm]
  refine ⟨?_, ?_, ?_⟩
  · intro d p running
    rw [moved.threads d] at running
    rw [moved.shared]
    by_cases current : (machine.cpu c).thread = .process p
    · rw [← current, here]
      exact (own p current).1
    · rw [elsewhere p current, (others p current).running d running]
      exact placed.running d p running
  · intro p
    rw [moved.shared]
    by_cases current : (machine.cpu c).thread = .process p
    · rw [← current, here]
      exact (own p current).2
    · rw [elsewhere p current, (others p current).chan]
      exact placed.chans p
  · intro p parked
    have wasParked : Owned.Parked machine p := by
      intro d running
      exact parked d ((moved.threads d).trans running)
    obtain ⟨first, rest, shape, rests⟩ := placed.resting p wasParked
    rw [moved.shared, elsewhere p (wasParked c)]
    exact ⟨first, rest, shape, (others p (wasParked c)).resting first wasParked rests⟩

/-- A new stack on which the mode looks the same from outside. -/
theorem Placed.of_quiet (moved : Restacks machine next c stack machine.shared)
    (state : (topMode stack).state = (topMode (machine.stack (machine.cpu c).thread)).state)
    (chan : (topMode stack).chan = (topMode (machine.stack (machine.cpu c).thread)).chan) :
    Placed next := by
  refine placed.of_restack moved ?_ fun q _ => .refl q
  intro p current
  rw [state, chan, current]
  exact ⟨placed.running c p current, placed.chans p⟩

theorem Placed.of_sched (owned : Owned kernel discipline machine) (top : machine.At c frame callers)
    (running : (machine.cpu c).thread = .process p)
    (flows : Flows (machine.cpu c).thread.proc? machine.shared frame (.sched after))
    (moved : Switches machine next c (after :: callers) machine.shared (.scheduler c)) :
    Placed next := by
  have state : (machine.shared.proc p).state = frame.mode.state := by
    rw [placed.running c p running, ← running, top]
    rfl
  have chan : (machine.shared.proc p).chan = frame.mode.chan := by
    rw [placed.chans p, ← running, top]
    rfl
  have rests : after.mode.chan = frame.mode.chan ∧ after.Rests frame.mode.state := by
    obtain ⟨_, _, _, ⟨target, lk, rfl, rfl⟩ | ⟨rfl, rfl⟩ | ⟨status, rfl, rfl⟩⟩ := flows
    · exact ⟨rfl, .asleep target lk⟩
    · exact ⟨rfl, .yielded⟩
    · exact ⟨rfl, .dead status⟩
  have here : next.stack (.process p) = after :: callers := by
    rw [moved.stacked, running, Function.update_self]
  have elsewhere (q : Nat) (differs : q ≠ p) :
      next.stack (.process q) = machine.stack (.process q) := by
    rw [moved.stacked, running, Function.update_of_ne (by simpa using differs)]
  refine ⟨?_, ?_, ?_⟩
  · intro d q onCpu
    rw [moved.shared]
    by_cases isHere : d = c
    · rw [isHere, moved.here] at onCpu
      cases onCpu
    · rw [moved.elsewhere d isHere] at onCpu
      have differs : q ≠ p := by
        rintro rfl
        exact isHere (owned.apart c d q running onCpu)
      rw [elsewhere q differs]
      exact placed.running d q onCpu
  · intro q
    rw [moved.shared]
    by_cases same : q = p
    · rw [same, here, chan]
      exact rests.1.symm
    · rw [elsewhere q same]
      exact placed.chans q
  · intro q parked
    rw [moved.shared]
    by_cases same : q = p
    · rw [same, here, state]
      exact ⟨after, callers, rfl, rests.2⟩
    · rw [elsewhere q same]
      apply placed.resting q
      intro d onCpu
      by_cases isHere : d = c
      · rw [isHere, running] at onCpu
        exact same (Thread.process.inj onCpu).symm
      · exact parked d ((moved.elsewhere d isHere).trans onCpu)

theorem Placed.of_swtch (idle : (machine.cpu c).thread = .scheduler c)
    (parked : Owned.Parked machine p) (picked : (machine.shared.proc p).state = .running)
    (moved : Switches machine next c (after :: callers) machine.shared (.process p)) :
    Placed next := by
  have stacked (q : Nat) : next.stack (.process q) = machine.stack (.process q) := by
    rw [moved.stacked, idle, Function.update_of_ne (by simp)]
  refine ⟨?_, ?_, ?_⟩
  · intro d q onCpu
    rw [moved.shared, stacked q]
    by_cases isHere : d = c
    · rw [isHere, moved.here] at onCpu
      cases onCpu
      obtain ⟨first, rest, shape, rests⟩ := placed.resting p parked
      rw [picked] at rests ⊢
      rw [shape]
      cases rests <;> rfl
    · rw [moved.elsewhere d isHere] at onCpu
      exact placed.running d q onCpu
  · intro q
    rw [moved.shared, stacked q]
    exact placed.chans q
  · intro q nowParked
    rw [moved.shared, stacked q]
    apply placed.resting q
    intro d onCpu
    by_cases isHere : d = c
    · rw [isHere, idle] at onCpu
      cases onCpu
    · exact nowParked d ((moved.elsewhere d isHere).trans onCpu)

theorem Placed.of_spawn (calm : frame.mode = .calm) (afterCalm : after.mode = .calm)
    (top : machine.At c frame callers) (parked : Owned.Parked machine np)
    (isUnused : (machine.shared.proc np).state = .unused)
    (shared : next.shared = (Update.allocproc np pid).apply machine.shared)
    (stacked : next.stack = Function.update (Function.update machine.stack (machine.cpu c).thread
          (after :: callers)) (.process np) [.forkret .release])
    (threads : SameThreads machine next) : Placed next := by
  have new : next.stack (.process np) = [.forkret .release] := by rw [stacked, Function.update_self]
  have allocated : next.shared.proc np =
      { machine.shared.proc np with birth := pid, state := .used } := by
    rw [shared]
    exact Function.update_self _ _ _
  have others (q : Nat) (differs : q ≠ np) : next.shared.proc q = machine.shared.proc q := by
    rw [shared]
    exact Function.update_of_ne differs _ _
  have modes (q : Nat) (differs : q ≠ np) : topMode (next.stack (.process q)) =
        topMode (machine.stack (.process q)) := by
    rw [stacked, Function.update_of_ne (by simpa using differs)]
    by_cases current : (machine.cpu c).thread = .process q
    · rw [← current, Function.update_self, top]
      exact afterCalm.trans calm.symm
    · rw [Function.update_of_ne (Ne.symm current)]
  refine ⟨?_, ?_, ?_⟩
  · intro d q onCpu
    rw [threads d] at onCpu
    have differs : q ≠ np := by
      rintro rfl
      exact parked d onCpu
    rw [others q differs, modes q differs]
    exact placed.running d q onCpu
  · intro q
    by_cases same : q = np
    · rw [same, new, allocated]
      obtain ⟨first, rest, shape, rests⟩ := placed.resting np parked
      rw [isUnused] at rests
      refine (placed.chans np).trans ?_
      rw [shape]
      cases rests <;> rfl
    · rw [others q same, modes q same]
      exact placed.chans q
  · intro q nowParked
    by_cases same : q = np
    · rw [same, new, allocated]
      exact ⟨_, [], rfl, .new⟩
    · have wasParked : Owned.Parked machine q :=
        fun d onCpu => nowParked d ((threads d).trans onCpu)
      rw [others q same, stacked, Function.update_of_ne (by simpa using same),
        Function.update_of_ne (wasParked c).symm]
      exact placed.resting q wasParked

end

theorem resume_mode (frame : Frame) (value : Int) : (resume frame value).mode = frame.mode := by
  unfold resume
  split <;> rfl

theorem resume_claim (frame : Frame) (value : Int) :
    (resume frame value).claim? = frame.claim? := by
  unfold resume
  split
  all_goals first
    | rfl
    | split <;> rfl

/-- A thread that holds no lock has settled. -/
theorem settled_of_unlocked (owned : Owned kernel discipline machine)
    (unlocked : heldOn discipline machine c = []) (top : machine.At c frame callers) :
    frame.mode.Settled (machine.cpu c).thread.proc? := by
  have none : frame.held (machine.cpu c).thread.proc? ++
      callers.flatMap (Frame.held (machine.cpu c).thread.proc?) = [] := by
    rw [heldOn_top top] at unlocked
    exact unlocked
  obtain ⟨held, below⟩ := List.append_eq_nil_iff.mp none
  have idle : ¬ frame.mode.Acts := by
    intro acts
    cases frame with
    | wakeup pc target =>
      have fits : Fits _ _ _ := (owned.nested_top top).1
      have member := fits.room.1
      rw [below] at member
      cases member
    | sleep pc target lk | yield pc | kexit pc status => cases pc <;> cases acts
    | scheduler pc => cases pc <;> first | cases acts; done | cases held
    | _ => cases acts
  cases thread : (machine.cpu c).thread with
  | scheduler home => exact .inr (.inr ⟨rfl, idle⟩)
  | process p =>
    rw [thread] at held
    have quiet : frame.mode.Quiet := by
      rcases frame.quiet_or_held p with quiet | own
      · exact quiet
      · rw [show frame.held (some p) = [] from held] at own
        cases own
    cases mode : frame.mode with
    | calm => exact .inl rfl
    | hushed => exact .inr (.inl rfl)
    | waking chan i | picking q =>
      rw [mode] at idle
      exact absurd trivial idle
    | _ =>
      rw [mode] at quiet
      cases quiet

theorem Mode.Settled.of_process {mode : Mode} (settled : mode.Settled (some p)) :
    mode.state = .running ∧ mode.chan = none := by
  rcases settled with rfl | rfl | ⟨isNone, _⟩
  · exact ⟨rfl, rfl⟩
  · exact ⟨rfl, rfl⟩
  · cases isNone

theorem Mode.Settled.not_acts {mode : Mode} (settled : mode.Settled me) : ¬ mode.Acts := by
  rcases settled with rfl | rfl | ⟨_, idle⟩
  · exact id
  · exact id
  · exact idle

theorem Calls.modes (calls : Calls me shared callee after) :
    callee.mode.Quiet ∧ (after.mode = .calm ∨ after.mode = .hushed) := by
  cases calls with
  | calm calleeCalm nextCalm =>
    rw [calleeCalm]
    exact ⟨trivial, .inl nextCalm⟩
  | wakeup nextCalm => exact ⟨trivial, .inl nextCalm⟩
  | wakeParent running isParent => exact ⟨trivial, .inr rfl⟩

section Step

variable (owned : Owned kernel discipline machine) (slots : Slots machine)

include owned slots

/-- A scheduler picks, and `allocproc` takes, only a process without a CPU. -/
theorem Slots.target_parked (top : machine.At c frame callers)
    (flows : Flows (machine.cpu c).thread.proc? machine.shared frame act)
    (target : act.target? = some p) : Owned.Parked machine p := by
  intro d running
  have member : frame ∈ machine.stack (machine.cpu c).thread := top ▸ List.mem_cons_self
  cases act with
  | swtch q after =>
    obtain rfl := Option.some.inj target
    obtain ⟨isNone, rfl, _⟩ := flows
    have picked := slots.picked c q (by rw [← owned.idle isNone, top]; rfl)
    exact picked.2.2 d running
  | spawn np first change after =>
    obtain rfl := Option.some.inj target
    obtain ⟨_, pid, rfl, _, _⟩ := flows
    have isUnused := slots.claims _ _ member np .unused rfl
    have state := slots.running d np running
    rw [isUnused] at state
    exact (Mode.state_ne _).1 state.symm
  | _ => cases target

theorem Slots.placed_act {act : Act Lock Frame Update Reason} (top : machine.At c frame callers)
    (flows : Flows (machine.cpu c).thread.proc? machine.shared frame act)
    (moves : Moves kernel machine c callers next act) : Placed next := by
  have placed := slots.toPlaced
  have parked (p : Nat) (target : act.target? = some p) :=
    slots.target_parked owned top flows target
  have member : frame ∈ machine.stack (machine.cpu c).thread := top ▸ List.mem_cons_self
  cases moves with
  | update change after moved =>
    refine placed.of_restack moved ?_ ?_
    · intro p current
      have state := slots.running c p current
      have chan := slots.chans p
      rw [← current, top] at state chan
      exact Makes.own flows (by rw [current]; rfl) (slots.claims _ frame member) state chan
    · intro q differs
      exact slots.undisturbed owned top flows differs
  | advance _ after isAfter moved =>
    have same : after.mode.state = frame.mode.state ∧ after.mode.chan = frame.mode.chan := by
      rcases flows.advance isAfter with tame | ⟨chan, lock, rfl, rfl⟩
      · rw [tame.mode]
        exact ⟨rfl, rfl⟩
      · exact ⟨rfl, rfl⟩
    refine placed.of_quiet moved ?_ ?_
    · rw [top]
      exact same.1
    · rw [top]
      exact same.2
  | call callee after moved =>
    obtain ⟨calm, calls, _⟩ := flows
    refine placed.of_quiet moved ?_ ?_
    · rw [top]
      exact calls.modes.1.state.trans (by rw [topMode, calm]; rfl)
    · rw [top]
      exact calls.modes.1.chan.trans (by rw [topMode, calm]; rfl)
  | ret value caller rest shape moved =>
    subst shape
    refine placed.of_restack moved ?_ fun q _ => .refl q
    intro p current
    have settled : caller.mode.Settled (some p) := by
      have isCaller : caller ∈ (machine.stack (machine.cpu c).thread).tail := by
        rw [top]
        exact List.mem_cons_self
      have settled := slots.callers _ caller isCaller
      rw [current] at settled
      exact settled
    have state := slots.running c p current
    have chan := slots.chans p
    rw [← current, top] at state chan
    have modes : frame.mode.state = .running ∧ frame.mode.chan = none := by
      obtain ⟨calm | ⟨target, i, rfl, _⟩, _⟩ := flows
      · rw [calm]
        exact ⟨rfl, rfl⟩
      · exact ⟨rfl, rfl⟩
    change _ = (resume caller value).mode.state ∧
      _ = (resume caller value).mode.chan
    rw [resume_mode, settled.of_process.1, settled.of_process.2, state, chan]
    exact modes
  | leave moved =>
    refine placed.of_restack moved ?_ fun q _ => .refl q
    intro p current
    have state := slots.running c p current
    have chan := slots.chans p
    rw [← current, top] at state chan
    have modes : (topMode callers).state = .running ∧ (topMode callers).chan = none := by
      cases callers with
      | nil => exact ⟨rfl, rfl⟩
      | cons caller rest =>
        have isCaller : caller ∈ (machine.stack (machine.cpu c).thread).tail := by
          rw [top]
          exact List.mem_cons_self
        have settled := slots.callers _ caller isCaller
        rw [current] at settled
        exact Mode.Settled.of_process settled
    rw [modes.1, modes.2, state, chan]
    change frame.mode.state = _ ∧ frame.mode.chan = _
    rw [flows.1]
    exact ⟨rfl, rfl⟩
  | sched p after running moved => exact placed.of_sched owned top running flows moved
  | swtch p after idle moved =>
    obtain ⟨_, rfl, _⟩ := flows
    have picked := slots.picked c p (by rw [← idle, top]; rfl)
    exact placed.of_swtch idle picked.2.2 picked.2.1 moved
  | spawn np first change after shared stacked threads =>
    obtain ⟨rfl, pid, rfl, rfl, rfl⟩ := flows
    exact placed.of_spawn rfl rfl top (parked np rfl)
      (slots.claims _ _ member np .unused rfl) shared stacked threads

section

variable (transition : Transition machine c input next)

include transition

theorem Slots.placed_step : Placed next := by
  cases transition with
  | enter first unlocked quiet moved =>
    refine slots.toPlaced.of_restack moved ?_ fun q _ => .refl q
    intro p current
    have state := slots.running c p current
    have chan := slots.chans p
    rw [← current] at state chan
    have modes : (topMode (machine.stack (machine.cpu c).thread)).state = .running ∧
        (topMode (machine.stack (machine.cpu c).thread)).chan = none := by
      cases top : machine.stack (machine.cpu c).thread with
      | nil => exact ⟨rfl, rfl⟩
      | cons frame callers =>
        have settled := settled_of_unlocked owned unlocked top
        rw [current] at settled
        exact Mode.Settled.of_process settled
    rw [state, chan, modes.1, modes.2]
    change _ = first.mode.state ∧ _ = first.mode.chan
    rw [quiet.calm]
    exact ⟨rfl, rfl⟩
  | act frame callers act top coded follows flows moves =>
    exact slots.placed_act owned top flows moves
  | halt reason => exact ⟨slots.running, slots.chans, slots.resting⟩

theorem Slots.bounded_step (p : Nat)
    (outside : NPROC ≤ p) : (next.shared.proc p).state = .unused := by
  have isUnused := slots.bounded p outside
  refine transition.assigned isUnused fun frame callers change after top assigns => ?_
  rcases slots.kept top assigns (.inl isUnused) with same | rfl | ⟨pid, rfl⟩
  · exact same.trans isUnused
  · rw [Update.apply_target rfl]
    rfl
  · cases assigns with
    | makes makes => cases makes
    | allocproc =>
      have fits : Fits _ _ _ := (owned.nested_top top).1
      exact absurd (fits.room.2 p rfl) (Nat.not_lt.mpr outside)

theorem Slots.callers_step (thread : Thread) :
    ∀ frame ∈ (next.stack thread).tail, frame.mode.Settled thread.proc? := by
  intro other member
  cases transition with
  | enter first unlocked quiet moved =>
    rw [moved.stacked] at member
    by_cases here : thread = (machine.cpu c).thread
    · rw [here, Function.update_self] at member
      rw [here]
      cases top : machine.stack (machine.cpu c).thread with
      | nil =>
        rw [top] at member
        cases member
      | cons frame callers =>
        rw [top] at member
        rcases List.mem_cons.mp member with rfl | below
        · exact settled_of_unlocked owned unlocked top
        · apply slots.callers _ other
          rw [top]
          exact below
    · rw [Function.update_of_ne here] at member
      exact slots.callers thread other member
  | halt reason => exact slots.callers thread other member
  | act frame callers act top coded follows flows moves =>
    rcases moves.mem_tail top member with kept | ⟨here, callee, rfl⟩
    · exact slots.callers thread other kept
    · obtain ⟨_, calls, _⟩ := flows
      rcases calls.modes.2 with calm | hushed
      · exact .inl calm
      · exact .inr (.inl hushed)

omit owned transition in
/-- A process that a scheduler has picked stays `RUNNING`. -/
theorem Slots.running_kept (top : machine.At c frame callers)
    (assigns : Assigns (machine.cpu c).thread.proc? machine.shared frame change after)
    (running : (machine.shared.proc p).state = .running) (parked : Owned.Parked machine p) :
    ((change.apply machine.shared).proc p).state = .running := by
  have claims {claim : ProcState} (claimed : frame.claim? = some (p, claim)) :
      ProcState.running = claim :=
    running.symm.trans (slots.claims _ frame (top ▸ List.mem_cons_self) p claim claimed)
  cases assigns with
  | @allocproc np pid =>
    rw [Update.apply_of_ne, running]
    intro same
    cases same
    cases claims rfl
  | makes makes =>
    have changed := makes.state p
    rw [running] at changed
    generalize ((change.apply machine.shared).proc p).state = new at changed ⊢
    cases changed with
    | same => rfl
    | own isMe before => exact absurd (Thread.eq_process isMe) (parked c)
    | publish claimed held unclaimed => cases claims claimed
    | free claimed notUnused held unclaimed =>
      obtain rfl := claims claimed
      simpa using Frame.claim_state claimed

omit transition in
/-- A scheduler finds only a process without a CPU `RUNNABLE`. -/
theorem Slots.runnable_parked (top : machine.At c (.scheduler (.check p)) callers)
    (runnable : (machine.shared.proc p).state = .runnable) : Owned.Parked machine p := by
  intro d running
  have differs : (machine.cpu c).thread ≠ .process p := by
    intro current
    have state := slots.running c p current
    rw [← current, top, runnable] at state
    cases state
  have quiet := running_quiet owned top List.mem_cons_self running differs
  have state := slots.running d p running
  rw [quiet.state, runnable] at state
  cases state

omit owned slots transition in
theorem Frame.eq_picking {frame : Frame} (picking : frame.mode = .picking p) :
    frame = .scheduler (.assign p) ∨ frame = .scheduler (.switch p) := by
  cases frame with
  | scheduler pc =>
    cases pc with
    | assign q =>
      cases picking
      exact .inl rfl
    | switch q =>
      cases picking
      exact .inr rfl
    | _ => cases picking
  | sleep pc chan lk | yield pc | kexit pc status => cases pc <;> cases picking
  | _ => cases picking

omit slots transition in
theorem owner_of_picking (picking : topMode (machine.stack (.scheduler d)) = .picking p)
    (idle : (machine.cpu d).thread = .scheduler d) : machine.owner (.proc p) = some d := by
  rw [owned.owns d, heldOn, idle]
  cases stack : machine.stack (.scheduler d) with
  | nil =>
    rw [stack] at picking
    cases picking
  | cons frame callers =>
    rw [stack] at picking
    rcases Frame.eq_picking picking with rfl | rfl <;> exact List.mem_cons_self

theorem Slots.picked_step (d p : Nat) (picking : topMode (next.stack (.scheduler d)) = .picking p) :
    (next.cpu d).thread = .scheduler d ∧ (next.shared.proc p).state = .running ∧
      Owned.Parked next p := by
  have effect := transition.effect
  cases transition with
  | halt reason => exact slots.picked d p picking
  | enter first unlocked quiet moved =>
    by_cases current : .scheduler d = (machine.cpu c).thread
    · rw [current, moved.stacked, Function.update_self, topMode, quiet.calm] at picking
      cases picking
    · rw [moved.stacked, Function.update_of_ne current] at picking
      obtain ⟨idle, running, parked⟩ := slots.picked d p picking
      rw [moved.shared]
      exact ⟨(moved.threads d).trans idle, running,
        fun e onCpu => parked e ((moved.threads e).symm.trans onCpu)⟩
  | act frame callers act top coded follows flows moves =>
    have kept (running : (machine.shared.proc p).state = .running)
        (parked : Owned.Parked machine p) : (next.shared.proc p).state = .running := by
      rcases effect with same | ⟨_, _, change, after, sameTop, assigns, shared⟩
      · rw [same]
        exact running
      · cases top.symm.trans sameTop
        rw [shared]
        exact slots.running_kept top assigns running parked
    by_cases current : .scheduler d = (machine.cpu c).thread
    · obtain rfl := owned.home c d current.symm
      have still (mode : frame.mode = .picking p) (threads : SameThreads machine next) :
          (next.cpu d).thread = .scheduler d ∧ (next.shared.proc p).state = .running ∧
            Owned.Parked next p := by
        obtain ⟨idle, running, parked⟩ := slots.picked d p (by rw [current, top]; exact mode)
        exact ⟨(threads d).trans idle, kept running parked,
          fun e onCpu => parked e ((threads e).symm.trans onCpu)⟩
      have below (caller : Frame) (member : caller ∈ callers) : caller.mode ≠ .picking p := by
        have settled := slots.callers (machine.cpu d).thread caller (by rw [top]; exact member)
        intro isPicking
        exact settled.not_acts (isPicking ▸ trivial)
      cases moves with
      | update change after moved =>
        rw [current, moved.stacked, Function.update_self] at picking
        replace picking : after.mode = .picking p := picking
        cases flows with
        | skip tame | setPipe tame _ | setCons tame _ =>
          exact still (tame.mode.symm.trans picking) moved.threads
        | dispatch runnable =>
          cases picking
          have parked := slots.runnable_parked owned top runnable
          refine ⟨(moved.threads d).trans current.symm, ?_,
            fun e onCpu => parked e ((moved.threads e).symm.trans onCpu)⟩
          rw [moved.shared]
          change (((Update.dispatch _).apply machine.shared).proc _).state = _
          rw [Update.apply_target rfl]
          rfl
        | _ => cases picking
      | advance _ after isAfter moved =>
        rw [current, moved.stacked, Function.update_self] at picking
        rcases flows.advance isAfter with tame | ⟨chan, lock, rfl, rfl⟩
        · exact still (tame.mode.symm.trans picking) moved.threads
        · cases picking
      | call callee after moved =>
        rw [current, moved.stacked, Function.update_self] at picking
        obtain ⟨_, calls, _⟩ := flows
        cases calls with
        | calm calm _ =>
          rw [topMode, calm] at picking
          cases picking
        | _ => cases picking
      | ret value caller rest shape moved =>
        subst shape
        rw [current, moved.stacked, Function.update_self] at picking
        exact absurd ((resume_mode caller value).symm.trans picking)
          (below caller List.mem_cons_self)
      | leave moved =>
        rw [current, moved.stacked, Function.update_self] at picking
        cases callers with
        | nil => cases picking
        | cons caller rest => exact absurd picking (below caller List.mem_cons_self)
      | sched q after running moved =>
        rw [← current] at running
        cases running
      | swtch q after idle moved =>
        obtain ⟨_, _, rfl⟩ := flows
        rw [current, moved.stacked, Function.update_self] at picking
        cases picking
      | spawn np first change after shared stacked threads =>
        obtain ⟨_, pid, _, _, rfl⟩ := flows
        rw [stacked, Function.update_of_ne (by simp), current, Function.update_self] at picking
        cases picking
    · rw [moves.beside (by simp) current] at picking
      obtain ⟨idle, running, parked⟩ := slots.picked d p picking
      have differs : d ≠ c := by
        rintro rfl
        exact current idle.symm
      refine ⟨(moves.thread_of_ne differs).trans idle, kept running parked,
        moves.parked parked ?_⟩
      rintro after rfl
      obtain ⟨isNone, rfl, _⟩ := flows
      have here := owned.idle isNone
      have mine := owner_of_picking owned (d := c) (by rw [← here, top]; rfl) here
      rw [owner_of_picking owned picking idle] at mine
      exact differs (Option.some.inj mine)

end

end Step

end Xv6KernelEvent.Process
