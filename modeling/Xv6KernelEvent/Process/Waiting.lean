import Xv6KernelEvent.Process.Assertions

/-!
# Nobody sleeps for ever on a condition that has come true

A process that waits on a channel has released the condition lock in `sleep`.
While it waits, what it waits for has not happened, or somebody is about to
wake it up: `wakeup` goes through the table with the condition lock held, so no
process begins to wait behind its back.
-/

namespace Xv6KernelEvent.Process

open SpinThreads

variable {machine next : State} {chan : Chan} {frame after : Frame} {change : Update}

theorem Mode.Settled.not_waits {mode : Mode} {state : ProcState} (settled : mode.Settled (some p)) :
    ¬ mode.Waits state chan := by
  rcases settled with rfl | rfl | ⟨isNone, _⟩
  case inr.inr => cases isNone
  all_goals
    rintro (marking | ⟨onChan, _⟩)
    · cases marking
    · cases onChan

theorem Mode.Quiet.not_waits {mode : Mode} {state : ProcState} (quiet : mode.Quiet) :
    ¬ mode.Waits state chan := by
  rintro (rfl | ⟨onChan, _⟩)
  · exact quiet
  · rw [quiet.chan] at onChan
    cases onChan

/-- Only the process itself goes to sleep. -/
theorem Update.apply_sleeping (sleeping : ((change.apply shared).proc q).state = .sleeping) :
    (shared.proc q).state = .sleeping ∨ ∃ chan, change = .goToSleep q chan := by
  rcases Update.apply_state change shared q with same | sets
  · exact .inl (same.symm.trans sleeping)
  · rw [sleeping] at sets
    cases sets with
    | goToSleep chan => exact .inr ⟨chan, rfl⟩

/-- The waiters after an assignment waited before. -/
theorem Makes.waits (makes : Makes (some p) machine.shared frame change after)
    (waits : after.mode.Waits ((change.apply machine.shared).proc p).state chan) :
    frame.mode.Waits (machine.shared.proc p).state chan := by
  cases makes with
  | skip tame | setPipe tame _ | setCons tame _ =>
    rw [← tame.mode]
    exact waits
  | goToSleep running =>
    rcases waits with marking | ⟨onChan, _⟩
    · cases marking
    · cases onChan
      exact .inl rfl
  | _ =>
    rcases waits with marking | ⟨onChan, _⟩
    · cases marking
    · cases onChan

/-- What an act makes of the shared state and of the mode of its thread. -/
inductive Turns (machine : State) (c : Nat) (frame : Frame) (callers : List Frame) :
    Shared → Mode → Prop where
  | keeps : Turns machine c frame callers machine.shared frame.mode
  | marks (chan : Chan) (lk : Lock) (found : frame = .sleep .releaseCond chan lk) :
      Turns machine c frame callers machine.shared (.marking chan)
  | makes {change : Update} {after : Frame}
      (makes : Makes (machine.cpu c).thread.proc? machine.shared frame change after) :
      Turns machine c frame callers (change.apply machine.shared) after.mode
  | calls {callee after : Frame}
      (calls : Calls (machine.cpu c).thread.proc? machine.shared callee after)
      (calm : frame.mode = .calm) : Turns machine c frame callers machine.shared callee.mode
  | returns {caller : Frame} {rest : List Frame} (shape : callers = caller :: rest)
      (done : frame.mode = .calm ∨ ∃ chan i, frame = .wakeup (.next i) chan ∧ NPROC ≤ i) :
      Turns machine c frame callers machine.shared caller.mode
  | leaves (calm : frame.mode = .calm) :
      Turns machine c frame callers machine.shared (topMode callers)
  | sleeps (chan : Chan) (asleep : frame.mode = .asleep chan) :
      Turns machine c frame callers machine.shared (.woken chan)
  | rests (awake : ∀ chan i, frame.mode ≠ .waking chan i) :
      Turns machine c frame callers machine.shared .calm
  | assigns {change : Update} {after : Frame}
      (assigns : Assigns (machine.cpu c).thread.proc? machine.shared frame change after)
      (calm : frame.mode = .calm) :
      Turns machine c frame callers (change.apply machine.shared) .calm

theorem Sane.turns (sane : Sane machine) (top : machine.At c frame callers)
    (flows : Flows (machine.cpu c).thread.proc? machine.shared frame act)
    (moves : Moves kernel machine c callers next act) :
    Turns machine c frame callers next.shared (topMode (next.stack (machine.cpu c).thread)) := by
  have pushed {stack : List Frame} {after : Shared} (shared : next.shared = after)
      (stacked : next.stack = Function.update machine.stack (machine.cpu c).thread stack)
      (turns : Turns machine c frame callers after (topMode stack)) :
      Turns machine c frame callers next.shared
        (topMode (next.stack (machine.cpu c).thread)) := by
    rw [shared, stacked, Function.update_self]
    exact turns
  cases moves with
  | update change after moved => exact pushed moved.shared moved.stacked (.makes flows)
  | advance _ after isAfter moved =>
    refine pushed moved.shared moved.stacked ?_
    obtain tame | ⟨chan, lock, rfl, rfl⟩ := flows.advance isAfter
    · rw [topMode, tame.mode]
      exact .keeps
    · exact .marks chan lock rfl
  | call callee after moved => exact pushed moved.shared moved.stacked (.calls flows.2.1 flows.1)
  | ret value caller rest shape moved =>
    refine pushed moved.shared moved.stacked ?_
    rw [topMode, show (kernel.resume caller value).mode = _ from resume_mode caller value]
    exact .returns shape flows.1
  | leave moved => exact pushed moved.shared moved.stacked (.leaves flows.1)
  | sched p after running moved =>
    refine pushed moved.shared moved.stacked ?_
    obtain ⟨_, _, _, ⟨chan, lk, rfl, rfl⟩ | ⟨rfl, rfl⟩ | ⟨status, rfl, rfl⟩⟩ := flows
    · exact .sleeps chan rfl
    · exact .rests (by simp [Frame.mode])
    · exact .rests (by simp [Frame.mode])
  | swtch p after idle moved =>
    obtain ⟨_, rfl, rfl⟩ := flows
    exact pushed moved.shared moved.stacked (.rests (by simp [Frame.mode]))
  | spawn np first change after shared stacked threads =>
    have parked := sane.slots.target_parked sane.owned top flows rfl
    obtain ⟨rfl, pid, rfl, rfl, rfl⟩ := flows
    rw [shared, stacked, Function.update_of_ne (parked c), Function.update_self]
    exact .assigns .allocproc rfl

theorem Mode.calm_not_waits {mode : Mode} {state : ProcState}
    (calm : mode = .calm) : ¬ mode.Waits state chan := by
  rw [calm]
  exact Mode.Quiet.not_waits trivial

theorem Frame.eq_wakeup (waking : frame.mode = .waking chan i) :
    ∃ pc, frame = .wakeup pc chan ∧ pc.index = i := by
  cases frame with
  | wakeup pc other =>
    cases waking
    exact ⟨pc, rfl, rfl⟩
  | sleep pc other lk | yield pc | kexit pc status | scheduler pc => cases pc <;> cases waking
  | _ => cases waking

theorem Frame.hushed_held (hushed : frame.mode = .hushed) :
    .wait ∈ frame.held me ∧ frame.level = 6 := by
  cases frame with
  | kexit pc status =>
    cases pc with
    | lockSelf => exact ⟨List.mem_cons_self, rfl⟩
    | mark => exact ⟨List.mem_append_right _ List.mem_cons_self, rfl⟩
    | _ => cases hushed
  | sleep pc other lk | yield pc | scheduler pc => cases pc <;> cases hushed
  | _ => cases hushed

theorem Chan.lock_ne_proc (chan : Chan) (q : Nat) : chan.lock ≠ .proc q := by
  cases chan <;> simp [Chan.lock]

theorem topMode_of_top (top : stack = frame :: callers) : topMode stack = frame.mode := by
  rw [top]
  rfl

theorem stack_of_topMode (isMode : topMode stack = mode) (busy : mode ≠ .calm) :
    ∃ first rest, stack = first :: rest ∧ first.mode = mode := by
  cases stack with
  | nil => exact absurd isMode.symm busy
  | cons first rest => exact ⟨first, rest, rfl, isMode⟩

section Step

variable (sane : Sane machine)

include sane

theorem Sane.callers_settled (top : machine.stack (.process p) = frame :: callers)
    (member : caller ∈ callers) : caller.mode.Settled (some p) :=
  sane.slots.callers (.process p) caller (by rw [top]; exact member)

/-- Who waits has waited before, or has just released the condition lock. -/
theorem Waits.before (transition : Transition machine c input next) (waits : Waits next p chan) :
    Waits machine p chan ∨ next.shared = machine.shared ∧ (machine.cpu c).thread = .process p ∧
        ∃ callers, machine.stack (.process p) = .sleep .releaseCond chan chan.lock :: callers := by
  cases transition with
  | halt reason => exact .inl waits
  | enter first unlocked quiet moved =>
    unfold Waits at waits
    rw [moved.stacked, moved.shared] at waits
    by_cases current : .process p = (machine.cpu c).thread
    · rw [current, Function.update_self] at waits
      exact absurd waits (Mode.calm_not_waits quiet.calm)
    · rw [Function.update_of_ne current] at waits
      exact .inl waits
  | act frame callers act top coded follows flows moves =>
    by_cases current : (machine.cpu c).thread = .process p
    · have turns := sane.turns top flows moves
      have shape := top
      rw [Machine.At, current] at shape
      unfold Waits at waits ⊢
      rw [topMode_of_top shape]
      rw [← current] at waits
      generalize next.shared = shared, topMode (next.stack _) = mode at turns waits ⊢
      cases turns with
      | keeps => exact .inl waits
      | marks found lk isMark =>
        rcases waits with marking | ⟨onChan, _⟩
        · cases marking
          subst isMark
          have fits : Fits _ _ _ := (sane.owned.nested_top top).1
          obtain rfl := fits.room.2
          exact .inr ⟨rfl, current, callers, shape⟩
        · cases onChan
      | makes makes =>
        rw [current] at makes
        exact .inl (Makes.waits makes waits)
      | calls calls calm => exact absurd waits (Mode.Quiet.not_waits calls.modes.1)
      | returns isCaller done =>
        subst isCaller
        exact absurd waits (sane.callers_settled shape List.mem_cons_self).not_waits
      | leaves calm =>
        cases callers with
        | nil => exact absurd waits (Mode.calm_not_waits rfl)
        | cons caller rest =>
          exact absurd waits (sane.callers_settled shape List.mem_cons_self).not_waits
      | sleeps other asleep =>
        rw [asleep]
        rcases waits with marking | ⟨onChan, sleeping⟩
        · cases marking
        · exact .inl (.inr ⟨onChan, sleeping⟩)
      | rests awake | assigns assigns calm => exact absurd waits (Mode.calm_not_waits rfl)
    · rcases sane.beside top flows moves (Ne.symm current) with
        same | ⟨np, _, _, _, new⟩
      · left
        unfold Waits at waits ⊢
        rw [same] at waits
        rcases waits with marking | ⟨onChan, sleeping⟩
        · exact .inl marking
        · refine .inr ⟨onChan, ?_⟩
          have transition : Transition machine c input next :=
            .act frame callers act top coded follows flows moves
          rcases transition.effect with
            same | ⟨_, _, change, after, _, assigns, shared⟩
          · rw [← same]
            exact sleeping
          · rw [shared] at sleeping
            rcases Update.apply_sleeping sleeping with before | ⟨slept, rfl⟩
            · exact before
            · cases assigns with
              | makes makes =>
                cases makes with
                | goToSleep running => exact absurd (Thread.eq_process running) current
      · unfold Waits at waits
        rw [new] at waits
        exact absurd waits (Mode.calm_not_waits rfl)

/-- The thread that runs `wakeup` has the condition lock. -/
theorem Sane.waking_excludes (top : machine.At c frame callers)
    (differs : thread ≠ (machine.cpu c).thread)
    (waking : topMode (machine.stack thread) = .waking chan i) :
    chan.lock ∉ frame.held (machine.cpu c).thread.proc? := by
  intro mine
  obtain ⟨first, rest, shape, isTop⟩ := stack_of_topMode waking (by simp)
  obtain ⟨pc, rfl, _⟩ := Frame.eq_wakeup isTop
  have nested := sane.owned.nested thread
  rw [shape] at nested
  have fits : Fits _ _ _ := nested.1
  obtain ⟨caller, member, held⟩ := List.mem_flatMap.mp fits.room.1
  have elsewhere : Elsewhere machine c callers thread caller := by
    refine .beside differs ?_
    rw [shape]
    exact List.mem_cons_of_mem _ member
  obtain ⟨q, isProc, _⟩ := sane.owned.excludes top mine elsewhere held
  exact chan.lock_ne_proc q isProc

/-- Another thread that is busy was so before. -/
theorem Sane.busy_before (transition : Transition machine c input next)
    (differs : thread ≠ (machine.cpu c).thread) (isMode : topMode (next.stack thread) = mode)
    (busy : mode ≠ .calm) : next.stack thread = machine.stack thread := by
  rcases sane.beside_step transition differs with same | ⟨np, _, _, _, new⟩
  · exact same
  · rw [new] at isMode
    exact absurd isMode.symm busy

/-- A process that `wakeup` has looked at does not wait. -/
theorem Sane.woken {i : Nat} {act : Act Lock Frame Update Reason}
    (top : machine.At c (.wakeup (.check i) chan) callers)
    (flows : Flows (machine.cpu c).thread.proc? machine.shared (.wakeup (.check i) chan) act)
    (moves : Moves kernel machine c callers next act)
    (shared : next.shared = (Update.wake i chan).apply machine.shared)
    (before : Waits machine i chan) : ¬ Waits next i chan := by
  intro waits
  have differs : (machine.cpu c).thread ≠ .process i := by
    intro current
    unfold Waits at before
    rw [← current, top] at before
    exact absurd before (Mode.Quiet.not_waits trivial)
  have parked : Owned.Parked machine i := by
    intro d running
    exact Mode.Quiet.not_waits
      (running_quiet sane.owned top List.mem_cons_self running differs) before
  obtain ⟨first, rest, shape, rests⟩ := sane.slots.resting i parked
  have notMarking : topMode (machine.stack (.process i)) ≠ .marking chan := by
    rw [shape]
    generalize (machine.shared.proc i).state = state at rests
    cases rests <;> simp [topMode, Frame.mode]
  unfold Waits at waits
  rcases sane.beside top flows moves (Ne.symm differs) with
    kept | ⟨np, _, _, _, new⟩
  case inr =>
    rw [new] at waits
    exact Mode.calm_not_waits rfl waits
  rw [kept, shared, Update.apply_target rfl] at waits
  rcases waits with marking | ⟨onChan, sleeping⟩
  · exact notMarking marking
  · have isChan := (sane.slots.chans i).trans onChan
    simp only [Update.edit, if_pos isChan, Shared.wake] at sleeping
    split at sleeping
    · cases sleeping
    · rename_i awake
      exact awake sleeping

/-- The thread itself goes on from slot to slot. -/
theorem Waiting.passed_here (transition : Transition machine c input next)
    (waking : topMode (next.stack (machine.cpu c).thread) = .waking chan i)
    (behind : p < i) (before : Waits machine p chan) : ¬ Waits next p chan := by
  cases transition with
  | halt reason => exact sane.waiting.passed _ chan i waking p behind
  | enter first unlocked quiet moved =>
    rw [moved.stacked, Function.update_self] at waking
    cases quiet.calm.symm.trans waking
  | act frame callers act top coded follows flows moves =>
    have same := topMode_of_top top
    have passed {j : Nat} (isWaking : frame.mode = .waking chan j) (earlier : p < j) : False :=
      sane.waiting.passed _ chan j (same.trans isWaking) p earlier before
    have settled {caller : Frame} (member : caller ∈ callers)
        (isWaking : caller.mode = .waking chan i) : False := by
      have settled := sane.slots.callers (machine.cpu c).thread caller (by rw [top]; exact member)
      rw [isWaking] at settled
      exact settled.not_acts trivial
    have turns := sane.turns top flows moves
    rw [waking] at turns
    generalize isShared : next.shared = shared, isMode : Mode.waking chan i = mode at turns
    cases turns with
    | keeps => exact (passed isMode.symm behind).elim
    | marks found lk isMark | sleeps other asleep | rests awake | assigns assigns calm =>
      cases isMode
    | makes makes =>
      cases makes with
      | skip tame | setPipe tame _ | setCons tame _ =>
        exact (passed (isMode.trans tame.mode).symm behind).elim
      | @skipSelf j target self =>
        cases isMode
        rcases Nat.lt_succ_iff_lt_or_eq.mp behind with earlier | rfl
        · exact (passed rfl earlier).elim
        · unfold Waits at before
          rw [← Thread.eq_process self, same] at before
          exact absurd before (Mode.Quiet.not_waits trivial)
      | @wake j target =>
        cases isMode
        rcases Nat.lt_succ_iff_lt_or_eq.mp behind with earlier | rfl
        · exact (passed rfl earlier).elim
        · exact sane.woken top flows moves isShared before
      | _ => cases isMode
    | calls calls calm =>
      cases calls with
      | calm calleeCalm nextCalm => cases isMode.trans calleeCalm
      | _ =>
        cases isMode
        cases behind
    | returns isCaller done =>
      subst isCaller
      exact (settled List.mem_cons_self isMode.symm).elim
    | leaves calm =>
      cases callers with
      | nil => cases isMode
      | cons caller rest => exact (settled List.mem_cons_self isMode.symm).elim

theorem Waiting.passed_step (transition : Transition machine c input next)
    (waking : topMode (next.stack thread) = .waking chan i) (behind : p < i) :
    ¬ Waits next p chan := by
  intro waits
  have notMe : thread ≠ .process p := by
    rintro rfl
    unfold Waits at waits
    rw [waking] at waits
    exact absurd waits (Mode.Quiet.not_waits trivial)
  rcases Waits.before sane transition waits with
    before | ⟨_, current, rest, shape⟩
  · by_cases current : thread = (machine.cpu c).thread
    · subst current
      exact Waiting.passed_here sane transition waking behind before waits
    · rw [sane.busy_before transition current waking (by simp)] at waking
      exact sane.waiting.passed thread chan i waking p behind before
  · have differs : thread ≠ (machine.cpu c).thread := by
      rw [current]
      exact notMe
    rw [sane.busy_before transition differs waking (by simp)] at waking
    rw [← current] at shape
    refine sane.waking_excludes shape differs waking ?_
    exact List.mem_append_right _ List.mem_cons_self

theorem Sane.waits_inRange (waits : Waits machine p chan) : p < NPROC := by
  by_contra outside
  have isUnused := sane.slots.bounded p (not_lt.mp outside)
  have parked : Owned.Parked machine p := by
    intro d running
    have state := sane.slots.running d p running
    rw [isUnused] at state
    exact (Mode.state_ne _).1 state.symm
  obtain ⟨first, rest, shape, rests⟩ := sane.slots.resting p parked
  unfold Waits at waits
  rw [shape] at waits
  rw [isUnused] at rests
  refine absurd waits (Mode.calm_not_waits ?_)
  cases rests <;> rfl

/-- A process about to become a zombie has `wait_lock`. -/
theorem Sane.hushed_excludes (top : machine.At c frame callers)
    (elsewhere : Elsewhere machine c callers thread other) (hushed : other.mode = .hushed) :
    .wait ∉ frame.held (machine.cpu c).thread.proc? := by
  intro mine
  obtain ⟨q, isProc, _⟩ := sane.owned.excludes top mine elsewhere (Frame.hushed_held hushed).1
  cases isProc

/-- Its parent stays the same. -/
theorem Sane.parent_kept (transition : Transition machine c input next)
    (member : other ∈ machine.stack (.process p)) (hushed : other.mode = .hushed)
    (elsewhere : ∀ frame callers, machine.At c frame callers →
      Elsewhere machine c callers (.process p) other) :
    (next.shared.proc p).parent = (machine.shared.proc p).parent := by
  rcases transition.effect with
    same | ⟨frame, callers, change, after, top, assigns, shared⟩
  · rw [same]
  · have unlocked := sane.hushed_excludes top (elsewhere frame callers top) hushed
    rw [shared]
    rcases assigns.parent_locked unlocked with same | ⟨freed, _⟩
    · exact same
    · obtain ⟨claim, claimed, _, held⟩ := assigns.free freed
      have parked := sane.slots.claimed_parked sane.owned top claimed held
      have waitHeld : Lock.wait ∈ discipline.stackHeld (some p) (machine.stack (.process p)) :=
        List.mem_flatMap.mpr ⟨other, member, (Frame.hushed_held hushed).1⟩
      rw [sane.owned.parked p parked] at waitHeld
      cases List.mem_singleton.mp waitHeld

/-- A caller that is about to become a zombie has just woken up its parent. -/
theorem Sane.resumed_hushed (top : machine.At c frame callers) (member : caller ∈ callers)
    (hushed : caller.mode = .hushed)
    (done : frame.mode = .calm ∨ ∃ chan i, frame = .wakeup (.next i) chan ∧ NPROC ≤ i)
    (running : (machine.cpu c).thread = .process p)
    (isParent : (machine.shared.proc p).parent = some parent) (q : Nat) :
    ¬ Waits machine q (.proc parent) := by
  intro waits
  obtain ⟨r, other, i, rest, isThread, _, isOther, waking⟩ :=
    sane.waiting.wakesParent _ frame callers caller top member hushed
  cases running.symm.trans isThread
  cases isParent.symm.trans isOther
  rcases done with calm | ⟨chan, j, rfl, past⟩
  · cases calm.symm.trans waking
  · cases waking
    exact sane.waiting.passed _ _ j (topMode_of_top top) q
      ((sane.waits_inRange waits).trans_le past) waits

theorem Waiting.hushed_here (transition : Transition machine c input next)
    (running : (machine.cpu c).thread = .process p)
    (hushed : topMode (next.stack (.process p)) = .hushed)
    (isParent : (next.shared.proc p).parent = some parent) (q : Nat) :
    ¬ Waits machine q (.proc parent) := by
  cases transition with
  | halt reason => exact sane.waiting.hushed p parent hushed isParent q
  | enter first unlocked quiet moved =>
    rw [moved.stacked, running, Function.update_self] at hushed
    cases quiet.calm.symm.trans hushed
  | act frame callers act top coded follows flows moves =>
    have same := topMode_of_top top
    rw [running] at same
    have old (wasHushed : frame.mode = .hushed)
        (isParent : (machine.shared.proc p).parent = some parent) :
        ¬ Waits machine q (.proc parent) :=
      sane.waiting.hushed p parent (same.trans wasHushed) isParent q
    have turns := sane.turns top flows moves
    rw [running, hushed] at turns
    generalize next.shared = shared, isMode : Mode.hushed = mode at turns isParent
    cases turns with
    | keeps => exact old isMode.symm isParent
    | marks found lk isMark | sleeps other asleep | rests awake | assigns assigns calm =>
      cases isMode
    | makes makes =>
      cases makes with
      | skip tame | setPipe tame _ | setCons tame _ =>
        exact old (isMode.trans tame.mode).symm isParent
      | noParent isMe orphan =>
        obtain rfl := Thread.process.inj (running.symm.trans (Thread.eq_process isMe))
        cases orphan.symm.trans isParent
      | _ => cases isMode
    | calls calls calm =>
      cases calls with
      | calm calleeCalm nextCalm => cases isMode.trans calleeCalm
      | _ => cases isMode
    | returns isCaller done =>
      subst isCaller
      exact sane.resumed_hushed top List.mem_cons_self isMode.symm done running isParent q
    | leaves calm =>
      cases callers with
      | nil => cases isMode
      | cons caller rest =>
        exact sane.resumed_hushed top List.mem_cons_self isMode.symm (.inl calm) running isParent q

theorem Waiting.hushed_step (transition : Transition machine c input next)
    (hushed : topMode (next.stack (.process p)) = .hushed) {parent : Nat}
    (isParent : (next.shared.proc p).parent = some parent) (q : Nat) :
    ¬ Waits next q (.proc parent) := by
  intro waits
  by_cases running : (machine.cpu c).thread = .process p
  · rcases Waits.before sane transition waits with
      before | ⟨_, current, _, _⟩
    · exact Waiting.hushed_here sane transition running hushed isParent q before
    · cases running.symm.trans current
      unfold Waits at waits
      rw [hushed] at waits
      have settled : Mode.hushed.Settled (some p) := .inr (.inl rfl)
      exact settled.not_waits waits
  · have differs : .process p ≠ (machine.cpu c).thread := Ne.symm running
    rw [sane.busy_before transition differs hushed (by simp)] at hushed
    obtain ⟨first, rest, shape, isHushed⟩ := stack_of_topMode hushed (by simp)
    have member : first ∈ machine.stack (.process p) := by
      rw [shape]
      exact List.mem_cons_self
    rcases Waits.before sane transition waits with
      before | ⟨_, current, callers, top⟩
    · have kept := sane.parent_kept transition member isHushed
        fun frame callers top => .beside differs member
      exact sane.waiting.hushed p parent hushed (kept.symm.trans isParent) q before
    · rw [← current] at top
      refine sane.hushed_excludes top (.beside differs member) isHushed ?_
      exact List.mem_append_right _ List.mem_cons_self

omit sane in
/-- `wakeup` stays `wakeup` until it returns. -/
theorem wakeup_moves (coded : code (machine.cpu c).thread.proc? (.wakeup pc chan) machine.shared
      input = some act) (moves : Moves kernel machine c callers next act) :
    (∃ after, next.stack (machine.cpu c).thread = .wakeup after chan :: callers) ∨
      ∃ value caller rest, callers = caller :: rest ∧
        next.stack (machine.cpu c).thread = resume caller value :: rest := by
  have isWakeup : wakeup (machine.cpu c).thread.proc? pc chan = some act := by
    cases thread : (machine.cpu c).thread.proc? with
    | none | some p =>
      rw [thread] at coded
      exact coded
  have isNext : (∃ after, act.after? = some (.wakeup after chan) ∨
      ∃ change, act = .update change (.wakeup after chan)) ∨
      ∃ value, act = .ret value := by
    cases pc <;> simp only [wakeup] at isWakeup
    all_goals repeat' split at isWakeup
    all_goals cases isWakeup
    all_goals first
      | exact .inl ⟨_, .inl rfl⟩
      | exact .inl ⟨_, .inr ⟨_, rfl⟩⟩
      | exact .inr ⟨_, rfl⟩
  rcases isNext with ⟨after, isAfter | ⟨change, rfl⟩⟩ | ⟨value, rfl⟩
  · cases moves with
    | advance _ found isFound moved =>
      cases isFound.symm.trans isAfter
      exact .inl ⟨after, by rw [moved.stacked, Function.update_self]⟩
    | _ => cases isAfter
  · cases moves with
    | advance _ found isFound moved => cases isFound
    | update _ _ moved => exact .inl ⟨after, by rw [moved.stacked, Function.update_self]⟩
  · cases moves with
    | advance _ found isFound moved => cases isFound
    | ret _ caller rest shape moved =>
      refine .inr ⟨value, caller, rest, shape, ?_⟩
      rw [moved.stacked, Function.update_self]
      rfl

/-- No two callers are about to become zombies. -/
theorem Sane.hushed_once (top : machine.At c frame (caller :: rest))
    (hushed : caller.mode = .hushed) : caller ∉ rest := by
  intro again
  have nodup := sane.owned.nodup c
  rw [heldOn_top top] at nodup
  have below := (List.nodup_append.mp nodup).2.1
  rw [Discipline.stackHeld_cons] at below
  have held : .wait ∈ caller.held (machine.cpu c).thread.proc? := (Frame.hushed_held hushed).1
  exact (List.nodup_append.mp below).2.2 _ held _ (List.mem_flatMap.mpr ⟨caller, again, held⟩) rfl

theorem Waiting.wakesParent_here (transition : Transition machine c input next)
    (top : machine.At c frame callers)
    (coded : code (machine.cpu c).thread.proc? frame machine.shared input = some act)
    (flows : Flows (machine.cpu c).thread.proc? machine.shared frame act)
    (moves : Moves kernel machine c callers next act)
    (shape : next.stack (machine.cpu c).thread = first :: rest)
    (member : caller ∈ rest) (hushed : caller.mode = .hushed) :
    ∃ p parent i below, (machine.cpu c).thread = .process p ∧ rest = caller :: below ∧
      (next.shared.proc p).parent = some parent ∧
      first.mode = .waking (.proc parent) i := by
  have inTail : caller ∈ (next.stack (machine.cpu c).thread).tail := by
    rw [shape]
    exact member
  rcases moves.mem_tail top inTail with before | ⟨_, callee, rfl⟩
  · rw [top] at before
    obtain ⟨p, parent, i, below, running, rfl, isParent, waking⟩ :=
      sane.waiting.wakesParent _ frame callers caller top before hushed
    obtain ⟨pc, rfl, _⟩ := Frame.eq_wakeup waking
    rcases wakeup_moves coded moves with
      ⟨after, pushed⟩ | ⟨value, _, _, isCaller, resumed⟩
    · cases shape.symm.trans pushed
      have onStack : caller ∈ machine.stack (.process p) := by
        rw [← running, top]
        exact List.mem_cons_of_mem _ before
      have kept := sane.parent_kept transition onStack hushed (by
        intro _ _ sameTop
        cases top.symm.trans sameTop
        rw [← running]
        exact .below before)
      exact ⟨p, parent, after.index, below, running, rfl, kept.trans isParent, rfl⟩
    · cases isCaller
      cases shape.symm.trans resumed
      exact absurd member (sane.hushed_once top hushed)
  · cases moves with
    | advance _ after isAfter moved => cases isAfter
    | call _ _ moved =>
      rw [moved.stacked, Function.update_self] at shape
      cases shape
      cases flows.2.1 with
      | calm calleeCalm nextCalm | wakeup nextCalm => cases nextCalm.symm.trans hushed
      | wakeParent isMe isParent =>
        rw [← moved.shared] at isParent
        exact ⟨_, _, 0, callers, Thread.eq_process isMe, rfl, isParent, rfl⟩

theorem Waiting.wakesParent_step (transition : Transition machine c input next)
    (shape : next.stack thread = first :: rest) (member : caller ∈ rest)
    (hushed : caller.mode = .hushed) :
    ∃ p parent i below, thread = .process p ∧ rest = caller :: below ∧
      (next.shared.proc p).parent = some parent ∧
      first.mode = .waking (.proc parent) i := by
  by_cases current : thread = (machine.cpu c).thread
  · cases transition with
    | halt reason => exact sane.waiting.wakesParent thread first rest caller shape member hushed
    | enter entered unlocked quiet moved =>
      rw [moved.stacked, current, Function.update_self] at shape
      cases shape
      have held : Lock.wait ∈ heldOn discipline machine c :=
        List.mem_flatMap.mpr ⟨caller, member, (Frame.hushed_held hushed).1⟩
      rw [unlocked] at held
      cases held
    | act frame callers act top coded follows flows moves =>
      subst current
      exact Waiting.wakesParent_here sane
        (.act frame callers act top coded follows flows moves) top coded flows
        moves shape member hushed
  · rcases sane.beside_step transition current with same | ⟨np, _, _, _, new⟩
    · rw [same] at shape
      obtain ⟨p, parent, i, below, rfl, isRest, isParent, waking⟩ :=
        sane.waiting.wakesParent thread first rest caller shape member hushed
      have onStack : caller ∈ machine.stack (.process p) := by
        rw [shape]
        exact List.mem_cons_of_mem _ member
      have kept := sane.parent_kept transition onStack hushed fun _ _ _ => .beside current onStack
      exact ⟨p, parent, i, below, rfl, isRest, kept.trans isParent, waking⟩
    · cases shape.symm.trans new
      cases member

omit sane in
/-- An assignment that ends a reason to wait leads to a call of `wakeup`, unless
it makes a child a zombie. -/
theorem Assigns.mustWait_or_notifies (assigns : Assigns me shared frame change after)
    (claims : ∀ q state, frame.claim? = some (q, state) → (shared.proc q).state = state)
    (must : MustWait shared chan) :
    MustWait (change.apply shared) chan ∨ Notifies (change.apply shared) p chan after ∨
      ∃ q status parent, chan = .proc parent ∧ change = .exit q status ∧
        (shared.proc q).parent = some parent := by
  cases chan with
  | kq =>
    cases assigns with
    | makes makes =>
      cases makes with
      | post time posted => exact .inr (.inl (.post _))
      | take nonempty taken => exact absurd must nonempty
      | _ => exact .inl must
    | _ => exact .inl must
  | sleepLock lock =>
    cases assigns with
    | makes makes =>
      cases makes with
      | @unlockSleep other =>
        by_cases same : lock = other
        · subst same
          exact .inr (.inl (.unlock lock))
        · left
          simp only [MustWait, Update.apply, Function.update_of_ne same]
          exact must
      | @lockSleep q other running free =>
        by_cases same : lock = other
        · subst same
          simp [MustWait, Update.apply]
        · left
          simp only [MustWait, Update.apply, Function.update_of_ne same]
          exact must
      | _ => exact .inl must
    | _ => exact .inl must
  | proc r =>
    by_cases still : NoZombie (change.apply shared) r NPROC
    · exact .inl still
    · obtain ⟨child, inRange, isChild, zombie⟩ : ∃ child, child < NPROC ∧
            ((change.apply shared).proc child).parent = some r ∧
            ((change.apply shared).proc child).state = .zombie := by
        simpa [NoZombie] using still
      rcases Update.apply_parent change shared child with
        same | ⟨_, gone⟩ | ⟨creator, rfl⟩ | rfl
      · rw [same] at isChild
        rcases Update.apply_zombie zombie with already | ⟨status, rfl⟩
        · exact absurd already (must child inRange isChild)
        · exact .inr (.inr ⟨child, status, r, rfl, rfl, isChild⟩)
      · cases gone.symm.trans isChild
      · obtain ⟨_, pid, rfl, _⟩ := assigns.adopts
        rw [Update.apply_target rfl] at zombie
        cases (claims child .used rfl).symm.trans zombie
      · obtain ⟨_, status, _, _, _, rfl⟩ := assigns.reparents
        rw [Update.apply_target rfl] at isChild
        cases isChild
        exact .inr (.inl (.reparent child status))
  | _ => exact .inl trivial

/-- Who is about to call `wakeup`, or runs it, has the condition lock. -/
theorem Sane.notifier_held (shape : machine.stack thread = frame :: rest)
    (notifies : Notifies machine.shared p chan frame) :
    chan.lock ∈ discipline.stackHeld thread.proc? (frame :: rest) := by
  rw [Discipline.stackHeld_cons]
  cases notifies with
  | wakeup _ i waking ahead =>
    obtain ⟨pc, rfl, _⟩ := Frame.eq_wakeup waking
    have nested := sane.owned.nested thread
    rw [shape] at nested
    have fits : Fits _ _ _ := nested.1
    exact List.mem_append_right _ fits.room.1
  | _ => exact List.mem_append_left _ List.mem_cons_self

omit sane in
theorem Notifies.rests (notifies : Notifies shared p chan frame) : ¬ frame.Rests state := by
  intro rests
  cases notifies with
  | wakeup _ i waking ahead =>
    obtain ⟨pc, rfl, _⟩ := Frame.eq_wakeup waking
    cases rests
  | _ => cases rests

/-- A notifier stays where it is while others run. -/
theorem Sane.notifier_beside (transition : Transition machine c input next)
    (differs : thread ≠ (machine.cpu c).thread) (shape : machine.stack thread = frame :: rest)
    (notifies : Notifies machine.shared p chan frame) :
    next.stack thread = machine.stack thread := by
  rcases sane.beside_step transition differs with same | ⟨np, rfl, parked, _⟩
  · exact same
  · obtain ⟨first, below, found, rests⟩ := sane.slots.resting np parked
    cases shape.symm.trans found
    exact absurd rests notifies.rests

/-- A notifier goes through the table until it has come past the process. -/
theorem Sane.notifier_here (top : machine.At c frame callers)
    (coded : code (machine.cpu c).thread.proc? frame machine.shared input = some act)
    (flows : Flows (machine.cpu c).thread.proc? machine.shared frame act)
    (moves : Moves kernel machine c callers next act)
    (notifies : Notifies machine.shared p chan frame)
    (before : Waits machine p chan) (waits : Waits next p chan) :
    ∃ i ≤ p, topMode (next.stack (machine.cpu c).thread) = .waking chan i := by
  have called {callee after : Frame} (isCall : act = .call callee after) :
      topMode (next.stack (machine.cpu c).thread) = callee.mode := by
    subst isCall
    cases moves with
    | advance _ after isAfter moved => cases isAfter
    | call _ _ moved =>
      rw [moved.stacked, Function.update_self]
      rfl
  have ofProcess (notScheduler : schedulerCode frame machine.shared input = none) :
      ∃ q, processCode q frame machine.shared input = some act := by
    cases thread : (machine.cpu c).thread with
    | scheduler d =>
      rw [thread] at coded
      cases notScheduler.symm.trans coded
    | process q =>
      rw [thread] at coded
      exact ⟨q, coded⟩
  cases notifies with
  | wakeup _ i waking ahead =>
    have same := (topMode_of_top top).trans waking
    have turns := sane.turns top flows moves
    generalize isShared : next.shared = shared, topMode (next.stack _) = mode at turns ⊢
    cases turns with
    | keeps => exact ⟨i, ahead, waking⟩
    | marks found lk isMark =>
      subst isMark
      cases waking
    | makes makes =>
      cases makes with
      | skip tame | setPipe tame _ | setCons tame _ =>
        exact ⟨i, ahead, tame.mode.trans waking⟩
      | @skipSelf j target self =>
        cases waking
        have notMe : j ≠ p := by
          rintro rfl
          unfold Waits at before
          rw [← Thread.eq_process self, same] at before
          exact absurd before (Mode.Quiet.not_waits trivial)
        exact ⟨j + 1, Nat.lt_of_le_of_ne ahead notMe, rfl⟩
      | @wake j target =>
        cases waking
        have notThis : j ≠ p := by
          rintro rfl
          exact sane.woken top flows moves isShared before waits
        exact ⟨j + 1, Nat.lt_of_le_of_ne ahead notThis, rfl⟩
      | _ => cases waking
    | calls calls calm | leaves calm | assigns assigns calm => cases calm.symm.trans waking
    | returns isCaller done =>
      rcases done with calm | ⟨_, j, rfl, past⟩
      · cases calm.symm.trans waking
      · cases waking
        have inRange := sane.waits_inRange before
        exact absurd (inRange.trans_le past) (Nat.not_lt.mpr ahead)
    | sleeps other asleep => cases asleep.symm.trans waking
    | rests awake => exact absurd waking (awake chan i)
  | _ =>
    obtain ⟨q, isCode⟩ := ofProcess rfl
    exact ⟨0, Nat.zero_le p, called (Option.some.inj isCode).symm⟩

section

variable (transition : Transition machine c input next)

include transition

/-- The notifier of a waiter is still about to wake it up. -/
theorem Sane.notifier_step (shape : machine.stack thread = frame :: rest)
    (notifies : Notifies machine.shared p chan frame)
    (before : Waits machine p chan) (waits : Waits next p chan) :
    ∃ thread frame callers, next.stack thread = frame :: callers ∧
      Notifies next.shared p chan frame := by
  have sameInit : next.shared.initproc = machine.shared.initproc := by
    exact transition.assigned rfl fun _ _ _ _ _ _ => Update.apply_initproc ..
  by_cases current : thread = (machine.cpu c).thread
  · subst current
    cases transition with
    | halt reason => exact ⟨_, frame, rest, shape, notifies⟩
    | enter first unlocked quiet moved =>
      have held := sane.notifier_held shape notifies
      rw [← shape] at held
      have none : chan.lock ∈ heldOn discipline machine c := held
      rw [unlocked] at none
      cases none
    | act frame callers act top coded follows flows moves =>
      cases shape.symm.trans top
      obtain ⟨i, ahead, waking⟩ := sane.notifier_here top coded flows moves notifies before waits
      obtain ⟨first, below, found, isTop⟩ := stack_of_topMode waking (by simp)
      exact ⟨_, first, below, found, .wakeup chan i isTop ahead⟩
  · have same := sane.notifier_beside transition current shape notifies
    refine ⟨thread, frame, rest, same.trans shape, ?_⟩
    cases notifies with
    | post post => exact .post post
    | unlock lock => exact .unlock lock
    | reparent child status =>
      rw [← sameInit]
      exact .reparent child status
    | wakeup _ i waking ahead => exact .wakeup chan i waking ahead

/-- A reason to wait does not go away without a notifier. -/
theorem Waiting.mustWait_step
    (must : MustWait machine.shared chan) (before : Waits machine p chan) :
    MustWait next.shared chan ∨ ∃ thread frame callers, next.stack thread = frame :: callers ∧
        Notifies next.shared p chan frame := by
  cases transition with
  | halt reason => exact .inl must
  | enter first unlocked quiet moved =>
    rw [moved.shared]
    exact .inl must
  | act frame callers act top coded follows flows moves =>
    have notProc {q : Nat} (held : frame.held (machine.cpu c).thread.proc? =
        [.proc q]) : chan.lock ∉ frame.held (machine.cpu c).thread.proc? := by
      rw [held]
      intro member
      exact chan.lock_ne_proc q (List.mem_singleton.mp member)
    cases moves with
    | update change after moved =>
      rw [moved.shared]
      have claims (q : Nat) (state : ProcState) (claimed : frame.claim? = some (q, state)) :
          (machine.shared.proc q).state = state :=
        sane.slots.claims _ frame top.mem q state claimed
      have assigns : Assigns (machine.cpu c).thread.proc? machine.shared frame
          change after := .makes flows
      rcases assigns.mustWait_or_notifies claims must with
        still | notifies | ⟨q, status, parent, rfl, rfl, isParent⟩
      · exact .inl still
      · exact .inr ⟨_, after, callers, by rw [moved.stacked, Function.update_self], notifies⟩
      · cases flows with
        | exit running =>
          rw [Machine.At, Thread.eq_process running] at top
          exact absurd before (sane.waiting.hushed q parent (topMode_of_top top) isParent p)
    | spawn np first change after shared stacked threads =>
      obtain ⟨rfl, pid, rfl, rfl, rfl⟩ := flows
      rw [shared]
      exact .inl (Assigns.allocproc.mustWait (notProc rfl) must)
    | advance _ after isAfter moved | call callee after moved
    | ret value caller rest shape moved | leave moved | sched q after running moved
    | swtch q after idle moved =>
      rw [moved.shared]
      exact .inl must

theorem Waiting.notified_step (waits : Waits next p chan) :
    MustWait next.shared chan ∨ ∃ thread frame callers, next.stack thread = frame :: callers ∧
        Notifies next.shared p chan frame := by
  rcases Waits.before sane transition waits with
    before | ⟨same, _, callers, shape⟩
  · rcases sane.waiting.notified p chan before with
      must | ⟨thread, frame, rest, shape, notifies⟩
    · exact Waiting.mustWait_step sane transition must before
    · exact .inr (sane.notifier_step transition shape notifies before waits)
  · have member : Frame.sleep .releaseCond chan chan.lock ∈ machine.stack (.process p) := by
      rw [shape]
      exact List.mem_cons_self
    have must : MustWait machine.shared chan := sane.stands (.process p) _ member
    rw [same]
    exact .inl must

theorem Waiting.step : Waiting next where
  passed _ _ _ waking _ behind := Waiting.passed_step sane transition waking behind
  notified _ _ waits := Waiting.notified_step sane transition waits
  hushed _ _ hushed isParent q := Waiting.hushed_step sane transition hushed isParent q
  wakesParent _ _ _ _ shape member hushed :=
    Waiting.wakesParent_step sane transition shape member hushed

end

end Step

end Xv6KernelEvent.Process
