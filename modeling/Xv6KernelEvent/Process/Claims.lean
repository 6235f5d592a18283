import Xv6KernelEvent.Process.Placement

/-!
# Claims to slots

`kfork` and `kwait` rely on the state of a slot of the process table while they
work on it.  No other thread changes it meanwhile.
-/

namespace Xv6KernelEvent.Process

open SpinThreads

variable {callers : List Frame}

section Step

variable (owned : Owned kernel discipline machine) (slots : Slots machine)

include owned slots

omit owned in
/-- An assignment keeps the state of a slot that somebody relies on, unless the
frame that makes it gives up a claim to the slot. -/
theorem Slots.state_kept (top : machine.At c frame callers)
    (makes : Makes (machine.cpu c).thread.proc? machine.shared frame change after)
    (isState : (machine.shared.proc q).state = state)
    (claimable : state = .unused ∨ state = .used ∨ state = .zombie)
    (untouched : frame.claim? = some (q, state) → state ≠ .unused →
      .proc q ∈ frame.held (machine.cpu c).thread.proc? →
      after.claim? ≠ none) : ((change.apply machine.shared).proc q).state = state := by
  have claims {claim : ProcState} (claimed : frame.claim? = some (q, claim)) : claim = state :=
    (slots.claims _ frame (top ▸ List.mem_cons_self) q claim claimed).symm.trans isState
  have changed := makes.state q
  rw [isState] at changed
  generalize ((change.apply machine.shared).proc q).state = new at changed
  cases changed with
  | same => rfl
  | own isMe before =>
    have current := Thread.eq_process isMe
    have running := slots.running c q current
    rw [isState, ← current, top] at running
    change state = frame.mode.state at running
    rw [running, before] at claimable
    simp at claimable
  | wake held | dispatch held => simp at claimable
  | publish claimed held unclaimed =>
    obtain rfl := claims claimed
    exact absurd unclaimed (untouched claimed (by simp) held)
  | free claimed notUnused held unclaimed =>
    obtain rfl := claims claimed
    exact absurd unclaimed (untouched claimed notUnused held)

omit slots in
/-- Two frames of one thread do not rely on slots. -/
theorem claim_level_lt (top : machine.At c frame callers) (claimed : frame.claim? = some claim)
    (otherClaimed : other.claim? = some otherClaim) : other ∉ callers := by
  intro member
  have fits : Fits _ _ _ := (owned.nested_top top).1
  have lower := fits.below (by rw [Frame.claim_level claimed]; decide) other member
  rw [Frame.claim_level claimed, Frame.claim_level otherClaimed] at lower
  exact Nat.lt_irrefl _ lower

/-- An assignment of another frame does not touch a slot that a frame relies
on. -/
theorem Slots.claim_untouched (top : machine.At c frame callers)
    (elsewhere : Elsewhere machine c callers thread other)
    (claimed : other.claim? = some (q, state)) (frameClaimed : frame.claim? = some (q, state)) :
    .proc q ∉ frame.held (machine.cpu c).thread.proc? := by
  intro held
  by_cases isUsed : state = .used
  · subst isUsed
    have same := slots.distinct _ _ other (elsewhere.mem top) frame
      (top ▸ List.mem_cons_self) q claimed frameClaimed
    cases elsewhere with
    | below member => exact claim_level_lt owned top frameClaimed claimed member
    | beside differs member => exact differs same
  · exact slots.claim_apart owned top held elsewhere claimed (Frame.claim_held claimed isUsed)

theorem Slots.claims_elsewhere (top : machine.At c frame callers)
    (flows : Flows (machine.cpu c).thread.proc? machine.shared frame act)
    (moves : Moves kernel machine c callers next act)
    (elsewhere : Elsewhere machine c callers thread other)
    (claimed : other.claim? = some (q, state)) : (next.shared.proc q).state = state := by
  have isState := slots.claims thread other (elsewhere.mem top) q state claimed
  cases moves with
  | update change after moved =>
    rw [moved.shared]
    refine slots.state_kept top flows isState (Frame.claim_state claimed) ?_
    intro frameClaimed _ held
    exact absurd held (slots.claim_untouched owned top elsewhere claimed frameClaimed)
  | advance _ after isAfter moved | call callee after moved | ret value caller rest shape moved
  | leave moved | sched p after running moved | swtch p after idle moved =>
    rw [moved.shared, isState]
  | spawn np first change after shared stacked threads =>
    obtain ⟨_, pid, rfl, rfl, _⟩ := flows
    have isUnused := slots.claims _ _ (top ▸ List.mem_cons_self) np .unused rfl
    have differs : q ≠ np := by
      rintro rfl
      obtain rfl := isState.symm.trans isUnused
      exact slots.claim_untouched owned top elsewhere claimed rfl List.mem_cons_self
    rw [shared, ← isState]
    exact congrArg Proc.state (Function.update_of_ne differs _ _)

theorem Slots.claims_fresh (top : machine.At c frame callers)
    (flows : Flows (machine.cpu c).thread.proc? machine.shared frame act)
    (moves : Moves kernel machine c callers next act) (isFresh : fresh ∈ act.fresh kernel callers)
    (claimed : fresh.claim? = some (q, state)) : (next.shared.proc q).state = state := by
  have member : frame ∈ machine.stack (machine.cpu c).thread := top ▸ List.mem_cons_self
  have seen (claims : frame.Claims machine.shared fresh) :
      (machine.shared.proc q).state = state := by
    rcases claims q state claimed with before | ⟨isState, _⟩
    · exact slots.claims _ frame member q state before
    · exact isState
  cases moves with
  | update change after moved =>
    obtain rfl := List.mem_singleton.mp isFresh
    rw [moved.shared]
    refine slots.state_kept top flows ?_ (Frame.claim_state claimed) ?_
    · cases flows with
      | skip tame | setPipe tame _ | setCons tame _ => exact seen tame.claim
      | adopt running => exact seen (Frame.claims_of_eq (.inl rfl))
      | _ => cases claimed
    · intro _ _ _ gone
      rw [gone] at claimed
      cases claimed
  | advance _ after isAfter moved =>
    rw [Act.fresh_of_after isAfter] at isFresh
    obtain rfl := List.mem_singleton.mp isFresh
    rw [moved.shared]
    rcases flows.advance isAfter with tame | ⟨chan, lock, rfl, rfl⟩
    · exact seen tame.claim
    · cases claimed
  | call callee after moved =>
    obtain ⟨_, _, _, unclaimed, claims, _⟩ := flows
    rw [moved.shared]
    rcases List.mem_cons.mp isFresh with rfl | isAfter
    · rw [unclaimed] at claimed
      cases claimed
    · obtain rfl := List.mem_singleton.mp isAfter
      exact seen claims
  | ret value caller rest shape moved =>
    subst shape
    obtain rfl := List.mem_singleton.mp isFresh
    change (resume caller value).claim? = _ at claimed
    rw [resume_claim] at claimed
    exact slots.claims_elsewhere owned top flows
      (.ret value caller rest rfl moved) (.below List.mem_cons_self) claimed
  | leave moved => cases isFresh
  | sched p after running moved =>
    obtain rfl := List.mem_singleton.mp isFresh
    obtain ⟨_, unclaimed, _⟩ := flows
    rw [unclaimed] at claimed
    cases claimed
  | swtch p after idle moved =>
    obtain rfl := List.mem_singleton.mp isFresh
    obtain ⟨_, _, rfl⟩ := flows
    cases claimed
  | spawn np first change after shared stacked threads =>
    obtain rfl := List.mem_singleton.mp isFresh
    obtain ⟨_, pid, _, rfl, rfl⟩ := flows
    cases claimed
    rw [shared]
    change (((Update.allocproc q pid).apply machine.shared).proc q).state = _
    rw [Update.apply_target rfl]
    rfl

theorem Slots.claims_step (transition : Transition machine c input next) (thread : Thread) :
    ∀ frame ∈ next.stack thread, ∀ q state,
      frame.claim? = some (q, state) → (next.shared.proc q).state = state := by
  intro other member q state claimed
  cases transition with
  | enter first unlocked quiet moved =>
    rw [moved.shared]
    rcases moved.mem_push member with ⟨_, rfl⟩ | old
    · rw [quiet.claim] at claimed
      cases claimed
    · exact slots.claims thread other old q state claimed
  | halt reason => exact slots.claims thread other member q state claimed
  | act frame callers act top coded follows flows moves =>
    rcases moves.mem_stack member with
      ⟨_, isFresh⟩ | elsewhere | ⟨p, change, after, rfl, _⟩
    · exact slots.claims_fresh owned top flows moves isFresh claimed
    · exact slots.claims_elsewhere owned top flows moves elsewhere claimed
    · obtain ⟨rfl, _⟩ := flows
      cases claimed

omit owned in
/-- A claim to a new process is not made up. -/
theorem Slots.used_before (top : machine.At c frame callers)
    (flows : Flows (machine.cpu c).thread.proc? machine.shared frame act)
    (moves : Moves kernel machine c callers next act) (member : other ∈ next.stack thread)
    (claimed : other.claim? = some (q, .used)) :
    (∃ before ∈ machine.stack thread, before.claim? = some (q, .used)) ∨
      thread = (machine.cpu c).thread ∧ (machine.shared.proc q).state = .unused := by
  have onTop : frame ∈ machine.stack (machine.cpu c).thread := top ▸ List.mem_cons_self
  rcases moves.mem_stack member with
    ⟨here, isFresh⟩ | elsewhere | ⟨p, change, after, rfl, _⟩
  · rw [here]
    have kept (claims : frame.Claims machine.shared other) :
        ∃ before ∈ machine.stack (machine.cpu c).thread, before.claim? = some (q, .used) := by
      rcases claims q .used claimed with before | ⟨_, notUsed⟩
      · exact ⟨frame, onTop, before⟩
      · exact absurd rfl notUsed
    cases act with
    | update change after =>
      obtain rfl := List.mem_singleton.mp isFresh
      left
      cases flows with
      | skip tame | setPipe tame _ | setCons tame _ => exact kept tame.claim
      | adopt running => exact kept (Frame.claims_of_eq (.inl rfl))
      | _ => cases claimed
    | release lock after =>
      obtain rfl := List.mem_singleton.mp isFresh
      obtain tame | ⟨chan, rfl, rfl⟩ := flows
      · exact .inl (kept tame.claim)
      · cases claimed
    | call callee after =>
      obtain ⟨_, _, _, unclaimed, claims, _⟩ := flows
      rcases List.mem_cons.mp isFresh with rfl | isAfter
      · rw [unclaimed] at claimed
        cases claimed
      · obtain rfl := List.mem_singleton.mp isAfter
        exact .inl (kept claims)
    | ret value =>
      cases callers with
      | nil => cases isFresh
      | cons caller rest =>
        obtain rfl := List.mem_singleton.mp isFresh
        change (resume caller value).claim? = _ at claimed
        rw [resume_claim] at claimed
        refine .inl ⟨caller, ?_, claimed⟩
        rw [top]
        exact List.mem_cons_of_mem _ List.mem_cons_self
    | leave | panic reason => cases isFresh
    | sched after =>
      obtain rfl := List.mem_singleton.mp isFresh
      rw [flows.2.1] at claimed
      cases claimed
    | swtch p after =>
      obtain rfl := List.mem_singleton.mp isFresh
      obtain ⟨_, _, rfl⟩ := flows
      cases claimed
    | spawn np first change after =>
      obtain rfl := List.mem_singleton.mp isFresh
      obtain ⟨_, pid, rfl, _, rfl⟩ := flows
      cases claimed
      exact .inr ⟨rfl, slots.claims _ _ onTop q .unused rfl⟩
    | _ =>
      obtain rfl := List.mem_singleton.mp isFresh
      exact .inl (kept flows.claim)
  · exact .inl ⟨other, elsewhere.mem top, claimed⟩
  · obtain ⟨rfl, _⟩ := flows
    cases claimed

omit owned in
theorem Slots.distinct_step (transition : Transition machine c input next)
    (member : one ∈ next.stack first) (otherMember : other ∈ next.stack second)
    (claimed : one.claim? = some (q, .used)) (otherClaimed : other.claim? = some (q, .used)) :
    first = second := by
  cases transition with
  | halt reason => exact slots.distinct _ _ one member other otherMember q claimed otherClaimed
  | enter root unlocked quiet moved =>
    have kept {thread : Thread} {frame : Frame} (member : frame ∈ next.stack thread)
        (claimed : frame.claim? = some (q, .used)) :
        frame ∈ machine.stack thread := by
      rcases moved.mem_push member with ⟨_, rfl⟩ | old
      · rw [quiet.claim] at claimed
        cases claimed
      · exact old
    exact slots.distinct _ _ one (kept member claimed) other
      (kept otherMember otherClaimed) q claimed otherClaimed
  | act frame callers act top coded follows flows moves =>
    have isUsed {thread : Thread} (before : ∃ frame ∈ machine.stack thread,
          frame.claim? = some (q, .used)) :
        (machine.shared.proc q).state = .used := by
      obtain ⟨frame, member, claimed⟩ := before
      exact slots.claims thread frame member q .used claimed
    rcases slots.used_before top flows moves member claimed with
      before | ⟨here, isUnused⟩
    · rcases slots.used_before top flows moves otherMember otherClaimed with
        otherBefore | ⟨_, isUnused⟩
      · obtain ⟨old, oldMember, oldClaimed⟩ := before
        obtain ⟨otherOld, otherOldMember, otherOldClaimed⟩ := otherBefore
        exact slots.distinct _ _ old oldMember otherOld otherOldMember q oldClaimed otherOldClaimed
      · rw [isUsed before] at isUnused
        cases isUnused
    · rcases slots.used_before top flows moves otherMember otherClaimed with
        otherBefore | ⟨otherHere, _⟩
      · rw [isUsed otherBefore] at isUnused
        cases isUnused
      · exact here.trans otherHere.symm

/-- The process table and the threads stay in step. -/
theorem Slots.step (transition : Transition machine c input next) : Slots next where
  toPlaced := slots.placed_step owned transition
  bounded := slots.bounded_step owned transition
  callers := slots.callers_step owned transition
  claims := slots.claims_step owned transition
  distinct := by
    intro first second one member other otherMember q claimed otherClaimed
    exact slots.distinct_step transition member otherMember claimed otherClaimed
  picked := slots.picked_step owned transition

end Step

end Xv6KernelEvent.Process
