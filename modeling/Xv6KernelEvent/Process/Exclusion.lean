import Xv6KernelEvent.Process.Invariant

/-!
# Who may change the state of a process

A process on a CPU holds its own lock wherever its state is about to change, so
whoever else holds the lock finds it running quietly or switched out.  Every
change of a state follows the arrows of `Advances`.
-/

namespace Xv6KernelEvent.Process

open SpinThreads

variable {frame : Frame} {callers : List Frame}

/-- Modes in which a process does not hold its own lock. -/
def Mode.Quiet : Mode → Prop
  | calm | hushed | waking _ _ | picking _ => True
  | _ => False

theorem Mode.Quiet.state {mode : Mode} (quiet : mode.Quiet) : mode.state = .running := by
  cases mode <;> first | rfl | cases quiet

theorem Mode.Quiet.chan {mode : Mode} (quiet : mode.Quiet) : mode.chan = none := by
  cases mode <;> first | rfl | cases quiet

theorem Frame.quiet_or_held (frame : Frame) (p : Nat) :
    frame.mode.Quiet ∨ .proc p ∈ frame.held (some p) := by
  cases frame with
  | sleep pc chan lk | yield pc | kexit pc status | scheduler pc =>
    cases pc <;> first | exact .inl trivial | exact .inr List.mem_cons_self
  | _ => exact .inl trivial

theorem Mode.state_ne (mode : Mode) : mode.state ≠ .unused ∧ mode.state ≠ .used := by
  cases mode <;> exact ⟨by simp [Mode.state], by simp [Mode.state]⟩

theorem Frame.claim_state (claimed : frame.claim? = some (q, state)) :
    state = .unused ∨ state = .used ∨ state = .zombie := by
  cases frame with
  | kfork pc | kwait pc addr => cases pc <;> cases claimed <;> simp
  | _ => cases claimed

theorem Frame.claim_level (claimed : frame.claim? = some claim) : frame.level = 6 := by
  cases frame with
  | kfork pc | kwait pc addr => rfl
  | _ => cases claimed

theorem Frame.claim_mode (claimed : frame.claim? = some claim) : frame.mode = .calm := by
  cases frame with
  | kfork pc | kwait pc addr => rfl
  | _ => cases claimed

/-- A claim on a slot other than that of a new process comes with its lock. -/
theorem Frame.claim_held (claimed : frame.claim? = some (q, state)) (notUsed : state ≠ .used) :
    .proc q ∈ frame.held me := by
  cases frame with
  | kfork pc =>
    cases pc <;> cases claimed <;>
      first | exact List.mem_cons_self | exact absurd rfl notUsed
  | kwait pc addr => cases pc <;> cases claimed <;> exact List.mem_cons_self
  | _ => cases claimed

theorem Frame.Rests.held (rests : frame.Rests state) : frame.held (some p) = [.proc p] := by
  cases rests <;> rfl

theorem Frame.Rests.claim (rests : frame.Rests state) : frame.claim? = none := by
  cases rests <;> rfl

section Exclusion

variable (owned : Owned kernel discipline machine) (slots : Slots machine)

include owned slots

/-- Only the frame on top of a switched-out process holds a lock. -/
theorem Slots.parked (parked : Owned.Parked machine p) :
    ∃ frame callers, machine.stack (.process p) = frame :: callers ∧
      frame.Rests (machine.shared.proc p).state ∧
      ∀ caller ∈ callers, caller.held (some p) = [] := by
  obtain ⟨frame, callers, shape, rests⟩ := slots.resting p parked
  refine ⟨frame, callers, shape, rests, ?_⟩
  have only := owned.parked p parked
  rw [shape, Discipline.stackHeld_cons] at only
  have none : discipline.stackHeld (some p) callers = [] := by
    rw [show discipline.held (some p) frame = [.proc p] from rests.held] at only
    exact (List.cons.inj only).2
  intro caller member
  exact List.flatMap_eq_nil_iff.mp none caller member

omit slots in
/-- Threads of schedulers run interrupt handlers only. -/
theorem scheduler_level (member : frame ∈ machine.stack (.scheduler d)) : frame.level = 0 := by
  obtain ⟨callers, fits, _⟩ := (owned.nested (.scheduler d)).of_mem member
  exact fits.thread rfl

omit slots in
theorem process_of_level (member : frame ∈ machine.stack thread)
    (positive : 0 < frame.level) : ∃ p, thread = .process p := by
  cases thread with
  | process p => exact ⟨p, rfl⟩
  | scheduler d =>
    rw [scheduler_level owned member] at positive
    cases positive

variable (top : machine.At c frame callers)

include top

/-- While a thread holds the lock of a slot, no other frame holds it, except
where a process is switched out and in interrupt handlers. -/
theorem Slots.lock_apart (held : .proc q ∈ frame.held (machine.cpu c).thread.proc?)
    (elsewhere : Elsewhere machine c callers thread other)
    (level : 0 < other.level) (awake : ∀ state, ¬ other.Rests state) :
    .proc q ∉ other.held thread.proc? := by
  intro again
  have member := elsewhere.mem top
  obtain ⟨r, same, ⟨rfl, parked⟩ | ⟨d, rfl, waiting⟩⟩ := owned.excludes top held elsewhere again
  · obtain ⟨first, rest, shape, rests, none⟩ := slots.parked owned parked
    rw [shape] at member
    rcases List.mem_cons.mp member with rfl | below
    · exact awake _ rests
    · rw [show (Thread.process r).proc? = some r from rfl, none other below] at again
      cases again
  · rw [scheduler_level owned member] at level
    cases level

theorem Slots.claim_apart (held : .proc q ∈ frame.held (machine.cpu c).thread.proc?)
    (elsewhere : Elsewhere machine c callers thread other) (claimed : other.claim? = some claim) :
    .proc q ∉ other.held thread.proc? := by
  refine slots.lock_apart owned top held elsewhere ?_ ?_
  · rw [Frame.claim_level claimed]
    decide
  · intro state rests
    rw [rests.claim] at claimed
    cases claimed

omit slots in
/-- A process that runs on another CPU does not hold its own lock while somebody
else does. -/
theorem running_quiet (held : .proc p ∈ frame.held (machine.cpu c).thread.proc?)
    (running : (machine.cpu d).thread = .process p)
    (differs : (machine.cpu c).thread ≠ .process p) :
    (topMode (machine.stack (.process p))).Quiet := by
  cases stack : machine.stack (.process p) with
  | nil => trivial
  | cons first rest =>
    rcases first.quiet_or_held p with quiet | own
    · exact quiet
    · have mine : machine.owner (.proc p) = some c := (owned.owns c _).mpr (mem_heldOn top held)
      have theirs : machine.owner (.proc p) = some d := by
        refine (owned.owns d _).mpr ?_
        refine mem_heldOn (by rw [Machine.At, running, stack]) ?_
        rw [running]
        exact own
      rw [mine] at theirs
      cases theirs
      exact absurd running differs

/-- An assignment leaves the state of a process on another CPU alone. -/
theorem Slots.running_same {d : Nat} {after : Frame} {old new : ProcState}
    (changed : StateChange (machine.cpu c).thread.proc? frame after p old new)
    (isOld : (machine.shared.proc p).state = old) (running : (machine.cpu d).thread = .process p)
    (differs : (machine.cpu c).thread ≠ .process p) : new = old := by
  have state := slots.running d p running
  have quiet (held : .proc p ∈ frame.held (machine.cpu c).thread.proc?) :
      (machine.shared.proc p).state = .running := by
    rw [state]
    exact (running_quiet owned top held running differs).state
  have claims {claim : ProcState} (claimed : frame.claim? = some (p, claim)) :
      (machine.shared.proc p).state = claim :=
    slots.claims _ frame (top ▸ List.mem_cons_self) p claim claimed
  cases changed with
  | same => rfl
  | own isMe before => exact absurd (Thread.eq_process isMe) differs
  | wake held | dispatch held =>
    have isRunning := quiet held
    rw [isOld] at isRunning
    cases isRunning
  | publish claimed held unclaimed =>
    have isRunning := quiet held
    rw [claims claimed] at isRunning
    cases isRunning
  | free claimed notUnused held unclaimed =>
    have isRunning := quiet held
    rw [claims claimed] at isRunning
    rcases Frame.claim_state claimed with rfl | rfl | rfl <;> cases isRunning

/-- A slot whose lock is held by a frame that relies on it has no CPU. -/
theorem Slots.claimed_parked {state : ProcState} (claimed : frame.claim? = some (q, state))
    (held : .proc q ∈ frame.held (machine.cpu c).thread.proc?) : Owned.Parked machine q := by
  intro d running
  have isState := slots.claims _ frame (top ▸ List.mem_cons_self) q state claimed
  have isRunning : (machine.shared.proc q).state = .running := by
    by_cases current : (machine.cpu c).thread = .process q
    · rw [slots.running c q current, ← current, top]
      exact congrArg Mode.state (Frame.claim_mode claimed)
    · rw [slots.running d q running]
      exact (running_quiet owned top held running current).state
  rw [isState] at isRunning
  rcases Frame.claim_state claimed with rfl | rfl | rfl <;> cases isRunning

end Exclusion

/-- A change of the shared state that does not disturb process `q`: if it runs,
its state is the same, and if not, it still rests where its state says. -/
structure Undisturbed (machine : State) (shared : Shared) (q : Nat) : Prop where
  running : ∀ d, (machine.cpu d).thread = .process q →
    (shared.proc q).state = (machine.shared.proc q).state
  chan : (shared.proc q).chan = (machine.shared.proc q).chan
  resting : ∀ frame : Frame, Owned.Parked machine q → frame.Rests (machine.shared.proc q).state →
    frame.Rests (shared.proc q).state

theorem Undisturbed.refl (q : Nat) : Undisturbed machine machine.shared q :=
  ⟨fun _ _ => rfl, rfl, fun _ _ rests => rests⟩

theorem Slots.undisturbed (owned : Owned kernel discipline machine) (slots : Slots machine)
    (top : machine.At c frame callers) {change : Update} {after : Frame}
    (makes : Makes (machine.cpu c).thread.proc? machine.shared frame change after)
    (differs : (machine.cpu c).thread ≠ .process q) :
    Undisturbed machine (change.apply machine.shared) q := by
  have changed := makes.state q
  have claims {claim : ProcState} (claimed : frame.claim? = some (q, claim)) :
      (machine.shared.proc q).state = claim :=
    slots.claims _ frame (top ▸ List.mem_cons_self) q claim claimed
  have notMe : (machine.cpu c).thread.proc? ≠ some q := fun isMe => differs (Thread.eq_process isMe)
  refine ⟨?_, ?_, ?_⟩
  · intro d running
    exact slots.running_same owned top changed rfl running differs
  · rcases (Assigns.makes makes).chan q with same | isMe | ⟨freed, gone⟩
    · exact same
    · exact absurd isMe notMe
    · obtain ⟨claim, claimed, notUnused, held⟩ := (Assigns.makes makes).free freed
      rw [gone, slots.chans q]
      by_cases parked : Owned.Parked machine q
      · obtain ⟨first, rest, shape, rests⟩ := slots.resting q parked
        rw [shape]
        rw [claims claimed] at rests
        rcases Frame.claim_state claimed with rfl | rfl | rfl <;> cases rests <;> rfl
      · simp only [Owned.Parked, not_forall, not_not] at parked
        obtain ⟨d, running⟩ := parked
        exact (running_quiet owned top held running differs).chan.symm
  · intro first parked rests
    generalize isOld : (machine.shared.proc q).state = old at changed rests
    generalize ((change.apply machine.shared).proc q).state = new at changed
    cases changed with
    | same => exact rests
    | own isMe before => exact absurd isMe notMe
    | wake held =>
      cases rests with
      | asleep chan lk => exact .woken chan lk
    | dispatch held => cases rests <;> constructor
    | publish claimed held unclaimed =>
      rw [← isOld, claims claimed] at rests
      cases rests with
      | new => exact .published
    | free claimed notUnused held unclaimed =>
      rw [← isOld, claims claimed] at rests
      rcases Frame.claim_state claimed with rfl | rfl | rfl
      · exact absurd rfl notUnused
      · cases rests with
        | new => exact .unborn
      · cases rests with
        | dead status => exact .freed status

/-- The changes of the state of a process. -/
inductive Advances : ProcState → ProcState → Prop where
  | allocate : Advances .unused .used
  | publish : Advances .used .runnable
  | dispatch : Advances .runnable .running
  | yield : Advances .running .runnable
  | sleep : Advances .running .sleeping
  | exit : Advances .running .zombie
  | wake : Advances .sleeping .runnable
  | reap : Advances .zombie .unused
  | abandon : Advances .used .unused

section Assignments

variable (slots : Slots machine) (top : machine.At c frame callers)
  (assigns : Assigns (machine.cpu c).thread.proc? machine.shared frame change after)

include slots top assigns

/-- Every assignment keeps the state of a process or advances it. -/
theorem Slots.advances (q : Nat) : ((change.apply machine.shared).proc q).state =
        (machine.shared.proc q).state ∨
      Advances (machine.shared.proc q).state ((change.apply machine.shared).proc q).state := by
  have claims {claim : ProcState} (claimed : frame.claim? = some (q, claim)) :
      (machine.shared.proc q).state = claim :=
    slots.claims _ frame (top ▸ List.mem_cons_self) q claim claimed
  cases assigns with
  | @allocproc np pid =>
    by_cases same : q = np
    · subst same
      rw [Update.apply_target rfl, claims rfl]
      exact .inr .allocate
    · rw [Update.apply_of_ne (by simpa [Update.target?] using Ne.symm same)]
      exact .inl rfl
  | makes makes =>
    have changed := makes.state q
    generalize isOld : (machine.shared.proc q).state = old at changed claims
    generalize ((change.apply machine.shared).proc q).state = new at changed
    cases changed with
    | same => exact .inl rfl
    | own isMe before =>
      have running := slots.running c q (Thread.eq_process isMe)
      rw [isOld, ← Thread.eq_process isMe, top] at running
      change old = frame.mode.state at running
      rw [running, before]
      cases after.mode with
      | asleep chan => exact .inr .sleep
      | yielding => exact .inr .yield
      | dying => exact .inr .exit
      | _ => exact .inl rfl
    | wake held => exact .inr .wake
    | dispatch held => exact .inr .dispatch
    | publish claimed held unclaimed =>
      rw [claims claimed]
      exact .inr .publish
    | free claimed notUnused held unclaimed =>
      rw [claims claimed]
      rcases Frame.claim_state claimed with rfl | rfl | rfl
      · exact absurd rfl notUnused
      · exact .inr .abandon
      · exact .inr .reap

/-- Free slots and zombies stay what they are, unless they are allocated or
freed. -/
theorem Slots.kept (isState : (machine.shared.proc q).state = .unused ∨
      (machine.shared.proc q).state = .zombie) :
    ((change.apply machine.shared).proc q).state = (machine.shared.proc q).state ∨
      change = .freeproc q ∨ ∃ pid, change = .allocproc q pid := by
  rcases slots.advances top assigns q with same | advances
  · exact .inl same
  · have sets := Update.apply_state change machine.shared q
    generalize (machine.shared.proc q).state = old at *
    generalize ((change.apply machine.shared).proc q).state = new at *
    rcases isState with rfl | rfl
    · cases advances with
      | allocate =>
        rcases sets with same | sets
        · cases same
        · cases sets with
          | allocproc pid => exact .inr (.inr ⟨pid, rfl⟩)
    · cases advances with
      | reap =>
        rcases sets with same | sets
        · cases same
        · cases sets with
          | freeproc => exact .inr (.inl rfl)

/-- The pid of a slot is changed by somebody who relies on it and holds its
lock. -/
theorem Slots.pid_or_claimed (owned : Owned kernel discipline machine) (q : Nat) :
    ((change.apply machine.shared).proc q).birth = (machine.shared.proc q).birth ∨
      Owned.Parked machine q ∧ ∃ state, frame.claim? = some (q, state) ∧
        (machine.shared.proc q).state = state ∧
        .proc q ∈ frame.held (machine.cpu c).thread.proc? := by
  have claimed {state : ProcState} (claimed : frame.claim? = some (q, state))
      (held : .proc q ∈ frame.held (machine.cpu c).thread.proc?) :
      Owned.Parked machine q ∧ ∃ state, frame.claim? = some (q, state) ∧
        (machine.shared.proc q).state = state ∧
        .proc q ∈ frame.held (machine.cpu c).thread.proc? :=
    ⟨slots.claimed_parked owned top claimed held, state, claimed,
      slots.claims _ frame (top ▸ List.mem_cons_self) q state claimed, held⟩
  rcases Update.apply_pid change machine.shared q with same | freed | ⟨pid, rfl⟩
  · exact .inl same
  · obtain ⟨state, isClaim, _, held⟩ := assigns.free freed
    exact .inr (claimed isClaim held)
  · cases assigns with
    | makes makes => cases makes
    | allocproc => exact .inr (claimed rfl List.mem_cons_self)

/-- Pids change only in slots without a CPU. -/
theorem Slots.pid_kept (owned : Owned kernel discipline machine)
    (running : ¬ Owned.Parked machine q) :
    ((change.apply machine.shared).proc q).birth = (machine.shared.proc q).birth :=
  (slots.pid_or_claimed top assigns owned q).resolve_right fun claimed => running claimed.1

end Assignments

end Xv6KernelEvent.Process
