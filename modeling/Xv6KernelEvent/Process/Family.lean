import Xv6KernelEvent.Process.Pids

/-!
# Parents and children

A parent is alive: `kexit` gives all its children to `init` before it becomes a
zombie.  Until then the exiting process holds `wait_lock`, so whoever takes the
lock finds every child with its creator, or with `init` once the creator has
exited.
-/

namespace Xv6KernelEvent.Process

open SpinThreads

theorem KexitPc.Leaving.held {pc : KexitPc} {me : Option Nat} (leaving : pc.Leaving) :
    .wait ∈ pc.held me := by
  cases pc <;> first
    | cases leaving; done
    | exact List.mem_cons_self
    | exact List.mem_append_right _ List.mem_cons_self

/-- The last part of `kexit` goes on until the process is a zombie. -/
theorem kexit_leaving (leaving : pc.Leaving) (coded : kexit p pc status shared = some act) :
    (∃ pc', .kexit pc' status ∈ act.fresh kernel callers ∧ pc'.Leaving) ∨
      act = .update (.exit p status) (.kexit .unlockWait status) := by
  cases pc <;> simp only [kexit] at coded
  all_goals first
    | cases leaving
      done
    | repeat' split at coded
  all_goals cases coded
  all_goals first
    | exact .inl ⟨_, List.mem_cons_self, trivial⟩
    | exact .inl ⟨_, List.mem_cons_of_mem _ List.mem_cons_self, trivial⟩
    | exact .inr rfl

theorem ProcState.Alive.used {state : ProcState} (alive : state.Alive) : state ≠ .unused := by
  rintro rfl
  exact alive

section Points

theorem Assigns.adopts (assigns : Assigns me shared frame (.adopt q p) after) :
    me = some p ∧ ∃ pid, frame = .kfork (.adopt q pid) ∧ after = .kfork (.unlockWait q pid) := by
  cases assigns with
  | makes makes =>
    cases makes with
    | adopt running => exact ⟨running, _, rfl, rfl⟩

theorem Assigns.reparents (assigns : Assigns me shared frame (.reparent q) after) :
    ∃ p status, me = some p ∧ (shared.proc q).parent = some p ∧
      frame = .kexit (.reparent q) status ∧
      after = .kexit (.wakeInit q) status := by
  cases assigns with
  | makes makes =>
    cases makes with
    | reparent running mine => exact ⟨_, _, running, mine, rfl, rfl⟩

end Points

section Step

variable (sane : Sane machine)

include sane

/-- A process in the last part of `kexit` is on a CPU. -/
theorem Sane.leaving_running {p : Nat} {pc : KexitPc} {status : Int}
    (member : .kexit pc status ∈ machine.stack (.process p))
    (leaving : pc.Leaving) : ¬ Owned.Parked machine p := by
  intro parked
  have held : Lock.wait ∈ discipline.stackHeld (some p) (machine.stack (.process p)) :=
    List.mem_flatMap.mpr ⟨_, member, leaving.held⟩
  rw [sane.owned.parked p parked] at held
  cases List.mem_singleton.mp held

/-- The other threads keep their stacks, except that of a new process. -/
theorem Sane.beside (top : machine.At c frame callers)
    (flows : Flows (machine.cpu c).thread.proc? machine.shared frame act)
    (moves : Moves kernel machine c callers next act) (differs : thread ≠ (machine.cpu c).thread) :
    next.stack thread = machine.stack thread ∨
      ∃ np, thread = .process np ∧ Owned.Parked machine np ∧
        (machine.shared.proc np).state = .unused ∧ next.stack thread = [.forkret .release] := by
  rcases act.spawns_or thread with ⟨np, first, change, after, rfl, rfl⟩ | notNew
  · have parked := sane.slots.target_parked sane.owned top flows rfl
    obtain ⟨rfl, pid, rfl, rfl, rfl⟩ := flows
    have isUnused := sane.slots.claims _ _ top.mem np .unused rfl
    exact .inr ⟨np, rfl, parked, isUnused, moves.spawned⟩
  · exact .inl (moves.beside notNew differs)

section

variable (transition : Transition machine c input next)

include transition

theorem Sane.beside_step (differs : thread ≠ (machine.cpu c).thread) :
    next.stack thread = machine.stack thread ∨
      ∃ np, thread = .process np ∧ Owned.Parked machine np ∧
        (machine.shared.proc np).state = .unused ∧ next.stack thread = [.forkret .release] := by
  cases transition with
  | halt reason => exact .inl rfl
  | enter first unlocked quiet moved =>
    rw [moved.stacked, Function.update_of_ne differs]
    exact .inl rfl
  | act frame callers act top coded follows flows moves =>
    exact sane.beside top flows moves differs

/-- What becomes of a frame: it stays, it is resumed, it acts, or its thread makes
room for a new process. -/
theorem Sane.frame_kept (member : frame ∈ machine.stack thread) :
    frame ∈ next.stack thread ∨ (∃ value, resume frame value ∈ next.stack thread) ∨
      (∃ callers act, thread = (machine.cpu c).thread ∧ machine.stack thread = frame :: callers ∧
        code thread.proc? frame machine.shared input = some act ∧
        Moves kernel machine c callers next act ∧
        ∀ other ∈ act.fresh kernel callers, other ∈ next.stack thread) ∨
      ∃ np, thread = .process np ∧ Owned.Parked machine np ∧
        (machine.shared.proc np).state = .unused := by
  by_cases current : thread = (machine.cpu c).thread
  · cases transition with
    | halt reason => exact .inl member
    | enter first unlocked quiet moved =>
      rw [moved.stacked, current, Function.update_self]
      exact .inl (List.mem_cons_of_mem _ (current ▸ member))
    | act first callers act top coded follows flows moves =>
      have notNew (np : Nat) (first : Frame) (change : Update) (after : Frame)
          (spawned : act = .spawn np first change after) : thread ≠ .process np := by
        subst spawned
        exact fun same =>
          sane.slots.target_parked sane.owned top flows rfl c (current.symm.trans same)
      rw [current, top] at member
      rcases List.mem_cons.mp member with rfl | below
      · refine .inr (.inr (.inl ⟨callers, act, current, ?_, ?_, moves, ?_⟩))
        · rw [current]
          exact top
        · rw [current]
          exact coded
        · intro other isFresh
          exact moves.fresh_mem notNew current isFresh
      · rcases moves.caller_mem notNew current below with
          kept | ⟨value, _, resumed⟩
        · exact .inl kept
        · exact .inr (.inl ⟨value, resumed⟩)
  · rcases sane.beside_step transition current with
      same | ⟨np, isNew, parked, isUnused, _⟩
    · rw [same]
      exact .inl member
    · exact .inr (.inr (.inr ⟨np, isNew, parked, isUnused⟩))

/-- The last part of `kexit` is not left before the process is a zombie. -/
theorem Sane.leaving_kept (member : .kexit pc status ∈ machine.stack (.process p))
    (leaving : pc.Leaving) :
    (∃ pc', .kexit pc' status ∈ next.stack (.process p) ∧ pc'.Leaving) ∨
      ((machine.shared.proc p).birth, status) ∈ next.shared.exits := by
  rcases sane.frame_kept transition member with
    kept | ⟨value, resumed⟩ | ⟨callers, act, current, top, coded, moves, fresh⟩ |
      ⟨np, isNew, parked, _⟩
  · exact .inl ⟨pc, kept, leaving⟩
  · exact .inl ⟨pc, resumed, leaving⟩
  · rcases kexit_leaving leaving coded with ⟨pc', isFresh, leaves⟩ | rfl
    · exact .inl ⟨pc', fresh _ isFresh, leaves⟩
    · right
      cases moves with
      | advance _ after isAfter moved => cases isAfter
      | update _ _ moved =>
        rw [moved.shared]
        exact List.mem_append_right _ List.mem_cons_self
  · cases isNew
    exact absurd parked (sane.leaving_running member leaving)

theorem Sane.pid_kept (running : ¬ Owned.Parked machine q) :
    (next.shared.proc q).birth = (machine.shared.proc q).birth := by
  exact transition.assigned rfl fun _ _ _ _ top assigns =>
    sane.slots.pid_kept top assigns sane.owned running

end

omit sane in
theorem Transition.forks (transition : Transition machine c input next)
    (member : fork ∈ machine.shared.forks) : fork ∈ next.shared.forks := by
  exact transition.assigned member fun _ _ _ _ _ _ => Update.apply_forks member

/-- A creator that has given a child away stays until it is a zombie. -/
theorem Leaves.step (transition : Transition machine c input next) (leaves : Leaves machine pid) :
    Leaves next pid ∨ ∃ creator status, (creator, pid) ∈ next.shared.forks ∧
        (creator, status) ∈ next.shared.exits := by
  obtain ⟨p, pc, status, forked, member, leaving⟩ := leaves
  have kept := transition.forks forked
  rcases sane.leaving_kept transition member leaving with
    ⟨pc', stays, leaves⟩ | exited
  · left
    refine ⟨p, pc', status, ?_, stays, leaves⟩
    rw [sane.pid_kept transition (sane.leaving_running member leaving)]
    exact kept
  · exact .inr ⟨_, status, kept, exited⟩

section Assigned

variable (top : machine.At c frame callers)
  (assigns : Assigns (machine.cpu c).thread.proc? machine.shared frame change after)

include top assigns

theorem Family.unborn_step (isUnused : ((change.apply machine.shared).proc q).state = .unused) :
    ((change.apply machine.shared).proc q).parent = none ∧
      ((change.apply machine.shared).proc q).xstate = 0 := by
  have member := top.mem
  by_cases free : change = .freeproc q
  · subst free
    rw [Update.apply_target rfl]
    exact ⟨rfl, rfl⟩
  · have before := (Update.apply_unused isUnused).resolve_right free
    obtain ⟨orphan, zero⟩ := sane.family.unborn q before
    constructor
    · rcases Update.apply_parent change machine.shared q with
        same | ⟨freed, _⟩ | ⟨p, rfl⟩ | rfl
      · exact same.trans orphan
      · exact absurd freed free
      · obtain ⟨_, pid, rfl, _⟩ := assigns.adopts
        have isUsed := sane.slots.claims _ _ member q .used rfl
        rw [before] at isUsed
        cases isUsed
      · obtain ⟨p, status, _, mine, _⟩ := assigns.reparents
        rw [orphan] at mine
        cases mine
    · rcases Update.apply_xstate change machine.shared q with
        same | freed | ⟨status, rfl⟩
      · exact same.trans zero
      · exact absurd freed free
      · obtain ⟨running, isExit, _⟩ := assigns.exits
        have isRunning := sane.exiting top running isExit
        rw [before] at isRunning
        cases isRunning

/-- A process that is alive stays so, unless it exits. -/
theorem Sane.alive_or_exit (alive : (machine.shared.proc q).state.Alive) :
    ((change.apply machine.shared).proc q).state.Alive ∨ ∃ status, change = .exit q status := by
  rcases sane.slots.advances top assigns q with same | advances
  · rw [same]
    exact .inl alive
  · by_cases zombie : ((change.apply machine.shared).proc q).state = .zombie
    · rcases Update.apply_zombie zombie with before | exits
      · rw [before] at alive
        cases alive
      · exact .inr exits
    · generalize (machine.shared.proc q).state = old at alive advances
      generalize ((change.apply machine.shared).proc q).state = new
        at zombie advances
      left
      cases advances <;> trivial

/-- `init` and the parents of others do not exit. -/
theorem Sane.alive_step (alive : (machine.shared.proc p).state.Alive)
    (needed : p = machine.shared.initproc ∨ ∃ q, (machine.shared.proc q).parent = some p) :
    ((change.apply machine.shared).proc p).state.Alive := by
  rcases sane.alive_or_exit top assigns alive with stays | ⟨status, rfl⟩
  · exact stays
  · obtain ⟨running, rfl, _⟩ := assigns.exits
    have member := top.mem
    obtain ⟨notInit, noChild⟩ := sane.stands _ _ member p running
    rcases needed with isInit | ⟨q, isChild⟩
    · exact absurd isInit notInit
    · exact absurd isChild (noChild q (sane.family.inRange q p isChild))

theorem Family.inRange_step (isChild : ((change.apply machine.shared).proc q).parent = some p) :
    q < NPROC := by
  rcases Update.apply_parent change machine.shared q with
    same | ⟨_, gone⟩ | ⟨np, rfl⟩ | rfl
  · exact sane.family.inRange q p (same.symm.trans isChild)
  · rw [gone] at isChild
    cases isChild
  · obtain ⟨_, pid, rfl, _⟩ := assigns.adopts
    have fits : Fits _ _ _ := (sane.owned.nested_top top).1
    exact fits.room.2 q rfl
  · obtain ⟨parent, status, _, mine, _⟩ := assigns.reparents
    exact sane.family.inRange q parent mine

theorem Family.parents_step (isChild : ((change.apply machine.shared).proc q).parent = some p) :
    ((change.apply machine.shared).proc p).state.Alive := by
  rcases Update.apply_parent change machine.shared q with
    same | ⟨_, gone⟩ | ⟨creator, rfl⟩ | rfl
  · have before := same.symm.trans isChild
    exact sane.alive_step top assigns (sane.family.parents q p before) (.inr ⟨q, before⟩)
  · rw [gone] at isChild
    cases isChild
  · obtain ⟨running, pid, rfl, _⟩ := assigns.adopts
    rw [Update.apply_target rfl] at isChild
    obtain rfl := Option.some.inj isChild
    have current := Thread.eq_process running
    have alive : (machine.shared.proc creator).state.Alive := by
      rw [sane.slots.running c creator current, ← current, top]
      trivial
    rcases sane.alive_or_exit top assigns alive with stays | ⟨status, isExit⟩
    · exact stays
    · cases isExit
  · rw [Update.apply_target rfl] at isChild
    cases isChild
    exact sane.alive_step top assigns sane.family.init (.inl rfl)

omit top assigns in
theorem Family.zombies_step (zombie : ((change.apply machine.shared).proc q).state = .zombie) :
    (((change.apply machine.shared).proc q).birth, ((change.apply machine.shared).proc q).xstate) ∈
      (change.apply machine.shared).exits := by
  by_cases exits : ∃ status, change = .exit q status
  · obtain ⟨status, rfl⟩ := exits
    rw [Update.apply_target rfl]
    exact List.mem_append_right _ List.mem_cons_self
  · have before := (Update.apply_zombie zombie).resolve_right exits
    have notFreed : change ≠ .freeproc q := by
      rintro rfl
      rw [Update.apply_target rfl] at zombie
      cases zombie
    have samePid : ((change.apply machine.shared).proc q).birth =
        (machine.shared.proc q).birth := by
      rcases Update.apply_pid change machine.shared q with
        same | freed | ⟨pid, rfl⟩
      · exact same
      · exact absurd freed notFreed
      · rw [Update.apply_target rfl] at zombie
        cases zombie
    have sameStatus : ((change.apply machine.shared).proc q).xstate =
        (machine.shared.proc q).xstate := by
      rcases Update.apply_xstate change machine.shared q with
        same | freed | exited
      · exact same
      · exact absurd freed notFreed
      · exact absurd exited exits
    rw [samePid, sameStatus]
    exact Update.apply_exits (sane.family.zombies q before)

/-- Slots with a parent and parents keep their pids. -/
theorem Sane.pid_of_used (used : (machine.shared.proc q).state ≠ .unused)
    (kept : ((change.apply machine.shared).proc q).state ≠ .unused) :
    ((change.apply machine.shared).proc q).birth = (machine.shared.proc q).birth := by
  cases sane.pidChange top assigns q with
  | kept pid _ => exact pid
  | freed free zero isUnused => exact absurd isUnused kept
  | named pid alloc isPid isUsed owned fresh =>
    subst alloc
    obtain ⟨rfl, _⟩ := assigns.alloc
    exact absurd (sane.slots.claims _ _ top.mem q .unused rfl) used

end Assigned

theorem Family.lineage_step (transition : Transition machine c input next) {p : Nat}
    (isChild : (next.shared.proc q).parent = some p) :
    Lineage next.shared p (next.shared.proc q).birth ∨
      p = next.shared.initproc ∧ Leaves next (next.shared.proc q).birth := by
  have left (isInit : p = next.shared.initproc)
      (leaves : Leaves machine (next.shared.proc q).birth) :
      Lineage next.shared p (next.shared.proc q).birth ∨
        p = next.shared.initproc ∧ Leaves next (next.shared.proc q).birth := by
    rcases leaves.step sane transition with stays | ⟨creator, status, forked, exited⟩
    · exact .inr ⟨isInit, stays⟩
    · exact .inl ⟨creator, forked, .inr ⟨isInit, status, exited⟩⟩
  rcases transition.effect with
    same | ⟨frame, callers, change, after, top, assigns, shared⟩
  · rw [same] at isChild left ⊢
    rcases sane.family.lineage q p isChild with lineage | ⟨isInit, leaves⟩
    · exact .inl lineage
    · exact left isInit leaves
  · rw [shared] at isChild left ⊢
    have used : ((change.apply machine.shared).proc q).state ≠ .unused := by
      intro isUnused
      rw [(Family.unborn_step sane top assigns isUnused).1] at isChild
      cases isChild
    have alive := Family.parents_step sane top assigns isChild
    have samePid {r : Nat} (notFreed : change ≠ .freeproc r)
        (notNamed : ∀ pid, change ≠ .allocproc r pid) :
        ((change.apply machine.shared).proc r).birth = (machine.shared.proc r).birth := by
      rcases Update.apply_pid change machine.shared r with
        same | freed | ⟨pid, named⟩
      · exact same
      · exact absurd freed notFreed
      · exact absurd named (notNamed pid)
    rcases Update.apply_parent change machine.shared q with
      same | ⟨_, gone⟩ | ⟨creator, rfl⟩ | rfl
    · have before := same.symm.trans isChild
      have wasUsed : (machine.shared.proc q).state ≠ .unused := by
        intro isUnused
        rw [(sane.family.unborn q isUnused).1] at before
        cases before
      rw [sane.pid_of_used top assigns wasUsed used] at left ⊢
      rcases sane.family.lineage q p before with lineage | ⟨isInit, leaves⟩
      · have wasAlive := (sane.family.parents q p before).used
        exact .inl (lineage.apply (sane.pid_of_used top assigns wasAlive alive.used))
      · exact left (by simpa using isInit) leaves
    · rw [gone] at isChild
      cases isChild
    · obtain ⟨_, pid, rfl, _⟩ := assigns.adopts
      rw [Update.apply_target rfl] at isChild
      obtain rfl := Option.some.inj isChild
      refine .inl ⟨(machine.shared.proc creator).birth, ?_, .inl ?_⟩
      · rw [samePid (by simp) (by simp)]
        exact List.mem_append_right _ List.mem_cons_self
      · exact samePid (by simp) (by simp)
    · obtain ⟨parent, status, running, mine, rfl, _⟩ := assigns.reparents
      rw [Update.apply_target rfl] at isChild
      cases isChild
      have member := top.mem
      have notInit := (sane.stands _ _ member parent running).1
      rw [Thread.eq_process running] at member
      rw [samePid (by simp) (by simp)] at left ⊢
      rcases sane.family.lineage q parent mine with
        ⟨creator, forked, isCreator | ⟨isInit, _⟩⟩ | ⟨isInit, _⟩
      · refine left rfl ⟨parent, .reparent q, status, ?_, member, trivial⟩
        rw [isCreator]
        exact forked
      · exact absurd isInit notInit
      · exact absurd isInit notInit

theorem Family.step (transition : Transition machine c input next) : Family next := by
  have family := sane.family
  have lineage := fun q p => Family.lineage_step sane transition (q := q) (p := p)
  rcases transition.effect with
    same | ⟨frame, callers, change, after, top, assigns, shared⟩
  · exact ⟨same ▸ family.unborn, same ▸ family.init, same ▸ family.inRange,
      same ▸ family.parents, lineage, same ▸ family.zombies⟩
  · refine ⟨?_, ?_, ?_, ?_, lineage, ?_⟩
    all_goals rw [shared]
    · exact fun q => Family.unborn_step sane top assigns
    · rw [Update.apply_initproc]
      exact sane.alive_step top assigns family.init (.inl rfl)
    · exact fun q p => Family.inRange_step sane top assigns
    · exact fun q p => Family.parents_step sane top assigns
    · exact fun q => Family.zombies_step sane

end Step

end Xv6KernelEvent.Process
