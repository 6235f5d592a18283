import Xv6KernelEvent.Process.Claims

/-!
# Who has the sleep locks

Calls and returns hand resources from one frame of a thread to another; only
assignments change what a thread owns.  A sleep lock is taken when it is free,
so at most one thread has it.
-/

namespace Xv6KernelEvent.Process

open SpinThreads

variable {frame after : Frame}

/-- What a step does to the resources of the threads. -/
inductive Handover (machine next : State) (c : Nat) : Prop where
  | quiet (shared : next.shared = machine.shared)
      (owns : ∀ thread, (threadOwns next thread).Perm (threadOwns machine thread))
  | assigns {frame after : Frame} {callers : List Frame} {change : Update}
      (top : machine.At c frame callers)
      (assigns : Assigns (machine.cpu c).thread.proc? machine.shared frame change after)
      (shared : next.shared = change.apply machine.shared)
      (others : ∀ thread, thread ≠ (machine.cpu c).thread →
        threadOwns next thread = threadOwns machine thread)
      (here : threadOwns next (machine.cpu c).thread = after.owns ++ callers.flatMap Frame.owns)

theorem threadOwns_top (top : machine.At c frame callers) :
    threadOwns machine (machine.cpu c).thread = frame.owns ++ callers.flatMap Frame.owns := by
  rw [threadOwns, top, List.flatMap_cons]

theorem mem_threadOwns (member : frame ∈ machine.stack thread)
    (owns : resource ∈ frame.owns) : resource ∈ threadOwns machine thread :=
  List.mem_flatMap.mpr ⟨frame, member, owns⟩

theorem threadOwns_update (stacked : next.stack = Function.update machine.stack thread stack) :
    threadOwns next thread = stack.flatMap Frame.owns ∧ ∀ other, other ≠ thread →
        threadOwns next other = threadOwns machine other := by
  refine ⟨?_, ?_⟩
  · rw [threadOwns, stacked, Function.update_self]
  · intro other differs
    rw [threadOwns, stacked, Function.update_of_ne differs]
    rfl

theorem Handover.of_restack (shared : next.shared = machine.shared) (stacked : next.stack =
      Function.update machine.stack (machine.cpu c).thread stack)
    (same : (stack.flatMap Frame.owns).Perm (threadOwns machine (machine.cpu c).thread)) :
    Handover machine next c := by
  refine .quiet shared ?_
  intro thread
  obtain ⟨here, others⟩ := threadOwns_update stacked
  by_cases current : thread = (machine.cpu c).thread
  · rw [current, here]
    exact same
  · rw [others thread current]

/-- A caller that is resumed has what it waited for. -/
theorem resume_owns (frame : Frame) (value : Int) :
    (resume frame value).owns.Perm (frame.wants.yields value ++ frame.owns) := by
  cases frame with
  | kqueueWait pc | kfork pc | acquiresleep pc lock | iput pc i | «section» pc n sleeps
  | sysWrite pc pipe | usertrap pc => cases pc <;> rfl
  | kwait pc addr | pause pc n | piperead pc i n | pipewrite pc i n | consoleread pc target =>
    cases pc <;> simp only [resume] <;> (try split) <;> rfl
  | fs outer refs locks pending =>
    cases pending with
    | none => rfl
    | some op =>
      cases op with
      | lock lock => exact List.perm_middle
      | _ => rfl
  | _ => rfl

theorem owns_of_level (high : 6 < frame.level) : frame.owns = [] := by
  cases frame with
  | usertrap pc | forkret pc => rfl
  | fs outer refs locks pending => cases outer <;> simp [Frame.level] at high
  | _ => simp [Frame.level] at high

section Step

variable (owned : Owned kernel discipline machine) (slots : Slots machine)

include owned slots

/-- A slot that is not used has a stack that owns nothing. -/
theorem threadOwns_unused (isUnused : (machine.shared.proc p).state = .unused) :
    threadOwns machine (.process p) = [] := by
  have parked : Owned.Parked machine p := by
    intro d running
    have state := slots.running d p running
    rw [isUnused] at state
    exact (Mode.state_ne _).1 state.symm
  obtain ⟨first, rest, shape, rests⟩ := slots.resting p parked
  have nested := owned.nested (.process p)
  rw [shape] at nested
  have fits : Fits (some p) first rest := nested.1
  have level : 6 ≤ first.level ∧ first.owns = [] := by
    rw [isUnused] at rests
    cases rests <;> exact ⟨by simp [Frame.level], rfl⟩
  rw [threadOwns, shape, List.flatMap_cons, level.2, List.nil_append, List.flatMap_eq_nil_iff]
  intro caller member
  have lower := fits.below (by omega) caller member
  exact owns_of_level (by omega)

theorem Transition.handover (transition : Transition machine c input next) :
    Handover machine next c := by
  cases transition with
  | halt reason => exact .quiet rfl fun _ => .refl _
  | enter first unlocked quiet moved =>
    refine .of_restack moved.shared moved.stacked ?_
    rw [List.flatMap_cons, quiet.owns]
    exact .refl _
  | act frame callers act top coded follows flows moves =>
    have whole := threadOwns_top top
    cases moves with
    | update change after moved =>
      obtain ⟨here, others⟩ := threadOwns_update moved.stacked
      exact .assigns top (.makes flows) moved.shared others here
    | advance _ after isAfter moved =>
      have same : after.owns = frame.owns := by
        obtain tame | ⟨chan, lock, rfl, rfl⟩ := flows.advance isAfter
        · exact tame.owns
        · rfl
      refine .of_restack moved.shared moved.stacked ?_
      rw [whole, List.flatMap_cons, same]
    | call callee after moved =>
      obtain ⟨_, _, owns, _⟩ := flows
      refine .of_restack moved.shared moved.stacked ?_
      rw [whole, List.flatMap_cons, List.flatMap_cons, ← List.append_assoc]
      exact owns.append_right _
    | ret value caller rest shape moved =>
      subst shape
      obtain ⟨_, called, _⟩ := owned.nested_top top
      obtain ⟨_, _, isCaller, _, gives⟩ := called follows.sound.2
      cases isCaller
      replace gives : frame.gives = caller.wants := gives
      refine .of_restack moved.shared moved.stacked ?_
      rw [whole, List.flatMap_cons, List.flatMap_cons, flows.2, gives, ← List.append_assoc]
      exact (resume_owns caller value).append_right _
    | leave moved =>
      refine .of_restack moved.shared moved.stacked ?_
      rw [whole, flows.2]
      exact .refl _
    | sched p after running moved =>
      refine .of_restack moved.shared moved.stacked ?_
      rw [whole, List.flatMap_cons, flows.1]
    | swtch p after idle moved =>
      obtain ⟨_, rfl, rfl⟩ := flows
      refine .of_restack moved.shared moved.stacked ?_
      rw [whole]
      exact .refl _
    | spawn np first change after shared stacked threads =>
      have parked := slots.target_parked owned top flows rfl
      obtain ⟨rfl, pid, rfl, rfl, rfl⟩ := flows
      have isUnused := slots.claims _ _ top.mem np .unused rfl
      refine .assigns top .allocproc shared ?_ ?_
      · intro thread differs
        by_cases isNew : thread = .process np
        · rw [isNew, threadOwns_unused owned slots isUnused, threadOwns,
            stacked, Function.update_self]
          rfl
        · rw [threadOwns, stacked, Function.update_of_ne isNew, Function.update_of_ne differs]
          rfl
      · rw [threadOwns, stacked, Function.update_of_ne (parked c),
          Function.update_self, List.flatMap_cons]

end Step

/-- An exclusive resource that an assignment makes. -/
inductive Gains (shared : Shared) (frame : Frame) : Update → Resource → Prop where
  | lockSleep (lock : SleepLock) (pid : Nat) (free : shared.locked lock = none) :
      Gains shared frame (.lockSleep lock pid) (.sleep lock)
  | allocpid : Gains shared frame .allocpid (.pid shared.births)
  | freeChild (child pid : Nat) (status : Option Int) (addr : Bool)
      (found : frame = .kwait (.free child pid status) addr) :
      Gains shared frame (.freeproc child) (.pid pid)

theorem count_ref (exclusive : resource.Exclusive) (refs : List Nat) :
    (refs.map Resource.ref).count resource = 0 := by
  rw [List.count_eq_zero]
  intro member
  obtain ⟨i, _, rfl⟩ := List.mem_map.mp member
  exact exclusive

theorem throughFile_fst (i k : Nat) (lock : FsLock) : (throughFile i k lock).1 = lock.1 := by
  unfold throughFile
  split
  · rename_i same
    rw [same]
  · rfl

theorem fs_count (exclusive : resource.Exclusive) (outer : Bool)
    (refs : List Nat) (locks : List FsLock) (pending : Option FsOp) :
    (Frame.fs outer refs locks pending).owns.count resource =
      (locks.map fun lock => Resource.sleep lock.1).count resource := by
  change (refs.map Resource.ref ++ _).count resource = _
  rw [List.count_append, count_ref exclusive, Nat.zero_add]

/-- What an assignment does to the exclusive resources of its frame. -/
theorem Assigns.exclusive (assigns : Assigns me shared frame change after)
    (exclusive : resource.Exclusive) :
    after.owns.count resource ≤ frame.owns.count resource ∨
      frame.owns = [] ∧ after.owns = [resource] ∧ Gains shared frame change resource := by
  have single {gained : Resource} (none : frame.owns = [])
      (one : after.owns = [gained]) (gains : Gains shared frame change gained) :
      after.owns.count resource ≤ frame.owns.count resource ∨
        frame.owns = [] ∧ after.owns = [resource] ∧ Gains shared frame change resource := by
    by_cases same : gained = resource
    · subst same
      exact .inr ⟨none, one, gains⟩
    · rw [one, List.count_eq_zero.mpr (by simpa using Ne.symm same)]
      exact .inl (Nat.zero_le _)
  have onlyRef (i : Nat) : [Resource.ref i].count resource ≤ frame.owns.count resource := by
    rw [show [Resource.ref i] = [i].map Resource.ref from rfl, count_ref exclusive]
    exact Nat.zero_le _
  cases assigns with
  | allocproc => exact .inl (Nat.zero_le _)
  | makes makes =>
    cases makes with
    | skip tame | setPipe tame _ | setCons tame _ =>
      rw [tame.owns]
      exact .inl le_rfl
    | lockSleep running free => exact single rfl rfl (.lockSleep _ _ free)
    | allocpid => exact single rfl rfl .allocpid
    | freeChild => exact single rfl rfl (.freeChild _ _ _ _ rfl)
    | iref running | leaveCwd running cwd => exact .inl (onlyRef _)
    | @filedropLast p k running used last =>
      left
      cases shared.fkind k with
      | inode i => exact onlyRef i
      | _ => exact Nat.zero_le _
    | bindInode running ref isOpen fresh =>
      left
      rw [fs_count exclusive, fs_count exclusive, List.map_map]
      simp only [Function.comp_def, throughFile_fst]
      exact le_rfl
    | chdir running ref unlocked cwd =>
      left
      rw [fs_count exclusive, fs_count exclusive]
    | _ =>
      first
        | exact .inl le_rfl
        | exact .inl (Nat.zero_le _)

/-- A sleep lock changes together with its owner. -/
theorem Assigns.sleepLock (assigns : Assigns me shared frame change after) (lock : SleepLock) :
    (change.apply shared).locked lock = shared.locked lock ∧
        after.owns.count (.sleep lock) = frame.owns.count (.sleep lock) ∨
      (change.apply shared).locked lock ≠ none ∧ shared.locked lock = none ∧
        .sleep lock ∈ after.owns ∨
      (change.apply shared).locked lock = none ∧
        after.owns.count (.sleep lock) + 1 = frame.owns.count (.sleep lock) := by
  have exclusive : (Resource.sleep lock).Exclusive := trivial
  have noRef {i : Nat} : [Resource.ref i].count (.sleep lock) = 0 := count_ref exclusive [i]
  cases assigns with
  | allocproc => exact .inl ⟨rfl, by simp [Frame.owns, KforkPc.owns]⟩
  | makes makes =>
    cases makes with
    | skip tame | setPipe tame _ | setCons tame _ =>
      rw [tame.owns]
      exact .inl ⟨rfl, rfl⟩
    | @lockSleep p taken running free =>
      by_cases same : taken = lock
      · subst same
        refine .inr (.inl ⟨?_, free, List.mem_cons_self⟩)
        simp [Update.apply]
      · refine .inl ⟨Function.update_of_ne (Ne.symm same) _ _, ?_⟩
        simp [Frame.owns, AcquiresleepPc.owns, same]
    | @unlockSleep given =>
      by_cases same : given = lock
      · subst same
        refine .inr (.inr ⟨?_, ?_⟩)
        · simp [Update.apply]
        · simp [Frame.owns, ReleasesleepPc.owns]
      · refine .inl ⟨Function.update_of_ne (Ne.symm same) _ _, ?_⟩
        simp [Frame.owns, ReleasesleepPc.owns, same]
    | @filedropLast p k running used last =>
      refine .inl ⟨rfl, ?_⟩
      cases shared.fkind k with
      | inode i => exact noRef
      | _ => rfl
    | iref running | leaveCwd running cwd => exact .inl ⟨rfl, noRef⟩
    | idrop running => exact .inl ⟨rfl, noRef.symm⟩
    | bindInode running ref isOpen fresh =>
      refine .inl ⟨rfl, ?_⟩
      rw [fs_count exclusive, fs_count exclusive, List.map_map]
      simp only [Function.comp_def, throughFile_fst]
    | chdir running ref unlocked cwd =>
      refine .inl ⟨rfl, ?_⟩
      rw [fs_count exclusive, fs_count exclusive]
    | freeChild | reap running | allocpid =>
      refine .inl ⟨rfl, ?_⟩
      simp [Frame.owns, KwaitPc.owns, TablePc.owns, TableOp.gives, Errand.yields]
    | _ => exact .inl ⟨rfl, rfl⟩

section Step

variable (sane : Sane machine)

include sane

/-- A resource that is made was nobody's. -/
theorem Gains.fresh (gains : Gains machine.shared frame change resource)
    (member : frame ∈ machine.stack current) (thread : Thread) :
    resource ∉ threadOwns machine thread := by
  intro has
  cases gains with
  | lockSleep lock pid free => exact (sane.possession.locked lock).mpr ⟨thread, has⟩ free
  | allocpid => exact Nat.lt_irrefl _ (sane.pids.owned thread _ has).2.1
  | freeChild child pid status addr found =>
    subst found
    obtain ⟨p, rfl⟩ := process_of_level sane.owned member (by simp [Frame.level])
    have stands := sane.stands _ _ member p rfl
    exact (sane.pids.owned thread _ has).2.2.1 child stands.2.1

theorem Possession.step (transition : Transition machine c input next) : Possession next := by
  have possession := sane.possession
  cases transition.handover sane.owned sane.slots with
  | quiet shared owns =>
    refine ⟨?_, ?_⟩
    · intro lock
      rw [shared, possession.locked lock]
      simp only [(owns _).mem_iff]
    · intro resource exclusive
      refine (possession.exclusive resource exclusive).of_le ?_
      intro thread
      rw [(owns thread).count_eq]
  | @assigns frame after callers change top assigns shared others here =>
    have whole := threadOwns_top top
    refine ⟨?_, ?_⟩
    · intro lock
      have one := possession.exclusive (.sleep lock) trivial
      rw [shared]
      rcases assigns.sleepLock lock with
        ⟨sameLock, sameCount⟩ | ⟨isLocked, _, taken⟩ | ⟨isFree, given⟩
      · rw [sameLock, possession.locked lock]
        have same (thread : Thread) : .sleep lock ∈ threadOwns machine thread ↔
              .sleep lock ∈ threadOwns next thread := by
          by_cases current : thread = (machine.cpu c).thread
          · rw [current, here, whole, ← List.count_pos_iff,
              ← List.count_pos_iff, List.count_append, List.count_append,
              sameCount]
          · rw [others thread current]
        simp only [same]
      · refine ⟨fun _ => ⟨(machine.cpu c).thread, ?_⟩, fun _ => isLocked⟩
        rw [here]
        exact List.mem_append_left _ taken
      · refine ⟨fun isLocked => absurd isFree isLocked, ?_⟩
        rintro ⟨thread, has⟩
        refine absurd has (one.gone others ?_ thread)
        rw [here, whole, List.count_append, List.count_append]
        omega
    · intro resource exclusive
      have one := possession.exclusive resource exclusive
      rcases assigns.exclusive exclusive with fewer | ⟨none, single, gains⟩
      · refine one.of_le ?_
        intro thread
        by_cases current : thread = (machine.cpu c).thread
        · rw [current, here, whole, List.count_append, List.count_append]
          exact Nat.add_le_add_right fewer _
        · rw [others thread current]
      · have fresh := gains.fresh sane top.mem
        refine AtMostOne.of_gain fresh others ?_
        have absent := fresh (machine.cpu c).thread
        rw [whole, none, List.nil_append] at absent
        rw [here, single, List.count_append, List.count_eq_zero.mpr absent,
          Nat.add_zero, List.count_singleton_self]

end Step

end Xv6KernelEvent.Process
