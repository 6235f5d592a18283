import Xv6KernelEvent.Process.Possession

/-!
# Pids

A pid goes from `allocpid` through `kfork` into one slot of the process table,
and from there through one `kwait` to the parent.  A process becomes a zombie
once.
-/

namespace Xv6KernelEvent.Process

open SpinThreads

variable {change : Update}

theorem Update.births_le (change : Update) (shared : Shared) :
    shared.births ≤ (change.apply shared).births := by
  cases change with
  | allocpid => exact Nat.le_succ _
  | _ => exact le_rfl

theorem Update.mem_reaps {reap : Reap} (member : reap ∈ (change.apply shared).reaps) :
    reap ∈ shared.reaps ∨ ∃ p status, change = .reap p reap.birth status := by
  cases change with
  | reap p pid status =>
    rcases List.mem_append.mp member with old | new
    · exact .inl old
    · obtain rfl := List.mem_singleton.mp new
      exact .inr ⟨p, status, rfl⟩
  | _ => exact .inl member

theorem Update.mem_exits (member : exited ∈ (change.apply shared).exits) :
    exited ∈ shared.exits ∨ ∃ p status, change = .exit p status ∧
        exited = ((shared.proc p).birth, status) := by
  cases change with
  | exit p status =>
    rcases List.mem_append.mp member with old | new
    · exact .inl old
    · exact .inr ⟨p, status, rfl, List.mem_singleton.mp new⟩
  | _ => exact .inl member

section Points

theorem Assigns.alloc (assigns : Assigns me shared frame (.allocproc q pid) after) :
    frame = .kfork (.named q pid) ∧ after = .kfork (.memory q pid) := by
  cases assigns with
  | makes makes => cases makes
  | allocproc => exact ⟨rfl, rfl⟩

theorem Assigns.exits (assigns : Assigns me shared frame (.exit p status) after) :
    me = some p ∧ frame = .kexit .mark status ∧ after = .kexit .unlockWait status := by
  cases assigns with
  | makes makes =>
    cases makes with
    | exit running => exact ⟨running, rfl, rfl⟩

theorem Assigns.reaps (assigns : Assigns me shared frame (.reap p pid status) after) :
    me = some p ∧ ∃ addr, frame = .kwait (.done pid status) addr ∧
      after = .kwait (.returned pid) addr := by
  cases assigns with
  | makes makes =>
    cases makes with
    | reap running => exact ⟨running, _, rfl, rfl⟩

end Points

/-- What an assignment of the thread on CPU `c` does to the pid of a slot. -/
inductive PidChange (machine : State) (c : Nat) (change : Update) (q : Nat) : Prop where
  | kept (pid : ((change.apply machine.shared).proc q).birth = (machine.shared.proc q).birth)
      (isUnused : ((change.apply machine.shared).proc q).state = .unused ↔
        (machine.shared.proc q).state = .unused)
  | freed (free : change = .freeproc q) (pid : ((change.apply machine.shared).proc q).birth = 0)
      (isUnused : ((change.apply machine.shared).proc q).state = .unused)
  | named (pid : Nat) (alloc : change = .allocproc q pid)
      (isPid : ((change.apply machine.shared).proc q).birth = pid)
      (isUsed : ((change.apply machine.shared).proc q).state = .used)
      (owned : .pid pid ∈ threadOwns machine (machine.cpu c).thread)
      (fresh : Unexited machine.shared pid)

section Step

variable (sane : Sane machine) (top : machine.At c frame callers)
  (assigns : Assigns (machine.cpu c).thread.proc? machine.shared frame change after)

include sane top assigns

theorem Sane.pidChange (q : Nat) : PidChange machine c change q := by
  by_cases free : change = .freeproc q
  · subst free
    refine .freed rfl ?_ ?_ <;> rw [Update.apply_target rfl] <;> rfl
  · by_cases alloc : ∃ pid, change = .allocproc q pid
    · obtain ⟨pid, rfl⟩ := alloc
      obtain ⟨rfl, rfl⟩ := assigns.alloc
      have member := top.mem
      refine .named pid rfl ?_ ?_ (mem_threadOwns member List.mem_cons_self)
        (sane.stands _ _ member)
      · rw [Update.apply_target rfl]
        rfl
      · rw [Update.apply_target rfl]
        rfl
    · refine .kept ?_ ⟨?_, ?_⟩
      · rcases Update.apply_pid change machine.shared q with
          same | freed | named
        · exact same
        · exact absurd freed free
        · exact absurd named alloc
      · intro isUnused
        rcases Update.apply_unused isUnused with before | freed
        · exact before
        · exact absurd freed free
      · intro isUnused
        rcases sane.slots.kept top assigns (.inl isUnused) with
          same | freed | named
        · exact same.trans isUnused
        · exact absurd freed free
        · exact absurd named alloc

theorem Pids.unused_step (isUnused : ((change.apply machine.shared).proc q).state = .unused) :
    ((change.apply machine.shared).proc q).birth = 0 := by
  cases sane.pidChange top assigns q with
  | kept pid same => exact pid.trans (sane.pids.unused q (same.mp isUnused))
  | freed free pid _ => exact pid
  | named pid alloc isPid isUsed owned fresh =>
    rw [isUsed] at isUnused
    cases isUnused

theorem Pids.used_step (used : ((change.apply machine.shared).proc q).state ≠ .unused) :
    0 < ((change.apply machine.shared).proc q).birth ∧
      ((change.apply machine.shared).proc q).birth < (change.apply machine.shared).births := by
  have more := Update.births_le change machine.shared
  cases sane.pidChange top assigns q with
  | kept pid same =>
    rw [pid]
    have bounds := sane.pids.used q (fun isUnused => used (same.mpr isUnused))
    exact ⟨bounds.1, bounds.2.trans_le more⟩
  | freed free pid isUnused => exact absurd isUnused used
  | named pid alloc isPid isUsed owned fresh =>
    rw [isPid]
    have bounds := sane.pids.owned _ _ owned
    exact ⟨bounds.1, bounds.2.1.trans_le more⟩

theorem Pids.distinct_step (used : ((change.apply machine.shared).proc q).state ≠ .unused)
    (same : ((change.apply machine.shared).proc q).birth =
      ((change.apply machine.shared).proc r).birth) : q = r := by
  cases sane.pidChange top assigns q with
  | kept pid sameUnused =>
    have wasUsed : (machine.shared.proc q).state ≠ .unused :=
      fun isUnused => used (sameUnused.mpr isUnused)
    rw [pid] at same
    cases sane.pidChange top assigns r with
    | kept otherPid _ =>
      rw [otherPid] at same
      exact sane.pids.distinct q r wasUsed same
    | freed free zero isUnused =>
      rw [zero] at same
      exact absurd same (sane.pids.used q wasUsed).1.ne'
    | named n alloc isPid isUsed owned fresh =>
      rw [isPid] at same
      exact absurd same ((sane.pids.owned _ _ owned).2.2.1 q)
  | freed free pid isUnused => exact absurd isUnused used
  | named pid alloc isPid isUsed owned fresh =>
    rw [isPid] at same
    cases sane.pidChange top assigns r with
    | kept otherPid _ =>
      rw [otherPid] at same
      exact absurd same.symm ((sane.pids.owned _ _ owned).2.2.1 r)
    | freed free zero isUnused =>
      rw [alloc] at free
      cases free
    | named other otherAlloc otherIsPid isUsed owned fresh =>
      rw [alloc] at otherAlloc
      exact (Update.allocproc.inj otherAlloc).1

/-- A pid that is in no slot does not get into one, except from `kfork`. -/
theorem Sane.pid_absent (positive : 0 < pid) (absent : ∀ q, (machine.shared.proc q).birth ≠ pid)
    (notNamed : ∀ q, change ≠ .allocproc q pid) (q : Nat) :
    ((change.apply machine.shared).proc q).birth ≠ pid := by
  cases sane.pidChange top assigns q with
  | kept same _ =>
    rw [same]
    exact absent q
  | freed free zero isUnused =>
    rw [zero]
    exact positive.ne
  | named other alloc isPid isUsed owned fresh =>
    rw [isPid]
    rintro rfl
    exact notNamed q alloc

variable (others : ∀ thread, thread ≠ (machine.cpu c).thread →
    threadOwns next thread = threadOwns machine thread)
  (here : threadOwns next (machine.cpu c).thread = after.owns ++ callers.flatMap Frame.owns)

omit assigns in
include others here in
/-- What the frame on top has given away is nobody's any more. -/
theorem Sane.given_away (mine : .pid pid ∈ frame.owns) (gone : .pid pid ∉ after.owns)
    (thread : Thread) : .pid pid ∉ threadOwns next thread := by
  have one := sane.possession.exclusive (.pid pid) trivial
  refine one.gone others ?_ thread
  rw [here, threadOwns_top top, List.count_append, List.count_append, List.count_eq_zero.mpr gone]
  have positive : 0 < frame.owns.count (.pid pid) := List.count_pos_iff.mpr mine
  omega

omit sane in
include others here in
/-- The pids of a frame are not made up. -/
theorem Assigns.pid_before (owns : .pid pid ∈ threadOwns next thread) :
    .pid pid ∈ threadOwns machine thread ∨ Gains machine.shared frame change (.pid pid) := by
  by_cases current : thread = (machine.cpu c).thread
  · have exclusive : (Resource.pid pid).Exclusive := trivial
    rcases assigns.exclusive exclusive with fewer | ⟨_, _, gains⟩
    · left
      rw [current, threadOwns_top top, ← List.count_pos_iff, List.count_append]
      rw [current, here, ← List.count_pos_iff, List.count_append] at owns
      omega
    · exact .inr gains
  · rw [others thread current] at owns
    exact .inl owns

omit top assigns in
theorem Sane.births_pos : 0 < machine.shared.births := by
  have used : (machine.shared.proc machine.shared.initproc).state ≠ .unused := by
    intro isUnused
    have alive := sane.family.init
    rw [isUnused] at alive
    exact alive
  exact Nat.zero_lt_of_lt (sane.pids.used _ used).2

omit top assigns in
theorem Sane.pid_ne_births (q : Nat) : (machine.shared.proc q).birth ≠ machine.shared.births := by
  by_cases isUnused : (machine.shared.proc q).state = .unused
  · rw [sane.pids.unused q isUnused]
    exact sane.births_pos.ne
  · exact (sane.pids.used q isUnused).2.ne

omit assigns in
/-- The pid of the zombie that `kwait` frees. -/
theorem Sane.freed_pid (found : frame = .kwait (.free child pid status) addr) :
    (machine.shared.proc child).birth = pid ∧ (machine.shared.proc child).state = .zombie := by
  subst found
  have member := top.mem
  obtain ⟨p, isProcess⟩ := process_of_level sane.owned member (by simp [Frame.level])
  have stands := sane.stands _ _ member p (by rw [isProcess]; rfl)
  exact ⟨stands.2.1, sane.slots.claims _ _ member child .zombie rfl⟩

include others here in
theorem Pids.owned_step (owns : .pid pid ∈ threadOwns next thread) :
    0 < pid ∧ pid < (change.apply machine.shared).births ∧
      (∀ q, ((change.apply machine.shared).proc q).birth ≠ pid) ∧
      ∀ reap ∈ (change.apply machine.shared).reaps, reap.birth ≠ pid := by
  rcases assigns.pid_before top others here owns with before | gains
  · obtain ⟨positive, bound, absent, unreaped⟩ := sane.pids.owned _ _ before
    refine ⟨positive, bound.trans_le (Update.births_le change _), ?_, ?_⟩
    · refine sane.pid_absent top assigns positive absent ?_
      rintro q rfl
      obtain ⟨rfl, rfl⟩ := assigns.alloc
      exact sane.given_away top others here List.mem_cons_self
        (by simp [Frame.owns, KforkPc.owns]) thread owns
    · intro reap member
      rcases Update.mem_reaps member with old | ⟨p, status, rfl⟩
      · exact unreaped reap old
      · rintro rfl
        obtain ⟨_, addr, rfl, rfl⟩ := assigns.reaps
        exact sane.given_away top others here List.mem_cons_self
          (by simp [Frame.owns, KwaitPc.owns]) thread owns
  · cases gains with
    | allocpid =>
      refine ⟨sane.births_pos, Nat.lt_succ_self _, sane.pid_ne_births, ?_⟩
      intro reap member
      exact (sane.pids.reaped reap member).2.1.ne
    | freeChild child pid status addr found =>
      obtain ⟨isPid, zombie⟩ := sane.freed_pid top found
      have used : (machine.shared.proc child).state ≠ .unused := by
        rw [zombie]
        simp
      have bounds := sane.pids.used child used
      rw [isPid] at bounds
      refine ⟨bounds.1, bounds.2, ?_, ?_⟩
      · intro q
        by_cases isChild : q = child
        · subst isChild
          rw [Update.apply_target rfl]
          exact bounds.1.ne
        · rw [Update.apply_of_ne (by simpa [Update.target?] using Ne.symm isChild), ← isPid]
          exact fun same => isChild (sane.pids.distinct child q used same.symm).symm
      · intro reap member same
        exact (sane.pids.reaped reap member).2.2 child (isPid.trans same.symm)

theorem Pids.reaped_step (member : reap ∈ (change.apply machine.shared).reaps) :
    0 < reap.birth ∧ reap.birth < (change.apply machine.shared).births ∧
      ∀ q, ((change.apply machine.shared).proc q).birth ≠ reap.birth := by
  have bounds : 0 < reap.birth ∧ reap.birth < machine.shared.births ∧
      ∀ q, (machine.shared.proc q).birth ≠ reap.birth := by
    rcases Update.mem_reaps member with old | ⟨p, status, rfl⟩
    · exact sane.pids.reaped reap old
    · obtain ⟨_, addr, rfl, _⟩ := assigns.reaps
      have owned := sane.pids.owned _ _
        (mem_threadOwns top.mem List.mem_cons_self)
      exact ⟨owned.1, owned.2.1, owned.2.2.1⟩
  refine ⟨bounds.1, bounds.2.1.trans_le (Update.births_le change _), ?_⟩
  refine sane.pid_absent top assigns bounds.1 bounds.2.2 ?_
  rintro q rfl
  obtain ⟨rfl, rfl⟩ := assigns.alloc
  have owned := sane.pids.owned _ _ (mem_threadOwns top.mem List.mem_cons_self)
  exact owned.2.2.2 reap member rfl

theorem Pids.once_step : ((change.apply machine.shared).reaps.map Reap.birth).Nodup := by
  have once := sane.pids.once
  cases change with
  | reap p pid status =>
    obtain ⟨_, addr, rfl, _⟩ := assigns.reaps
    have owned := sane.pids.owned _ _ (mem_threadOwns top.mem List.mem_cons_self)
    change ((machine.shared.reaps ++ [_]).map Reap.birth).Nodup
    rw [List.map_append, List.nodup_append]
    refine ⟨once, List.nodup_singleton _, ?_⟩
    intro old inOld new isNew same
    obtain ⟨reap, member, rfl⟩ := List.mem_map.mp inOld
    rw [List.mem_singleton.mp isNew] at same
    exact owned.2.2.2 reap member same
  | _ => exact once

omit assigns in
/-- A process that is about to exit is running. -/
theorem Sane.exiting (running : (machine.cpu c).thread.proc? = some p)
    (isExit : frame = .kexit .mark status) : (machine.shared.proc p).state = .running := by
  have current := Thread.eq_process running
  rw [sane.slots.running c p current, ← current, top, isExit]
  rfl

theorem Pids.exited_step
    {exited : Nat × Int} (member : exited ∈ (change.apply machine.shared).exits) :
    0 < exited.1 ∧ exited.1 < (change.apply machine.shared).births := by
  rcases Update.mem_exits member with old | ⟨p, status, rfl, rfl⟩
  · have bounds := sane.pids.exited exited old
    exact ⟨bounds.1, bounds.2.trans_le (Update.births_le change _)⟩
  · obtain ⟨running, isExit, _⟩ := assigns.exits
    refine sane.pids.used p ?_
    rw [sane.exiting top running isExit]
    simp

theorem Pids.living_step (alive : ((change.apply machine.shared).proc q).state ≠ .zombie) :
    Unexited (change.apply machine.shared) ((change.apply machine.shared).proc q).birth := by
  intro member
  obtain ⟨exited, isExited, same⟩ := List.mem_map.mp member
  rcases Update.mem_exits isExited with old | ⟨p, status, rfl, rfl⟩
  · have inOld : exited.1 ∈ machine.shared.exits.map Prod.fst := List.mem_map_of_mem old
    cases sane.pidChange top assigns q with
    | kept pid sameUnused =>
      rw [same, pid] at inOld
      refine sane.pids.living q ?_ inOld
      intro zombie
      rcases sane.slots.kept top assigns (.inr zombie) with
        kept | rfl | ⟨pid, rfl⟩
      · exact alive (kept.trans zombie)
      · rw [Update.apply_target rfl] at sameUnused
        have isUnused := sameUnused.mp rfl
        rw [zombie] at isUnused
        cases isUnused
      · obtain ⟨rfl, _⟩ := assigns.alloc
        have isUnused := sane.slots.claims _ _ top.mem q .unused rfl
        rw [zombie] at isUnused
        cases isUnused
    | freed free zero isUnused =>
      have positive := (sane.pids.exited exited old).1
      rw [same, zero] at positive
      cases positive
    | named pid alloc isPid isUsed owned fresh =>
      rw [same, isPid] at inOld
      exact fresh inOld
  · obtain ⟨running, isExit, _⟩ := assigns.exits
    have isRunning := sane.exiting top running isExit
    have differs : p ≠ q := by
      rintro rfl
      rw [Update.apply_target rfl] at alive
      exact alive rfl
    rw [Update.apply_of_ne (by simpa [Update.target?] using differs)] at same
    exact differs (sane.pids.distinct p q (by rw [isRunning]; simp) same)

theorem Pids.exitOnce_step : ((change.apply machine.shared).exits.map Prod.fst).Nodup := by
  have once := sane.pids.exitOnce
  cases change with
  | exit p status =>
    obtain ⟨running, isExit, _⟩ := assigns.exits
    have isRunning := sane.exiting top running isExit
    change ((machine.shared.exits ++ [_]).map Prod.fst).Nodup
    rw [List.map_append, List.nodup_append]
    refine ⟨once, List.nodup_singleton _, ?_⟩
    intro old inOld new isNew same
    rw [List.mem_singleton.mp isNew] at same
    refine sane.pids.living p (by rw [isRunning]; simp) ?_
    rw [← show old = (machine.shared.proc p).birth from same]
    exact inOld
  | _ => exact once

omit top assigns in
theorem Pids.step (transition : Transition machine c input next) : Pids next := by
  have pids := sane.pids
  cases transition.handover sane.owned sane.slots with
  | quiet shared owns =>
    refine ⟨shared ▸ pids.unused, shared ▸ pids.used, shared ▸ pids.distinct,
      ?_, shared ▸ pids.reaped, shared ▸ pids.once, shared ▸ pids.exited,
      shared ▸ pids.living, shared ▸ pids.exitOnce⟩
    intro thread pid has
    rw [shared]
    exact pids.owned thread pid ((owns thread).mem_iff.mp has)
  | @assigns frame after callers change top assigns shared others here =>
    constructor
    all_goals rw [shared]
    · exact fun q => Pids.unused_step sane top assigns
    · exact fun q => Pids.used_step sane top assigns
    · exact fun q r => Pids.distinct_step sane top assigns
    · exact fun thread pid => Pids.owned_step sane top assigns others here
    · exact fun reap => Pids.reaped_step sane top assigns
    · exact Pids.once_step sane top assigns
    · exact fun exited => Pids.exited_step sane top assigns
    · exact fun q => Pids.living_step sane top assigns
    · exact Pids.exitOnce_step sane top assigns

end Step

end Xv6KernelEvent.Process
