import Xv6KernelEvent.Process.Family
import Xv6KernelEvent.Process.References

/-!
# The assertions at the program points

What a frame asserts was true when the thread came to it, and stays true: the
other threads respect the locks of the frame, the slots that it relies on, and
the open files of its process.
-/

namespace Xv6KernelEvent.Process

open SpinThreads

variable {frame after : Frame} {change : Update}

/-- Only `fileclose` closes a file. -/
theorem Update.mem_ofile (notClosed : ∀ j, change ≠ .filedrop j p)
    (isOpen : k ∈ (shared.proc p).ofile) : k ∈ ((change.apply shared).proc p).ofile := by
  by_cases opened : ∃ j, change = .filealloc j p ∨ change = .filedup j p
  · obtain ⟨j, rfl | rfl⟩ := opened
    · rw [Update.apply_target rfl]
      exact List.mem_cons_of_mem _ isOpen
    · rw [Update.apply_target rfl]
      exact List.mem_cons_of_mem _ isOpen
  · rw [Update.apply_ofile (fun j => ⟨fun isAlloc => opened ⟨j, .inl isAlloc⟩,
        fun isDup => opened ⟨j, .inr isDup⟩⟩) notClosed]
    exact isOpen

/-- The inode of a file that process `p` has open is not exchanged by others. -/
theorem Makes.fkind (makes : Makes me shared frame change after) (counted : Counted shared)
    (notClosed : ∀ j, change ≠ .filedrop j p)
    (isOpen : k ∈ (shared.proc p).ofile) (kind : shared.fkind k = .inode i) :
    (change.apply shared).fkind k = .inode i := by
  have dropped (j q : Nat) (isDrop : change = .filedrop j q) :
      (change.apply shared).fkind k = .inode i := by
    subst isDrop
    simp only [Update.apply, Shared.filedrop]
    split
    · rename_i last
      rw [Function.update_of_ne]
      · exact kind
      · rintro rfl
        have differs : p ≠ q := by
          rintro rfl
          exact notClosed _ rfl
        have mine : p ∈ shared.frefs k := by
          have bound := counted.opened p k
          have positive : 0 < (shared.proc p).ofile.count k := List.count_pos_iff.mpr isOpen
          exact List.count_pos_iff.mp (by omega)
        have stays := (List.mem_erase_of_ne differs).mpr mine
        rw [last] at stays
        cases stays
    · exact kind
  have other {j : Nat} (fresh : shared.fkind j = .none) : k ≠ j := by
    rintro rfl
    rw [kind] at fresh
    cases fresh
  cases makes with
  | filedrop running others | filedropLast running used last => exact dropped _ _ rfl
  | bindInode running ref isOpen fresh | bindPipe running isOpen fresh =>
    exact (Function.update_of_ne (other fresh) _ _).trans kind
  | _ => exact kind

theorem Frame.Names.level (names : frame.Names) : frame.level ≤ 6 := by
  cases frame with
  | kqueuePost pc post => exact Nat.zero_le 6
  | kwait pc addr => exact Nat.le_refl 6
  | _ => cases names

section Elsewhere

variable (sane : Sane machine) (top : machine.At c frame callers)
  (assigns : Assigns (machine.cpu c).thread.proc? machine.shared frame change after)
  (elsewhere : Elsewhere machine c callers thread other)

include sane

/-- A process that has not been born, or is dead, has no other frame. -/
theorem Sane.not_named (member : other ∈ machine.stack (.process p))
    (names : other.Names) (parked : Owned.Parked machine p) :
    (machine.shared.proc p).state.Alive := by
  obtain ⟨first, rest, shape, rests⟩ := sane.slots.resting p parked
  have nested := sane.owned.nested (.process p)
  rw [shape] at member nested
  have fits : Fits (some p) first rest := nested.1
  have high (level : 6 ≤ first.level) (unnamed : ¬ first.Names) : False := by
    rcases List.mem_cons.mp member with rfl | below
    · exact unnamed names
    · have lower := fits.below (by omega) other below
      have bound := names.level
      omega
  generalize (machine.shared.proc p).state = state at rests ⊢
  cases rests with
  | unborn | freed status | new | dead status => exact (high (by simp [Frame.level]) id).elim
  | _ => trivial

include top assigns elsewhere

theorem Sane.self_apart (isThread : thread.proc? = some p) (names : other.Names) :
    ((change.apply machine.shared).proc p).birth = (machine.shared.proc p).birth := by
  have member := elsewhere.mem top
  obtain rfl := Thread.eq_process isThread
  rcases sane.slots.pid_or_claimed top assigns sane.owned p with
    same | ⟨parked, state, claimed, isState, _⟩
  · exact same
  · have alive := sane.not_named member names parked
    rw [isState] at alive
    rcases Frame.claim_state claimed with rfl | rfl | rfl <;> cases alive

theorem Sane.claim_pid (claimed : other.claim? = some (q, state)) (notUnused : state ≠ .unused) :
    ((change.apply machine.shared).proc q).birth = (machine.shared.proc q).birth ∧
      ((change.apply machine.shared).proc q).xstate = (machine.shared.proc q).xstate := by
  have isState := sane.slots.claims thread other (elsewhere.mem top) q state claimed
  have untouched (again : frame.claim? = some (q, state)) :
      .proc q ∉ frame.held (machine.cpu c).thread.proc? :=
    sane.slots.claim_untouched sane.owned top elsewhere claimed again
  constructor
  · rcases sane.slots.pid_or_claimed top assigns sane.owned q with
      same | ⟨_, other, again, isOther, held⟩
    · exact same
    · obtain rfl := isState.symm.trans isOther
      exact absurd held (untouched again)
  · rcases Update.apply_xstate change machine.shared q with
      same | freed | ⟨status, rfl⟩
    · exact same
    · obtain ⟨other, again, _, held⟩ := assigns.free freed
      have isOther := sane.slots.claims _ frame top.mem q other again
      obtain rfl := isState.symm.trans isOther
      exact absurd held (untouched again)
    · obtain ⟨running, isExit, _⟩ := assigns.exits
      have isRunning := sane.exiting top running isExit
      rw [isState] at isRunning
      rcases Frame.claim_state claimed with rfl | rfl | rfl <;> cases isRunning

/-- A file of another process, or of a caller, is not closed for good. -/
theorem Sane.files_apart (isThread : thread.proc? = some p) (level : other.level ≤ 4)
    (isOpen : k ∈ (machine.shared.proc p).ofile) (kind : machine.shared.fkind k = .inode i) :
    k ∈ ((change.apply machine.shared).proc p).ofile ∧
      (change.apply machine.shared).fkind k = .inode i := by
  have notClosed (j : Nat) : change ≠ .filedrop j p := by
    rintro rfl
    have isClose : (machine.cpu c).thread.proc? = some p ∧ frame = .fileclose .drop j := by
      cases assigns with
      | makes makes => cases makes <;> exact ⟨by assumption, rfl⟩
    obtain ⟨running, rfl⟩ := isClose
    have current := (Thread.eq_process running).trans (Thread.eq_process isThread).symm
    cases elsewhere with
    | beside differs member => exact differs current.symm
    | below member =>
      have fits : Fits _ _ _ := (sane.owned.nested_top top).1
      have lower := fits.below (by simp [Frame.level]) other member
      simp only [Frame.level] at lower level
      omega
  refine ⟨Update.mem_ofile notClosed isOpen, ?_⟩
  cases assigns with
  | makes makes => exact makes.fkind sane.references.counted notClosed isOpen kind
  | _ => exact kind

theorem Sane.fresh_apart (owns : .pid pid ∈ other.owns) (fresh : Unexited machine.shared pid) :
    Unexited (change.apply machine.shared) pid := by
  have owned := sane.pids.owned _ _ (mem_threadOwns (elsewhere.mem top) owns)
  intro member
  obtain ⟨exited, isExited, rfl⟩ := List.mem_map.mp member
  rcases Update.mem_exits isExited with old | ⟨p, status, rfl, rfl⟩
  · exact fresh (List.mem_map_of_mem old)
  · exact owned.2.2.1 p rfl

/-- The frames elsewhere do not notice what the thread does. -/
theorem Sane.apart : Apart (machine.cpu c).thread.proc? thread.proc? machine.shared frame change
      other where
  locks := by
    intro lock held notProc mine
    obtain ⟨q, same, _⟩ := sane.owned.excludes top mine elsewhere held
    exact notProc q same
  child := by
    rintro pc addr rfl q held mine
    refine sane.slots.lock_apart sane.owned top mine elsewhere ?_ ?_ held
    · simp [Frame.level]
    · intro state rests
      cases rests
  pids := fun q state claimed notUnused => sane.claim_pid top assigns elsewhere claimed notUnused
  self := fun p isThread names => sane.self_apart top assigns elsewhere isThread names
  files := fun p k i isThread level isOpen kind =>
    sane.files_apart top assigns elsewhere isThread level isOpen kind
  fresh := fun pid owns fresh => sane.fresh_apart top assigns elsewhere owns fresh

end Elsewhere

theorem resume_stands (stands : frame.Stands me shared)
    (fresh : ∀ np, frame = .kfork (.allocated np) → Unexited shared value.toNat) :
    (resume frame value).Stands me shared := by
  cases frame with
  | kqueueWait pc | acquiresleep pc lock | «section» pc n sleeps | pause pc n
  | piperead pc i n | pipewrite pc i n | consoleread pc target | sysWrite pc pipe
  | usertrap pc => cases pc <;> exact stands
  | kfork pc =>
    cases pc with
    | allocated np => exact fresh np rfl
    | _ => exact stands
  | kwait pc addr =>
    cases pc with
    | checking =>
      simp only [resume]
      split
      · exact stands
      · exact fun _ _ => trivial
    | asleep =>
      intro p isMe child inRange
      cases inRange
    | _ => exact stands
  | iput pc i => cases pc <;> first | exact stands | trivial
  | fs outer refs locks pending =>
    cases pending with
    | none => exact stands
    | some op =>
      cases op with
      | iget i =>
        intro lock member
        exact (stands lock member).of_refs fun _ => List.mem_cons_of_mem _
      | lock taken =>
        intro lock member
        apply stands lock
        simpa [FsOp.locks, or_comm] using member
      | _ =>
        intro lock member
        apply stands lock
        exact List.mem_append_left _ (by simpa [FsOp.locks] using member)
  | _ => exact stands

theorem gives_allocpid (gives : frame.gives = .allocpid) : ∃ pc, frame = .table pc .allocpid := by
  cases frame with
  | table pc op =>
    cases op with
    | allocpid => exact ⟨pc, rfl⟩
    | _ => simp [Frame.gives, TableOp.gives] at gives
  | _ => simp [Frame.gives] at gives

theorem NoChild.reparent (none : NoChild shared p child) (notInit : p ≠ shared.initproc) :
    NoChild ((Update.reparent child).apply shared) p (child + 1) := by
  refine NoChild.succ ?_ ?_
  · intro other inRange
    rw [Update.apply_of_ne (by simpa [Update.target?] using inRange.ne')]
    exact none other inRange
  · rw [Update.apply_target rfl]
    exact fun isInit => notInit (Option.some.inj isInit).symm

/-- The file that takes over a reference justifies the locks on the inode. -/
theorem Justified.throughFile (running : me = some p)
    (isOpen : k ∈ (shared.proc p).ofile) (fresh : shared.fkind k = .none)
    (justified : Justified me refs shared lock) :
    Justified me (refs.erase i) ((Update.bindInode k i p).apply shared) (throughFile i k lock) := by
  unfold Process.throughFile
  split
  · exact ⟨p, running, isOpen, Function.update_self _ _ _⟩
  · rename_i differs
    have unlocked : (.inode i, none) ∉ [lock] := by simpa using Ne.symm differs
    have kept : Justified me (refs.erase i) shared lock :=
      justified_erase (.inl unlocked) List.mem_cons_self justified
    refine kept.of_files ?_
    intro q j m _ isOpen kind
    refine ⟨isOpen, (Function.update_of_ne ?_ _ _).trans kind⟩
    rintro rfl
    rw [kind] at fresh
    cases fresh

section Step

variable (sane : Sane machine)

include sane

/-- The zombie that is freed has been a child of the caller. -/
theorem Sane.freed_reaped (top : machine.At c (.kwait (.free child pid status) addr) callers) :
    (Frame.kwait (.unlockChild child pid status) addr).Stands (machine.cpu c).thread.proc?
      ((Update.freeproc child).apply machine.shared) := by
  intro p running
  have current := Thread.eq_process running
  have member := top.mem
  obtain ⟨isChild, isPid, copied⟩ := sane.stands _ _ member p running
  have zombie := sane.slots.claims _ _ member child .zombie rfl
  have exited := sane.family.zombies child zombie
  have stayed : ¬ Leaves machine (machine.shared.proc child).birth := by
    rintro ⟨r, pc, exitStatus, _, isExiting, leaving⟩
    have elsewhere : Elsewhere machine c callers (.process r) (.kexit pc exitStatus) := by
      by_cases here : .process r = (machine.cpu c).thread
      · rw [here, top] at isExiting
        rw [here]
        rcases List.mem_cons.mp isExiting with isTop | below
        · cases isTop
        · exact .below below
      · exact .beside here isExiting
    obtain ⟨q, isProc, _⟩ := sane.owned.excludes top
      (List.mem_cons_of_mem _ List.mem_cons_self) elsewhere leaving.held
    cases isProc
  have lineage : Lineage machine.shared p pid := by
    rw [← isPid]
    exact (sane.family.lineage child p isChild).resolve_right fun left => stayed left.2
  have samePid := sane.slots.pid_kept top (.makes .freeChild) sane.owned
    (q := p) fun parked => parked c current
  refine ⟨lineage.apply samePid, _, Update.apply_exits (isPid ▸ exited), ?_⟩
  exact copied

theorem Sane.makes_stands (top : machine.At c frame callers)
    (makes : Makes (machine.cpu c).thread.proc? machine.shared frame change after) :
    after.Stands (machine.cpu c).thread.proc? (change.apply machine.shared) := by
  have stands := sane.stands _ frame top.mem
  cases makes with
  | skip tame => exact tame.stands stands
  | setPipe tame free | setCons tame free => exact free _
  | freeChild => exact sane.freed_reaped top
  | reap running => exact fun _ _ => trivial
  | adopt running =>
    change ((Update.apply _ _).proc _).birth = _
    rw [Update.apply_target rfl]
    exact stands
  | reparent running mine =>
    intro p isMe
    obtain ⟨notInit, none⟩ := stands p isMe
    exact ⟨notInit, none.reparent notInit⟩
  | noParent running orphan | leaveCwd running cwd => exact stands
  | exit running => exact fun p isMe => (stands p isMe).1
  | allocpid =>
    intro pid member
    obtain ⟨⟩ := List.mem_singleton.mp member
    intro exits
    obtain ⟨exited, isExited, same⟩ := List.mem_map.mp exits
    exact (sane.pids.exited exited isExited).2.ne same
  | filealloc running free | filedup used | idup =>
    intro pid member
    cases member
  | iref running =>
    intro pid member
    cases List.mem_singleton.mp member
  | @bindInode p k i refs locks running ref isOpen fresh =>
    intro lock member
    have held : lock ∈ locks.map (throughFile i k) := by simpa [FsOp.locks] using member
    obtain ⟨old, isOld, rfl⟩ := List.mem_map.mp held
    exact (stands old (List.mem_append_left _ isOld)).throughFile running isOpen fresh
  | bindPipe running isOpen fresh =>
    intro lock member
    refine (stands lock member).of_files ?_
    intro q j m _ isOpen kind
    refine ⟨isOpen, (Function.update_of_ne ?_ _ _).trans kind⟩
    rintro rfl
    rw [kind] at fresh
    cases fresh
  | @chdir p i old refs locks running ref unlocked cwd =>
    intro lock member
    have held : lock ∈ locks := by simpa [FsOp.locks] using member
    have kept := justified_erase (.inl unlocked) held (stands lock (List.mem_append_left _ held))
    have more : Justified _ (old :: refs.erase i) _ lock :=
      kept.of_refs fun _ => List.mem_cons_of_mem _
    refine more.of_files ?_
    intro q j m _ isOpen kind
    exact ⟨Update.mem_ofile (by simp) isOpen, kind⟩
  | _ => trivial

theorem Sane.fresh_stands (top : machine.At c frame callers)
    (follows : Follows (machine.cpu c).thread.proc? frame callers act)
    (flows : Flows (machine.cpu c).thread.proc? machine.shared frame act)
    (moves : Moves kernel machine c callers next act) (isFresh : fresh ∈ act.fresh kernel callers) :
    fresh.Stands (machine.cpu c).thread.proc? next.shared := by
  have member := top.mem
  have stands := sane.stands _ frame member
  cases moves with
  | update change after moved =>
    obtain rfl := List.mem_singleton.mp isFresh
    rw [moved.shared]
    exact sane.makes_stands top flows
  | advance _ after isAfter moved =>
    rw [moved.shared]
    rw [Act.fresh_of_after isAfter] at isFresh
    obtain rfl := List.mem_singleton.mp isFresh
    obtain tame | ⟨chan, lock, rfl, rfl⟩ := flows.advance isAfter
    · exact tame.stands stands
    · trivial
  | call callee after moved =>
    obtain ⟨_, _, _, _, _, both⟩ := flows
    rw [moved.shared]
    rcases List.mem_cons.mp isFresh with rfl | isAfter
    · exact (both stands).1
    · obtain rfl := List.mem_singleton.mp isAfter
      exact (both stands).2
  | ret value caller rest shape moved =>
    subst shape
    obtain rfl := List.mem_singleton.mp isFresh
    rw [moved.shared]
    have callerMember : caller ∈ machine.stack (machine.cpu c).thread := by
      rw [top]
      exact List.mem_cons_of_mem _ List.mem_cons_self
    refine resume_stands (sane.stands _ caller callerMember) ?_
    rintro np rfl
    obtain ⟨_, called, _⟩ := sane.owned.nested_top top
    obtain ⟨_, _, isCaller, _, gives⟩ := called follows.sound.2
    cases isCaller
    replace gives : frame.gives = .allocpid := gives
    obtain ⟨pc, rfl⟩ := gives_allocpid gives
    refine stands value.toNat ?_
    change _ ∈ (Frame.table pc .allocpid).owns
    rw [flows.2]
    exact List.mem_cons_self
  | leave moved => cases isFresh
  | sched p after running moved =>
    obtain rfl := List.mem_singleton.mp isFresh
    rw [moved.shared]
    exact flows.2.2.1 stands
  | swtch p after idle moved =>
    obtain rfl := List.mem_singleton.mp isFresh
    obtain ⟨_, _, rfl⟩ := flows
    trivial
  | spawn np first change after shared stacked threads =>
    obtain rfl := List.mem_singleton.mp isFresh
    obtain ⟨_, pid, _, rfl, rfl⟩ := flows
    rw [shared]
    change (((Update.allocproc np pid).apply machine.shared).proc np).birth = pid
    rw [Update.apply_target rfl]
    rfl

theorem Sane.stands_step (transition : Transition machine c input next) :
    Annotated Frame.Stands next := by
  cases transition with
  | halt reason => exact sane.stands
  | enter first unlocked quiet moved =>
    intro thread other member
    rw [moved.shared]
    rcases moved.mem_push member with ⟨_, rfl⟩ | below
    · exact quiet.stands _ _
    · exact sane.stands thread other below
  | act frame callers act top coded follows flows moves =>
    refine moves.annotated ?_ ?_ ?_
    · intro fresh isFresh
      exact sane.fresh_stands top follows flows moves isFresh
    · rintro p first change after rfl
      obtain ⟨rfl, _⟩ := flows
      trivial
    · intro thread other elsewhere
      have stands := sane.stands thread other (elsewhere.mem top)
      have transition : Transition machine c input next :=
        .act frame callers act top coded follows flows moves
      rcases transition.effect with
        same | ⟨_, _, change, after, sameTop, assigns, shared⟩
      · rw [same]
        exact stands
      · cases top.symm.trans sameTop
        rw [shared]
        refine assigns.stable (sane.apart top assigns elsewhere) ?_ stands
        rintro pc chan lk rfl
        obtain ⟨own, fits, _⟩ := (sane.owned.nested thread).of_mem (elsewhere.mem top)
        exact fits.room.2

end Step

end Xv6KernelEvent.Process
