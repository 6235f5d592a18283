import Xv6KernelEvent.Process.References

/-!
# The sleep lock that `iput` takes

`iput` calls `acquiresleep` with `itable.lock` held, against the order of the
locks.  It does so when the reference count is one.  Whoever has an inode
locked, or is about to lock it, uses a counted reference, so nobody else does:
`acquiresleep` neither spins nor sleeps there.
-/

namespace Xv6KernelEvent.Process

open SpinThreads

variable {machine : State} {c i : Nat} {frame : Frame} {callers : List Frame} {thread : Thread}

/-- A process with a pointer to the inode, or with an open file of it. -/
inductive Uses (machine : State) (i : Nat) : Thread → Prop where
  | ref {p : Nat} {frame : Frame} (member : frame ∈ machine.stack (.process p))
      (owns : .ref i ∈ frame.owns) : Uses machine i (.process p)
  | file {p k : Nat} (isOpen : k ∈ (machine.shared.proc p).ofile)
      (kind : machine.shared.fkind k = .inode i) : Uses machine i (.process p)

theorem References.process_mem (references : References machine)
    (owns : .ref i ∈ threadOwns machine (.process p)) : .process p ∈ machine.shared.irefs i := by
  have positive : 0 < (threadOwns machine (.process p)).count (.ref i) :=
    List.count_pos_iff.mpr owns
  have bound := references.refs p i
  exact List.count_pos_iff.mp (by omega)

theorem Uses.counted (references : References machine) (uses : Uses machine i thread) :
    (∃ p, thread = .process p ∧ .process p ∈ machine.shared.irefs i) ∨
      ∃ k, .file k ∈ machine.shared.irefs i := by
  cases uses with
  | @ref p frame member owns =>
    exact .inl ⟨p, rfl, references.process_mem (mem_threadOwns member owns)⟩
  | @file p k isOpen kind =>
    have used := references.counted.open_used isOpen
    exact .inr ⟨k, references.counted.files k i used kind⟩

theorem Frame.awaits_inner (awaits : frame.awaits = [.inner lock]) :
    frame = .acquiresleep .asleep lock := by
  unfold Frame.awaits at awaits
  split at awaits <;> simp_all

section Users

variable (sane : Sane machine)

include sane

/-- File-system code that has an inode locked uses it. -/
theorem Uses.of_fs (lock : FsLock) (member : .fs outer refs locks pending ∈ machine.stack thread)
    (locked : lock ∈ locks ++ FsOp.locks pending) (isInode : lock.1 = .inode i) :
    (∃ p, thread = .process p) ∧ (.ref i ∈ (Frame.fs outer refs locks pending).owns ∨
        ∃ p k, thread = .process p ∧ k ∈ (machine.shared.proc p).ofile ∧
          machine.shared.fkind k = .inode i) := by
  obtain ⟨p, rfl⟩ := process_of_level sane.owned member (by cases outer <;> simp [Frame.level])
  refine ⟨⟨p, rfl⟩, ?_⟩
  obtain ⟨target, file⟩ := lock
  replace isInode : target = .inode i := isInode
  subst isInode
  have justified := sane.stands _ _ member _ locked
  cases file with
  | none => exact .inl (List.mem_append_left _ (List.mem_map_of_mem justified))
  | some k =>
    obtain ⟨q, isThread, isOpen, kind⟩ := justified
    cases isThread
    exact .inr ⟨p, k, rfl, isOpen, kind⟩

theorem Uses.of_fs_lock (lock : FsLock)
    (member : .fs outer refs locks pending ∈ machine.stack thread)
    (locked : lock ∈ locks ++ FsOp.locks pending)
    (isInode : lock.1 = .inode i) : Uses machine i thread := by
  obtain ⟨⟨p, rfl⟩, ref | ⟨q, k, isThread, isOpen, kind⟩⟩ :=
    Uses.of_fs sane lock member locked isInode
  · exact .ref member ref
  · cases isThread
    exact .file isOpen kind

theorem Uses.of_iput (member : .iput pc i ∈ machine.stack thread)
    (owns : .ref i ∈ pc.owns i) : Uses machine i thread := by
  obtain ⟨p, rfl⟩ := process_of_level sane.owned member (by simp [Frame.level])
  exact .ref member owns

section

variable (member : frame ∈ machine.stack thread)

include member

/-- `acquiresleep` and `releasesleep` are called by those who use the inode. -/
theorem Uses.of_errand (errand : frame.gives = .lock (.inode i) ∨ frame.gives = .unlock (.inode i))
    (notRoot : frame.root = false) : Uses machine i thread := by
  obtain ⟨own, _, called, inStack⟩ := (sane.owned.nested thread).of_mem member
  obtain ⟨caller, rest, rfl, _, gives⟩ := called notRoot
  replace gives : frame.gives = caller.wants := gives
  rw [gives] at errand
  have callerMember := inStack caller List.mem_cons_self
  cases caller with
  | kfork pc => cases pc <;> simp [Frame.wants] at errand
  | iput pc j =>
    cases pc with
    | locking | unlocked =>
      obtain rfl : j = i := by simpa [Frame.wants] using errand
      exact Uses.of_iput sane callerMember List.mem_cons_self
    | _ => simp [Frame.wants] at errand
  | fs outer refs locks pending =>
    cases pending with
    | none => simp [Frame.wants] at errand
    | some op =>
      cases op with
      | lock lock | unlock lock =>
        exact Uses.of_fs_lock sane lock callerMember (List.mem_append_right _ List.mem_cons_self)
          (by simpa [Frame.wants] using errand)
      | _ => simp [Frame.wants] at errand
  | _ => simp [Frame.wants] at errand

/-- The frames that own a sleep lock. -/
theorem Uses.of_owned_lock (owns : .sleep (.inode i) ∈ frame.owns) : Uses machine i thread := by
  cases frame with
  | acquiresleep pc lock =>
    cases pc with
    | release | done =>
      obtain ⟨⟩ := List.mem_singleton.mp owns
      exact Uses.of_errand sane member (.inl rfl) rfl
    | _ => cases owns
  | releasesleep pc lock =>
    cases pc with
    | acquire | clear =>
      obtain ⟨⟩ := List.mem_singleton.mp owns
      exact Uses.of_errand sane member (.inr rfl) rfl
    | _ => cases owns
  | iput pc j =>
    cases pc with
    | locked | trunc | truncated =>
      obtain rfl : i = j := by simpa [Frame.owns, IputPc.owns] using owns
      exact Uses.of_iput sane member (List.mem_cons_of_mem _ List.mem_cons_self)
    | _ => simp [Frame.owns, IputPc.owns] at owns
  | fileclose pc k =>
    cases pc with
    | releaseLast kind => cases kind <;> simp [Frame.owns, FileclosePc.owns] at owns
    | _ => simp [Frame.owns, FileclosePc.owns] at owns
  | kfork pc | kexit pc status | kwait pc addr =>
    cases pc <;> simp [Frame.owns, KforkPc.owns, KexitPc.owns, KwaitPc.owns] at owns
  | table pc op =>
    cases pc <;> cases op <;>
      simp [Frame.owns, TablePc.owns, TableOp.gives, Errand.yields] at owns
  | fs outer refs locks pending =>
    obtain ⟨lock, held, isInode⟩ : ∃ lock ∈ locks, lock.1 = .inode i := by
      simpa [Frame.owns] using owns
    exact Uses.of_fs_lock sane lock member (List.mem_append_left _ held) isInode
  | _ => cases owns

/-- The frames that hold the spin lock inside a sleep lock. -/
theorem Uses.of_inner (held : .inner (.inode i) ∈ frame.held thread.proc?) :
    Uses machine i thread := by
  cases frame with
  | sleep pc chan lk =>
    obtain rfl : lk = .inner (.inode i) := by
      cases thread <;> cases pc <;>
        simp_all [Frame.held, SleepPc.held, own, Thread.proc?]
    obtain ⟨own, _, called, inStack⟩ := (sane.owned.nested thread).of_mem member
    obtain ⟨caller, rest, rfl, returns, _⟩ := called rfl
    obtain rfl := Frame.awaits_inner returns.symm
    exact Uses.of_errand sane (inStack _ List.mem_cons_self) (.inl rfl) rfl
  | acquiresleep pc lock =>
    cases pc with
    | test | release =>
      obtain ⟨⟩ := List.mem_singleton.mp held
      exact Uses.of_errand sane member (.inl rfl) rfl
    | _ => cases held
  | releasesleep pc lock =>
    cases pc with
    | clear | wake | release =>
      obtain ⟨⟩ := List.mem_singleton.mp held
      exact Uses.of_errand sane member (.inr rfl) rfl
    | _ => cases held
  | table pc op =>
    cases pc <;> cases op <;>
      simp [Frame.held, TablePc.held, TableOp.lock] at held
  | killed pc | setkilled pc | yield pc | forkret pc | kexit pc status =>
    cases thread <;> cases pc <;>
      simp [Frame.held, KilledPc.held, SetkilledPc.held, YieldPc.held,
        ForkretPc.held, KexitPc.held, own, Thread.proc?] at held
  | wakeup pc chan | kqueuePost pc post | kqueueWait pc | kkill pc pid
  | scheduler pc | kfork pc | kwait pc addr | iput pc j | fileclose pc k =>
    cases pc <;>
      simp [Frame.held, WakeupPc.held, KqueuePostPc.held, KqueueWaitPc.held,
        KkillPc.held, SchedulerPc.held, KforkPc.held, KwaitPc.held,
        IputPc.held, FileclosePc.held] at held
  | pause pc n => cases pc <;> first | cases List.mem_singleton.mp held | cases held
  | «section» pc n sleeps | piperead pc j n | pipewrite pc j n
  | consoleread pc target | clockintr pc | consoleintr pc =>
    cases pc <;>
      simp [Frame.held, SectionPc.held, PipereadPc.held, PipewritePc.held,
        ConsolereadPc.held, ClockintrPc.held, ConsoleintrPc.held] at held
  | _ => cases held

end

/-- Only the caller has a reference to the inode that `iput` locks. -/
theorem Sane.only_reference (member : .iput .locking i ∈ machine.stack (.process p)) :
    machine.shared.irefs i = [.process p] := by
  have single : (machine.shared.irefs i).length = 1 := sane.stands _ _ member
  obtain ⟨holder, isHolder⟩ := List.length_eq_one_iff.mp single
  have mine := sane.references.process_mem (mem_threadOwns member List.mem_cons_self)
  rw [isHolder] at mine ⊢
  rw [List.mem_singleton.mp mine]

theorem Sane.only_user (member : .iput .locking i ∈ machine.stack (.process p))
    (uses : Uses machine i thread) : thread = .process p := by
  have only := sane.only_reference member
  rcases uses.counted sane.references with ⟨q, rfl, counted⟩ | ⟨k, counted⟩
  · rw [only] at counted
    obtain ⟨⟩ := List.mem_singleton.mp counted
    rfl
  · rw [only] at counted
    cases List.mem_singleton.mp counted

/-- The only caller that holds a lock over `acquiresleep` is `iput`. -/
theorem Sane.below_iput (top : machine.stack thread = .acquiresleep pc lock :: callers)
    (locked : callers.flatMap (Frame.held thread.proc?) ≠ []) :
    ∃ i rest, lock = .inode i ∧ callers = .iput .locking i :: rest ∧
      ∀ caller ∈ rest, caller.held thread.proc? = [] := by
  have nested := sane.owned.nested thread
  rw [top] at nested
  obtain ⟨_, called, below⟩ := nested
  obtain ⟨caller, rest, rfl, _, gives⟩ := called rfl
  replace gives : Errand.lock lock = caller.wants := gives
  have unlocked (room : rest.flatMap (Frame.held thread.proc?) = []) :
      ∀ other ∈ rest, other.held thread.proc? = [] :=
    List.flatMap_eq_nil_iff.mp room
  have fits : Fits _ caller rest := below.1
  cases caller with
  | kfork pc => cases pc <;> simp [Frame.wants] at gives
  | iput pc i =>
    cases pc with
    | locking =>
      obtain rfl : lock = .inode i := by simpa [Frame.wants] using gives
      exact ⟨i, rest, rfl, rfl, unlocked fits.room⟩
    | _ => simp [Frame.wants] at gives
  | fs outer refs locks pending => exact absurd (show List.flatMap _ _ = [] from fits.room) locked
  | _ => simp [Frame.wants] at gives

omit sane in
/-- Above `iput`, only file-system code has sleep locks. -/
theorem Frame.fs_of_level (level : 3 < frame.level) (owns : .sleep (.inode i) ∈ frame.owns) :
    ∃ outer refs locks pending, frame = .fs outer refs locks pending ∧
      ∃ lock ∈ locks, lock.1 = .inode i := by
  cases frame with
  | fs outer refs locks pending =>
    exact ⟨outer, refs, locks, pending, rfl, by simpa [Frame.owns] using owns⟩
  | fileclose pc k =>
    cases pc with
    | releaseLast kind => cases kind <;> simp [Frame.owns, FileclosePc.owns] at owns
    | _ => simp [Frame.owns, FileclosePc.owns] at owns
  | kfork pc | kexit pc status | kwait pc addr =>
    cases pc <;> simp [Frame.owns, KforkPc.owns, KexitPc.owns, KwaitPc.owns] at owns
  | acquiresleep pc lock | releasesleep pc lock | iput pc j | table pc op =>
    simp [Frame.level] at level
  | _ => cases owns

/-- The caller of `iput` has not locked the inode that it puts. -/
theorem Sane.unlocked_above_iput
    (stack : machine.stack (.process p) = frame :: .iput .locking i :: rest)
    (member : other ∈ rest) : .sleep (.inode i) ∉ other.owns := by
  intro owns
  have iputMember : .iput .locking i ∈ machine.stack (.process p) := by
    rw [stack]
    exact List.mem_cons_of_mem _ List.mem_cons_self
  have otherMember : other ∈ machine.stack (.process p) := by
    rw [stack]
    exact List.mem_cons_of_mem _ (List.mem_cons_of_mem _ member)
  have nested := sane.owned.nested (.process p)
  rw [stack] at nested
  have fits : Fits _ (.iput .locking i) rest := nested.2.2.1
  obtain ⟨outer, refs, locks, pending, rfl, lock, held, isInode⟩ :=
    Frame.fs_of_level (fits.below (by simp [Frame.level]) other member) owns
  have only := sane.only_reference iputMember
  obtain ⟨_, ref | ⟨q, k, _, isOpen, kind⟩⟩ :=
    Uses.of_fs sane lock otherMember (List.mem_append_left _ held) isInode
  · have twice : 2 ≤ (threadOwns machine (.process p)).count (.ref i) := by
      have more : 0 < (rest.flatMap Frame.owns).count (.ref i) :=
        List.count_pos_iff.mpr (List.mem_flatMap.mpr ⟨_, member, ref⟩)
      rw [threadOwns, stack, List.flatMap_cons, List.flatMap_cons,
        List.count_append, List.count_append]
      have mine : (Frame.iput .locking i).owns.count (.ref i) = 1 := List.count_singleton_self
      omega
    have bound := sane.references.refs p i
    rw [only, List.count_singleton_self] at bound
    omega
  · have used := sane.references.counted.open_used isOpen
    have counted := sane.references.counted.files k i used kind
    rw [only] at counted
    cases List.mem_singleton.mp counted

/-- `acquiresleep` below `iput` finds the sleep lock free. -/
theorem Sane.sleepLock_free (top : machine.stack thread = .acquiresleep pc lock :: callers)
    (unowned : pc.owns lock = []) (locked : callers.flatMap (Frame.held thread.proc?) ≠ []) :
    machine.shared.locked lock = none := by
  obtain ⟨i, rest, rfl, rfl, _⟩ := sane.below_iput top locked
  have iputMember : .iput .locking i ∈ machine.stack thread := by
    rw [top]
    exact List.mem_cons_of_mem _ List.mem_cons_self
  obtain ⟨p, rfl⟩ := process_of_level sane.owned iputMember (by simp [Frame.level])
  by_contra isLocked
  obtain ⟨owner, owns⟩ := (sane.possession.locked _).mp isLocked
  obtain ⟨frame, member, frameOwns⟩ := List.mem_flatMap.mp owns
  obtain rfl := sane.only_user iputMember (Uses.of_owned_lock sane member frameOwns)
  rw [top] at member
  rcases List.mem_cons.mp member with rfl | below
  · change _ ∈ pc.owns _ at frameOwns
    rw [unowned] at frameOwns
    cases frameOwns
  · rcases List.mem_cons.mp below with rfl | above
    · simp [Frame.owns, IputPc.owns] at frameOwns
    · exact sane.unlocked_above_iput top above frameOwns

/-- It does not have to wait for the spin lock inside either. -/
theorem Sane.inner_free (top : machine.stack thread = .acquiresleep .acquire lock :: callers)
    (locked : callers.flatMap (Frame.held thread.proc?) ≠ []) :
    machine.owner (.inner lock) = none := by
  obtain ⟨i, rest, rfl, rfl, unlocked⟩ := sane.below_iput top locked
  have iputMember : .iput .locking i ∈ machine.stack thread := by
    rw [top]
    exact List.mem_cons_of_mem _ List.mem_cons_self
  obtain ⟨p, rfl⟩ := process_of_level sane.owned iputMember (by simp [Frame.level])
  by_contra isOwned
  obtain ⟨d, owner⟩ := Option.ne_none_iff_exists'.mp isOwned
  have heldThere := (sane.owned.owns d _).mp owner
  obtain ⟨frame, member, held⟩ := List.mem_flatMap.mp heldThere
  have current := sane.only_user iputMember (Uses.of_inner sane member held)
  rw [current, top] at member
  rw [current] at held
  rcases List.mem_cons.mp member with rfl | below
  · cases held
  · rcases List.mem_cons.mp below with rfl | above
    · simp [discipline, Frame.held, IputPc.held] at held
    · rw [show discipline.held _ frame = [] from unlocked frame above] at held
      cases held

theorem Sane.freeBelowIput (top : machine.At c frame callers) :
    FreeBelowIput (machine.cpu c).thread.proc? machine.shared frame callers := by
  rintro lock rfl locked
  exact sane.sleepLock_free top rfl locked

end Users

end Xv6KernelEvent.Process
