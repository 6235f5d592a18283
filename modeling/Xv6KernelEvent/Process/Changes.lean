import Xv6KernelEvent.Process.Flow

/-!
# What the assignments change

For each part of the shared state, the assignments that change it, who makes
them, and which lock is held meanwhile.
-/

namespace Xv6KernelEvent.Process

open SpinThreads

variable {change : Update}

/-- An assignment, or the change that comes with a new thread. -/
inductive Assigns (me : Option Nat) (shared : Shared) : Frame → Update → Frame → Prop where
  | makes {frame next : Frame} {change : Update} (makes : Makes me shared frame change next) :
      Assigns me shared frame change next
  | allocproc {np pid : Nat} : Assigns me shared (.kfork (.named np pid)) (.allocproc np pid)
        (.kfork (.memory np pid))

/-- The process whose record an assignment changes. -/
def Update.target? : Update → Option Nat
  | goToSleep p _ | clearChan p | wake p _ | kill p | setKilled p | yield p | dispatch p => some p
  | allocproc np _ => some np
  | freeproc p => some p
  | adopt np _ | publish np => some np
  | reparent child => some child
  | exit p _ | filealloc _ p | filedup _ p | filedrop _ p => some p
  | idup _ np => some np
  | chdir p _ | leaveCwd p => some p
  | _ => none

/-- The change of that record. -/
def Update.edit (shared : Shared) : Update → Proc → Proc
  | goToSleep _ chan => fun proc => { proc with chan := some chan, state := .sleeping }
  | clearChan _ => fun proc => { proc with chan := none }
  | wake _ chan => fun proc =>
    { proc with state := if proc.chan = some chan then Shared.wake proc.state else proc.state }
  | kill _ => fun proc => { proc with killed := true, state := Shared.wake proc.state }
  | setKilled _ => fun proc => { proc with killed := true }
  | yield _ => fun proc => { proc with state := .runnable }
  | dispatch _ => fun proc => { proc with state := .running }
  | allocproc _ pid => fun proc => { proc with birth := pid, state := .used }
  | freeproc _ => Shared.freeproc
  | adopt _ p => fun proc => { proc with parent := some p }
  | publish _ => fun proc => { proc with state := .runnable }
  | reparent _ => fun proc => { proc with parent := some shared.initproc }
  | exit _ status => fun proc => { proc with xstate := status, state := .zombie }
  | filealloc k _ | filedup k _ => fun proc => { proc with ofile := k :: proc.ofile }
  | filedrop k _ => fun proc => { proc with ofile := proc.ofile.erase k }
  | idup i _ | chdir _ i => fun proc => { proc with cwd := some i }
  | leaveCwd _ => fun proc => { proc with cwd := none }
  | _ => id

theorem Update.apply_proc (change : Update) (shared : Shared) (q : Nat) :
    (change.apply shared).proc q =
      if change.target? = some q then change.edit shared (shared.proc q)
      else shared.proc q := by
  cases change
  all_goals first
    | rfl
    | rename_i p
      by_cases same : q = p
      · simp [Update.apply, Update.target?, Update.edit, same, Shared.setProc]
      · simp [Update.apply, Update.target?, same, Ne.symm same, Shared.setProc]
    | rename_i p _
      by_cases same : q = p
      · simp [Update.apply, Update.target?, Update.edit, same, Shared.setProc]
      · simp [Update.apply, Update.target?, same, Ne.symm same, Shared.setProc]
    | rename_i k p
      by_cases same : q = p
      · simp [Update.apply, Update.target?, Update.edit, same, Shared.setProc, Shared.filedrop]
      · simp [Update.apply, Update.target?, same, Ne.symm same, Shared.setProc, Shared.filedrop]

theorem Update.apply_of_ne (other : change.target? ≠ some q) :
    (change.apply shared).proc q = shared.proc q := by
  rw [Update.apply_proc, if_neg other]

theorem Update.apply_target (target : change.target? = some q) :
    (change.apply shared).proc q = change.edit shared (shared.proc q) := by
  rw [Update.apply_proc, if_pos target]

theorem wake_state (state : ProcState) : Shared.wake state = state ∨
      state = .sleeping ∧ Shared.wake state = .runnable := by
  unfold Shared.wake
  split
  · rename_i sleeping
    exact .inr ⟨sleeping, rfl⟩
  · exact .inl rfl

/-- How the state of process `q` changes: the process does it itself, or somebody
who holds its lock does it. -/
inductive StateChange (me : Option Nat) (frame next : Frame) (q : Nat) :
    ProcState → ProcState → Prop where
  | same {state : ProcState} : StateChange me frame next q state state
  | own {state : ProcState} (running : me = some q) (before : frame.mode.state = .running) :
      StateChange me frame next q state next.mode.state
  | wake (held : .proc q ∈ frame.held me) : StateChange me frame next q .sleeping .runnable
  | dispatch (held : .proc q ∈ frame.held me) : StateChange me frame next q .runnable .running
  | publish {state : ProcState} (claimed : frame.claim? = some (q, .used))
      (held : .proc q ∈ frame.held me) (unclaimed : next.claim? = none) :
      StateChange me frame next q state .runnable
  | free {state claim : ProcState} (claimed : frame.claim? = some (q, claim))
      (notUnused : claim ≠ .unused) (held : .proc q ∈ frame.held me)
      (unclaimed : next.claim? = none) :
      StateChange me frame next q state .unused

/-- The states that an assignment changes. -/
theorem Makes.state (makes : Makes me shared frame change next) (q : Nat) :
    StateChange me frame next q (shared.proc q).state ((change.apply shared).proc q).state := by
  have woken (state : ProcState) (held : .proc q ∈ frame.held me) :
      StateChange me frame next q state (Shared.wake state) := by
    rcases wake_state state with same | ⟨rfl, awake⟩
    · rw [same]
      exact .same
    · exact .wake held
  by_cases target : change.target? = some q
  · rw [Update.apply_target target]
    cases makes with
    | goToSleep running | yield running | exit running =>
      cases target
      exact .own running rfl
    | @wake i chan =>
      cases target
      simp only [Update.edit]
      split
      · exact woken _ List.mem_cons_self
      · exact .same
    | @kill i pid found =>
      cases target
      exact woken _ List.mem_cons_self
    | dispatch runnable =>
      cases target
      rw [runnable]
      exact .dispatch List.mem_cons_self
    | freeChild | freeNew =>
      cases target
      exact .free rfl (by simp) List.mem_cons_self rfl
    | publish =>
      cases target
      exact .publish rfl List.mem_cons_self rfl
    | _ => exact .same
  · rw [Update.apply_of_ne target]
    exact .same

/-- The running process keeps the state and the channel of its mode. -/
theorem Makes.own (makes : Makes me shared frame change next) (running : me = some p)
    (claims : ∀ q state, frame.claim? = some (q, state) → (shared.proc q).state = state)
    (state : (shared.proc p).state = frame.mode.state)
    (chan : (shared.proc p).chan = frame.mode.chan) :
    ((change.apply shared).proc p).state = next.mode.state ∧
      ((change.apply shared).proc p).chan = next.mode.chan := by
  have unclaimed {q : Nat} {claim : ProcState} (target : change.target? = some q)
      (claimed : frame.claim? = some (q, claim))
      (calm : frame.mode.state = .running) (differs : claim ≠ .running) :
      change.target? ≠ some p := by
    intro same
    obtain rfl := Option.some.inj (target.symm.trans same)
    rw [claims q claim claimed, calm] at state
    exact differs state
  cases makes with
  | skip tame | setPipe tame _ | setCons tame _ =>
    rw [tame.mode]
    exact ⟨state, chan⟩
  | goToSleep isMe =>
    cases isMe.symm.trans running
    rw [Update.apply_target rfl]
    exact ⟨rfl, rfl⟩
  | clearChan isMe =>
    cases isMe.symm.trans running
    rw [Update.apply_target rfl]
    exact ⟨state, rfl⟩
  | yield isMe | exit isMe =>
    cases isMe.symm.trans running
    rw [Update.apply_target rfl]
    exact ⟨rfl, chan⟩
  | wake =>
    rw [Update.apply_proc]
    simp only [Update.edit]
    split
    · rw [state]
      exact ⟨by split <;> rfl, chan⟩
    · exact ⟨state, chan⟩
  | kill found =>
    rw [Update.apply_proc]
    simp only [Update.edit]
    split
    · rw [state]
      exact ⟨rfl, chan⟩
    · exact ⟨state, chan⟩
  | @dispatch i runnable =>
    rw [Update.apply_of_ne]
    · exact ⟨state, chan⟩
    · intro same
      cases same
      rw [runnable] at state
      cases state
  | freeChild | freeNew | publish =>
    rw [Update.apply_of_ne (unclaimed rfl rfl rfl (by simp))]
    exact ⟨state, chan⟩
  | _ =>
    rw [Update.apply_proc]
    split <;> exact ⟨state, chan⟩

/-- The channel of a process changes only by itself, and when it is freed. -/
theorem Assigns.chan (assigns : Assigns me shared frame change next) (q : Nat) :
    ((change.apply shared).proc q).chan = (shared.proc q).chan ∨ me = some q ∨
      change = .freeproc q ∧ ((change.apply shared).proc q).chan = none := by
  by_cases target : change.target? = some q
  · rw [Update.apply_target target]
    cases assigns with
    | makes makes =>
      cases makes with
      | goToSleep running | clearChan running =>
        cases target
        exact .inr (.inl running)
      | freeChild | freeNew =>
        cases target
        exact .inr (.inr ⟨rfl, rfl⟩)
      | _ => exact .inl rfl
    | _ => exact .inl rfl
  · rw [Update.apply_of_ne target]
    exact .inl rfl

theorem Update.apply_pid (change : Update) (shared : Shared) (q : Nat) :
    ((change.apply shared).proc q).birth = (shared.proc q).birth ∨
      change = .freeproc q ∨ ∃ pid, change = .allocproc q pid := by
  by_cases target : change.target? = some q
  · rw [Update.apply_target target]
    cases change with
    | freeproc p =>
      cases target
      exact .inr (.inl rfl)
    | allocproc np pid =>
      cases target
      exact .inr (.inr ⟨pid, rfl⟩)
    | _ => exact .inl rfl
  · rw [Update.apply_of_ne target]
    exact .inl rfl

theorem Update.apply_xstate (change : Update) (shared : Shared) (q : Nat) :
    ((change.apply shared).proc q).xstate = (shared.proc q).xstate ∨
      change = .freeproc q ∨ ∃ status, change = .exit q status := by
  by_cases target : change.target? = some q
  · rw [Update.apply_target target]
    cases change with
    | freeproc p =>
      cases target
      exact .inr (.inl rfl)
    | exit p status =>
      cases target
      exact .inr (.inr ⟨status, rfl⟩)
    | _ => exact .inl rfl
  · rw [Update.apply_of_ne target]
    exact .inl rfl

theorem Update.apply_parent (change : Update) (shared : Shared) (q : Nat) :
    ((change.apply shared).proc q).parent = (shared.proc q).parent ∨
      change = .freeproc q ∧ ((change.apply shared).proc q).parent = none ∨
      (∃ p, change = .adopt q p) ∨ change = .reparent q := by
  by_cases target : change.target? = some q
  · rw [Update.apply_target target]
    cases change with
    | freeproc p =>
      cases target
      exact .inr (.inl ⟨rfl, rfl⟩)
    | adopt np p =>
      cases target
      exact .inr (.inr (.inl ⟨p, rfl⟩))
    | reparent child =>
      obtain rfl := Option.some.inj target
      exact .inr (.inr (.inr rfl))
    | _ => exact .inl rfl
  · rw [Update.apply_of_ne target]
    exact .inl rfl

/-- The state that an assignment gives to process `q`. -/
inductive Update.Sets (q : Nat) : Update → ProcState → Prop where
  | goToSleep (chan : Chan) : Update.Sets q (.goToSleep q chan) .sleeping
  | wake (chan : Chan) : Update.Sets q (.wake q chan) .runnable
  | kill : Update.Sets q (.kill q) .runnable
  | yield : Update.Sets q (.yield q) .runnable
  | dispatch : Update.Sets q (.dispatch q) .running
  | allocproc (pid : Nat) : Update.Sets q (.allocproc q pid) .used
  | freeproc : Update.Sets q (.freeproc q) .unused
  | publish : Update.Sets q (.publish q) .runnable
  | exit (status : Int) : Update.Sets q (.exit q status) .zombie

theorem Update.apply_state (change : Update) (shared : Shared) (q : Nat) :
    ((change.apply shared).proc q).state = (shared.proc q).state ∨
      change.Sets q ((change.apply shared).proc q).state := by
  by_cases target : change.target? = some q
  · rw [Update.apply_target target]
    cases change with
    | wake p chan =>
      obtain rfl := Option.some.inj target
      simp only [Update.edit]
      split
      · rcases wake_state (shared.proc p).state with same | ⟨_, runnable⟩
        · exact .inl same
        · rw [runnable]
          exact .inr (.wake chan)
      · exact .inl rfl
    | kill p =>
      obtain rfl := Option.some.inj target
      rcases wake_state (shared.proc p).state with same | ⟨_, runnable⟩
      · exact .inl same
      · simp only [Update.edit, runnable]
        exact .inr .kill
    | goToSleep p chan =>
      cases target
      exact .inr (.goToSleep chan)
    | yield p =>
      cases target
      exact .inr .yield
    | dispatch p =>
      cases target
      exact .inr .dispatch
    | allocproc np pid =>
      cases target
      exact .inr (.allocproc pid)
    | freeproc p =>
      cases target
      exact .inr .freeproc
    | publish np =>
      cases target
      exact .inr .publish
    | exit p status =>
      cases target
      exact .inr (.exit status)
    | _ => exact .inl rfl
  · rw [Update.apply_of_ne target]
    exact .inl rfl

/-- Only `kexit` makes a zombie. -/
theorem Update.apply_zombie (zombie : ((change.apply shared).proc q).state = .zombie) :
    (shared.proc q).state = .zombie ∨ ∃ status, change = .exit q status := by
  rcases Update.apply_state change shared q with same | sets
  · exact .inl (same.symm.trans zombie)
  · rw [zombie] at sets
    cases sets with
    | exit status => exact .inr ⟨status, rfl⟩

/-- Only `freeproc` gives a slot back. -/
theorem Update.apply_unused (isUnused : ((change.apply shared).proc q).state = .unused) :
    (shared.proc q).state = .unused ∨ change = .freeproc q := by
  rcases Update.apply_state change shared q with same | sets
  · exact .inl (same.symm.trans isUnused)
  · rw [isUnused] at sets
    cases sets with
    | freeproc => exact .inr rfl

section Locked

variable (assigns : Assigns me shared frame change next)

include assigns

theorem Assigns.free (freed : change = .freeproc q) :
    ∃ claim, frame.claim? = some (q, claim) ∧ claim ≠ .unused ∧ .proc q ∈ frame.held me := by
  cases assigns with
  | makes makes =>
    cases makes with
    | freeChild | freeNew =>
      cases freed
      exact ⟨_, rfl, by simp, List.mem_cons_self⟩
    | _ => cases freed
  | _ => cases freed

section

variable (unlocked : .wait ∉ frame.held me)

include unlocked

theorem Assigns.parent_locked :
    ((change.apply shared).proc q).parent = (shared.proc q).parent ∨
      change = .freeproc q ∧ ((change.apply shared).proc q).parent = none := by
  rcases Update.apply_parent change shared q with same | freed | ⟨p, rfl⟩ | rfl
  · exact .inl same
  · exact .inr freed
  · cases assigns with
    | makes makes =>
      cases makes with
      | adopt running => exact absurd List.mem_cons_self unlocked
  · cases assigns with
    | makes makes =>
      cases makes with
      | reparent running mine => exact absurd List.mem_cons_self unlocked

theorem Assigns.zombie_locked (zombie : ((change.apply shared).proc q).state = .zombie) :
    (shared.proc q).state = .zombie := by
  rcases Update.apply_zombie zombie with already | ⟨status, rfl⟩
  · exact already
  · cases assigns with
    | makes makes =>
      cases makes with
      | exit running => exact absurd (List.mem_append_right _ List.mem_cons_self) unlocked

theorem Assigns.noChild (none : NoChild shared p n) : NoChild (change.apply shared) p n := by
  intro child inRange isChild
  rcases assigns.parent_locked unlocked with same | ⟨_, gone⟩
  · exact none child inRange (same.symm.trans isChild)
  · rw [gone] at isChild
    cases isChild

theorem Assigns.noZombie (none : NoZombie shared p n) : NoZombie (change.apply shared) p n := by
  intro child inRange isChild zombie
  rcases assigns.parent_locked unlocked with same | ⟨_, gone⟩
  · exact none child inRange (same.symm.trans isChild) (assigns.zombie_locked unlocked zombie)
  · rw [gone] at isChild
    cases isChild

end

end Locked

section

variable (assigns : Assigns me shared frame change next)

include assigns

theorem Assigns.kq_count (unlocked : .kq ∉ frame.held me) :
    (change.apply shared).kq = shared.kq := by
  cases assigns with
  | makes makes =>
    cases makes with
    | post time posted | take nonempty taken => exact absurd List.mem_cons_self unlocked
    | _ => rfl
  | _ => rfl

theorem Assigns.locked (unlocked : .inner lock ∉ frame.held me) :
    (change.apply shared).locked lock = shared.locked lock := by
  cases assigns with
  | makes makes =>
    cases makes with
    | @lockSleep p taken running free | @unlockSleep given =>
      refine Function.update_of_ne ?_ _ _
      rintro rfl
      exact unlocked List.mem_cons_self
    | _ => rfl
  | _ => rfl

/-- The reason to sleep does not go away while the condition lock is held. -/
theorem Assigns.mustWait {chan : Chan}
    (unlocked : chan.lock ∉ frame.held me) (must : MustWait shared chan) :
    MustWait (change.apply shared) chan := by
  cases chan with
  | kq =>
    have same := assigns.kq_count unlocked
    simp only [MustWait] at must ⊢
    rw [same]
    exact must
  | sleepLock lock =>
    have same := assigns.locked unlocked
    simp only [MustWait] at must ⊢
    rw [same]
    exact must
  | proc p => exact assigns.noZombie unlocked must
  | _ => trivial

end

@[simp] theorem Update.apply_initproc (change : Update) (shared : Shared) :
    (change.apply shared).initproc = shared.initproc := by
  cases change <;> rfl

theorem Update.apply_forks (member : fork ∈ shared.forks) : fork ∈ (change.apply shared).forks := by
  cases change with
  | adopt np p => exact List.mem_append_left _ member
  | _ => exact member

theorem Update.apply_exits (member : exited ∈ shared.exits) :
    exited ∈ (change.apply shared).exits := by
  cases change with
  | exit p status => exact List.mem_append_left _ member
  | _ => exact member

theorem Shared.filedrop_irefs_length (shared : Shared) (k p i : Nat) :
    ((shared.filedrop k p).irefs i).length = (shared.irefs i).length := by
  simp only [Shared.filedrop]
  cases (shared.frefs k).erase p with
  | cons _ _ => rfl
  | nil =>
    cases shared.fkind k with
    | inode j =>
      by_cases same : i = j
      · subst same
        simp
      · simp [same]
    | _ => rfl

theorem Assigns.irefs_length (assigns : Assigns me shared frame change next)
    (unlocked : .itable ∉ frame.held me) :
    ((change.apply shared).irefs i).length = (shared.irefs i).length := by
  cases assigns with
  | makes makes =>
    cases makes with
    | idup | iref running | idrop running => exact absurd List.mem_cons_self unlocked
    | filedropLast running used last | filedrop running others =>
      exact Shared.filedrop_irefs_length _ _ _ _
    | @bindInode p k j refs locks running ref isOpen fresh =>
      simp only [Update.apply]
      by_cases same : i = j
      · subst same
        simp
      · simp [same]
    | _ => rfl
  | _ => rfl

/-- A thread keeps its pid. -/
theorem Lineage.apply (lineage : Lineage shared p pid)
    (samePid : ((change.apply shared).proc p).birth = (shared.proc p).birth) :
    Lineage (change.apply shared) p pid := by
  obtain ⟨creator, forked, parent⟩ := lineage
  refine ⟨creator, Update.apply_forks forked, ?_⟩
  rcases parent with isCreator | ⟨isInit, status, exited⟩
  · exact .inl (samePid.trans isCreator)
  · exact .inr ⟨by simpa using isInit, status, Update.apply_exits exited⟩

theorem Reaped.apply (reaped : Reaped p shared pid status)
    (samePid : ((change.apply shared).proc p).birth = (shared.proc p).birth) :
    Reaped p (change.apply shared) pid status := by
  obtain ⟨lineage, exitStatus, exited, copied⟩ := reaped
  exact ⟨lineage.apply samePid, exitStatus, Update.apply_exits exited, copied⟩

theorem Justified.of_files (justified : Justified me refs shared lock)
    (files : ∀ p k i, me = some p → k ∈ (shared.proc p).ofile → shared.fkind k = .inode i →
      k ∈ (other.proc p).ofile ∧ other.fkind k = .inode i) : Justified me refs other lock := by
  obtain ⟨target, file⟩ := lock
  cases target with
  | buf b => trivial
  | inode i =>
    cases file with
    | none => exact justified
    | some k =>
      obtain ⟨p, isThread, isOpen, kind⟩ := justified
      exact ⟨p, isThread, files p k i isThread isOpen kind⟩

theorem Justified.of_refs (justified : Justified me refs shared lock)
    (subset : ∀ i ∈ refs, i ∈ more) : Justified me more shared lock := by
  obtain ⟨target, file⟩ := lock
  cases target with
  | buf b => trivial
  | inode i =>
    cases file with
    | none => exact subset i justified
    | some k => exact justified

section Stable

/-- Frames that rely on the pid of their process. -/
def Frame.Names : Frame → Prop
  | kqueuePost _ _ | kwait _ _ => True
  | _ => False

/-- What keeps the assertion of `other`, a frame of the thread of `them`, true
while the thread of `me` makes an assignment: the spin locks that it holds, and
that the slots it relies on belong to nobody else. -/
structure Apart (me them : Option Nat) (shared : Shared) (frame : Frame)
    (change : Update) (other : Frame) : Prop where
  locks : ∀ lock ∈ other.held them, (∀ q, lock ≠ .proc q) → lock ∉ frame.held me
  child : ∀ pc addr, other = .kwait pc addr → ∀ q,
    .proc q ∈ other.held them → .proc q ∉ frame.held me
  pids : ∀ q state, other.claim? = some (q, state) → state ≠ .unused →
    ((change.apply shared).proc q).birth = (shared.proc q).birth ∧
      ((change.apply shared).proc q).xstate = (shared.proc q).xstate
  self : ∀ p, them = some p → other.Names →
    ((change.apply shared).proc p).birth = (shared.proc p).birth
  files : ∀ p k i, them = some p → other.level ≤ 4 →
    k ∈ (shared.proc p).ofile → shared.fkind k = .inode i →
    k ∈ ((change.apply shared).proc p).ofile ∧ (change.apply shared).fkind k = .inode i
  fresh : ∀ pid, .pid pid ∈ other.owns → Unexited shared pid → Unexited (change.apply shared) pid

variable (assigns : Assigns me shared frame change next)
  (apart : Apart me them shared frame change other)

include assigns apart

omit assigns in
theorem Apart.kfork_stands (isKfork : other = .kfork pc) (stands : pc.Stands shared) :
    pc.Stands (change.apply shared) := by
  subst isKfork
  cases pc <;> first
    | trivial
    | exact (apart.pids _ _ rfl (by simp)).1.trans stands
    | exact apart.fresh _ List.mem_cons_self stands

theorem Assigns.kexit_stands (isKexit : other = .kexit pc status)
    (stands : pc.Stands p shared) : pc.Stands p (change.apply shared) := by
  subst isKexit
  have unlocked (held : .wait ∈ pc.held them) : .wait ∉ frame.held me :=
    apart.locks _ held (by simp)
  cases pc with
  | start => trivial
  | reparent n | wakeInit n | wakeParent | lockSelf =>
    exact ⟨by simpa using stands.1, assigns.noChild (unlocked List.mem_cons_self) stands.2⟩
  | mark =>
    refine ⟨by simpa using stands.1, assigns.noChild (unlocked ?_) stands.2⟩
    exact List.mem_append_right _ List.mem_cons_self
  | _ => simpa [KexitPc.Stands] using stands

theorem Assigns.child_parent (isKwait : other = .kwait pc addr)
    (held : pc.held = [.proc child, .wait]) (parent : (shared.proc child).parent = some p) :
    ((change.apply shared).proc child).parent = some p := by
  subst isKwait
  have unlocked : .wait ∉ frame.held me := by
    refine apart.locks _ ?_ (by simp)
    change _ ∈ pc.held
    simp [held]
  have childUnlocked : .proc child ∉ frame.held me := by
    refine apart.child pc addr rfl child ?_
    change _ ∈ pc.held
    simp [held]
  rcases assigns.parent_locked unlocked with same | ⟨freed, _⟩
  · exact same.trans parent
  · obtain ⟨_, _, _, childLocked⟩ := assigns.free freed
    exact absurd childLocked childUnlocked

theorem Assigns.kwait_stands (isKwait : other = .kwait pc addr)
    (isThread : them = some p) (stands : pc.Stands p shared) :
    pc.Stands p (change.apply shared) := by
  have unlocked (held : .wait ∈ pc.held) : .wait ∉ frame.held me := by
    subst isKwait
    exact apart.locks _ held (by simp)
  have samePid : ((change.apply shared).proc p).birth = (shared.proc p).birth := by
    subst isKwait
    exact apart.self p isThread trivial
  have parent {child : Nat} (held : pc.held = [.proc child, .wait])
      (parent : (shared.proc child).parent = some p) :
      ((change.apply shared).proc child).parent = some p :=
    assigns.child_parent apart isKwait held parent
  have pids {q : Nat} {state : ProcState} (claimed : (Frame.kwait pc addr).claim? = some (q, state))
      (notUnused : state ≠ .unused) :
      ((change.apply shared).proc q).birth = (shared.proc q).birth ∧
        ((change.apply shared).proc q).xstate = (shared.proc q).xstate := by
    subst isKwait
    exact apart.pids q state claimed notUnused
  cases pc with
  | scan child havekids | checking | sleep =>
    exact assigns.noZombie (unlocked List.mem_cons_self) stands
  | check child =>
    refine ⟨assigns.noZombie (unlocked ?_) stands.1, parent rfl stands.2⟩
    exact List.mem_cons_of_mem _ List.mem_cons_self
  | copy child pid => exact ⟨parent rfl stands.1, (pids rfl (by simp)).1.trans stands.2⟩
  | free child pid status =>
    refine ⟨parent rfl stands.1, (pids rfl (by simp)).1.trans stands.2.1, ?_⟩
    intro copied isCopied
    exact (stands.2.2 copied isCopied).trans (pids rfl (by simp)).2.symm
  | unlockChild child pid status | unlockWait pid status | done pid status =>
    exact Reaped.apply stands samePid
  | _ => trivial

omit assigns in
theorem Apart.genuine {post : Post} (names : other.Names) (genuine : post.Genuine them shared) :
    post.Genuine them (change.apply shared) := by
  intro own p isThread
  rw [apart.self p isThread names]
  exact genuine own p isThread

omit assigns in
theorem Apart.justified (level : other.level ≤ 4) (justified : Justified them refs shared lock) :
    Justified them refs (change.apply shared) lock := by
  refine justified.of_files ?_
  intro p k i isThread isOpen kind
  exact apart.files p k i isThread level isOpen kind

/-- An assertion is stable under the assignments of other frames. -/
theorem Assigns.stable (room : ∀ pc chan lk, other = .sleep pc chan lk → lk = chan.lock)
    (stands : other.Stands them shared) : other.Stands them (change.apply shared) := by
  have unlocked {lock : Lock} (held : lock ∈ other.held them)
      (notProc : ∀ q, lock ≠ .proc q) : lock ∉ frame.held me :=
    apart.locks lock held notProc
  cases other with
  | sleep pc chan lk =>
    obtain rfl := room pc chan lk rfl
    have notProc (q : Nat) : chan.lock ≠ .proc q := by cases chan <;> simp [Chan.lock]
    cases pc with
    | acquireProc => exact assigns.mustWait (unlocked List.mem_cons_self notProc) stands
    | releaseCond =>
      refine assigns.mustWait (unlocked ?_ notProc) stands
      exact List.mem_append_right _ List.mem_cons_self
    | _ => trivial
  | kqueuePost pc post =>
    cases pc with
    | acquire | insert => exact apart.genuine trivial stands
    | _ => trivial
  | kfork pc => exact apart.kfork_stands rfl stands
  | kexit pc status =>
    intro p isThread
    exact assigns.kexit_stands apart rfl (stands p isThread)
  | kwait pc addr =>
    intro p isThread
    exact assigns.kwait_stands apart rfl isThread (stands p isThread)
  | table pc op =>
    intro pid member
    exact apart.fresh pid member (stands pid member)
  | fs outer refs locks pending =>
    intro lock member
    refine apart.justified ?_ (stands lock member)
    cases outer <;> simp [Frame.level]
  | iput pc i =>
    cases pc with
    | locking =>
      refine (assigns.irefs_length ?_).trans stands
      exact unlocked List.mem_cons_self (by simp)
    | _ => trivial
  | _ => trivial

end Stable

end Xv6KernelEvent.Process
