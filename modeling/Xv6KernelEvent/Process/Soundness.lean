import Xv6KernelEvent.Process.Discipline

/-!
# The code follows the lock discipline

One lemma for each function.  `Fits.update`, `Fits.acquire`, `Fits.release` and
`Fits.call` say what has to be checked at a point of the code; the checks
compare the locks of two program counters.
-/

namespace Xv6KernelEvent.Process

open SpinThreads

/-- A later point of the same activation. -/
structure Frame.Same (frame next : Frame) : Prop where
  level : next.level = frame.level
  returns : next.returns = frame.returns
  gives : next.gives = frame.gives
  root : next.root = frame.root

def Frame.Later (frame next : Frame) : Prop :=
  (next.level, next.returns, next.gives, next.root) =
    (frame.level, frame.returns, frame.gives, frame.root)

theorem Frame.Later.same {frame next : Frame} (later : frame.Later next) : frame.Same next := by
  simp only [Frame.Later, Prod.mk.injEq] at later
  exact ⟨later.1, later.2.1, later.2.2.1, later.2.2.2⟩

/-- A lock is taken above all those that are held, except the spin lock of a
sleep lock that `acquiresleep` takes below `iput`. -/
def Ascends (me : Option Nat) (frame : Frame) (callers : List Frame) :
    Act Lock Frame Update Reason → Prop
  | .acquire lock _ =>
    (∀ other ∈ frame.held me ++ callers.flatMap (Frame.held me), other.rank < lock.rank) ∨
    ∃ inner, frame = .acquiresleep .acquire inner ∧ lock = .inner inner ∧
      callers.flatMap (Frame.held me) = [.itable]
  | _ => True

/-- An act that follows the discipline and keeps to the order of the locks. -/
structure Follows (me : Option Nat) (frame : Frame) (callers : List Frame)
    (act : Act Lock Frame Update Reason) : Prop where
  sound : discipline.Sound me .proc frame callers act
  ascends : Ascends me frame callers act

namespace Fits

variable {callee next : Frame} {lock : Lock} {change : Update}
  (fits : Fits me frame callers) (later : frame.Later next)
  (room : next.Room (callers.flatMap (Frame.held me)))

include fits later room

theorem continues : discipline.Continues me frame next callers := by
  have same := later.same
  refine ⟨⟨room, ?_, ?_⟩, same.returns, same.gives, same.root⟩
  · rw [same.level]
    exact fits.below
  · rw [same.level]
    exact fits.thread

theorem update (held : next.held me = frame.held me) :
    Follows me frame callers (.update change next) :=
  ⟨⟨held, fits.continues later room⟩, trivial⟩

theorem acquire (held : next.held me = lock :: frame.held me)
    (ascends : ∀ other ∈ frame.held me ++ callers.flatMap (Frame.held me), other.rank < lock.rank) :
    Follows me frame callers (.acquire lock next) := by
  refine ⟨⟨?_, held, fits.continues later room⟩, .inl ascends⟩
  intro member
  exact Nat.lt_irrefl _ (ascends lock member)

theorem release (held : lock ∈ frame.held me) (rest : next.held me = (frame.held me).erase lock) :
    Follows me frame callers (.release lock next) :=
  ⟨⟨held, rest, fits.continues later room⟩, trivial⟩

theorem call (held : (callee.held me ++ next.held me).Perm (frame.held me))
    (calleeRoom : callee.Room (next.held me ++ callers.flatMap (Frame.held me)))
    (level : callee.level = 0 ∨ callee.level < frame.level) (returns : callee.returns = next.awaits)
    (gives : callee.gives = next.wants) : Follows me frame callers (.call callee next) := by
  refine ⟨⟨held, fits.continues later room, ⟨calleeRoom, ?_, ?_⟩, returns, gives⟩, trivial⟩
  · intro positive caller member
    have lower : callee.level < frame.level := by
      rcases level with zero | lower
      · rw [zero] at positive
        cases positive
      · exact lower
    rcases List.mem_cons.mp member with rfl | member
    · rw [later.same.level]
      exact lower
    · exact lower.trans (fits.below (Nat.zero_lt_of_lt lower) caller member)
  · intro isNone
    rcases level with zero | lower
    · exact zero
    · rw [fits.thread isNone] at lower
      cases lower

end Fits

theorem Follows.ret (held : frame.held me = frame.returns) (root : frame.root = false) :
    Follows me frame callers (.ret value) :=
  ⟨⟨held, root⟩, trivial⟩

theorem Fits.sched (fits : Fits (some p) frame callers) (later : frame.Later next)
    (held : frame.held (some p) = [.proc p]) (kept : next.held (some p) = [.proc p])
    (none : callers.flatMap (Frame.held (some p)) = [])
    (room : next.Room (callers.flatMap (Frame.held (some p)))) :
    Follows (some p) frame callers (.sched next) :=
  ⟨⟨p, rfl, held, none, kept, fits.continues later room⟩, trivial⟩

theorem sleep_follows (fits : Fits (some p) (.sleep pc chan lk) callers)
    (coded : sleep p pc chan lk shared = some act) :
    Follows (some p) (.sleep pc chan lk) callers act := by
  obtain ⟨noLocks, isLock⟩ := fits.room
  have rank : lk.rank = 0 := by rw [isLock, Chan.lock_rank]
  have notProc : lk ≠ .proc p := by
    rintro rfl
    cases rank
  cases pc <;> simp only [sleep] at coded
  all_goals repeat' split at coded
  all_goals cases coded
  all_goals first
    | exact fits.update rfl fits.room rfl
    | exact fits.acquire rfl fits.room rfl
        (by simp [noLocks, Frame.held, SleepPc.held, rank])
    | exact fits.release rfl fits.room (by simp [Frame.held, SleepPc.held, own])
        (by simp [Frame.held, SleepPc.held, own, notProc.symm])
    | exact fits.call rfl fits.room (.refl _) noLocks (.inl rfl) rfl rfl
    | exact fits.sched rfl rfl rfl noLocks fits.room
    | exact .ret rfl rfl

theorem wakeup_follows (fits : Fits me (.wakeup pc chan) callers)
    (coded : wakeup me pc chan = some act) : Follows me (.wakeup pc chan) callers act := by
  obtain ⟨held, conditions, _⟩ := fits.room
  cases pc with
  | next i =>
    simp only [wakeup] at coded
    split at coded
    · rename_i inRange
      split at coded
      · cases coded
        exact fits.update rfl ⟨held, conditions, trivial⟩ rfl
      · cases coded
        refine fits.acquire rfl ⟨held, conditions, inRange⟩ rfl ?_
        intro other member
        rw [conditions other member]
        exact Nat.zero_lt_one
    · cases coded
      exact .ret rfl rfl
  | check i =>
    cases coded
    exact fits.update rfl fits.room rfl
  | unlock i =>
    cases coded
    exact fits.release rfl ⟨held, conditions, trivial⟩ (by simp [Frame.held, WakeupPc.held])
      (by simp [Frame.held, WakeupPc.held])

section

variable {callee next : Frame} {lock : Lock} {chan : Chan} {n : Nat}
  (fits : Fits me frame callers) (later : frame.Later next)
  (room : next.Room (callers.flatMap (Frame.held me)))

include fits later room

/-- The first lock of a function that is called without locks. -/
theorem Fits.acquireFirst (nothing : frame.held me = []) (held : next.held me = [lock])
    (noLocks : callers.flatMap (Frame.held me) = []) :
    Follows me frame callers (.acquire lock next) := by
  refine fits.acquire later room (by rw [held, nothing]) ?_
  simp [nothing, noLocks]

/-- The only lock of a frame is given back. -/
theorem Fits.releaseLast (held : frame.held me = [lock]) (nothing : next.held me = []) :
    Follows me frame callers (.release lock next) := by
  refine fits.release later room ?_ ?_
  · rw [held]
    exact List.mem_cons_self
  · rw [held, nothing, List.erase_cons_head]

/-- A lock of a table above a condition lock. -/
theorem Fits.acquireInner (cond : frame.held me = [lock]) (held : next.held me = [.leaf n, lock])
    (rank : lock.rank = 0) (noLocks : callers.flatMap (Frame.held me) = []) :
    Follows me frame callers (.acquire (.leaf n) next) := by
  refine fits.acquire later room (by rw [held, cond]) ?_
  simp only [cond, noLocks, List.append_nil, List.mem_singleton, forall_eq, rank]
  exact Nat.zero_lt_two

theorem Fits.releaseInner (held : frame.held me = [.leaf n, lock]) (cond : next.held me = [lock]) :
    Follows me frame callers (.release (.leaf n) next) :=
  fits.release later room (by simp [held]) (by simp [held, cond])

/-- `wakeup` on a channel whose condition lock is the only one held. -/
theorem Fits.callWakeup (held : frame.held me = [chan.lock]) (kept : next.held me = [chan.lock])
    (noLocks : callers.flatMap (Frame.held me) = [])
    (awaits : next.awaits = []) (wants : next.wants = .plain) :
    Follows me frame callers (.call (.wakeup (.next 0) chan) next) := by
  refine fits.call later room (by rw [held, kept]; exact .refl _) ?_ (.inl rfl)
    awaits.symm wants.symm
  rw [kept, noLocks]
  refine ⟨List.mem_cons_self, ?_, trivial⟩
  intro lock member
  rw [List.append_nil, List.mem_singleton] at member
  rw [member, Chan.lock_rank]

/-- `sleep` with the condition lock of the channel. -/
theorem Fits.callSleep (held : frame.held me = [chan.lock]) (nothing : next.held me = [])
    (noLocks : callers.flatMap (Frame.held me) = [])
    (awaits : next.awaits = [chan.lock]) (wants : next.wants = .plain) :
    Follows me frame callers (.call (.sleep .acquireProc chan chan.lock) next) := by
  refine fits.call later room (by rw [held, nothing]; exact .refl _) ?_
    (.inl rfl) awaits.symm wants.symm
  rw [nothing, noLocks]
  exact ⟨rfl, rfl⟩

/-- `killed` and the table operations, below a frame that keeps its locks. -/
theorem Fits.callBelow (nothing : callee.held me = []) (held : next.held me = frame.held me)
    (calleeRoom : callee.Room (frame.held me ++ callers.flatMap (Frame.held me)))
    (level : callee.level = 0 ∨ callee.level < frame.level) (returns : callee.returns = next.awaits)
    (gives : callee.gives = next.wants) : Follows me frame callers (.call callee next) := by
  refine fits.call later room ?_ ?_ level returns gives
  · rw [nothing, held]
    exact .refl _
  · rw [held]
    exact calleeRoom

end

theorem table_follows (fits : Fits me (.table pc op) callers)
    (coded : table p pc op shared = some act) : Follows me (.table pc op) callers act := by
  have ascends : ∀ other ∈ callers.flatMap (Frame.held me), other.rank < op.lock.rank := by
    intro other member
    rw [TableOp.lock_rank]
    exact fits.room other member
  cases pc <;> simp only [table] at coded
  all_goals repeat' split at coded
  all_goals cases coded
  all_goals first
    | exact fits.update rfl fits.room rfl
    | exact fits.acquire rfl fits.room rfl ascends
    | exact fits.releaseLast rfl fits.room rfl rfl
    | exact .ret rfl rfl
    | exact ⟨trivial, trivial⟩

theorem scheduler_follows (fits : Fits none (.scheduler pc) callers)
    (coded : scheduler pc shared = some act) : Follows none (.scheduler pc) callers act := by
  cases pc with
  | idle | masked =>
    cases coded
    exact ⟨⟨rfl, fits.continues rfl fits.room, fun _ => ⟨rfl, fits.room⟩⟩, trivial⟩
  | next i =>
    simp only [scheduler] at coded
    split at coded
    · rename_i inRange
      cases coded
      exact fits.acquireFirst rfl ⟨fits.room, inRange⟩ rfl rfl fits.room
    · cases coded
      exact fits.update rfl fits.room rfl
  | check i =>
    obtain ⟨noLocks, inRange⟩ := fits.room
    simp only [scheduler] at coded
    split at coded
    · cases coded
      exact fits.update rfl noLocks rfl
    · cases coded
      exact fits.releaseLast rfl noLocks rfl rfl
  | assign i | back i =>
    cases coded
    exact ⟨⟨rfl, fits.continues rfl fits.room⟩, trivial⟩
  | switch i =>
    cases coded
    exact ⟨⟨rfl, rfl, fits.room, rfl, fits.continues rfl fits.room⟩, trivial⟩
  | release i =>
    cases coded
    exact fits.releaseLast rfl fits.room rfl rfl

theorem table_room (noLocks : others = []) (low : ∀ lock ∈ locks, lock.rank < 2) :
    (Frame.table .lock op).Room (locks ++ others) := by
  rw [noLocks, List.append_nil]
  exact low

theorem kfork_follows (fits : Fits (some p) (.kfork pc) callers)
    (coded : kfork p pc shared input = some act) : Follows (some p) (.kfork pc) callers act := by
  obtain ⟨noLocks, inRange⟩ := fits.room
  have free : Frame.Room (callers.flatMap (Frame.held (some p)))
      (.kfork .failed) := ⟨noLocks, by simp [KforkPc.child?]⟩
  cases pc <;> simp only [kfork] at coded
  all_goals repeat' split at coded
  all_goals cases coded
  all_goals first
    | exact fits.update rfl fits.room rfl
    | exact fits.acquireFirst rfl fits.room rfl rfl noLocks
    | exact fits.acquireFirst rfl ⟨noLocks, by simpa [KforkPc.child?]⟩ rfl rfl noLocks
    | exact fits.releaseLast rfl fits.room rfl rfl
    | exact fits.releaseLast rfl free rfl rfl
    | exact fits.callBelow rfl fits.room rfl rfl
        (table_room noLocks (by simp [Frame.held, KforkPc.held, Lock.rank]))
        (.inr (by simp [Frame.level])) rfl rfl
    | exact fits.callBelow rfl free rfl rfl noLocks (.inl rfl) rfl rfl
    | exact .ret rfl rfl
    | exact ⟨⟨rfl, fits.continues rfl fits.room, rfl,
        ⟨rfl, by simp, by simp⟩, rfl⟩, trivial⟩

/-- `killed` below a condition lock. -/
theorem Fits.callKilled (fits : Fits me frame callers) (later : frame.Later next)
    (held : frame.held me = [lock]) (kept : next.held me = [lock]) (condition : lock.rank = 0)
    (room : next.Room (callers.flatMap (Frame.held me)))
    (noLocks : callers.flatMap (Frame.held me) = [])
    (awaits : next.awaits = []) (wants : next.wants = .plain) :
    Follows me frame callers (.call (.killed .lock) next) := by
  refine fits.callBelow later room rfl (by rw [held, kept]) ?_ (.inl rfl) awaits.symm wants.symm
  rw [held, noLocks]
  intro other member
  rw [List.append_nil, List.mem_singleton] at member
  rw [member, condition]

/-- Below `iput`, the sleep lock that a frame is about to take is free. -/
def FreeBelowIput (me : Option Nat) (shared : Shared) (frame : Frame)
    (callers : List Frame) : Prop :=
  ∀ lock, frame = .acquiresleep .test lock →
    callers.flatMap (Frame.held me) ≠ [] → shared.locked lock = none

/-- Below `iput`, `acquiresleep` must find the sleep lock free. -/
theorem acquiresleep_follows (fits : Fits (some p) (.acquiresleep pc lock) callers)
    (free : FreeBelowIput (some p) shared (.acquiresleep pc lock) callers)
    (coded : acquiresleep p pc lock shared = some act) :
    Follows (some p) (.acquiresleep pc lock) callers act := by
  cases pc with
  | acquire =>
    cases coded
    rcases fits.room with noLocks | onlyTable
    · exact fits.acquireFirst rfl (.inl noLocks) rfl rfl noLocks
    · refine ⟨⟨?_, rfl, fits.continues rfl fits.room⟩,
        .inr ⟨lock, rfl, rfl, onlyTable⟩⟩
      change Lock.inner lock ∉ [] ++ callers.flatMap (Frame.held (some p))
      rw [onlyTable]
      simp
  | test =>
    simp only [acquiresleep] at coded
    split at coded
    · rename_i isLocked
      cases coded
      have noLocks : callers.flatMap (Frame.held (some p)) = [] := by
        by_contra someLock
        rw [free lock rfl someLock] at isLocked
        cases isLocked
      exact fits.callSleep rfl (.inl noLocks) rfl rfl noLocks rfl rfl
    · cases coded
      exact fits.update rfl fits.room rfl
  | asleep => cases coded
  | release =>
    cases coded
    exact fits.releaseLast rfl fits.room rfl rfl
  | done =>
    cases coded
    exact .ret rfl rfl

theorem criticalSection_follows (fits : Fits me (.section pc n sleeps) callers)
    (coded : criticalSection pc n sleeps input = some act) :
    Follows me (.section pc n sleeps) callers act := by
  cases pc <;> simp only [criticalSection] at coded
  all_goals repeat' split at coded
  all_goals cases coded
  all_goals first
    | exact fits.acquireFirst rfl fits.room rfl rfl fits.room
    | exact fits.releaseLast rfl fits.room rfl rfl
    | exact fits.acquireInner rfl fits.room rfl rfl rfl fits.room
    | exact fits.releaseInner rfl fits.room rfl rfl
    | exact fits.callWakeup rfl fits.room rfl rfl fits.room rfl rfl
    | exact fits.callSleep rfl fits.room rfl rfl fits.room rfl rfl
    | exact .ret rfl rfl

theorem fs_follows (fits : Fits me (.fs outer refs locks none) callers)
    (coded : fs p outer refs locks shared op = some act) :
    Follows me (.fs outer refs locks none) callers act := by
  have noLocks : callers.flatMap (Frame.held me) = [] := fits.room
  have lockRoom (lock : SleepLock) : (Frame.acquiresleep .acquire lock).Room
      ([] ++ callers.flatMap (Frame.held me)) := .inl noLocks
  cases outer <;> cases op <;> simp only [fs] at coded
  all_goals repeat' split at coded
  all_goals first
    | cases coded
      done
    | rename_i guard
      exact absurd guard.1 Bool.false_ne_true
    | cases coded
  all_goals first
    | exact fits.update rfl fits.room rfl
    | exact fits.callBelow rfl fits.room rfl rfl
        (table_room noLocks nofun) (.inr (by simp [Frame.level])) rfl rfl
    | exact fits.callBelow rfl fits.room rfl rfl
        (lockRoom _) (.inr (by simp [Frame.level])) rfl rfl
    | exact fits.callBelow rfl fits.room rfl rfl fits.room
        (.inr (by simp [Frame.level])) rfl rfl
    | exact fits.callBelow rfl fits.room rfl rfl fits.room (.inl rfl) rfl rfl
    | exact .ret rfl rfl

/-- A function that may be called when no lock is held. -/
structure Frame.Open (callee : Frame) : Prop where
  held : ∀ me, callee.held me = []
  room : callee.Room []
  returns : callee.returns = []
  gives : callee.gives = .plain

theorem Syscall.frame_open (call : Syscall) : call.frame.Open := by
  cases call
  all_goals first
    | exact ⟨fun _ => rfl, rfl, rfl, rfl⟩
    | exact ⟨fun _ => rfl, ⟨rfl, by simp [KforkPc.child?]⟩, rfl, rfl⟩

theorem Syscall.frame_level (call : Syscall) : call.frame.level = 0 ∨ call.frame.level < 7 := by
  cases call <;> simp [Syscall.frame, Frame.level, fsStart]

theorem Irq.frame_open (irq : Irq) : irq.frame.Open := by
  cases irq <;> exact ⟨fun _ => rfl, rfl, rfl, rfl⟩

theorem Irq.frame_level (irq : Irq) : irq.frame.level = 0 := by cases irq <;> rfl

theorem Fits.callOpen (fits : Fits me frame callers) (later : frame.Later next)
    (isOpen : callee.Open) (nothing : frame.held me = []) (kept : next.held me = [])
    (room : next.Room (callers.flatMap (Frame.held me)))
    (noLocks : callers.flatMap (Frame.held me) = [])
    (level : callee.level = 0 ∨ callee.level < frame.level)
    (awaits : next.awaits = []) (wants : next.wants = .plain) :
    Follows me frame callers (.call callee next) := by
  refine fits.callBelow later room (isOpen.held me) (by rw [kept, nothing]) ?_
    level (isOpen.returns.trans awaits.symm) (isOpen.gives.trans wants.symm)
  rw [nothing, noLocks]
  exact isOpen.room

theorem code_follows (fits : Fits me frame callers) (free : FreeBelowIput me shared frame callers)
    (coded : code me frame shared input = some act) : Follows me frame callers act := by
  cases frame with
  | wakeup pc chan => cases me <;> exact wakeup_follows fits coded
  | «section» pc n sleeps =>
    cases me <;> cases sleeps
    all_goals first
      | exact criticalSection_follows fits coded
      | cases coded
  | scheduler pc =>
    cases me with
    | none => exact scheduler_follows fits coded
    | some p => cases coded
  | fs outer refs locks pending =>
    cases me with
    | none => cases coded
    | some p =>
      simp only [code, processCode] at coded
      split at coded
      · exact fs_follows fits coded
      · cases coded
  | sleep | kfork | acquiresleep | table =>
    cases me with
    | none => cases coded
    | some p =>
      first
        | exact sleep_follows fits coded
        | exact kfork_follows fits coded
        | exact acquiresleep_follows fits free coded
        | exact table_follows fits coded
  | killed pc | setkilled pc =>
    have ascends (other : Lock) (member : other ∈ callers.flatMap (Frame.held me)) :
        other.rank < 1 := by
      rw [fits.room other member]
      exact Nat.zero_lt_one
    cases me with
    | none => cases coded
    | some p =>
      cases pc <;> cases coded
      all_goals first
        | exact fits.update rfl fits.room rfl
        | exact fits.acquire rfl fits.room rfl ascends
        | exact fits.releaseLast rfl fits.room rfl rfl
        | exact .ret rfl rfl
  -- These are called without locks, so that one list of steps serves for all.
  | clockintr pc | consoleintr pc | kerneltrap pc | usertrap pc | kexit pc status | kwait pc addr
  | kqueuePost pc post | kqueueWait pc | kkill pc pid | yield pc | forkret pc
  | releasesleep pc lock | iput pc i | fileclose pc k | pause pc n
  | piperead pc i n | pipewrite pc i n | consoleread pc target | sysWrite pc pipe =>
    have noLocks : callers.flatMap (Frame.held me) = [] := fits.room
    have lockRoom (i : Nat) : (Frame.acquiresleep .acquire (.inode i)).Room
        ([.itable] ++ callers.flatMap (Frame.held me)) := by
      rw [noLocks]
      exact .inr rfl
    have killedOpen : (Frame.killed .lock).Open := ⟨fun _ => rfl, by simp [Frame.Room], rfl, rfl⟩
    have setkilledOpen : (Frame.setkilled .lock).Open :=
      ⟨fun _ => rfl, by simp [Frame.Room], rfl, rfl⟩
    cases me <;> cases pc
    all_goals simp only [code, schedulerCode, processCode, clockintr, consoleintr, kerneltrap,
      usertrap, kexit, kwait, kqueuePostCode, kqueueWait, kkill, yield, forkret, releasesleep, iput,
      fileclose, fsStart, pause, piperead, pipewrite, consoleread, sysWrite] at coded
    all_goals repeat' split at coded
    all_goals cases coded
    all_goals first
      | exact fits.update rfl fits.room rfl
      | exact fits.acquireFirst rfl fits.room rfl rfl fits.room
      | exact fits.releaseLast rfl fits.room rfl rfl
      | exact fits.acquireInner rfl fits.room rfl rfl rfl fits.room
      | exact fits.releaseInner rfl fits.room rfl rfl
      | exact fits.callWakeup rfl fits.room rfl rfl fits.room rfl rfl
      | exact fits.callWakeup rfl fits.room (by rw [otherEnd_lock]; rfl)
          (by rw [otherEnd_lock]; rfl) fits.room rfl rfl
      | exact fits.callKilled rfl rfl rfl rfl fits.room fits.room rfl rfl
      | exact fits.callSleep rfl fits.room rfl rfl fits.room rfl rfl
      | exact fits.callBelow rfl fits.room rfl rfl fits.room (.inl rfl) rfl rfl
      | exact fits.callBelow rfl fits.room rfl rfl fits.room (.inr (by simp [Frame.level])) rfl rfl
      | exact fits.callBelow rfl fits.room rfl rfl
          (table_room noLocks (by
            simp [Frame.held, KwaitPc.held, FileclosePc.held, PipereadPc.held, PipewritePc.held,
              ConsolereadPc.held, Lock.rank]))
          (.inr (by simp [Frame.level])) rfl rfl
      | exact fits.callBelow rfl fits.room rfl rfl (lockRoom _) (.inr (by simp [Frame.level])) rfl
          rfl
      | exact fits.callOpen rfl killedOpen rfl rfl fits.room fits.room (.inl rfl) rfl rfl
      | exact fits.callOpen rfl setkilledOpen rfl rfl fits.room fits.room (.inl rfl) rfl rfl
      | exact fits.callOpen rfl (Syscall.frame_open _) rfl rfl
          fits.room fits.room (Syscall.frame_level _) rfl rfl
      | exact fits.callOpen rfl (Irq.frame_open _) rfl rfl
          fits.room fits.room (.inl (Irq.frame_level _)) rfl rfl
      | exact fits.sched rfl rfl rfl fits.room fits.room
      | exact .ret rfl rfl
      | exact ⟨⟨rfl, fits.continues rfl fits.room, fun _ => ⟨rfl, fits.room⟩⟩, trivial⟩
      | exact ⟨⟨rfl, fits.room⟩, trivial⟩
      | exact fits.acquire rfl fits.room rfl (by
          rw [noLocks]
          simp [Frame.held, KexitPc.held, KwaitPc.held, Lock.rank])
      | exact fits.release rfl fits.room (by simp [Frame.held, KexitPc.held, KwaitPc.held, own])
          (by simp [Frame.held, KexitPc.held, KwaitPc.held, own])
      | exact ⟨trivial, trivial⟩

theorem resume_later (frame : Frame) (value : Int) : frame.Later (resume frame value) := by
  unfold resume
  split <;> exact rfl

theorem resume_held (frame : Frame) (value : Int) :
    (resume frame value).held me = frame.awaits ++ frame.held me := by
  cases frame with
  | kqueueWait pc | kfork pc | acquiresleep pc lock | iput pc i | «section» pc n sleeps
  | sysWrite pc pipe | usertrap pc => cases pc <;> rfl
  | kwait pc addr | pause pc n | piperead pc i n | pipewrite pc i n | consoleread pc target =>
    cases pc <;> simp only [resume] <;> (try split) <;> rfl
  | fs outer refs locks pending =>
    cases pending with
    | none => rfl
    | some op => cases op <;> rfl
  | _ => rfl

theorem resume_room (room : frame.Room locks) : (resume frame value).Room locks := by
  cases frame with
  | kqueueWait pc | kfork pc | kwait pc addr | acquiresleep pc lock | iput pc i
  | «section» pc n sleeps | pause pc n | piperead pc i n | pipewrite pc i n
  | consoleread pc target | sysWrite pc pipe | usertrap pc => cases pc <;> exact room
  | fs outer refs locks pending =>
    cases pending with
    | none => exact room
    | some op => cases op <;> exact room
  | _ => exact room

/-- The callers and the traps follow the discipline too. -/
theorem kernel_obeys : Obeys kernel discipline where
  resume := by
    intro me frame value callers fits
    refine ⟨?_, Fits.continues fits (resume_later frame value) (resume_room fits.room)⟩
    change ((resume frame value).held me).Perm _
    rw [resume_held]
    exact .refl _
  handler := by
    intro me input frame callers entry noLocks
    cases input with
    | interrupt irq =>
      cases entry
      exact ⟨rfl, ⟨noLocks, fun positive => absurd positive (by simp [Frame.level]),
        fun _ => rfl⟩, rfl⟩
    | _ => cases entry
  trap := by
    intro p input frame entry
    have only : ∀ pc, frame = .usertrap pc → discipline.held (some p) frame = [] ∧
          discipline.fits (some p) frame [] ∧
          discipline.root frame = true := by
      rintro pc rfl
      exact ⟨rfl, ⟨rfl, by simp, by simp⟩, rfl⟩
    cases input with
    | syscall call | userInterrupt irq | fault => exact only _ (Option.some.inj entry).symm
    | _ => cases entry

end Xv6KernelEvent.Process
