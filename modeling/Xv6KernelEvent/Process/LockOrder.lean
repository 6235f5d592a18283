import Mathlib.Logic.Relation
import Xv6KernelEvent.Process.Safety

/-!
# The order of the spin locks

A CPU takes locks in the order of `Lock.rank`: condition locks, then the lock of
a process, then the locks of the tables.  The one exception is `iput`, which
takes the lock inside an inode's sleep lock while it holds `itable.lock`; that
lock is free then, so it waits for nobody.
-/

namespace Xv6KernelEvent.Process

open SpinThreads

variable {machine : State} {c : Nat} {lock : Lock}

/-- The lock that the code on CPU `c` acquires next. -/
def wanted (machine : State) (c : Nat) (input : Input) : Option Lock :=
  match machine.stack (machine.cpu c).thread with
  | [] => none
  | frame :: _ =>
    match code (machine.cpu c).thread.proc? frame machine.shared input with
    | some (.acquire lock _) => some lock
    | _ => none

/-- CPU `c` is about to call `acquire`. -/
def Wants (machine : State) (c : Nat) (lock : Lock) : Prop :=
  ∃ input, wanted machine c input = some lock

theorem Wants.act (wants : Wants machine c lock) : ∃ frame callers input after,
      machine.stack (machine.cpu c).thread = frame :: callers ∧
        code (machine.cpu c).thread.proc? frame machine.shared input =
          some (.acquire lock after) := by
  obtain ⟨input, isWanted⟩ := wants
  unfold wanted at isWanted
  split at isWanted
  · cases isWanted
  · rename_i frame callers top
    split at isWanted
    · rename_i after coded
      cases isWanted
      exact ⟨frame, callers, input, after, top, coded⟩
    · cases isWanted

/-- CPU `c` spins on a lock that CPU `d` holds. -/
def Spins (machine : State) (c d : Nat) : Prop :=
  ∃ lock, Wants machine c lock ∧ machine.owner lock = some d

/-- A CPU acquires a lock only above all those that it holds. -/
def Respects (below : Lock → Lock → Prop) : Prop :=
  ∀ schedule c lock, Wants (run schedule) c lock →
    ∀ other, (run schedule).owner other = some c → below other lock

/-- `iput` has found the only reference to an inode that is to be freed, and
`acquiresleep` finds the sleep lock free. -/
def FreesInode (machine : State) (c : Nat) (lock : Lock) : Prop :=
  ∃ i rest, machine.stack (machine.cpu c).thread =
      .acquiresleep .acquire (.inode i) :: .iput .locking i :: rest ∧
    lock = .inner (.inode i) ∧
    (∀ other, machine.owner other = some c ↔ other = .itable) ∧
    machine.owner lock = none ∧ machine.shared.locked (.inode i) = none

section Order

variable (sane : Sane machine)

include sane

theorem Sane.not_held (wants : Wants machine c lock) : machine.owner lock ≠ some c := by
  obtain ⟨frame, callers, input, after, top, coded⟩ := wants.act
  intro owner
  have held := (sane.owned.owns c lock).mp owner
  rw [heldOn_top top] at held
  exact (sane.follows top coded).sound.1 held

theorem Sane.ascends (wants : Wants machine c lock) :
    (∀ other, machine.owner other = some c → other.rank < lock.rank) ∨
      FreesInode machine c lock := by
  obtain ⟨frame, callers, input, after, top, coded⟩ := wants.act
  rcases (sane.follows top coded).ascends with
    above | ⟨inner, rfl, rfl, isItable⟩
  · left
    intro other owner
    have held := (sane.owned.owns c other).mp owner
    rw [heldOn_top top] at held
    exact above other held
  · right
    have locked : callers.flatMap (Frame.held (machine.cpu c).thread.proc?) ≠ [] := by
      rw [isItable]
      simp
    have free := sane.inner_free top locked
    have unlocked := sane.sleepLock_free top rfl locked
    obtain ⟨i, rest, rfl, rfl, _⟩ := sane.below_iput top locked
    refine ⟨i, rest, top, rfl, ?_, free, unlocked⟩
    intro other
    have held : heldOn discipline machine c = [.itable] := by
      rw [heldOn_top top]
      exact isItable
    rw [sane.owned.owns c other, held, List.mem_singleton]

/-- Whoever spins wants a lock above all those it holds. -/
theorem Sane.spins_above (wants : Wants machine c lock) (taken : machine.owner lock = some d)
    (owner : machine.owner other = some c) : other.rank < lock.rank := by
  rcases sane.ascends wants with above | ⟨_, _, _, _, _, free, _⟩
  · exact above other owner
  · cases free.symm.trans taken

/-- No CPU spins on a lock that, directly or through others, waits for it. -/
theorem Sane.not_spins_cycle : ¬ Relation.TransGen (Spins machine) c c := by
  have chain {d : Nat} (spins : Relation.TransGen (Spins machine) c d) :
      ∃ first last : Lock, (∀ other, machine.owner other = some c → other.rank < first.rank) ∧
        first.rank ≤ last.rank ∧ machine.owner last = some d := by
    induction spins with
    | single spins =>
      obtain ⟨lock, wants, taken⟩ := spins
      exact ⟨lock, lock, fun other owner => sane.spins_above wants taken owner,
        Nat.le_refl _, taken⟩
    | tail _ spins induction =>
      obtain ⟨first, last, above, ascends, owner⟩ := induction
      obtain ⟨lock, wants, taken⟩ := spins
      have higher := sane.spins_above wants taken owner
      exact ⟨first, lock, above, Nat.le_of_lt (ascends.trans_lt higher), taken⟩
  intro cycle
  obtain ⟨first, last, above, ascends, owner⟩ := chain cycle
  exact Nat.lt_irrefl _ (Nat.lt_of_lt_of_le (above last owner) ascends)

/-- `kqueue_post` is called with no lock held. -/
theorem Sane.kqueuePost_unlocked (top : machine.At c (.kqueuePost .acquire post) callers)
    (lock : Lock) : machine.owner lock ≠ some c := by
  intro owner
  have fits : Fits _ _ _ := (sane.owned.nested_top top).1
  have unlocked : callers.flatMap (Frame.held (machine.cpu c).thread.proc?) = [] := fits.room
  have held := (sane.owned.owns c lock).mp owner
  rw [heldOn_top top] at held
  rcases List.mem_append.mp held with mine | below
  · cases mine
  · rw [Discipline.stackHeld, show discipline.held = Frame.held from rfl, unlocked] at below
    cases below

/-- `sched` is entered with exactly the lock of the process. -/
theorem Sane.sched_locks (top : machine.At c frame callers)
    (coded : code (machine.cpu c).thread.proc? frame machine.shared input = some (.sched after))
    (running : (machine.cpu c).thread = .process p) :
    (∀ lock, machine.owner lock = some c ↔ lock = .proc p) ∧
      (machine.cpu c).noff = 1 ∧ (machine.cpu c).sie = false := by
  obtain ⟨q, isMe, onlyProc, unlocked, _⟩ := (sane.follows top coded).sound
  rw [running] at isMe
  cases isMe
  have held : heldOn discipline machine c = [.proc p] := by
    rw [heldOn_top top, onlyProc, unlocked]
    rfl
  refine ⟨?_, ?_, ?_⟩
  · intro lock
    rw [sane.owned.owns c lock, held, List.mem_singleton]
  · rw [sane.owned.depth c, held]
    rfl
  · by_contra enabled
    have none := sane.owned.masked c (by simpa using enabled)
    rw [held] at none
    cases none

end Order

/-- The lock operations of the kernel never panic. -/
theorem run_panics (schedule : List (Nat × Input)) :
    ∀ reason, (run schedule).panicked = some reason → ∃ cause, reason = .code cause := by
  refine run_holds (fun machine => ∀ reason, machine.panicked = some reason →
    ∃ cause, reason = .code cause) ?_ ?_ schedule
  · intro reason panicked
    cases panicked
  · intro machine next c input sane _ stepped reason panicked
    rcases (sane.owned_step stepped).2 with alive | ⟨cause, isCause⟩
    · cases alive.symm.trans panicked
    · exact ⟨cause, Option.some.inj (panicked.symm.trans isCause)⟩

/-- In every run, `acquire` never finds the lock held by its own CPU and takes
locks in the order of `Lock.rank`, except for the free lock that `iput` takes.
So no CPUs wait for each other in a circle, `kqueue_post` starts with no lock,
`sched` with exactly the lock of its process, and no lock operation panics. -/
theorem locks_ordered (schedule : List (Nat × Input)) :
    (∀ (chan : Chan) p, chan.lock.rank < (Lock.proc p).rank) ∧
    (∀ p, (Lock.proc p).rank < Lock.pid.rank) ∧
    (∀ c lock, Wants (run schedule) c lock → (run schedule).owner lock ≠ some c ∧
      ((∀ other, (run schedule).owner other = some c → other.rank < lock.rank) ∨
        FreesInode (run schedule) c lock)) ∧
    (∀ c, ¬ Relation.TransGen (Spins (run schedule)) c c) ∧
    (∀ c post callers, (run schedule).stack ((run schedule).cpu c).thread =
        .kqueuePost .acquire post :: callers →
      ∀ lock, (run schedule).owner lock ≠ some c) ∧
    (∀ c p frame callers input after,
      (run schedule).stack ((run schedule).cpu c).thread = frame :: callers →
      code ((run schedule).cpu c).thread.proc? frame (run schedule).shared
        input = some (.sched after) →
      ((run schedule).cpu c).thread = .process p →
      (∀ lock, (run schedule).owner lock = some c ↔ lock = .proc p) ∧
        ((run schedule).cpu c).noff = 1 ∧
        ((run schedule).cpu c).sie = false) ∧
    ∀ reason, (run schedule).panicked = some reason → ∃ cause, reason = .code cause := by
  have sane := run_sane schedule
  refine ⟨?_, ?_, ?_, ?_, ?_, ?_, run_panics schedule⟩
  · intro chan p
    rw [Chan.lock_rank]
    exact Nat.zero_lt_one
  · intro p
    exact Nat.one_lt_two
  · intro c lock wants
    exact ⟨sane.not_held wants, sane.ascends wants⟩
  · intro c
    exact sane.not_spins_cycle
  · intro c post callers top
    exact sane.kqueuePost_unlocked top
  · intro c p frame callers input after top coded running
    exact sane.sched_locks top coded running

section Circle

/-- The child makes inode 1 its working directory, whose only reference it then
has, and gives back inode 0. -/
def childChdir : List (Nat × Input) :=
  (1, .syscall .fs) :: steps 7 1 ++ (1, .fs (.iget 1)) :: steps 4 1 ++
    [(1, .fs (.chdir 1)), (1, .fs (.iput 0)), (1, .go true), (1, .go false)] ++
    steps 3 1 ++ (1, .fs (.finish 0)) :: steps 8 1

/-- The child exits, up to the `acquiresleep` in `iput`. -/
def childExit : List (Nat × Input) :=
  (1, .syscall (.exit 0)) :: steps 9 1 ++ (1, .fs (.finish 0)) :: steps 4 1

/-- The inode is freed and its sleep lock released, up to the third slot in
`wakeup`. -/
def childReleasesleep : List (Nat × Input) := steps 6 1 ++ (1, .fs (.finish 0)) :: steps 8 1

/-- `kfork` takes `itable.lock` under the lock of the new process. -/
theorem kfork_takes_itable :
    wanted (run (childRuns ++ (1, .syscall .fork) :: steps 20 1)) 1 (.go true) = some .itable ∧
      (run (childRuns ++ (1, .syscall .fork) :: steps 20 1)).owner (.proc 2) = some 1 := by
  decide +kernel

/-- `kexit` takes the lock of an inode's sleep lock under `itable.lock`. -/
theorem kexit_takes_inner : wanted (run (childRuns ++ childChdir ++ childExit)) 1 (.go true) =
        some (.inner (.inode 1)) ∧
      (run (childRuns ++ childChdir ++ childExit)).owner .itable = some 1 := by
  decide +kernel

/-- `wakeup` takes the locks of processes under the lock of the sleep lock. -/
theorem kexit_takes_proc :
    wanted (run (childRuns ++ childChdir ++ childExit ++ childReleasesleep)) 1
        (.go true) = some (.proc 2) ∧
      (run (childRuns ++ childChdir ++ childExit ++ childReleasesleep)).owner
        (.inner (.inode 1)) = some 1 := by
  decide +kernel

/-- No strict order of the locks is kept to by every run. -/
theorem no_lock_order : ¬ ∃ below : Lock → Lock → Prop, (∀ lock, ¬ below lock lock) ∧
      (∀ first second third, below first second → below second third →
        below first third) ∧ Respects below := by
  rintro ⟨below, irrefl, trans, respects⟩
  have procItable : below (.proc 2) .itable :=
    respects _ 1 .itable ⟨_, kfork_takes_itable.1⟩ _ kfork_takes_itable.2
  have itableInner : below .itable (.inner (.inode 1)) :=
    respects _ 1 _ ⟨_, kexit_takes_inner.1⟩ _ kexit_takes_inner.2
  have innerProc : below (.inner (.inode 1)) (.proc 2) :=
    respects _ 1 _ ⟨_, kexit_takes_proc.1⟩ _ kexit_takes_proc.2
  exact irrefl _ (trans _ _ _ procItable (trans _ _ _ itableInner innerProc))

end Circle

/-- `acquiresleep` under `itable.lock` waits for nobody: both locks are free, no
other process is on its way to them, and `sleep` is never called above. -/
theorem iput_never_sleeps (schedule : List (Nat × Input)) :
    (∀ thread pc i callers, (run schedule).stack thread =
        .acquiresleep pc (.inode i) :: .iput .locking i :: callers → pc = .acquire ∨ pc = .test →
      (run schedule).shared.locked (.inode i) = none ∧
        (pc = .acquire → (run schedule).owner (.inner (.inode i)) = none)) ∧
    (∀ p i thread pc, .iput .locking i ∈ (run schedule).stack (.process p) →
      .acquiresleep pc (.inode i) ∈ (run schedule).stack thread → thread = .process p) ∧
    ∀ thread pc chan lk callers i, (run schedule).stack thread = .sleep pc chan lk :: callers →
      .iput .locking i ∉ callers := by
  have sane := run_sane schedule
  refine ⟨?_, ?_, ?_⟩
  · intro thread pc i callers top before
    have locked : (Frame.iput .locking i :: callers).flatMap (Frame.held thread.proc?) ≠ [] := by
      simp [Frame.held, IputPc.held]
    refine ⟨sane.sleepLock_free top (by rcases before with rfl | rfl <;> rfl) locked, ?_⟩
    rintro rfl
    exact sane.inner_free top locked
  · intro p i thread pc putting member
    exact sane.only_user putting (Uses.of_errand sane member (.inl rfl) rfl)
  · intro thread pc chan lk callers i top member
    have nested := sane.owned.nested thread
    rw [top] at nested
    have fits : Fits _ (.sleep pc chan lk) callers := nested.1
    cases List.flatMap_eq_nil_iff.mp fits.room.1 _ member

/-- Interrupts are off on a CPU that has a lock, and `noff` counts its locks. -/
theorem interrupts_off_under_locks (schedule : List (Nat × Input)) (c : Nat) :
    (∃ locks : List Lock, locks.Nodup ∧ ((run schedule).cpu c).noff = locks.length ∧
      ∀ lock, lock ∈ locks ↔ (run schedule).owner lock = some c) ∧
    (((run schedule).cpu c).sie = true → ((run schedule).cpu c).noff = 0) := by
  have owned := (run_sane schedule).owned
  refine ⟨⟨_, owned.nodup c, owned.depth c, fun lock => (owned.owns c lock).symm⟩, fun on => ?_⟩
  rw [owned.depth c, owned.masked c on]
  rfl

end Xv6KernelEvent.Process
