import Xv6KernelEvent.Process.Safety

/-!
# No lost wakeups

When `wakeup` returns, nobody is left `SLEEPING` on its channel or on the way
there.  So a process sleeps on `&kq` or on a sleep lock only while there is
nothing to take, or while somebody who holds the condition lock is about to wake
it up.
-/

namespace Xv6KernelEvent.Process

open SpinThreads

variable {machine : State} {p : Nat} {chan : Chan}

/-- `SLEEPING` on a channel. -/
def SleepsOn (machine : State) (p : Nat) (chan : Chan) : Prop :=
  (machine.shared.proc p).state = .sleeping ∧ (machine.shared.proc p).chan = some chan

/-- A process has released the condition lock in `sleep` and is about to become
`SLEEPING`. -/
def FallsAsleep (machine : State) (p : Nat) (chan : Chan) : Prop :=
  ∃ lk, Frame.sleep .mark chan lk ∈ machine.stack (.process p)

/-- The sleep locks that a process has taken with `acquiresleep` and not yet
given back with `releasesleep`. -/
def HoldsSleepLock (machine : State) (p : Nat) (lock : SleepLock) : Prop :=
  .sleep lock ∈ threadOwns machine (.process p)

section Sleepers

variable (sane : Sane machine)

include sane

theorem Sane.waits_of_sleepsOn (sleeps : SleepsOn machine p chan) : Waits machine p chan := by
  refine .inr ⟨?_, sleeps.1⟩
  rw [← sane.slots.chans p]
  exact sleeps.2

theorem Sane.waits_of_fallsAsleep (falls : FallsAsleep machine p chan) : Waits machine p chan := by
  obtain ⟨lk, member⟩ := falls
  cases stack : machine.stack (.process p) with
  | nil =>
    rw [stack] at member
    cases member
  | cons frame callers =>
    rw [stack] at member
    rcases List.mem_cons.mp member with rfl | below
    · left
      rw [stack]
      rfl
    · rcases sane.callers_settled stack below with calm | hushed | ⟨isNone, _⟩
      · cases calm
      · cases hushed
      · cases isNone

/-- While the condition lock is free, sleepers have something to wait for. -/
theorem Sane.mustWait_of_free (sleeps : SleepsOn machine p chan)
    (free : machine.owner chan.lock = none) : MustWait machine.shared chan := by
  rcases sane.waiting.notified p chan (sane.waits_of_sleepsOn sleeps) with
    must | ⟨thread, frame, rest, shape, notifies⟩
  · exact must
  · have held := sane.notifier_held shape notifies
    obtain ⟨other, member, isHeld⟩ := List.mem_flatMap.mp held
    rw [← shape] at member
    rcases sane.owned.owner_of_held member isHeld with
      ⟨d, _, owner⟩ | ⟨q, isProc, _⟩
    · cases free.symm.trans owner
    · exact absurd isProc (chan.lock_ne_proc q)

end Sleepers

/-- In every state of every run: a `wakeup` that returns leaves no sleeper
behind, `SLEEPING` on the event queue or on a sleep lock means that there is
something to wait for, and a sleep lock has one holder. -/
theorem no_lost_wakeups (schedule : List (Nat × Input)) : (∀ c chan pc callers input value,
      (run schedule).stack ((run schedule).cpu c).thread = .wakeup pc chan :: callers →
      code ((run schedule).cpu c).thread.proc? (.wakeup pc chan)
        (run schedule).shared input = some (.ret value) →
      ∀ p, ¬ SleepsOn (run schedule) p chan ∧ ¬ FallsAsleep (run schedule) p chan) ∧
    ((run schedule).owner .kq = none → 0 < (run schedule).shared.kq.count →
      ∀ p, ¬ SleepsOn (run schedule) p .kq) ∧
    ∀ lock, ((run schedule).owner (.inner lock) = none → (run schedule).shared.locked lock = none →
        ∀ p, ¬ SleepsOn (run schedule) p (.sleepLock lock)) ∧
      ∀ p q, HoldsSleepLock (run schedule) p lock →
        HoldsSleepLock (run schedule) q lock → p = q := by
  have sane := run_sane schedule
  generalize run schedule = machine at sane ⊢
  refine ⟨?_, ?_, ?_⟩
  · intro c chan pc callers input value top coded p
    obtain ⟨done, _⟩ := code_flows coded
    have noWaiter : ¬ Waits machine p chan := by
      intro waits
      rcases done with calm | ⟨_, i, isWakeup, past⟩
      · cases calm
      · cases isWakeup
        exact sane.waiting.passed _ chan i (topMode_of_top top) p
          ((sane.waits_inRange waits).trans_le past) waits
    exact ⟨fun sleeps => noWaiter (sane.waits_of_sleepsOn sleeps),
      fun falls => noWaiter (sane.waits_of_fallsAsleep falls)⟩
  · intro free nonempty p sleeps
    have empty : machine.shared.kq.count = 0 := sane.mustWait_of_free sleeps free
    rw [empty] at nonempty
    exact absurd nonempty (by decide)
  · intro lock
    refine ⟨fun free unlocked p sleeps => ?_, fun p q holds again => ?_⟩
    · have locked : machine.shared.locked lock ≠ none := sane.mustWait_of_free sleeps free
      exact locked unlocked
    · exact Thread.process.inj
        ((sane.possession.exclusive (.sleep lock) trivial).alone _ _ holds again)

end Xv6KernelEvent.Process
