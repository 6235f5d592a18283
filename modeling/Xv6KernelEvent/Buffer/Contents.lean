import Xv6KernelEvent.Buffer.Coherence

/-!
# What readers see

File-system code changes buffers within operations and passes each changed
buffer to `log_write` before it releases it.  Then buffers that are neither
locked nor logged agree with the disk, buffers of logged blocks stay where they
are until they are installed, and a `bread` returns what the last change of its
block left, whatever was recycled in between.
-/

namespace Xv6KernelEvent

open Runs BufferCache AtomicStore

namespace LogMachine

/-- The machine of a recovered log. -/
theorem Invariant.initial (device : LogDisk) :
    (LogSystem.initial device.start device.disk).machine.Invariant (.empty device.disk) := by
  constructor
  · refine ⟨⟨device.cleared, Header.get_of_count_eq_zero device.cleared,
      EntriesValid.nil _, by simp [Copied], ?_⟩, EntriesValid.nil _⟩
    intro block _ _
    simp [LogSystem.initial, bootedMachine]
  · intro _
    constructor
    · intro block _
      simp [LogSystem.initial, bootedMachine, fetch, contents]
    · intro block _
      simp [LogSystem.initial, bootedMachine, fetch, pinned]
    · intro block member
      cases member
    · intro block _ _ _
      simp [LogSystem.initial, bootedMachine, contents]
    · intro block _
      exact ⟨rfl, rfl⟩
  · intro _
    exact ⟨rfl, fun _ => rfl⟩

/-- Dropping buffers forbids nothing. -/
theorem Allowed.drop {machine : LogMachine} {step : LogStep} (allowed : machine.Allowed step)
    {dropped : Nat → Option Buf} (drops : machine.Drops dropped) :
    (machine.drop dropped).Allowed step := by
  cases step with
  | endOp process =>
    refine ⟨allowed.1, allowed.2.1, ?_⟩
    intro block member
    rcases drops.fetch block with same | ⟨_, absent⟩
    · rw [same]
      exact allowed.2.2 block member
    · simp [absent]
  | _ => exact allowed

end LogMachine

namespace BufferedSystem

variable {system after : BufferedSystem} {act : LogStep}

/-- The log carries out the changes. -/
structure Coherent (system : BufferedSystem) : Prop where
  sound : system.Sound
  ledger : ∃ ledger : Ledger Nat Block,
    system.log.view.Invariant ledger ∧ ledger.logical = system.contents

theorem initial_coherent (device : LogDisk) : (initial device.start device.disk).Coherent := by
  refine ⟨initial_sound _ _, .empty device.disk, ?_, by simp [initial]⟩
  have same := initial_view device.start device.disk
  have machine : (initial device.start device.disk).log.view =
      (LogSystem.initial device.start device.disk).machine :=
    congrArg LogSystem.machine same
  rw [machine]
  exact LogMachine.Invariant.initial device

theorem logical_account {machine : LogMachine} (orderly : act ≠ .crash)
    (ledger : Ledger Nat Block) :
    (machine.account act ledger).logical = change ledger.logical act := by
  cases act with
  | modify process block data => simp [LogMachine.account, change]
  | commit =>
    simp only [LogMachine.account, change]
    split
    · exact Ledger.logical_commit ledger
    · rfl
  | crash => exact absurd rfl orderly
  | _ => rfl

theorem Coherent.step (coherent : system.Coherent) (allowed : system.log.view.Allowed act)
    (taken : system.next act = some after)
    (alive : after.log.phase ≠ .stopped) : after.Coherent := by
  obtain ⟨ledger, invariant, logical⟩ := coherent.ledger
  obtain ⟨_, orderly, _, _, contents⟩ := next_inversion taken
  obtain ⟨_, dropped, drops, performs⟩ := coherent.sound.simulated taken alive
  refine ⟨coherent.sound.step taken alive,
    (system.log.view.drop dropped).account act ledger, ?_, ?_⟩
  · refine (invariant.drop drops).step ?_
    simp only [LogMachine.step]
    rw [if_pos (allowed.drop drops)]
    exact performs
  · have stays : act ≠ .crash := by
      rintro rfl
      exact orderly
    rw [logical_account stays, logical, contents]

theorem coherent_of_run {device : LogDisk} {steps : List LogStep}
    (runs : run next (initial device.start device.disk) steps = some system)
    (allowed : Along next (fun system => system.log.view.Allowed)
      (initial device.start device.disk) steps)
    (alive : system.log.phase ≠ .stopped) : system.Coherent := by
  have kept : ∀ {before : BufferedSystem} {step : LogStep} {later : BufferedSystem},
      (before.log.phase ≠ .stopped → before.Coherent) →
      before.log.view.Allowed step → before.next step = some later →
      later.log.phase ≠ .stopped → later.Coherent := by
    intro before step later holds obeys taken alive
    exact (holds (next_inversion taken).1).step obeys taken alive
  exact run_preserves kept runs allowed (fun _ => initial_coherent device) alive

/-- In no phase that is reached are readers shown the disk instead of the
log. -/
theorem Coherent.contents_eq (coherent : system.Coherent) (ledger : Ledger Nat Block) :
    system.log.view.contents ledger = ledger.logical := by
  have progress := coherent.sound.protocol.progress
  cases phase : system.log.view.phase with
  | recovering pc =>
    have phaseView : system.view.machine.phase = .recovering pc := phase
    rw [phaseView] at progress
    exact progress.elim
  | _ => simp only [LogMachine.contents, phase]

/-- The buffers relate to the disk and to what readers see. -/
theorem Coherent.buffers (coherent : system.Coherent) (alive : system.log.phase ≠ .stopped) :
    system.log.view.Buffers system.log.view.pinned system.contents := by
  obtain ⟨ledger, invariant, logical⟩ := coherent.ledger
  have buffers := invariant.buffers alive
  rwa [coherent.contents_eq, logical] at buffers

theorem Coherent.settled (coherent : system.Coherent) (alive : system.log.phase ≠ .stopped)
    (free : (system.log.cache.buf index).holder = none)
    (device : (system.log.cache.buf index).dev = LOGDEV)
    (unlogged : (system.log.cache.buf index).blockno ∉ system.log.lh) :
    (system.log.cache.buf index).data = system.log.disk (system.log.cache.buf index).blockno := by
  have buffers := coherent.buffers alive
  have fetched := BufferedLog.fetch_of_holds coherent.sound.consistent
    (show system.log.cache.Holds index _ from ⟨device, rfl⟩)
  have data : (system.log.cache.buf index).data = (system.log.view.fetch
      (system.log.cache.buf index).blockno).data := by
    rw [fetched]
    rfl
  rw [data]
  by_cases home : HomeBlock system.log.view.start (system.log.cache.buf index).blockno
  · rw [buffers.data _ home]
    refine (buffers.settled _ home ?_ ?_).symm
    · exact fun member => unlogged (LogMachine.mem_lh_of_pinned member)
    · intro member
      obtain ⟨_, process, _, holds⟩ := buffers.held _ member
      rw [fetched] at holds
      simp [CacheBuf.view, free] at holds
  · exact (buffers.through _ home).1

end BufferedSystem

theorem cache_coherent_under_log (device : LogDisk) (steps : List LogStep) (system : BufferedSystem)
    (runs : run BufferedSystem.next (.initial device.start device.disk) steps = some system)
    (allowed : Along BufferedSystem.next (fun system => system.log.view.Allowed)
      (.initial device.start device.disk) steps) (alive : system.log.phase ≠ .stopped) :
    (∀ index, (system.log.cache.buf index).valid = true →
      (system.log.cache.buf index).holder = none →
      (system.log.cache.buf index).dev = LOGDEV →
      (system.log.cache.buf index).blockno ∉ system.log.lh →
      (system.log.cache.buf index).data = system.log.disk (system.log.cache.buf index).blockno) ∧
    (∀ block ∈ system.log.view.pinned, ∃ index, system.log.cache.Holds index block ∧
      (system.log.cache.buf index).valid = true ∧
      (system.log.cache.buf index).refcnt ≠ 0 ∧
      ∀ step after, system.next step = some after →
        after.log.phase ≠ .stopped → after.log.cache.Holds index block) ∧
    (∀ process block after, system.log.view.Allowed (.bread process block) →
      system.next (.bread process block) = some after →
      after.log.phase ≠ .stopped → ∃ index, after.log.cache.Holds index block ∧
        (after.log.cache.buf index).holder = some process ∧
        (after.log.cache.buf index).data = system.contents block) := by
  have coherent := BufferedSystem.coherent_of_run runs allowed alive
  refine ⟨?_, ?_, ?_⟩
  · intro index _ free inLog unlogged
    exact coherent.settled alive free inLog unlogged
  · intro block member
    obtain ⟨index, holds, referenced⟩ := coherent.sound.cached_of_pinned member
    refine ⟨index, holds, ?_, referenced, ?_⟩
    · rcases coherent.sound.consistent.filled index with unused | used
      · exact absurd unused.2.1 referenced
      · exact used.2
    · intro step after taken stays
      exact (coherent.sound.simulated taken stays).1.keeps index block referenced holds
  · intro process block after obeys taken stays
    have later := coherent.step obeys taken stays
    obtain ⟨_, _, performs, _, contents⟩ := BufferedSystem.next_inversion taken
    obtain ⟨start, index, holds, holder⟩ := BufferedLog.bread_holds
      coherent.sound.consistent performs stays
    have home : HomeBlock after.log.view.start block := by
      change HomeBlock after.log.start block
      rw [start]
      exact obeys.2
    have data := (later.buffers stays).data block home
    rw [BufferedLog.fetch_of_holds later.sound.consistent holds, contents]
      at data
    exact ⟨index, holds, holder, data⟩

/-- A block is changed and installed. -/
def installedBlock : List LogStep :=
  [.beginOp 1, .bread 1 40, .modify 1 40 (Vector.replicate BSIZE 7),
    .logWrite 1 40, .brelse 1 40, .endOp 1] ++ List.replicate 7 .commit

theorem cache_coherent_under_log_installedBlock : ∃ system after,
      run BufferedSystem.next (.initial zeroDisk.start zeroDisk.disk) installedBlock = some system ∧
      system.next (.bread 1 40) = some after ∧ ∃ index, after.log.cache.Holds index 40 ∧
        (after.log.cache.buf index).data[0]? = some 7 := by
  have facts : (run BufferedSystem.next (.initial zeroDisk.start zeroDisk.disk) installedBlock).any
      (fun system => decide (system.log.phase = .running ∧ system.log.view.Allowed (.bread 1 40) ∧
          (system.contents 40)[0]? = some 7) &&
        (system.next (.bread 1 40)).any fun after => decide (after.log.phase = .running)) = true ∧
      Along BufferedSystem.next (fun system => system.log.view.Allowed)
        (.initial zeroDisk.start zeroDisk.disk) installedBlock := by
    decide +kernel
  obtain ⟨facts, allowed⟩ := facts
  rw [Option.any_eq_true] at facts
  obtain ⟨system, runs, found⟩ := facts
  rw [Bool.and_eq_true, decide_eq_true_eq, Option.any_eq_true] at found
  obtain ⟨⟨running, obeys, contents⟩, after, taken, stays⟩ := found
  have alive : after.log.phase ≠ .stopped := by simp [of_decide_eq_true stays]
  obtain ⟨_, _, reads⟩ := cache_coherent_under_log zeroDisk installedBlock system
    runs allowed (by simp [running])
  obtain ⟨index, holds, _, data⟩ := reads 1 40 after obeys taken alive
  refine ⟨system, after, runs, taken, index, holds, ?_⟩
  rw [data]
  exact contents

end Xv6KernelEvent
