import Mathlib.Data.List.Perm.Subperm
import Xv6KernelEvent.Buffer.Simulation
import Xv6KernelEvent.Log.Reservation

/-!
# Buffers during a commit and between commits

Runs of the log over the buffer cache.  The invariants of the log hold of the
view of every state reached, so that references, pins and contents of the slots
are known.  With fewer logged blocks than slots a commit always finds its
buffers; with as many it finds none for the first log block.
-/

namespace Xv6KernelEvent

open Runs BufferCache

/-- The log with the history of its operations; `contents` is what the last
change of each block left. -/
structure BufferedSystem where
  log : BufferedLog
  history : LogHistory
  contents : Nat → Block

namespace BufferedSystem

def view (system : BufferedSystem) : LogSystem :=
  { machine := system.log.view, history := system.history }

/-- The contents after a step. -/
def change (contents : Nat → Block) : LogStep → Nat → Block
  | .modify _ block data => Function.update contents block data
  | _ => contents

/-- A panic stops the machine. -/
def next (system : BufferedSystem) (step : LogStep) : Option BufferedSystem :=
  if system.log.phase ≠ .stopped ∧ system.view.Orderly step then
    (system.log.perform step).map fun after =>
      { log := after
        history := system.history.record system.log.view step
        contents := change system.contents step }
  else none

def initial (start : Nat) (disk : Nat → Block) : BufferedSystem :=
  { log := .initial start disk, history := .empty, contents := disk }

/-- What holds of every state reached that is not a panic. -/
structure Sound (system : BufferedSystem) : Prop where
  consistent : system.log.cache.Consistent
  protocol : Protocol system.view

variable {system after : BufferedSystem}

theorem Sound.counted (sound : system.Sound) : system.log.Counted :=
  BufferedLog.counted_of_referenced sound.protocol.referenced sound.protocol.distinct

theorem initial_lookup (block : Nat) : BufferCache.binit.lookup block = none := by
  refine binit_consistent.lookup_eq_none ?_
  intro index holds
  exact absurd holds.1 Nat.zero_ne_one

theorem initial_view (start : Nat) (disk : Nat → Block) :
    (initial start disk).view = .initial start disk := by
  have empty : BufferCache.binit.lookup = fun _ => none := funext initial_lookup
  simp [view, initial, BufferedLog.view, BufferedLog.initial,
    LogSystem.initial, bootedMachine, empty]

theorem initial_sound (start : Nat) (disk : Nat → Block) : (initial start disk).Sound := by
  refine ⟨binit_consistent, ?_⟩
  rw [initial_view]
  exact Protocol.initial start disk

theorem drops_of_dropped {log : BufferedLog}
    (drops : Dropped log.cache.lookup dropped) : log.view.Drops dropped := by
  intro block
  rcases drops block with same | ⟨gone, buf, found, unused⟩
  · exact .inl same
  · refine .inr ⟨gone, ?_⟩
    rw [LogMachine.fetch_of_cache found]
    exact unused

theorem next_inversion (taken : system.next act = some after) :
    system.log.phase ≠ .stopped ∧ system.view.Orderly act ∧
      system.log.perform act = some after.log ∧
      after.history = system.history.record system.log.view act ∧
      after.contents = change system.contents act := by
  simp only [next] at taken
  split at taken
  · rename_i orderly
    obtain ⟨log, performs, rfl⟩ := Option.map_eq_some_iff.mp taken
    exact ⟨orderly.1, orderly.2, performs, rfl, rfl⟩
  · cases taken

/-- A step of the system is one of its view. -/
theorem Sound.simulated (sound : system.Sound) (taken : system.next act = some after)
    (alive : after.log.phase ≠ .stopped) :
    Simulated system.log act after.log ∧ ∃ dropped, system.log.view.Drops dropped ∧
        (system.log.view.drop dropped).perform act = some after.log.view := by
  obtain ⟨_, _, performs, _⟩ := next_inversion taken
  have simulated := BufferedLog.simulated sound.consistent sound.counted performs alive
  obtain ⟨dropped, drops, view⟩ := simulated.view
  exact ⟨simulated, dropped, drops_of_dropped drops, view⟩

theorem view_drop_next (running : system.log.phase ≠ .stopped) (orderly : system.view.Orderly act)
    (history : after.history = system.history.record system.log.view act)
    (performs : (system.log.view.drop dropped).perform act = some after.log.view) :
    LogSystem.next { machine := system.log.view.drop dropped, history := system.history }
      act = some after.view := by
  have condition : (system.log.view.drop dropped).phase ≠ .stopped ∧ LogSystem.Orderly
        { machine := system.log.view.drop dropped
          history := system.history } act := by
    refine ⟨running, ?_⟩
    cases act <;> exact orderly
  have recorded : system.history.record (system.log.view.drop dropped) act =
      system.history.record system.log.view act := by
    cases act <;> rfl
  simp only [LogSystem.next]
  rw [if_pos condition, performs, recorded, ← history]
  rfl

theorem Sound.step (sound : system.Sound) (taken : system.next act = some after)
    (alive : after.log.phase ≠ .stopped) : after.Sound := by
  obtain ⟨simulated, dropped, drops, performs⟩ := sound.simulated taken alive
  obtain ⟨running, orderly, _, history, _⟩ := next_inversion taken
  exact ⟨simulated.consistent, (sound.protocol.drop drops).step
    (view_drop_next running orderly history performs) alive⟩

theorem sound_of_run (runs : run next (initial start disk) steps = some system)
    (alive : system.log.phase ≠ .stopped) : system.Sound := by
  have kept : ∀ {before : BufferedSystem} {step : LogStep} {later : BufferedSystem},
      (before.log.phase ≠ .stopped → before.Sound) →
      before.next step = some later →
      later.log.phase ≠ .stopped → later.Sound := by
    intro before step later holds taken alive
    exact (holds (next_inversion taken).1).step taken alive
  exact run_invariant kept runs (fun _ => initial_sound start disk) alive

end BufferedSystem

/-- Nobody holds a buffer. -/
def BufferCache.Unlocked (cache : BufferCache) : Prop := ∀ index, (cache.buf index).holder = none

namespace BufferCache

variable {cache : BufferCache}

/-- A block that is cached is read from its buffer. -/
theorem Consistent.bread_of_holds (consistent : cache.Consistent) (unlocked : cache.Unlocked)
    (holds : cache.Holds index block) (disk : Nat → Block) :
    ∃ found after, cache.bread disk block = .reads found after := by
  simp only [bread, bget, consistent.find_iff.mpr holds]
  rw [if_pos]
  · split
    · exact ⟨_, _, rfl⟩
    · exact ⟨_, _, rfl⟩
  · simp [BufferCache.setBuf, unlocked index]

/-- A block that is not cached goes into a buffer without references. -/
theorem Consistent.bread_of_unused (consistent : cache.Consistent) (unlocked : cache.Unlocked)
    (unused : (cache.buf index).refcnt = 0) (disk : Nat → Block) (block : Nat) :
    ∃ found after, cache.bread disk block = .reads found after := by
  cases cached : cache.findCached LOGDEV block with
  | some found => exact consistent.bread_of_holds unlocked (consistent.find_iff.mp cached) disk
  | none =>
    cases free : cache.findUnused with
    | none =>
      obtain ⟨order, ordered⟩ := consistent.ordered
      rw [ordered.findUnused, List.find?_eq_none] at free
      have busy := free index (by simp [ordered.complete index])
      simp [unused] at busy
    | some found =>
      simp only [bread, bget, cached, free]
      rw [if_pos]
      · split
        · exact ⟨_, _, rfl⟩
        · exact ⟨_, _, rfl⟩
      · simp [BufferCache.setBuf, unlocked found]

end BufferCache

namespace BufferedSystem

variable {system : BufferedSystem}

/-- The slots with references hold pinned blocks. -/
theorem Sound.pinned_of_referenced (sound : system.Sound) (unlocked : system.log.cache.Unlocked)
    (referenced : (system.log.cache.buf index).refcnt ≠ 0) :
    (system.log.cache.buf index).blockno ∈ system.log.lh ∧
      (system.log.cache.buf index).dev = LOGDEV := by
  rcases sound.consistent.filled index with unused | used
  · exact absurd unused.2.1 referenced
  · refine ⟨?_, used.1⟩
    have fetched := BufferedLog.fetch_of_holds sound.consistent
      (show system.log.cache.Holds index _ from ⟨used.1, rfl⟩)
    have counted := sound.protocol.referenced (system.log.cache.buf index).blockno
    change (system.log.view.fetch _).refcnt = (if (system.log.view.fetch
      _).holder = none then 0 else 1) + system.log.view.pinned.count _ at counted
    rw [fetched] at counted
    simp only [CacheBuf.view, unlocked index, if_true, Nat.zero_add]
      at counted
    have positive : 0 < (system.log.cache.buf index).refcnt.toNat := by
      rw [Nat.pos_iff_ne_zero]
      intro zero
      exact referenced (UInt32.toNat_inj.mp zero)
    rw [counted] at positive
    have member := List.count_pos_iff.mp positive
    exact LogMachine.mem_lh_of_pinned member

/-- With fewer logged blocks than slots, some slot has no references. -/
theorem Sound.exists_unused (sound : system.Sound) (unlocked : system.log.cache.Unlocked)
    (room : system.log.lh.length < NBUF) : ∃ index, (system.log.cache.buf index).refcnt = 0 := by
  by_contra none
  rw [not_exists] at none
  have listed : ((List.finRange NBUF).map fun index =>
      (system.log.cache.buf index).blockno).Nodup := by
    refine (List.nodup_finRange NBUF).map_on ?_
    intro first _ second _ same
    have one := sound.pinned_of_referenced unlocked (none first)
    have two := sound.pinned_of_referenced unlocked (none second)
    exact sound.consistent.holds_unique ⟨one.2, same⟩ ⟨two.2, rfl⟩
  have inside : ((List.finRange NBUF).map fun index =>
      (system.log.cache.buf index).blockno) ⊆ system.log.lh := by
    intro block member
    obtain ⟨index, _, rfl⟩ := List.mem_map.mp member
    exact (sound.pinned_of_referenced unlocked (none index)).1
  have short := (List.subperm_of_subset listed inside).length_le
  rw [List.length_map, List.length_finRange] at short
  omega

/-- A pinned block is in a slot with references. -/
theorem Sound.cached_of_pinned (sound : system.Sound) (member : block ∈ system.log.view.pinned) :
    ∃ index, system.log.cache.Holds index block ∧ (system.log.cache.buf index).refcnt ≠ 0 := by
  have positive := sound.counted.pinned block member
  cases found : system.log.cache.lookup block with
  | none =>
    have absent : system.log.view.fetch block =
        { data := system.log.disk block, refcnt := 0, holder := none } := by
      simp only [LogMachine.fetch, BufferedLog.view, found]
      rfl
    rw [absent] at positive
    cases positive
  | some buf =>
    obtain ⟨index, holds, rfl⟩ := sound.consistent.holds_of_lookup found
    rw [BufferedLog.fetch_of_holds sound.consistent holds] at positive
    refine ⟨index, holds, ?_⟩
    intro zero
    simp [CacheBuf.view, zero] at positive

theorem unlocked_of_readSpec (unlocked : cache.Unlocked)
    (spec : ReadSpec cache disk block index after) : after.Unlocked := by
  intro other
  by_cases same : other = index
  · rw [same]
    exact spec.free
  · rw [spec.others other same]
    exact unlocked other

/-- Reading a log block and then a pinned block. -/
theorem Sound.breadTwo (sound : system.Sound) (unlocked : system.log.cache.Unlocked)
    (room : system.log.lh.length < NBUF) (first : Nat) (pinned : second ∈ system.log.view.pinned)
    (finish : Fin NBUF → Fin NBUF → BufferCache → BufferedLog) :
    ∃ one two cache, system.log.breadTwo first second finish =
          (if two = one then none else some (finish one two cache)) ∧
        (first ≠ second → two ≠ one) := by
  obtain ⟨unused, free⟩ := sound.exists_unused unlocked room
  obtain ⟨one, middle, firstRead⟩ :=
    sound.consistent.bread_of_unused unlocked free system.log.disk first
  have before := sound.consistent.bread_reads firstRead
  obtain ⟨index, holds, referenced⟩ := sound.cached_of_pinned pinned
  obtain ⟨two, cache, secondRead⟩ := before.consistent.bread_of_holds
    (unlocked_of_readSpec unlocked before)
    (before.keeps index second referenced holds) system.log.disk
  have later := before.consistent.bread_reads secondRead
  have still := before.keeps index second referenced holds
  have hit : index = two := by
    by_contra differs
    refine differs (later.consistent.holds_unique ?_ later.holds)
    rw [BufferCache.Holds, later.others index differs]
    exact still
  refine ⟨one, two, cache, ?_, ?_⟩
  · simp only [BufferedLog.breadTwo, firstRead, secondRead]
  · rintro different rfl
    rw [hit] at still
    exact different (before.holds.2.symm.trans still.2)

theorem Sound.writeHead (sound : system.Sound) (unlocked : system.log.cache.Unlocked)
    (room : system.log.lh.length < NBUF) :
    ∃ after, system.log.writeHead = some after ∧ after.phase = system.log.phase := by
  obtain ⟨unused, free⟩ := sound.exists_unused unlocked room
  obtain ⟨index, cache, read⟩ :=
    sound.consistent.bread_of_unused unlocked free system.log.disk system.log.start
  simp only [BufferedLog.writeHead, read]
  exact ⟨_, rfl, rfl⟩

theorem goOn_alive {next : BufferedLog} (running : next.phase ≠ .stopped) (pc : CommitPc) :
    (next.goOn (.committing pc)).phase ≠ .stopped := by
  simp [BufferedLog.goOn, running, BufferedLog.setPhase]

/-- An iteration of `write_log` or `install_trans` finds its buffers. -/
theorem Sound.iteration (sound : system.Sound) (unlocked : system.log.cache.Unlocked)
    (room : system.log.lh.length < NBUF) (running : system.log.phase ≠ .stopped)
    (entry : system.log.lh[tail]? = some block) (pinned : block ∈ system.log.view.pinned)
    (same : ∀ one two cache, (finish one two cache).phase = system.log.phase) (pc : CommitPc) :
    let result :=
      (system.log.breadTwo (system.log.start + tail + 1) block finish).bind
        fun next => some (next.goOn (.committing pc))
    (∀ after, result = some after → after.phase ≠ .stopped) ∧
      ((∀ block ∈ system.log.lh, ¬InLogArea system.log.start block) →
        ∃ after, result = some after) := by
  intro result
  obtain ⟨one, two, cache, reads, apart⟩ :=
    sound.breadTwo unlocked room (system.log.start + tail + 1) pinned finish
  have below : tail < LOGBLOCKS := by
    have short : system.log.lh.length ≤ LOGBLOCKS := sound.protocol.short
    obtain ⟨inside, _⟩ := List.getElem?_eq_some_iff.mp entry
    omega
  constructor
  · intro after commits
    obtain ⟨next, writes, goes⟩ := Option.bind_eq_some_iff.mp commits
    cases goes
    rw [reads] at writes
    split at writes
    · cases writes
    · cases writes
      refine goOn_alive ?_ pc
      rw [same]
      exact running
  · intro outside
    have different : system.log.start + tail + 1 ≠ block := by
      rintro rfl
      refine outside _ (List.mem_of_getElem? entry) ⟨?_, ?_⟩
      · omega
      · omega
    refine ⟨(finish one two cache).goOn (.committing pc), ?_⟩
    simp only [result, reads, if_neg (apart different), Option.bind_some]

/-- The next step of a commit finds its buffers. -/
theorem Sound.commit (sound : system.Sound) (unlocked : system.log.cache.Unlocked)
    (room : system.log.lh.length < NBUF) (phase : system.log.phase = .committing pc) :
    (∀ after, system.log.commit = some after → after.phase ≠ .stopped) ∧
      ((∀ block ∈ system.log.lh, ¬InLogArea system.log.start block) →
        ∃ after, system.log.commit = some after) := by
  have running : system.log.phase ≠ .stopped := by simp [phase]
  obtain ⟨headed, writes, same⟩ := sound.writeHead unlocked room
  have alive : headed.phase ≠ .stopped := by
    rw [same]
    exact running
  cases pc with
  | writeLog tail =>
    simp only [BufferedLog.commit, phase]
    cases entry : system.log.lh[tail]? with
    | some block =>
      have pinned : block ∈ system.log.view.pinned := by
        simp only [LogMachine.pinned, BufferedLog.view, phase]
        exact List.mem_of_getElem? entry
      exact sound.iteration unlocked room running entry pinned (by intros; rfl) _
    | none =>
      refine ⟨?_, fun _ => ⟨_, rfl⟩⟩
      rintro after ⟨rfl⟩
      simp [BufferedLog.setPhase]
  | writeHead | clearHead =>
    simp only [BufferedLog.commit, phase, writes]
    refine ⟨?_, fun _ => ⟨_, rfl⟩⟩
    rintro after ⟨rfl⟩
    exact goOn_alive alive _
  | installTrans tail =>
    simp only [BufferedLog.commit, phase]
    cases entry : system.log.lh[tail]? with
    | some block =>
      have pinned : block ∈ system.log.view.pinned := by
        have first : (system.log.lh.drop tail)[0]? = some block := by
          rw [List.getElem?_drop]
          exact entry
        simp only [LogMachine.pinned, BufferedLog.view, phase]
        exact List.mem_of_getElem? first
      exact sound.iteration unlocked room running entry pinned (by intros; rfl) _
    | none =>
      refine ⟨?_, fun _ => ⟨_, rfl⟩⟩
      rintro after ⟨rfl⟩
      simp
  | finish =>
    simp only [BufferedLog.commit, phase]
    refine ⟨?_, fun _ => ⟨_, rfl⟩⟩
    rintro after ⟨rfl⟩
    simp [BufferedLog.setPhase]

end BufferedSystem

theorem commit_finds_buffers (start : Nat) (disk : Nat → Block) (steps : List LogStep)
    (system : BufferedSystem) (pc : CommitPc)
    (runs : run BufferedSystem.next (.initial start disk) steps = some system)
    (committing : system.log.phase = .committing pc) (unlocked : system.log.cache.Unlocked)
    (room : system.log.lh.length < NBUF) :
    (∀ after, system.next .commit = some after → after.log.phase ≠ .stopped) ∧
    ((∀ block ∈ system.log.lh, ¬InLogArea system.log.start block) →
      ∃ after, system.next .commit = some after) := by
  have running : system.log.phase ≠ .stopped := by simp [committing]
  have sound := BufferedSystem.sound_of_run runs running
  obtain ⟨safe, goes⟩ := sound.commit unlocked room committing
  constructor
  · intro after taken
    obtain ⟨_, _, performs, _⟩ := BufferedSystem.next_inversion taken
    exact safe after.log performs
  · intro outside
    obtain ⟨after, commits⟩ := goes outside
    have orderly : system.log.phase ≠ .stopped ∧ system.view.Orderly .commit := ⟨running, trivial⟩
    simp only [BufferedSystem.next, if_pos orderly, BufferedLog.perform, commits]
    exact ⟨_, rfl⟩

/-- The three operations that fill the log, up to their commit. -/
def fullCommit : List LogStep := threeOperations ++ [.endOp 1, .endOp 2, .endOp 3]

def zeroBuffers : BufferedSystem := .initial 2 fun _ => Vector.replicate BSIZE 0

theorem commit_finds_buffers_sharedBlock : ∃ system after,
      run BufferedSystem.next zeroBuffers (sharedBlock.take 13) = some system ∧
      system.log.phase = .committing (.writeLog 0) ∧
      system.log.cache.Unlocked ∧ system.log.lh.length < NBUF ∧
      system.next .commit = some after ∧ after.log.phase ≠ .stopped := by
  have facts : (run BufferedSystem.next zeroBuffers (sharedBlock.take 13)).any
      (fun system => system.log.phase = .committing (.writeLog 0) ∧
        (∀ index, (system.log.cache.buf index).holder = none) ∧
        system.log.lh = [40, 41] ∧ system.log.start = 2) = true := by
    decide +kernel
  rw [Option.any_eq_true] at facts
  obtain ⟨system, runs, found⟩ := facts
  obtain ⟨committing, unlocked, entries, start⟩ := of_decide_eq_true found
  have room : system.log.lh.length < NBUF := by
    rw [entries]
    decide
  obtain ⟨safe, goes⟩ := commit_finds_buffers 2
    (fun _ => Vector.replicate BSIZE 0) (sharedBlock.take 13) system
    (.writeLog 0) runs committing unlocked room
  have outside : ∀ block ∈ system.log.lh, ¬InLogArea system.log.start block := by
    rw [entries, start]
    decide
  obtain ⟨after, taken⟩ := goes outside
  exact ⟨system, after, runs, committing, unlocked, room, taken, safe after taken⟩

/-- Each operation logs ten distinct blocks and all have ended; the thirty
pinned blocks leave no buffer for the first log block. -/
theorem full_commit_panics : (run BufferedSystem.next zeroBuffers fullCommit).any (fun system =>
      decide (system.log.phase = .committing (.writeLog 0) ∧
        system.log.outstanding = 0 ∧ system.log.lh.length = NBUF ∧
        (∀ index, (system.log.cache.buf index).holder = none)) &&
      (system.next .commit).any fun after => decide (after.log.phase = .stopped)) = true ∧
    Along LogSystem.next LogSystem.Modest zeroLog fullCommit := by
  decide +kernel

end Xv6KernelEvent
