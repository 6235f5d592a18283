import Xv6KernelEvent.Buffer.Refinement

/-!
# Steps over slots are steps of the log

Each step of the log over the buffer cache that does not panic is the same step
of its view, once unreferenced buffers have been dropped from it.
-/

namespace Xv6KernelEvent

open BufferCache

/-- The step is one of the view, and slots with references keep their
blocks. -/
structure Simulated (log : BufferedLog) (step : LogStep) (after : BufferedLog) : Prop where
  consistent : after.cache.Consistent
  keeps : Keeps log.cache after.cache
  view : ∃ dropped, Dropped log.cache.lookup dropped ∧
    (log.view.drop dropped).perform step = some after.view

theorem LogMachine.pinned_nodup {machine : LogMachine} (distinct : machine.lh.Nodup) :
    machine.pinned.Nodup := by
  unfold LogMachine.pinned
  split
  · exact distinct.sublist (List.drop_sublist _ _)
  · exact List.nodup_nil
  · exact distinct

theorem LogMachine.mem_lh_of_pinned
    {machine : LogMachine} {block : Nat} (member : block ∈ machine.pinned) :
    block ∈ machine.lh := by
  unfold LogMachine.pinned at member
  split at member
  · exact List.mem_of_mem_drop member
  · cases member
  · exact member

theorem LogMachine.Referenced.le_two {machine : LogMachine} (referenced : machine.Referenced)
    (distinct : machine.lh.Nodup) (block : Nat) : (machine.fetch block).refcnt ≤ 2 := by
  have once : machine.pinned.count block ≤ 1 :=
    List.nodup_iff_count_le_one.mp (pinned_nodup distinct) block
  have counted := referenced block
  split at counted <;> omega

namespace BufferedLog

variable {log after : BufferedLog} {index : Fin NBUF} {process block : Nat}

/-- What the references of the view have to satisfy. -/
structure Counted (log : BufferedLog) : Prop where
  small : ∀ block, (log.view.fetch block).refcnt ≤ 2
  held : ∀ block, (log.view.fetch block).holder ≠ none → 1 ≤ (log.view.fetch block).refcnt
  pinned : ∀ block ∈ log.view.pinned, 1 ≤ (log.view.fetch block).refcnt

theorem counted_of_referenced (referenced : log.view.Referenced) (distinct : log.lh.Nodup) :
    log.Counted := by
  refine ⟨referenced.le_two distinct, ?_, ?_⟩
  · intro block holder
    have counted := referenced block
    rw [if_neg holder] at counted
    omega
  · intro block member
    have counted := referenced block
    have positive := List.count_pos_iff.mpr member
    omega

theorem fetch_of_holds (consistent : log.cache.Consistent) (holds : log.cache.Holds index block) :
    log.view.fetch block = (log.cache.buf index).view :=
  LogMachine.fetch_of_cache (consistent.lookup_of_holds holds)

theorem held_spec (consistent : log.cache.Consistent) (held : log.held process block = some index) :
    log.cache.Holds index block ∧ (log.cache.buf index).holder = some process := by
  obtain ⟨found, cached, holder⟩ := Option.bind_eq_some_iff.mp held
  split at holder
  · rename_i holds
    cases holder
    exact ⟨consistent.find_iff.mp cached, holds⟩
  · cases holder

theorem toNat_add_one {word : UInt32} (small : word.toNat ≤ 2) :
    (word + 1).toNat = word.toNat + 1 := by
  have one : (1 : UInt32).toNat = 1 := rfl
  rw [UInt32.toNat_add, one, Nat.mod_eq_of_lt]
  omega

theorem toNat_sub_one {word : UInt32} (positive : 1 ≤ word.toNat) :
    (word - 1).toNat = word.toNat - 1 := by
  rw [UInt32.toNat_sub_of_le]
  · rfl
  · exact positive

theorem fetch_drop (same : dropped block = log.cache.lookup block) :
    (log.view.drop dropped).fetch block = fetched log.disk log.cache.lookup block := by
  simp only [LogMachine.fetch, LogMachine.drop, fetched, same]
  rfl

theorem toNat_of_read {cache : BufferCache} (small : (log.view.fetch block).refcnt ≤ 2)
    (spec : ReadSpec log.cache log.disk block index cache) :
    (cache.buf index).refcnt.toNat = (fetched log.disk log.cache.lookup block).refcnt + 1 := by
  have before : ((cache.buf index).refcnt - 1).toNat ≤ 2 := by
    rw [spec.refcnt]
    exact small
  rw [← spec.refcnt, ← toNat_add_one before, UInt32.sub_add_cancel]

section

variable (consistent : log.cache.Consistent)

include consistent

theorem simulated_bread (counted : log.Counted) (reads : log.bread process block = some after)
    (alive : after.phase ≠ .stopped) : Simulated log (.bread process block) after := by
  unfold BufferedLog.bread at reads
  split at reads
  · cases reads
    exact absurd rfl alive
  · cases reads
  · rename_i index cache result
    cases reads
    have spec := consistent.bread_reads result
    obtain ⟨dropped, drops, same, lookup⟩ := spec.lookup
    obtain ⟨still, _, updated⟩ := spec.consistent.setBuf spec.holds
      (show ({ cache.buf index with holder := some process } : CacheBuf).dev = _ from rfl) rfl rfl
    refine ⟨still, spec.keeps.trans fun other => ?_, dropped, drops, ?_⟩
    · apply update_keys <;> rfl
    · have refcnt := toNat_of_read (counted.small block) spec
      simp only [LogMachine.perform, LogMachine.bread,
        fetch_drop same, spec.unlocked, if_true, Option.some.injEq]
      simp only [LogMachine.setBuf, LogMachine.drop, view, LogMachine.mk.injEq, true_and, and_true]
      rw [updated, lookup, Function.update_idem]
      simp only [CacheBuf.view, refcnt, spec.data]

/-- After a `bread` the process holds the buffer of the block. -/
theorem bread_holds (reads : log.bread process block = some after)
    (alive : after.phase ≠ .stopped) :
    after.start = log.start ∧ ∃ index, after.cache.Holds index block ∧
      (after.cache.buf index).holder = some process := by
  unfold BufferedLog.bread at reads
  split at reads
  · cases reads
    exact absurd rfl alive
  · cases reads
  · rename_i index cache result
    cases reads
    have spec := consistent.bread_reads result
    have self : (cache.setBuf index { cache.buf index with holder := some process }).buf index =
        { cache.buf index with holder := some process } :=
      Function.update_self _ _ _
    refine ⟨rfl, index, ?_, ?_⟩
    · simp only [BufferCache.Holds, self]
      exact spec.holds
    · simp only [self]

theorem simulated_brelse (counted : log.Counted)
    (releases : log.brelse process block = some after) :
    Simulated log (.brelse process block) after := by
  obtain ⟨index, held, releases⟩ := Option.bind_eq_some_iff.mp releases
  cases releases
  obtain ⟨holds, holder⟩ := held_spec consistent held
  obtain ⟨still, lookup⟩ := consistent.brelse holds
  have fetched := fetch_of_holds consistent holds
  have positive := counted.held block (by simp [fetched, CacheBuf.view, holder])
  rw [fetched] at positive
  refine ⟨still, .of_keys (brelse_keys log.cache index), log.cache.lookup, .refl _, ?_⟩
  have cached : (log.view.drop log.cache.lookup).cache block =
      some (log.cache.buf index).view := consistent.lookup_of_holds holds
  simp only [LogMachine.perform, LogMachine.brelse, cached,
    Option.bind_eq_bind, Option.bind_some, CacheBuf.view, holder, if_true,
    Option.some.injEq]
  simp only [LogMachine.setBuf, LogMachine.drop, view, LogMachine.mk.injEq, true_and, and_true]
  rw [lookup, toNat_sub_one positive]

theorem simulated_modify (modifies : log.modify process block data = some after) :
    Simulated log (.modify process block data) after := by
  obtain ⟨index, held, modifies⟩ := Option.bind_eq_some_iff.mp modifies
  cases modifies
  obtain ⟨holds, holder⟩ := held_spec consistent held
  obtain ⟨still, _, lookup⟩ := consistent.setBuf holds
    (show ({ log.cache.buf index with data := data } : CacheBuf).dev = _ from rfl) rfl rfl
  refine ⟨still, .of_keys ?_, log.cache.lookup, .refl _, ?_⟩
  · intro other
    apply update_keys <;> rfl
  · have cached : (log.view.drop log.cache.lookup).cache block =
        some (log.cache.buf index).view := consistent.lookup_of_holds holds
    have holderView : (log.cache.buf index).view.holder = some process := holder
    simp only [LogMachine.perform, LogMachine.modify, cached,
      Option.bind_eq_bind, Option.bind_some, holderView, if_true,
      Option.some.injEq]
    simp only [LogMachine.setBuf, LogMachine.drop, view, LogMachine.mk.injEq, true_and, and_true]
    rw [lookup, ← holder]
    rfl

theorem simulated_logWrite (counted : log.Counted) (logs : log.logWrite process block = some after)
    (alive : after.phase ≠ .stopped) : Simulated log (.logWrite process block) after := by
  obtain ⟨index, held, logs⟩ := Option.bind_eq_some_iff.mp logs
  obtain ⟨holds, holder⟩ := held_spec consistent held
  have cached : (log.view.drop log.cache.lookup).cache block =
      some (log.cache.buf index).view := consistent.lookup_of_holds holds
  split at logs
  · cases logs
    exact absurd rfl alive
  · rename_i room
    split at logs
    · cases logs
      exact absurd rfl alive
    · rename_i inside
      split at logs
      · rename_i absorbed
        cases logs
        refine ⟨consistent, .of_keys fun _ => ⟨rfl, rfl⟩, log.cache.lookup, .refl _, ?_⟩
        simp only [LogMachine.perform, LogMachine.logWrite, cached]
        simp [CacheBuf.view, holder, LogMachine.drop, view, room, inside, absorbed]
      · rename_i fresh
        cases logs
        obtain ⟨still, _, lookup⟩ := consistent.setBuf holds
          (show ({ log.cache.buf index with
            refcnt := (log.cache.buf index).refcnt + 1 } : CacheBuf).dev = _
            from rfl) rfl rfl
        have small := counted.small block
        rw [fetch_of_holds consistent holds] at small
        refine ⟨still, .of_keys ?_, log.cache.lookup, .refl _, ?_⟩
        · intro other
          apply update_keys <;> rfl
        · have pinned : (log.cache.bpin index).lookup = Function.update log.cache.lookup block (some
                  { data := (log.cache.buf index).data
                    refcnt := (log.cache.buf index).refcnt.toNat + 1
                    holder := some process }) := by
            rw [← toNat_add_one small, ← holder]
            exact lookup
          simp only [LogMachine.perform, LogMachine.logWrite, cached]
          simp [CacheBuf.view, holder, LogMachine.drop, view, room, inside,
            fresh, LogMachine.setBuf, pinned]

end

/-- What `begin_op` and `end_op` leave alone. -/
theorem view_adopt (start : machine.start = log.start)
    (disk : machine.disk = log.disk) (cache : machine.cache = log.cache.lookup)
    (lh : machine.lh = log.lh) (unlogged : machine.unlogged = log.unlogged) :
    (log.adopt machine).view = machine := by
  simp only [view, adopt, ← start, ← disk, ← cache, ← lh, ← unlogged]

section

variable (consistent : log.cache.Consistent)

include consistent

theorem simulated_beginOp (begins : (log.view.beginOp process).map log.adopt = some after) :
    Simulated log (.beginOp process) after := by
  obtain ⟨machine, result, rfl⟩ := Option.map_eq_some_iff.mp begins
  refine ⟨consistent, .of_keys fun _ => ⟨rfl, rfl⟩, log.cache.lookup, .refl _, ?_⟩
  have same : (log.adopt machine).view = machine := by
    simp only [LogMachine.beginOp] at result
    split at result
    · cases result
    · split at result
      · cases result
      · cases result
        exact view_adopt rfl rfl rfl rfl rfl
  rw [same]
  exact result

theorem simulated_endOp (ends : (log.view.endOp process).map log.adopt = some after) :
    Simulated log (.endOp process) after := by
  obtain ⟨machine, result, rfl⟩ := Option.map_eq_some_iff.mp ends
  refine ⟨consistent, .of_keys fun _ => ⟨rfl, rfl⟩, log.cache.lookup, .refl _, ?_⟩
  have same : (log.adopt machine).view = machine := by
    simp only [LogMachine.endOp] at result
    split at result
    · cases result
      exact view_adopt rfl rfl rfl rfl rfl
    · split at result
      · cases result
        exact view_adopt rfl rfl rfl rfl rfl
      · cases result
        exact view_adopt rfl rfl rfl rfl rfl
    · cases result
  rw [same]
  exact result

theorem breadTwo_spec (reads : log.breadTwo first second finish = some after)
    (alive : after.phase ≠ .stopped) :
    ∃ one two cache dropped, TwoReads log.cache log.disk first second one two cache dropped ∧
        after = finish one two cache := by
  unfold BufferedLog.breadTwo at reads
  split at reads
  · cases reads
    exact absurd rfl alive
  · cases reads
  · rename_i one middle firstRead
    have before := consistent.bread_reads firstRead
    split at reads
    · cases reads
      exact absurd rfl alive
    · cases reads
    · rename_i two cache secondRead
      have later := before.consistent.bread_reads secondRead
      split at reads
      · cases reads
      · rename_i apart
        obtain ⟨dropped, both⟩ := before.and later apart
        exact ⟨one, two, cache, dropped, both, (Option.some.inj reads).symm⟩

end

/-- Both buffers are released, the first one with new contents. -/
theorem release_first {cache : BufferCache} {disk : Nat → Block} {first second : Nat}
    {one two : Fin NBUF} {after : BufferCache} {dropped : Nat → Option Buf}
    (both : TwoReads cache disk first second one two after dropped) (data : Block) :
    let copied := after.setBuf one { after.buf one with data := data }
    let released := (copied.brelse two).brelse one
    released.Consistent ∧ Keeps cache released ∧ released.lookup = Function.update
          (Function.update dropped second (some (fetched disk dropped second)))
          first (some { fetched disk dropped first with data := data }) := by
  intro copied released
  have apart : two ≠ one := by
    rintro rfl
    exact both.different (both.holdsOne.2.symm.trans both.holdsTwo.2)
  obtain ⟨copyOk, copyHolds, copyLookup⟩ := both.consistent.setBuf both.holdsOne
    (show ({ after.buf one with data := data } : CacheBuf).dev = _ from rfl)
    rfl rfl
  have copyTwo : copied.buf two = after.buf two := Function.update_of_ne apart _ _
  have copyHoldsTwo : copied.Holds two second := by
    rw [BufferCache.Holds, copyTwo]
    exact both.holdsTwo
  obtain ⟨firstOk, firstLookup⟩ := copyOk.brelse copyHoldsTwo
  have keys := brelse_keys copied two
  have holdsOne : (copied.brelse two).Holds one first :=
    ⟨(keys one).1.trans copyHolds.1, (keys one).2.trans copyHolds.2⟩
  have releasedOne : (copied.brelse two).buf one = { after.buf one with data := data } := by
    rw [brelse_buf, Function.update_of_ne apart.symm]
    exact Function.update_self _ _ _
  obtain ⟨secondOk, secondLookup⟩ := firstOk.brelse holdsOne
  refine ⟨secondOk, ?_, ?_⟩
  · have kept : Keeps cache copied := both.keeps.trans fun other => by apply update_keys <;> rfl
    exact (kept.trans keys).trans (brelse_keys (copied.brelse two) one)
  · rw [secondLookup, firstLookup, releasedOne, copyTwo]
    funext block
    by_cases isFirst : block = first
    · subst block
      simp only [Function.update_self, both.refcnt.1]
      rw [← both.unlocked.1]
    · rw [Function.update_of_ne isFirst, Function.update_of_ne isFirst]
      by_cases isSecond : block = second
      · subst block
        simp only [Function.update_self, both.refcnt.2, both.data.2]
        rw [← both.unlocked.2]
      · rw [Function.update_of_ne isSecond, Function.update_of_ne isSecond,
          copyLookup, Function.update_of_ne isFirst]
        exact both.lookup block isFirst isSecond

/-- Both buffers are released, the second one unpinned and with new
contents. -/
theorem release_second {cache : BufferCache} {disk : Nat → Block} {first second : Nat}
    {one two : Fin NBUF} {after : BufferCache} {dropped : Nat → Option Buf}
    (both : TwoReads cache disk first second one two after dropped)
    (pinned : 1 ≤ (fetched disk dropped second).refcnt) (data : Block) :
    let copied := after.setBuf two { after.buf two with data := data }
    let released := ((copied.bunpin two).brelse one).brelse two
    released.Consistent ∧ Keeps cache released ∧ released.lookup = Function.update
          (Function.update dropped first (some (fetched disk dropped first)))
          second
          (some
            { fetched disk dropped second with
              data := data
              refcnt := (fetched disk dropped second).refcnt - 1 }) := by
  intro copied released
  have apart : two ≠ one := by
    rintro rfl
    exact both.different (both.holdsOne.2.symm.trans both.holdsTwo.2)
  let unpinned := copied.bunpin two
  have self : unpinned.buf two =
      { after.buf two with
        data := data
        refcnt := (after.buf two).refcnt - 1 } := by
    simp [unpinned, copied, BufferCache.bunpin, BufferCache.setBuf]
  have bufs : unpinned.buf = Function.update after.buf two
      { after.buf two with
        data := data
        refcnt := (after.buf two).refcnt - 1 } := by
    simp [unpinned, copied, BufferCache.bunpin, BufferCache.setBuf]
  obtain ⟨order, ordered⟩ := both.consistent.ordered
  have replaces := both.consistent.replaces_same both.holdsTwo
    ⟨order, ordered.of_links (show unpinned.links = after.links from rfl)⟩ bufs
    rfl rfl rfl
  have unpinOk := both.consistent.replace replaces
  have unpinLookup := both.consistent.lookup_same both.holdsTwo replaces both.holdsTwo.2
  have unpinOne : unpinned.buf one = after.buf one := by rw [bufs, Function.update_of_ne apart.symm]
  have holdsOne : unpinned.Holds one first := by
    rw [BufferCache.Holds, unpinOne]
    exact both.holdsOne
  obtain ⟨firstOk, firstLookup⟩ := unpinOk.brelse holdsOne
  have keys := brelse_keys unpinned one
  have unpinHolds : unpinned.Holds two second := by
    rw [BufferCache.Holds, self]
    exact both.holdsTwo
  have holdsTwo : (unpinned.brelse one).Holds two second :=
    ⟨(keys two).1.trans unpinHolds.1, (keys two).2.trans unpinHolds.2⟩
  have releasedTwo : (unpinned.brelse one).buf two = unpinned.buf two := by
    rw [brelse_buf, Function.update_of_ne apart]
  obtain ⟨secondOk, secondLookup⟩ := firstOk.brelse holdsTwo
  refine ⟨secondOk, ?_, ?_⟩
  · have kept : Keeps cache unpinned := both.keeps.trans fun other => by
      rw [bufs]
      apply update_keys <;> rfl
    exact (kept.trans keys).trans (brelse_keys (unpinned.brelse one) two)
  · rw [secondLookup, firstLookup, releasedTwo, self, unpinOne]
    have refcnt : ((after.buf two).refcnt - 1 - 1).toNat =
        (fetched disk dropped second).refcnt - 1 := by
      rw [← both.refcnt.2] at pinned ⊢
      exact toNat_sub_one pinned
    funext block
    by_cases isSecond : block = second
    · subst block
      simp only [Function.update_self, refcnt]
      rw [← both.unlocked.2]
    · rw [Function.update_of_ne isSecond, Function.update_of_ne isSecond]
      by_cases isFirst : block = first
      · subst block
        simp only [Function.update_self, both.refcnt.1, both.data.1]
        rw [← both.unlocked.1]
      · rw [Function.update_of_ne isFirst, Function.update_of_ne isFirst,
          unpinLookup, Function.update_of_ne isSecond]
        exact both.lookup block isFirst isSecond

/-- A step of a commit, before the commit goes on to its next point. -/
structure Writes (log : BufferedLog)
    (write : LogMachine → Option LogMachine) (after : BufferedLog) : Prop where
  consistent : after.cache.Consistent
  keeps : Keeps log.cache after.cache
  view : ∃ dropped, Dropped log.cache.lookup dropped ∧
    write (log.view.drop dropped) = some after.view

section

variable (consistent : log.cache.Consistent)

include consistent

theorem writes_writeLogBlock (writes : log.writeLogBlock tail block = some after)
    (alive : after.phase ≠ .stopped) :
    log.Writes (fun machine => machine.writeLogBlock tail block) after := by
  obtain ⟨one, two, cache, dropped, both, rfl⟩ := breadTwo_spec consistent writes alive
  obtain ⟨released, keeps, lookup⟩ := release_first both (cache.buf two).data
  refine ⟨released, keeps, dropped, both.drops, ?_⟩
  have fetch (number : Nat) : (log.view.drop dropped).fetch number =
      fetched log.disk dropped number := rfl
  simp only [LogMachine.writeLogBlock, fetch]
  rw [show (log.view.drop dropped).start = log.start from rfl, if_pos both.unlocked]
  simp only [Option.some.injEq, LogMachine.bwrite, LogMachine.setBuf,
    LogMachine.drop, view, LogMachine.mk.injEq, true_and, and_true]
  rw [lookup, both.data.2]
  exact ⟨rfl, rfl⟩

theorem writes_installBlock {tail : Nat} (pinned : 1 ≤ (log.view.fetch block).refcnt)
    (writes : log.installBlock tail block = some after) (alive : after.phase ≠ .stopped) :
    log.Writes (fun machine => machine.installBlock false tail block)
      after := by
  obtain ⟨one, two, cache, dropped, both, rfl⟩ := breadTwo_spec consistent writes alive
  have fetch (number : Nat) : (log.view.drop dropped).fetch number =
      fetched log.disk dropped number := rfl
  have still : fetched log.disk dropped block = log.view.fetch block := by
    rcases both.drops block with same | ⟨_, buf, found, unused⟩
    · rw [← fetch]
      exact fetch_drop same
    · rw [LogMachine.fetch_of_cache found, unused] at pinned
      omega
  obtain ⟨released, keeps, lookup⟩ :=
    release_second both (by rw [still]; exact pinned) (cache.buf one).data
  refine ⟨released, keeps, dropped, both.drops, ?_⟩
  simp only [LogMachine.installBlock, fetch]
  rw [show (log.view.drop dropped).start = log.start from rfl, if_pos both.unlocked]
  simp only [Option.some.injEq, LogMachine.bwrite, LogMachine.setBuf,
    LogMachine.drop, view, LogMachine.mk.injEq, true_and, and_true,
    Bool.false_eq_true, if_false]
  rw [lookup, both.data.1]
  exact ⟨rfl, rfl⟩

theorem writes_writeHead (writes : log.writeHead = some after) (alive : after.phase ≠ .stopped) :
    log.Writes LogMachine.writeHead after := by
  unfold BufferedLog.writeHead at writes
  split at writes
  · cases writes
    exact absurd rfl alive
  · cases writes
  · rename_i index cache result
    cases writes
    have spec := consistent.bread_reads result
    obtain ⟨dropped, drops, same, lookup⟩ := spec.lookup
    obtain ⟨still, holds, copied⟩ := spec.consistent.setBuf spec.holds
      (show ({ cache.buf index with
        data := Header.put log.lh (cache.buf index).data } : CacheBuf).dev = _
        from rfl) rfl rfl
    obtain ⟨released, releasedLookup⟩ := still.brelse holds
    refine ⟨released, ?_, dropped, drops, ?_⟩
    · have kept : Keeps log.cache (cache.setBuf index
          { cache.buf index with
            data := Header.put log.lh (cache.buf index).data }) :=
        spec.keeps.trans fun other => by apply update_keys <;> rfl
      exact kept.trans (brelse_keys _ index)
    · have start : (log.view.drop dropped).start = log.start := rfl
      have lh : (log.view.drop dropped).lh = log.lh := rfl
      have self : (cache.setBuf index
          { cache.buf index with
            data := Header.put log.lh (cache.buf index).data }).buf index =
          { cache.buf index with
            data := Header.put log.lh (cache.buf index).data } :=
        Function.update_self _ _ _
      simp only [LogMachine.writeHead, start, lh, fetch_drop same]
      rw [if_pos spec.unlocked, ← spec.data]
      simp only [Option.some.injEq, LogMachine.bwrite, LogMachine.setBuf,
        LogMachine.drop, view, LogMachine.mk.injEq, true_and, and_true]
      rw [releasedLookup, copied, lookup, self, Function.update_idem, Function.update_idem]
      simp only [spec.refcnt]
      rw [← spec.unlocked]

end

/-- A step of a commit that writes is one of the view, too. -/
theorem Writes.simulated {write : LogMachine → Option LogMachine}
    (writes : ∀ next, written = some next → next.phase ≠ .stopped → log.Writes write next)
    (commits : (written.bind fun next => some (next.goOn later)) = some after)
    (alive : after.phase ≠ .stopped) (view : ∀ dropped, (log.view.drop dropped).commit =
      (write (log.view.drop dropped)).bind fun machine => some (machine.setPhase later)) :
    Simulated log .commit after := by
  obtain ⟨next, isNext, result⟩ := Option.bind_eq_some_iff.mp commits
  cases result
  have running : next.phase ≠ .stopped := by
    intro stopped
    refine alive ?_
    simp [BufferedLog.goOn, stopped]
  obtain ⟨consistent, keeps, dropped, drops, performed⟩ := writes next isNext running
  have goes : next.goOn later = next.setPhase later := if_neg running
  rw [goes]
  refine ⟨consistent, keeps, dropped, drops, ?_⟩
  rw [LogMachine.perform, view, performed]
  rfl

theorem simulated_commit (consistent : log.cache.Consistent) (counted : log.Counted)
    (commits : log.commit = some after) (alive : after.phase ≠ .stopped) :
    Simulated log .commit after := by
  simp only [BufferedLog.commit] at commits
  split at commits
  · rename_i tail phase
    split at commits
    · rename_i block entry
      refine Writes.simulated (fun _ => writes_writeLogBlock consistent) commits alive ?_
      intro dropped
      simp only [LogMachine.commit, LogMachine.drop, view, phase, entry]
      rfl
    · rename_i beyond
      cases commits
      refine ⟨consistent, .of_keys fun _ => ⟨rfl, rfl⟩, log.cache.lookup, .refl _, ?_⟩
      simp only [LogMachine.perform, LogMachine.commit, LogMachine.drop, view, phase, beyond]
      rfl
  · rename_i phase
    refine Writes.simulated (fun _ => writes_writeHead consistent) commits alive ?_
    intro dropped
    simp only [LogMachine.commit, LogMachine.drop, view, phase]
    rfl
  · rename_i tail phase
    split at commits
    · rename_i block entry
      have pinned : block ∈ log.view.pinned := by
        simp only [LogMachine.pinned, view, phase]
        have first : (log.lh.drop tail)[0]? = some block := by
          rw [List.getElem?_drop]
          exact entry
        exact List.mem_of_getElem? first
      refine Writes.simulated
        (fun _ => writes_installBlock consistent (counted.pinned block pinned)) commits alive ?_
      intro dropped
      simp only [LogMachine.commit, LogMachine.drop, view, phase, entry]
      rfl
    · rename_i beyond
      cases commits
      refine ⟨consistent, .of_keys fun _ => ⟨rfl, rfl⟩, log.cache.lookup, .refl _, ?_⟩
      simp only [LogMachine.perform, LogMachine.commit, LogMachine.drop, view, phase, beyond]
  · rename_i phase
    refine Writes.simulated (fun _ => writes_writeHead consistent) commits alive ?_
    intro dropped
    simp only [LogMachine.commit, LogMachine.drop, view, phase]
    rfl
  · rename_i phase
    cases commits
    refine ⟨consistent, .of_keys fun _ => ⟨rfl, rfl⟩, log.cache.lookup, .refl _, ?_⟩
    simp only [LogMachine.perform, LogMachine.commit, LogMachine.drop, view, phase]
    rfl
  · cases commits

theorem simulated (consistent : log.cache.Consistent) (counted : log.Counted)
    (performs : log.perform step = some after)
    (alive : after.phase ≠ .stopped) : Simulated log step after := by
  cases step with
  | beginOp process => exact simulated_beginOp consistent performs
  | bread process block => exact simulated_bread consistent counted performs alive
  | modify process block data => exact simulated_modify consistent performs
  | logWrite process block => exact simulated_logWrite consistent counted performs alive
  | brelse process block => exact simulated_brelse consistent counted performs
  | endOp process => exact simulated_endOp consistent performs
  | commit => exact simulated_commit consistent counted performs alive
  | _ => cases performs

end BufferedLog

end Xv6KernelEvent
