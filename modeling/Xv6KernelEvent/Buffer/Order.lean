import Xv6KernelEvent.Buffer.Cache
import Xv6KernelEvent.Library.Runs

/-!
# The order of the buffers

Runs of `bget`, `brelse`, `bpin` and `bunpin` from `binit` on.  A buffer goes
to the front of the ring when a `brelse` drops its last reference, and at no
other time, so the ring is sorted by these releases.
-/

namespace Xv6KernelEvent

open Runs

inductive CacheOp where
  | bget (dev blockno : Nat)
  | brelse (index : Fin NBUF)
  | bpin (index : Fin NBUF)
  | bunpin (index : Fin NBUF)

/-- The cache and the time of the last `brelse` of each buffer that left no
reference, 0 if there was none. -/
structure CacheHistory where
  cache : BufferCache
  clock : Nat
  released : Fin NBUF → Nat

namespace CacheHistory

def initial : CacheHistory := { cache := .binit, clock := 1, released := fun _ => 0 }

/-- A panic ends the run. -/
def next (history : CacheHistory) : CacheOp → Option CacheHistory
  | .bget dev blockno =>
    (history.cache.bget dev blockno).map fun (_, cache) =>
      { history with cache := cache, clock := history.clock + 1 }
  | .brelse index =>
    some
      { cache := history.cache.brelse index
        clock := history.clock + 1
        released :=
          if (history.cache.buf index).refcnt - 1 = 0 then
            Function.update history.released index history.clock
          else history.released }
  | .bpin index =>
    some
      { history with
        cache := history.cache.bpin index
        clock := history.clock + 1 }
  | .bunpin index =>
    some
      { history with
        cache := history.cache.bunpin index
        clock := history.clock + 1 }

/-- The first buffer was released later.  Buffers that were never released are
in the order of `binit`. -/
def Recent (history : CacheHistory) (first second : Fin NBUF) : Prop :=
  history.released second < history.released first ∨
    history.released first = 0 ∧ history.released second = 0 ∧ second < first

structure Sorted (history : CacheHistory) (order : List (Fin NBUF)) : Prop where
  ordered : history.cache.Ordered order
  recent : order.Pairwise history.Recent
  past : ∀ index, history.released index < history.clock

/-- A block of a device is in at most one buffer. -/
def Unique (history : CacheHistory) : Prop :=
  ∀ first second, (history.cache.buf first).dev ≠ 0 →
    (history.cache.buf first).dev = (history.cache.buf second).dev →
    (history.cache.buf first).blockno = (history.cache.buf second).blockno → first = second

theorem initial_sorted : initial.Sorted (List.finRange NBUF).reverse := by
  refine ⟨BufferCache.binit_ordered, ?_, fun _ => Nat.zero_lt_one⟩
  rw [List.pairwise_reverse]
  refine List.Pairwise.imp ?_ (List.pairwise_lt_finRange NBUF)
  intro first second less
  exact .inr ⟨rfl, rfl, less⟩

theorem initial_unique : initial.Unique := by
  intro first second device
  exact absurd rfl device

variable {history : CacheHistory} {order : List (Fin NBUF)}

theorem Sorted.of_links (sorted : history.Sorted order) {cache : BufferCache}
    (links : cache.links = history.cache.links) :
    Sorted { history with cache := cache, clock := history.clock + 1 } order :=
  ⟨sorted.ordered.of_links links, sorted.recent, fun index => Nat.lt_succ_of_lt (sorted.past index)⟩

/-- Changes of the reference counts do not matter. -/
theorem Unique.of_keys (unique : history.Unique) {cache : BufferCache}
    (dev : ∀ index, (cache.buf index).dev = (history.cache.buf index).dev)
    (blockno : ∀ index, (cache.buf index).blockno = (history.cache.buf index).blockno)
    (clock : Nat) (released : Fin NBUF → Nat) :
    Unique { cache := cache, clock := clock, released := released } := by
  intro first second device sameDev sameBlockno
  simp only [dev, blockno] at device sameDev sameBlockno
  exact unique first second device sameDev sameBlockno

theorem key_setBuf {cache : BufferCache} (dev : buf.dev = (cache.buf index).dev)
    (blockno : buf.blockno = (cache.buf index).blockno) (other : Fin NBUF) :
    ((cache.setBuf index buf).buf other).dev = (cache.buf other).dev ∧
      ((cache.setBuf index buf).buf other).blockno = (cache.buf other).blockno := by
  by_cases same : other = index
  · subst other
    simp [BufferCache.setBuf, dev, blockno]
  · simp [BufferCache.setBuf, same]

theorem Unique.setBuf (unique : history.Unique) (dev : buf.dev = (history.cache.buf index).dev)
    (blockno : buf.blockno = (history.cache.buf index).blockno)
    (clock : Nat) (released : Fin NBUF → Nat) :
    Unique
      { cache := history.cache.setBuf index buf
        clock := clock
        released := released } :=
  unique.of_keys (fun other => (key_setBuf dev blockno other).1)
    (fun other => (key_setBuf dev blockno other).2) clock released

/-- A recycled buffer gets a block that no buffer holds. -/
theorem Unique.recycle (unique : history.Unique)
    (missing : ∀ index, ¬((history.cache.buf index).dev = dev ∧
      (history.cache.buf index).blockno = blockno)) (index : Fin NBUF) (newDev : buf.dev = dev)
    (newBlockno : buf.blockno = blockno) (clock : Nat) (released : Fin NBUF → Nat) :
    Unique
      { cache := history.cache.setBuf index buf
        clock := clock
        released := released } := by
  intro first second device sameDev sameBlockno
  by_cases here : first = index
  · by_cases there : second = index
    · exact here.trans there.symm
    · simp only [BufferCache.setBuf, here, Function.update_self, newDev,
        newBlockno, Function.update_of_ne there] at sameDev sameBlockno
      exact absurd ⟨sameDev.symm, sameBlockno.symm⟩ (missing second)
  · by_cases there : second = index
    · simp only [BufferCache.setBuf, there, Function.update_self, newDev,
        newBlockno, Function.update_of_ne here] at sameDev sameBlockno
      exact absurd ⟨sameDev, sameBlockno⟩ (missing first)
    · simp only [BufferCache.setBuf, Function.update_of_ne here,
        Function.update_of_ne there] at device sameDev sameBlockno
      exact unique first second device sameDev sameBlockno

section

variable (sorted : history.Sorted order)

include sorted

theorem Sorted.missing (missing : history.cache.findCached dev blockno = none) (index : Fin NBUF) :
    ¬((history.cache.buf index).dev = dev ∧ (history.cache.buf index).blockno = blockno) := by
  rw [sorted.ordered.findCached, List.find?_eq_none] at missing
  simpa using missing index (sorted.ordered.complete index)

theorem Sorted.bget (unique : history.Unique) {cache : BufferCache}
    (gets : history.cache.bget dev blockno = some (index, cache)) :
    Sorted { history with cache := cache, clock := history.clock + 1 } order ∧
      Unique { history with cache := cache, clock := history.clock + 1 } := by
  simp only [BufferCache.bget] at gets
  split at gets
  · cases gets
    refine ⟨sorted.of_links rfl, unique.setBuf ?_ ?_ _ _⟩
    · rfl
    · rfl
  · rename_i missing
    split at gets
    · cases gets
      refine ⟨sorted.of_links rfl, unique.recycle (sorted.missing missing) _ ?_ ?_ _ _⟩
      · rfl
      · rfl
    · cases gets

/-- A buffer whose last reference is dropped becomes the most recent one. -/
theorem Sorted.release (index : Fin NBUF) {cache : BufferCache} (links : cache.links =
      (history.cache.links.unlink (some index)).insertAfter BufferCache.head (some index)) :
    Sorted
      { cache := cache
        clock := history.clock + 1
        released := Function.update history.released index history.clock }
      (index :: order.erase index) := by
  refine ⟨⟨?_, ?_⟩, ?_, ?_⟩
  · rw [links]
    exact sorted.ordered.move index
  · intro other
    by_cases same : other = index
    · simp [same]
    · exact List.mem_cons_of_mem _ ((List.mem_erase_of_ne same).mpr (sorted.ordered.complete other))
  · have nodup := sorted.ordered.nodup
    have others : ∀ other ∈ order.erase index, other ≠ index := by
      intro other member
      exact (nodup.mem_erase_iff.mp member).1
    refine List.pairwise_cons.mpr ⟨?_, ?_⟩
    · intro other member
      left
      simp only [Function.update_self, Function.update_of_ne (others other member)]
      exact sorted.past other
    · refine List.Pairwise.imp_of_mem ?_ (sorted.recent.sublist (List.erase_sublist))
      intro first second firstMember secondMember recent
      simpa only [Recent, Function.update_of_ne (others first firstMember),
        Function.update_of_ne (others second secondMember)] using recent
  · intro other
    by_cases same : other = index
    · simp [same]
    · simp only [Function.update_of_ne same]
      exact Nat.lt_succ_of_lt (sorted.past other)

theorem Sorted.brelse (unique : history.Unique)
    (taken : history.next (.brelse index) = some after) :
    (∃ order, after.Sorted order) ∧ after.Unique := by
  cases taken
  by_cases last : (history.cache.buf index).refcnt - 1 = 0
  · simp only [last, if_true]
    refine ⟨⟨_, sorted.release index ?_⟩, ?_⟩
    · simp [BufferCache.brelse, last]
    · have kept : Unique
          { cache := history.cache.setBuf index
              { history.cache.buf index with refcnt := 0, holder := none }
            clock := history.clock + 1
            released :=
              Function.update history.released index history.clock } := by
        refine unique.setBuf ?_ ?_ _ _
        · rfl
        · rfl
      simp only [BufferCache.brelse, last, if_true]
      exact kept
  · simp only [last, if_false]
    refine ⟨⟨order, sorted.of_links ?_⟩, ?_⟩
    · simp [BufferCache.brelse, last, BufferCache.setBuf]
    · simp only [BufferCache.brelse, last, if_false]
      refine unique.setBuf ?_ ?_ _ _
      · rfl
      · rfl

end

theorem step (holds : (∃ order, history.Sorted order) ∧ history.Unique)
    (taken : history.next op = some after) : (∃ order, after.Sorted order) ∧ after.Unique := by
  obtain ⟨⟨order, sorted⟩, unique⟩ := holds
  cases op with
  | bget dev blockno =>
    obtain ⟨⟨index, cache⟩, gets, rfl⟩ := Option.map_eq_some_iff.mp taken
    obtain ⟨stillSorted, stillUnique⟩ := sorted.bget unique gets
    exact ⟨⟨order, stillSorted⟩, stillUnique⟩
  | brelse index => exact sorted.brelse unique taken
  | _ =>
    cases taken
    refine ⟨⟨order, sorted.of_links rfl⟩, unique.setBuf ?_ ?_ _ _⟩
    · rfl
    · rfl

/-- A miss takes the unreferenced buffer that was released first. -/
theorem Sorted.victim (sorted : history.Sorted order)
    (missing : ∀ index, ¬((history.cache.buf index).dev = dev ∧
      (history.cache.buf index).blockno = blockno)) :
    match history.cache.bget dev blockno with
    | some (victim, _) =>
      (history.cache.buf victim).refcnt = 0 ∧
        ∀ other, other ≠ victim → (history.cache.buf other).refcnt = 0 → history.Recent other victim
    | none => ∀ index, (history.cache.buf index).refcnt ≠ 0 := by
  have absent : history.cache.findCached dev blockno = none := by
    rw [sorted.ordered.findCached, List.find?_eq_none]
    intro index _
    simpa using missing index
  simp only [BufferCache.bget, absent]
  cases found : history.cache.findUnused with
  | none =>
    rw [sorted.ordered.findUnused, List.find?_eq_none] at found
    intro index
    simpa using found index (by simp [sorted.ordered.complete index])
  | some victim =>
    rw [sorted.ordered.findUnused, List.find?_eq_some_iff_append] at found
    obtain ⟨unused, front, back, split, others⟩ := found
    refine ⟨of_decide_eq_true unused, ?_⟩
    intro other differs free
    have member : other ∈ front ++ victim :: back := by
      rw [← split, List.mem_reverse]
      exact sorted.ordered.complete other
    have recent := sorted.recent
    rw [← List.pairwise_reverse, split, List.pairwise_append] at recent
    rcases List.mem_append.mp member with early | late
    · have busy := others other early
      simp [free] at busy
    · rcases List.mem_cons.mp late with same | behind
      · exact absurd same differs
      · exact List.rel_of_pairwise_cons recent.2.1 behind

end CacheHistory

theorem cache_structure (ops : List CacheOp) (history : CacheHistory)
    (runs : run CacheHistory.next .initial ops = some history) :
    ∃ order : List (Fin NBUF), history.cache.links.IsRing BufferCache.head (order.map some) ∧
      order.Perm (List.finRange NBUF) ∧
      history.Unique ∧ order.Pairwise history.Recent ∧
      ∀ dev blockno, (∀ index, ¬((history.cache.buf index).dev = dev ∧
          (history.cache.buf index).blockno = blockno)) →
        match history.cache.bget dev blockno with
        | some (victim, _) =>
          (history.cache.buf victim).refcnt = 0 ∧ ∀ other, other ≠ victim →
              (history.cache.buf other).refcnt = 0 → history.Recent other victim
        | none => ∀ index, (history.cache.buf index).refcnt ≠ 0 := by
  have holds : (∃ order, history.Sorted order) ∧ history.Unique :=
    run_invariant (fun before taken => CacheHistory.step before taken) runs
      ⟨⟨_, CacheHistory.initial_sorted⟩, CacheHistory.initial_unique⟩
  obtain ⟨⟨order, sorted⟩, unique⟩ := holds
  refine ⟨order, sorted.ordered.ring, sorted.ordered.perm, unique, sorted.recent, ?_⟩
  intro dev blockno missing
  exact sorted.victim missing

/-- Two blocks, the first one pinned while its buffer is released. -/
def pinnedRelease : List CacheOp :=
  [.bget 1 10, .bpin 0, .bget 1 11, .brelse 1, .brelse 0, .bunpin 0]

theorem cache_structure_pinnedRelease : ∃ history cache,
      run CacheHistory.next .initial pinnedRelease = some history ∧
      history.cache.bget 1 12 = some (0, cache) ∧
      ∀ other, other ≠ 0 → (history.cache.buf other).refcnt = 0 → history.Recent other 0 := by
  have facts : (run CacheHistory.next .initial pinnedRelease).any (fun history =>
      decide ((history.cache.bget 1 12).map Prod.fst = some 0 ∧
        ∀ index, ¬((history.cache.buf index).dev = 1 ∧
          (history.cache.buf index).blockno = 12))) = true := by
    decide +kernel
  rw [Option.any_eq_true] at facts
  obtain ⟨history, runs, facts⟩ := facts
  obtain ⟨isFirst, missing⟩ := of_decide_eq_true facts
  obtain ⟨⟨_, cache⟩, gets, rfl⟩ := Option.map_eq_some_iff.mp isFirst
  obtain ⟨_, _, _, _, _, victim⟩ := cache_structure pinnedRelease history runs
  have recycled := victim 1 12 missing
  rw [gets] at recycled
  exact ⟨history, cache, runs, gets, recycled.2⟩

/-- Buffer 0 is released after buffer 1, by `brelse` and by `bunpin`, and both
are unreferenced; still it is the one that the next miss recycles. -/
theorem latest_release_recycled : (run CacheHistory.next .initial pinnedRelease).any (fun history =>
      decide ((history.cache.buf 0).refcnt = 0 ∧ (history.cache.buf 1).refcnt = 0) &&
      (history.cache.bget 1 12).any fun (victim, _) =>
        decide (victim = 0)) = true := by
  decide +kernel

end Xv6KernelEvent
