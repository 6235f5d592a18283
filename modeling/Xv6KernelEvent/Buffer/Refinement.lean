import Xv6KernelEvent.Buffer.Machine

/-!
# Slots do not matter

Every step of the log over the buffer cache is a step of its view, after
buffers without references may have been dropped.
-/

namespace Xv6KernelEvent

namespace BufferCache

/-- The slots form a ring, hold each block at most once, and have contents
unless they were never used. -/
structure Consistent (cache : BufferCache) : Prop where
  ordered : ∃ order, cache.Ordered order
  unique : ∀ first second, (cache.buf first).dev ≠ 0 →
    (cache.buf first).dev = (cache.buf second).dev →
    (cache.buf first).blockno = (cache.buf second).blockno → first = second
  filled : ∀ index, ((cache.buf index).dev = 0 ∧ (cache.buf index).refcnt = 0 ∧
      (cache.buf index).holder = none) ∨
    ((cache.buf index).dev = LOGDEV ∧ (cache.buf index).valid = true)

/-- The slot holds the block of the log's device. -/
def Holds (cache : BufferCache) (index : Fin NBUF) (block : Nat) : Prop :=
  (cache.buf index).dev = LOGDEV ∧ (cache.buf index).blockno = block

instance (cache : BufferCache) (index : Fin NBUF) (block : Nat) :
    Decidable (cache.Holds index block) :=
  inferInstanceAs (Decidable (_ ∧ _))

theorem binit_consistent : binit.Consistent := by
  refine ⟨⟨_, binit_ordered⟩, ?_, fun _ => .inl ⟨rfl, rfl, rfl⟩⟩
  intro first second device
  exact absurd rfl device

variable {cache after : BufferCache} {index : Fin NBUF} {block : Nat}

section

variable (consistent : cache.Consistent)

include consistent

theorem Consistent.holds_unique (one : cache.Holds first block) (two : cache.Holds second block) :
    first = second :=
  consistent.unique first second (by simp [one.1, LOGDEV])
    (one.1.trans two.1.symm) (one.2.trans two.2.symm)

theorem Consistent.find_iff :
    cache.findCached LOGDEV block = some index ↔ cache.Holds index block := by
  obtain ⟨order, ordered⟩ := consistent.ordered
  rw [ordered.findCached]
  have passes {other : Fin NBUF} (found : (order.find? fun index =>
        decide ((cache.buf index).dev = LOGDEV ∧ (cache.buf index).blockno = block)) = some other) :
      cache.Holds other block := by
    have test := List.find?_some found
    exact of_decide_eq_true test
  constructor
  · exact passes
  · intro holds
    cases found : order.find? fun index =>
        decide ((cache.buf index).dev = LOGDEV ∧ (cache.buf index).blockno = block) with
    | none =>
      rw [List.find?_eq_none] at found
      have fails := found index (ordered.complete index)
      exact absurd (decide_eq_true_iff.mpr holds) fails
    | some other => rw [consistent.holds_unique (passes found) holds]

theorem Consistent.find_none_iff :
    cache.findCached LOGDEV block = none ↔ ∀ index, ¬cache.Holds index block := by
  rw [Option.eq_none_iff_forall_ne_some]
  exact forall_congr' fun index => not_congr consistent.find_iff

theorem Consistent.lookup_of_holds (holds : cache.Holds index block) :
    cache.lookup block = some (cache.buf index).view := by
  rw [lookup, consistent.find_iff.mpr holds]
  rfl

theorem Consistent.lookup_eq_none (missing : ∀ index, ¬cache.Holds index block) :
    cache.lookup block = none := by
  rw [lookup, consistent.find_none_iff.mpr missing]
  rfl

theorem Consistent.holds_of_lookup {buf : Buf} (found : cache.lookup block = some buf) :
    ∃ index, cache.Holds index block ∧ (cache.buf index).view = buf := by
  obtain ⟨index, cached, rfl⟩ := Option.map_eq_some_iff.mp found
  exact ⟨index, consistent.find_iff.mp cached, rfl⟩

end

/-- One slot gets new contents, or another block. -/
structure Replaces (cache after : BufferCache) (index : Fin NBUF) (buf : CacheBuf) : Prop where
  ordered : ∃ order, after.Ordered order
  bufs : after.buf = Function.update cache.buf index buf
  dev : buf.dev = LOGDEV
  valid : buf.valid = true
  alone : ∀ other, other ≠ index → ¬cache.Holds other buf.blockno

variable {buf : CacheBuf}

section

variable (replaces : Replaces cache after index buf)

include replaces

theorem Replaces.self : after.buf index = buf := by
  rw [replaces.bufs, Function.update_self]

theorem Replaces.holds_self : after.Holds index buf.blockno := by
  rw [BufferCache.Holds, replaces.self]
  exact ⟨replaces.dev, rfl⟩

theorem Replaces.holds_other (differs : other ≠ index) :
    after.Holds other block ↔ cache.Holds other block := by
  rw [BufferCache.Holds, BufferCache.Holds, replaces.bufs, Function.update_of_ne differs]

end

section

variable (consistent : cache.Consistent)

include consistent

theorem Consistent.replace (replaces : Replaces cache after index buf) : after.Consistent := by
  refine ⟨replaces.ordered, ?_, ?_⟩
  · intro first second device sameDev sameBlockno
    by_cases here : first = index
    · by_cases there : second = index
      · exact here.trans there.symm
      · subst first
        rw [replaces.self, replaces.bufs, Function.update_of_ne there]
          at sameDev sameBlockno
        exact absurd ⟨sameDev.symm.trans replaces.dev, sameBlockno.symm⟩
          (replaces.alone second there)
    · by_cases there : second = index
      · subst second
        rw [replaces.self, replaces.bufs, Function.update_of_ne here]
          at sameDev sameBlockno
        exact absurd ⟨sameDev.trans replaces.dev, sameBlockno⟩ (replaces.alone first here)
      · rw [replaces.bufs, Function.update_of_ne here] at device
        rw [replaces.bufs, Function.update_of_ne here,
          Function.update_of_ne there] at sameDev sameBlockno
        exact consistent.unique first second device sameDev sameBlockno
  · intro other
    by_cases here : other = index
    · subst other
      rw [replaces.self]
      exact .inr ⟨replaces.dev, replaces.valid⟩
    · rw [replaces.bufs, Function.update_of_ne here]
      exact consistent.filled other

theorem Consistent.lookup_replace (replaces : Replaces cache after index buf) (other : Nat) :
    after.lookup other = if other = buf.blockno then some buf.view
      else if (cache.buf index).dev = LOGDEV ∧ (cache.buf index).blockno = other then none
      else cache.lookup other := by
  have later := consistent.replace replaces
  split
  · rename_i same
    subst other
    rw [later.lookup_of_holds replaces.holds_self, replaces.self]
  · rename_i differs
    have notIndex : ¬after.Holds index other := by
      intro holds
      exact differs (holds.2.symm.trans replaces.holds_self.2)
    split
    · rename_i old
      apply later.lookup_eq_none
      intro slot holds
      have elsewhere : slot ≠ index := by
        rintro rfl
        exact notIndex holds
      exact elsewhere (consistent.holds_unique ((replaces.holds_other elsewhere).mp holds) old)
    · rename_i notOld
      cases found : cache.lookup other with
      | none =>
        apply later.lookup_eq_none
        intro slot holds
        have elsewhere : slot ≠ index := by
          rintro rfl
          exact notIndex holds
        have cached := consistent.lookup_of_holds ((replaces.holds_other elsewhere).mp holds)
        rw [found] at cached
        cases cached
      | some contents =>
        obtain ⟨slot, holds, rfl⟩ := consistent.holds_of_lookup found
        have elsewhere : slot ≠ index := by
          rintro rfl
          exact notOld holds
        rw [later.lookup_of_holds ((replaces.holds_other elsewhere).mpr holds),
          replaces.bufs, Function.update_of_ne elsewhere]

/-- New contents for a block that the slot holds. -/
theorem Consistent.replaces_same (holds : cache.Holds index block)
    (ordered : ∃ order, after.Ordered order)
    (bufs : after.buf = Function.update cache.buf index buf) (dev : buf.dev = (cache.buf index).dev)
    (blockno : buf.blockno = (cache.buf index).blockno)
    (valid : buf.valid = (cache.buf index).valid) : Replaces cache after index buf := by
  refine ⟨ordered, bufs, dev.trans holds.1, ?_, ?_⟩
  · rw [valid]
    rcases consistent.filled index with unused | used
    · rw [holds.1] at unused
      exact absurd unused.1 (by decide)
    · exact used.2
  · intro other differs otherHolds
    refine differs (consistent.holds_unique otherHolds ⟨holds.1, ?_⟩)
    exact blockno.symm

theorem Consistent.lookup_same (holds : cache.Holds index block)
    (replaces : Replaces cache after index buf) (blockno : buf.blockno = block) :
    after.lookup = Function.update cache.lookup block (some buf.view) := by
  funext other
  rw [consistent.lookup_replace replaces, blockno]
  by_cases same : other = block
  · subst other
    simp
  · rw [if_neg same, if_neg, Function.update_of_ne same]
    rintro ⟨-, old⟩
    exact same (old.symm.trans holds.2)

theorem Consistent.setBuf (holds : cache.Holds index block) (dev : buf.dev = (cache.buf index).dev)
    (blockno : buf.blockno = (cache.buf index).blockno)
    (valid : buf.valid = (cache.buf index).valid) :
    (cache.setBuf index buf).Consistent ∧ (cache.setBuf index buf).Holds index block ∧
      (cache.setBuf index buf).lookup = Function.update cache.lookup block (some buf.view) := by
  obtain ⟨order, ordered⟩ := consistent.ordered
  have replaces : Replaces cache (cache.setBuf index buf) index buf :=
    consistent.replaces_same holds ⟨order, ordered.of_links rfl⟩ rfl dev blockno valid
  have number : buf.blockno = block := blockno.trans holds.2
  refine ⟨consistent.replace replaces, ?_, consistent.lookup_same holds replaces number⟩
  rw [← number]
  exact replaces.holds_self

end

theorem brelse_buf (cache : BufferCache) (index : Fin NBUF) :
    (cache.brelse index).buf = Function.update cache.buf index
      { cache.buf index with
        refcnt := (cache.buf index).refcnt - 1
        holder := none } := by
  unfold BufferCache.brelse
  dsimp only
  split <;> rfl

theorem Consistent.brelse (consistent : cache.Consistent) (holds : cache.Holds index block) :
    (cache.brelse index).Consistent ∧
      (cache.brelse index).lookup = Function.update cache.lookup block (some
          { data := (cache.buf index).data
            refcnt := ((cache.buf index).refcnt - 1).toNat
            holder := none }) := by
  obtain ⟨order, ordered⟩ := consistent.ordered
  have replaces : Replaces cache (cache.brelse index) index
      { cache.buf index with
        refcnt := (cache.buf index).refcnt - 1
        holder := none } := by
    refine consistent.replaces_same holds ?_ ?_ rfl rfl rfl
    · unfold BufferCache.brelse
      dsimp only
      split
      · refine ⟨index :: order.erase index, ordered.move index, ?_⟩
        intro other
        by_cases same : other = index
        · simp [same]
        · exact List.mem_cons_of_mem _ ((List.mem_erase_of_ne same).mpr (ordered.complete other))
      · exact ⟨order, ordered.of_links rfl⟩
    · exact brelse_buf cache index
  exact ⟨consistent.replace replaces, consistent.lookup_same holds replaces holds.2⟩

/-- What a lookup finds, or would read. -/
def fetched (disk : Nat → Block) (lookup : Nat → Option Buf) (block : Nat) : Buf :=
  (lookup block).getD { data := disk block, refcnt := 0, holder := none }

/-- Buffers without references may have been dropped. -/
def Dropped (before after : Nat → Option Buf) : Prop :=
  ∀ block, after block = before block ∨
    after block = none ∧ ∃ buf, before block = some buf ∧ buf.refcnt = 0

theorem Dropped.refl (lookup : Nat → Option Buf) : Dropped lookup lookup := fun _ => .inl rfl

/-- A `bread` that finds its buffer unlocked. -/
structure ReadSpec (cache : BufferCache) (disk : Nat → Block) (block : Nat)
    (index : Fin NBUF) (after : BufferCache) : Prop where
  consistent : after.Consistent
  holds : after.Holds index block
  free : (after.buf index).holder = none
  data : (after.buf index).data = (fetched disk cache.lookup block).data
  unlocked : (fetched disk cache.lookup block).holder = none
  refcnt : ((after.buf index).refcnt - 1).toNat = (fetched disk cache.lookup block).refcnt
  lookup : ∃ dropped, Dropped cache.lookup dropped ∧ dropped block = cache.lookup block ∧
    after.lookup = Function.update dropped block (some (after.buf index).view)
  others : ∀ other, other ≠ index → after.buf other = cache.buf other
  source : cache.Holds index block ∨ (cache.buf index).refcnt = 0

theorem Consistent.bread_hit (consistent : cache.Consistent) (disk : Nat → Block)
    (holds : cache.Holds index block) (free : (cache.buf index).holder = none) :
    ReadSpec cache disk block index (cache.setBuf index
        { cache.buf index with refcnt := (cache.buf index).refcnt + 1 }) := by
  have found := consistent.lookup_of_holds holds
  obtain ⟨still, stillHolds, lookup⟩ := consistent.setBuf holds
    (show ({ cache.buf index with
      refcnt := (cache.buf index).refcnt + 1 } : CacheBuf).dev = _ from rfl)
    rfl rfl
  have self : (cache.setBuf index
      { cache.buf index with
        refcnt := (cache.buf index).refcnt + 1 }).buf index =
      { cache.buf index with refcnt := (cache.buf index).refcnt + 1 } :=
    Function.update_self _ _ _
  refine ⟨still, stillHolds, ?_, ?_, ?_, ?_, ?_, ?_, .inl holds⟩
  · rw [self]
    exact free
  · rw [self]
    simp [fetched, found, CacheBuf.view]
  · simp [fetched, found, CacheBuf.view, free]
  · rw [self]
    simp [fetched, found, CacheBuf.view]
  · refine ⟨cache.lookup, .refl _, rfl, ?_⟩
    rw [self]
    exact lookup
  · intro other differs
    exact Function.update_of_ne differs _ _

theorem Consistent.bread_miss (consistent : cache.Consistent) (disk : Nat → Block)
    (missing : ∀ index, ¬cache.Holds index block) (unused : (cache.buf index).refcnt = 0)
    (bufs : after.buf = Function.update cache.buf index
      { cache.buf index with
        dev := LOGDEV
        blockno := block
        valid := true
        refcnt := 1
        data := disk block })
    (free : (cache.buf index).holder = none)
    (links : after.links = cache.links) :
    ReadSpec cache disk block index after := by
  obtain ⟨order, ordered⟩ := consistent.ordered
  have replaces : Replaces cache after index
      { cache.buf index with
        dev := LOGDEV
        blockno := block
        valid := true
        refcnt := 1
        data := disk block } :=
    ⟨⟨order, ordered.of_links links⟩, bufs, rfl, rfl, fun other _ => missing other⟩
  have absent := consistent.lookup_eq_none missing
  have self := replaces.self
  refine ⟨consistent.replace replaces, replaces.holds_self, ?_, ?_, ?_, ?_, ?_, ?_, .inr unused⟩
  · rw [self]
    exact free
  · rw [self]
    simp [fetched, absent]
  · simp [fetched, absent]
  · rw [self]
    simp [fetched, absent]
  · refine ⟨fun other =>
      if (cache.buf index).dev = LOGDEV ∧ (cache.buf index).blockno = other
      then none else cache.lookup other, ?_, ?_, ?_⟩
    · intro other
      dsimp only
      split
      · rename_i old
        exact .inr ⟨rfl, _, consistent.lookup_of_holds old, by simp [CacheBuf.view, unused]⟩
      · exact .inl rfl
    · exact if_neg (missing index)
    · funext other
      rw [consistent.lookup_replace replaces, self]
      by_cases same : other = block
      · subst other
        simp
      · simp [same]
  · intro other differs
    rw [bufs, Function.update_of_ne differs]

theorem Consistent.bread_reads (consistent : cache.Consistent)
    (reads : cache.bread disk block = .reads index after) :
    ReadSpec cache disk block index after := by
  simp only [bread, bget] at reads
  split at reads
  · cases reads
  · rename_i gets
    split at gets
    · rename_i found hit
      simp only [Option.some.injEq, Prod.mk.injEq] at gets
      obtain ⟨rfl, rfl⟩ := gets
      have holds := consistent.find_iff.mp hit
      have valid : (cache.buf found).valid = true := by
        rcases consistent.filled found with unused | used
        · rw [holds.1] at unused
          exact absurd unused.1 (by decide)
        · exact used.2
      split at reads
      · rename_i free
        simp only [BufferCache.setBuf, Function.update_self, valid, if_true,
          Bread.reads.injEq] at reads free
        obtain ⟨rfl, rfl⟩ := reads
        have spec := consistent.bread_hit disk holds free
        simp only [BufferCache.setBuf, valid] at spec
        exact spec
      · cases reads
    · rename_i miss
      have missing := consistent.find_none_iff.mp miss
      split at gets
      · rename_i victim unused
        simp only [Option.some.injEq, Prod.mk.injEq] at gets
        obtain ⟨rfl, rfl⟩ := gets
        obtain ⟨order, ordered⟩ := consistent.ordered
        rw [ordered.findUnused] at unused
        have free := List.find?_some unused
        split at reads
        · rename_i unlocked
          simp only [BufferCache.setBuf, Function.update_self,
            Bool.false_eq_true, if_false, Bread.reads.injEq] at reads unlocked
          obtain ⟨rfl, rfl⟩ := reads
          refine consistent.bread_miss disk missing (of_decide_eq_true free) ?_ unlocked rfl
          funext other
          by_cases same : other = victim
          · simp [same]
          · simp [same]
        · cases reads
      · cases gets

/-- Slots with references keep their blocks. -/
def Keeps (cache after : BufferCache) : Prop :=
  ∀ index block, (cache.buf index).refcnt ≠ 0 → cache.Holds index block → after.Holds index block

theorem Keeps.of_keys (keys : ∀ index, (after.buf index).dev = (cache.buf index).dev ∧
      (after.buf index).blockno = (cache.buf index).blockno) : Keeps cache after := by
  intro index block _ holds
  exact ⟨(keys index).1.trans holds.1, (keys index).2.trans holds.2⟩

theorem Keeps.trans (first : Keeps cache middle)
    (keys : ∀ index, (after.buf index).dev = (middle.buf index).dev ∧
      (after.buf index).blockno = (middle.buf index).blockno) : Keeps cache after := by
  intro index block referenced holds
  have still := first index block referenced holds
  exact ⟨(keys index).1.trans still.1, (keys index).2.trans still.2⟩

theorem update_keys {bufs : Fin NBUF → CacheBuf} (dev : buf.dev = (bufs index).dev)
    (blockno : buf.blockno = (bufs index).blockno) (other : Fin NBUF) :
    (Function.update bufs index buf other).dev = (bufs other).dev ∧
      (Function.update bufs index buf other).blockno = (bufs other).blockno := by
  by_cases same : other = index
  · subst other
    simp [dev, blockno]
  · simp [same]

theorem brelse_keys (cache : BufferCache) (index other : Fin NBUF) :
    ((cache.brelse index).buf other).dev = (cache.buf other).dev ∧
      ((cache.brelse index).buf other).blockno = (cache.buf other).blockno := by
  rw [brelse_buf]
  apply update_keys <;> rfl

theorem ReadSpec.keeps (spec : ReadSpec cache disk block index after) : Keeps cache after := by
  intro other number referenced holds
  by_cases same : other = index
  · subst other
    rcases spec.source with hit | unused
    · have number : number = block := holds.2.symm.trans hit.2
      rw [number]
      exact spec.holds
    · exact absurd unused referenced
  · rw [BufferCache.Holds, spec.others other same]
    exact holds

/-- Two `bread`s of different blocks. -/
structure TwoReads (cache : BufferCache) (disk : Nat → Block)
    (first second : Nat) (one two : Fin NBUF) (after : BufferCache)
    (dropped : Nat → Option Buf) : Prop where
  consistent : after.Consistent
  holdsOne : after.Holds one first
  holdsTwo : after.Holds two second
  different : first ≠ second
  drops : Dropped cache.lookup dropped
  data : (after.buf one).data = (fetched disk dropped first).data ∧
    (after.buf two).data = (fetched disk dropped second).data
  unlocked : (fetched disk dropped first).holder = none ∧
    (fetched disk dropped second).holder = none
  refcnt : ((after.buf one).refcnt - 1).toNat = (fetched disk dropped first).refcnt ∧
    ((after.buf two).refcnt - 1).toNat = (fetched disk dropped second).refcnt
  lookup : ∀ block, block ≠ first → block ≠ second → after.lookup block = dropped block
  keeps : Keeps cache after

theorem ReadSpec.and (before : ReadSpec cache disk first one middle)
    (later : ReadSpec middle disk second two after) (apart : two ≠ one) :
    ∃ dropped, TwoReads cache disk first second one two after dropped := by
  obtain ⟨dropped₁, drops₁, same₁, lookup₁⟩ := before.lookup
  obtain ⟨dropped₂, drops₂, same₂, lookup₂⟩ := later.lookup
  have kept : after.buf one = middle.buf one := later.others one apart.symm
  have holdsOne : after.Holds one first := by
    rw [BufferCache.Holds, kept]
    exact before.holds
  have different : first ≠ second := by
    rintro rfl
    exact apart (later.consistent.holds_unique later.holds holdsOne)
  have away (block : Nat) (differs : block ≠ first) : middle.lookup block = dropped₁ block := by
    rw [lookup₁, Function.update_of_ne differs]
  let dropped (block : Nat) : Option Buf :=
    if block = first then cache.lookup first else dropped₂ block
  have droppedFirst : dropped first = cache.lookup first := if_pos rfl
  have droppedSecond : dropped second = middle.lookup second := (if_neg different.symm).trans same₂
  have fetchFirst : fetched disk dropped first = fetched disk cache.lookup first := by
    rw [fetched, fetched, droppedFirst]
  have fetchSecond : fetched disk dropped second = fetched disk middle.lookup second := by
    rw [fetched, fetched, droppedSecond]
  refine ⟨dropped, later.consistent, holdsOne, later.holds, different, ?_, ?_, ?_, ?_, ?_, ?_⟩
  · intro block
    by_cases isFirst : block = first
    · subst block
      exact .inl droppedFirst
    · have unfolded : dropped block = dropped₂ block := if_neg isFirst
      rw [unfolded]
      rcases drops₂ block with same | ⟨gone, buf, found, unused⟩
      · rw [same, away block isFirst]
        exact drops₁ block
      · rw [away block isFirst] at found
        rcases drops₁ block with same | ⟨none, _⟩
        · exact .inr ⟨gone, buf, same.symm.trans found, unused⟩
        · rw [none] at found
          cases found
  · rw [kept, fetchFirst, fetchSecond]
    exact ⟨before.data, later.data⟩
  · rw [fetchFirst, fetchSecond]
    exact ⟨before.unlocked, later.unlocked⟩
  · rw [kept, fetchFirst, fetchSecond]
    exact ⟨before.refcnt, later.refcnt⟩
  · intro block notFirst notSecond
    rw [lookup₂, Function.update_of_ne notSecond]
    exact (if_neg notFirst).symm
  · intro index block referenced holds
    by_cases isOne : index = one
    · subst index
      have hit := before.keeps one block referenced holds
      rw [BufferCache.Holds, kept]
      exact hit
    · have same := before.others index isOne
      refine later.keeps index block ?_ ?_
      · rw [same]
        exact referenced
      · rw [BufferCache.Holds, same]
        exact holds

end BufferCache

end Xv6KernelEvent
