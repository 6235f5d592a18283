import Xv6KernelEvent.Memory.ExactCopies
import Xv6KernelEvent.Storage.ByteArrays

/-!
# Writes that stop early

`either_copyin` copies page by page into the cached block, and what it has
copied stays there when it fails.  `writei` does not count these bytes, nor does
it call `log_write` for them, but the next `readi` finds them.
-/

namespace Xv6KernelEvent.Volume

open CString Custody Runs

/-- `either_copyin` from a user address: what `copyin` stored, and whether it
succeeded. -/
def fetchUser (kend : Nat) (p : CurrentProcess) (mem : PhysicalMemory) (src m : Nat) : Fetched :=
  match mem.copyinLoop kend p p.pagetable m [] (src % 2 ^ 64) m with
  | .ok (value, data, _) => { data := data, complete := value == 0 }
  | .error _ => { data := [], complete := false }

variable {kend trampoline trapframe : Nat} {p : CurrentProcess}
  {mem : PhysicalMemory} {table : PageTable}

/-- A copy stores the bytes of the memory up to the page at which it fails. -/
structure Delivers (bytes : Nat → UInt8) (src m : Nat) (fetched : Fetched) : Prop where
  stored : ∀ index < fetched.data.length, fetched.data.getD index 0 = bytes (src + index)
  length_le : fetched.data.length ≤ m
  whole : fetched.complete = true → fetched.data.length = m
  boundary : fetched.complete = false →
    fetched.data = [] ∨ (src + fetched.data.length) % PGSIZE = 0

theorem fetchUser_delivers (space : AddressSpace kend trampoline trapframe p mem table)
    (src m : Nat) : Delivers (fun va => (mem.userByte p (UInt64.ofNat va)).getD 0) src m
      (fetchUser kend p mem src m) := by
  obtain ⟨value, data, result, after, copies, copied⟩ :=
    space.copyinLoop [] le_rfl (Nat.mod_lt src (by decide))
  rw [fetchUser, copies]
  change Delivers _ _ _ { data := data, complete := value == 0 }
  refine ⟨fun index index_lt => ?_, copied.length_le, fun complete => ?_, fun incomplete => ?_⟩
  · have seen := copied.bytes index index_lt
    rw [List.getElem?_eq_getElem index_lt] at seen
    have below := space.lt_MAXVA (by rw [seen]; exact Option.some_ne_none _)
    have address : (UInt64.ofNat (src + index)).toNat = src % 2 ^ 64 + index := by
      have limit : MAXVA < 2 ^ 64 := by decide
      rw [UInt64.toNat_ofNat']
      omega
    rw [space.userByte, address, seen, Option.getD_some]
    exact List.getD_eq_getElem _ _ index_lt
  · have zero : value = 0 := eq_of_beq complete
    rcases copied.ended with ⟨-, all⟩ | ⟨failed, -⟩
    · exact all
    · omega
  · rcases copied.ended with ⟨rfl, -⟩ | ⟨-, -, empty | boundary, -⟩
    · cases incomplete
    · exact .inl empty
    · refine .inr ?_
      simp only [PGSIZE] at boundary ⊢
      omega

theorem Delivers.complete (delivers : Delivers bytes src m fetched)
    (complete : fetched.complete = true) :
    fetched.data = (List.range m).map fun index => bytes (src + index) := by
  apply List.ext_getElem
  · rw [List.length_map, List.length_range, delivers.whole complete]
  · intro index index_lt _
    rw [List.getElem_map, List.getElem_range, ← delivers.stored index index_lt]
    exact (List.getD_eq_getElem _ _ index_lt).symm

/-- A memory that is copied page by page. -/
structure PagedSource where
  bytes : Nat → UInt8
  fetch : Nat → Nat → Fetched
  delivers : ∀ src m, Delivers bytes src m (fetch src m)

abbrev PagedSource.toSource (source : PagedSource) : Source where
  bytes := source.bytes
  fetch := source.fetch
  complete := fun src m => (source.delivers src m).complete
  length_le := fun src m => (source.delivers src m).length_le

/-- User memory as the source of a write. -/
def Source.user (space : AddressSpace kend trampoline trapframe p mem table) : PagedSource :=
  ⟨_, _, fetchUser_delivers space⟩

/-- The first piece of a write that cannot be copied as a whole is the one at
byte `tot`, and the copy of it stops at byte `stop`. -/
structure Stops (source : Source) (off src n tot stop : Nat) : Prop where
  less : tot < n
  start : tot = 0 ∨ (off + tot) % BSIZE = 0
  fails : (source.piece off src n tot).complete = false
  first : ∀ earlier < tot, earlier = 0 ∨ (off + earlier) % BSIZE = 0 →
    (source.piece off src n earlier).complete = true
  stop_eq : stop = tot + (source.piece off src n tot).data.length

/-- A block on disk after some of the blocks have been written out. -/
def onDisk (vol after : Volume) (written : Nat → Bool) (b : Nat) : Block :=
  if written b then after.block b else vol.block b

/-- The bytes of a short write that are not counted. -/
theorem Wrote.spill_iff {source : PagedSource} (filled : vol.Filled inum) (less : count < n)
    (wrote : Wrote sb source.toSource vol 0 inum off src n count spill after) :
    (∀ index < spill.length, off + count + index < (vol.inode inum).size →
        spill.getD index 0 = vol.fileByte inum (off + count + index)) ↔
      ∀ tot stop, Stops source.toSource off src n tot stop →
        ∀ index, tot ≤ index → index < stop → off + index < (vol.inode inum).size →
          source.bytes (src + index) = vol.fileByte inum (off + index) := by
  have later {tot stop : Nat} (stops : Stops source.toSource off src n tot stop) : count ≤ tot := by
    by_contra earlier
    have whole := wrote.whole tot (by omega) stops.start
    rw [stops.fails] at whole
    cases whole
  rcases wrote.stops with ⟨all, -⟩ | ⟨-, ⟨absent, rfl⟩ | fetched⟩
  · exact absurd all (Nat.ne_of_lt less)
  · have beyond : (vol.inode inum).size ≤ off + count := by
      by_contra inside
      have size_le := filled.size_le
      have present := filled.present (off + count) (by omega)
      have block_lt : (off + count) / BSIZE < MAXFILE :=
        Nat.div_lt_of_lt_mul (by rw [Nat.mul_comm]; omega)
      rw [wrote.extended.addresses _ block_lt present] at absent
      exact present absent
    refine ⟨fun _ tot stop stops index ge _ inside => ?_, fun _ index lt => absurd lt (by simp)⟩
    have start := later stops
    omega
  · have stops : Stops source.toSource off src n count (count + spill.length) :=
      ⟨less, wrote.aligned less, by rw [fetched], wrote.whole, by rw [fetched]⟩
    have stored (index : Nat) (index_lt : index < spill.length) :
        spill.getD index 0 = source.bytes (src + (count + index)) := by
      have bytes := (source.delivers (src + count)
        (min (n - count) (BSIZE - (off + count) % BSIZE))).stored index
      rw [show source.fetch _ _ = ⟨spill, false⟩ from fetched, Nat.add_assoc] at bytes
      exact bytes index_lt
    constructor
    · intro kept tot stop others index ge lt inside
      obtain rfl : tot = count := by
        by_contra differs
        have whole := others.first count (by have := later others; omega) (wrote.aligned less)
        rw [fetched] at whole
        cases whole
      rw [others.stop_eq, fetched] at lt
      obtain ⟨rest, rfl⟩ := Nat.exists_eq_add_of_le ge
      rw [← stored rest (by simpa using lt), ← Nat.add_assoc]
      exact kept rest (by simpa using lt) (by omega)
    · intro same index index_lt inside
      rw [stored index index_lt, Nat.add_assoc]
      exact same count _ stops _ (by omega) (by omega) (by omega)

/-- A write that stops after `r` bytes leaves the rest of the file alone, for
later reads and on disk, exactly if this holds of the first piece that cannot be
copied as a whole: the bytes from its start to the page at which the copy fails,
as far as they lie in the file, are those that are there. -/
theorem short_writes_are_exact_iff (sb : Superblock) (layout : sb.Layout) (vol after : Volume)
    (sound : Sound sb vol) (inum : Nat) (allocated : Allocated sb vol inum)
    (source : PagedSource) (src : Nat) (off n : UInt32) (r : Nat) (short : r < n.toNat)
    (returns : vol.writei sb source.fetch inum src off.toNat n.toNat = .ok ((r : Nat), after)) :
    ((after.content inum = (vol.content inum).take off.toNat ++
        (List.range r).map (fun index => source.bytes (src + index)) ++
        (vol.content inum).drop (off.toNat + r) ∧
      ∀ written pos, off.toNat + r ≤ pos → pos < (vol.inode inum).size →
        byteAt (onDisk vol after written (vol.dataAddr inum (pos / BSIZE)))
          (pos % BSIZE) = vol.fileByte inum pos) ↔
      ∀ tot stop, Stops source.toSource off.toNat src n.toNat tot stop →
        ∀ index, tot ≤ index → index < stop → off.toNat + index < (vol.inode inum).size →
          source.bytes (src + index) = vol.fileByte inum (off.toNat + index)) ∧
    ∀ tot stop, Stops source.toSource off.toNat src n.toNat tot stop →
      stop = tot ∨ (src + stop) % PGSIZE = 0 := by
  have filled := sound.filled inum allocated
  have size_le := filled.size_le
  refine ⟨?_, fun tot stop stops => ?_⟩
  swap
  · rw [stops.stop_eq, ← Nat.add_assoc]
    refine ((source.delivers _ _).boundary stops.fails).imp (fun empty => ?_) id
    rw [Source.piece, show (source.toSource.fetch _ _).data = _ from empty]
    rfl
  rcases sound.owned.writei layout source.toSource allocated off.toNat_lt n.toNat_lt with
    ⟨-, refused⟩ |
    ⟨⟨off_le, bounded⟩, count, spill, middle, writes, wrote⟩
  · rw [refused] at returns
    simp only [Except.ok.injEq, Prod.mk.injEq] at returns
    omega
  · rw [writes] at returns
    simp only [Except.ok.injEq, Prod.mk.injEq] at returns
    obtain ⟨same, rfl⟩ := returns
    obtain rfl := Int.ofNat.inj same
    rw [wrote.content_iff filled off_le, ← wrote.spill_iff filled short]
    refine and_iff_left_of_imp fun unchanged written pos ge lt => ?_
    have block_lt : pos / BSIZE < MAXFILE := Nat.div_lt_of_lt_mul (by rw [Nat.mul_comm]; omega)
    have present := filled.present pos lt
    rw [onDisk]
    split
    next =>
      have bytes := wrote.unwritten pos block_lt present (.inr ge)
      rw [fileByte, wrote.extended.addresses _ block_lt present] at bytes
      rw [setSize_block, bytes]
      split
      next spilled =>
        have position : off.toNat + count + (pos - (off.toNat + count)) = pos := by omega
        have equal := unchanged (pos - (off.toNat + count)) (by omega) (by omega)
        rwa [position] at equal
      next => rfl
    next => rfl

/-- Three bytes of the memory of a process of one page are written over the
file of three bytes. -/
def userWrite (pagetable : UInt64) (mem : PhysicalMemory) (src : Nat)
    (vol : Volume) : Except String (Int × Volume) :=
  vol.writei fourBlocks (fetchUser KERNBASE { pagetable := pagetable, sz := 4096 } mem) 1 src
    (0 : UInt32).toNat (3 : UInt32).toNat

theorem userWrite_eval : newTable.any (fun (pagetable, mem) =>
      (Runs.run (next fourBlocks) emptyDisk threeBytes).any fun vol =>
        decide (Allocated fourBlocks vol 1 ∧ ((vol.inode 1).size = 3 ∧ vol.fileByte 1 0 = 7) ∧
          (fetchUser KERNBASE { pagetable := pagetable, sz := 4096 } mem
            (8192 + 0) (min (3 - 0) (BSIZE - (0 + 0) % BSIZE))).data = []) &&
        match userWrite pagetable mem 4094 vol, userWrite pagetable mem 8192 vol
          with
        | .ok (value, after), .ok (other, _) =>
          decide (value = 0 ∧ after.fileByte 1 0 = 0 ∧ other = 0)
        | _, _ => false) = true := by
  decide +kernel

theorem userWrite_returns : ∃ pagetable mem table, ∃ space : AddressSpace KERNBASE 0x80007 0x87000
        { pagetable := pagetable, sz := 4096 } mem table,
      ∃ vol spilled unchanged, Sound fourBlocks vol ∧ Allocated fourBlocks vol 1 ∧
        ((vol.inode 1).size = 3 ∧ vol.fileByte 1 0 = 7) ∧
        vol.writei fourBlocks (Source.user space).fetch 1 4094
          (0 : UInt32).toNat (3 : UInt32).toNat = .ok (0, spilled) ∧
        spilled.fileByte 1 0 = 0 ∧
        vol.writei fourBlocks (Source.user space).fetch 1 8192
          (0 : UInt32).toNat (3 : UInt32).toNat = .ok (0, unchanged) ∧
        ((Source.user space).fetch (8192 + 0)
          (min (3 - 0) (BSIZE - (0 + 0) % BSIZE))).data = [] := by
  have facts := userWrite_eval
  rw [Option.any_eq_true] at facts
  obtain ⟨⟨pagetable, mem⟩, made, facts⟩ := facts
  obtain ⟨table, space⟩ := newTable_space made
  simp only [Option.any_eq_true, Bool.and_eq_true, decide_eq_true_eq] at facts
  obtain ⟨vol, runs, ⟨allocated, seven, empty⟩, facts⟩ := facts
  have sound : Sound fourBlocks vol := Sound.run fourBlocks_layout
    ⟨emptyDisk_consistent.owned fourBlocks_layout, emptyDisk_filled⟩ runs
  split at facts
  next value spilled other unchanged first second =>
    obtain ⟨rfl, zero, rfl⟩ := of_decide_eq_true facts
    exact ⟨pagetable, mem, table, space, vol, spilled, unchanged, sound,
      allocated, seven, first, zero, second, empty⟩
  next => cases facts

theorem short_writes_are_exact_iff_badAddress : ∃ source vol after, Sound fourBlocks vol ∧
      vol.writei fourBlocks (Source.fetch source) 1 8192 (0 : UInt32).toNat
        (3 : UInt32).toNat = .ok ((0 : Nat), after) ∧
      after.content 1 = (vol.content 1).take 0 ++ [] ++ (vol.content 1).drop 0 := by
  obtain ⟨_, _, _, space, vol, _, after, sound, allocated, _, _, _, returns,
    empty⟩ := userWrite_returns
  have exact_ := (short_writes_are_exact_iff fourBlocks fourBlocks_layout vol
    after sound 1 allocated (Source.user space) 8192 0 3 0 (by decide) returns).1.mpr (by
      rintro tot stop ⟨less, start, _, _, rfl⟩ index ge lt
      replace less : tot < 3 := less
      replace start : tot = 0 ∨ (0 + tot) % 1024 = 0 := start
      obtain rfl : tot = 0 := by omega
      replace lt : index < 0 + ((Source.user space).toSource.piece 0 8192 3 0).data.length := lt
      rw [show ((Source.user space).toSource.piece 0 8192 3 0).data = _ from empty] at lt
      exact absurd lt (Nat.not_lt_zero index))
  exact ⟨(Source.user space).toSource, vol, after, sound, returns, exact_.1⟩

/-- A write that reports no byte has changed the first one. -/
theorem writei_spills_into_the_file : ∃ pagetable mem table,
      ∃ space : AddressSpace KERNBASE 0x80007 0x87000
        { pagetable := pagetable, sz := 4096 } mem table,
      ∃ vol after, Sound fourBlocks vol ∧ Allocated fourBlocks vol 1 ∧
        vol.writei fourBlocks (Source.user space).fetch 1 4094
          (0 : UInt32).toNat (3 : UInt32).toNat = .ok ((0 : Nat), after) ∧
        ((vol.inode 1).size = 3 ∧ vol.fileByte 1 0 = 7) ∧
        after.fileByte 1 0 = 0 := by
  obtain ⟨pagetable, mem, table, space, vol, after, _, sound, allocated, seven,
    returns, zero, _⟩ := userWrite_returns
  exact ⟨pagetable, mem, table, space, vol, after, sound, allocated, returns, seven, zero⟩

end Xv6KernelEvent.Volume
