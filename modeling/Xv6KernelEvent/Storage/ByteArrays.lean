import Xv6KernelEvent.Storage.System

/-!
# Files are byte arrays

From an image on in which every byte of a file has a block, every reachable
state has this property, since `writei` starts within the file or at its end.
There `readi` never allocates, and the two functions read and write a byte
array.
-/

namespace Xv6KernelEvent.Volume

open CString Custody Runs

/-- The free map is exact, and no file has holes. -/
structure Sound (sb : Superblock) (vol : Volume) : Prop where
  owned : Owned sb vol 0
  filled : ∀ inum, Allocated sb vol inum → vol.Filled inum

variable {sb : Superblock} {vol after : Volume} {inum : Nat}

theorem Filled.transfer (filled : vol.Filled inum)
    (size_eq : (after.inode inum).size = (vol.inode inum).size)
    (addresses : ∀ bn < MAXFILE, vol.dataAddr inum bn ≠ 0 →
      after.dataAddr inum bn ≠ 0) : after.Filled inum where
  size_le := by rw [size_eq]; exact filled.size_le
  present := fun pos below => by
    rw [size_eq] at below
    have size_le := filled.size_le
    have block_lt : pos / BSIZE < MAXFILE := Nat.div_lt_of_lt_mul (by rw [Nat.mul_comm]; omega)
    exact addresses _ block_lt (filled.present pos below)

theorem Filled.of_inode (filled : vol.Filled inum) (inodes : after.inode inum = vol.inode inum)
    (indirect : (vol.inode inum).addrs NDIRECT ≠ 0 → after.block ((vol.inode inum).addrs NDIRECT) =
        vol.block ((vol.inode inum).addrs NDIRECT)) : after.Filled inum := by
  refine filled.transfer (by rw [inodes]) fun bn _ present => ?_
  rw [dataAddr, slot_congr inodes indirect]
  exact present

theorem Filled.of_empty (empty : (vol.inode inum).size = 0) : vol.Filled inum where
  size_le := by rw [empty]; exact Nat.zero_le _
  present := fun pos below => by
    rw [empty] at below
    exact absurd below (Nat.not_lt_zero pos)

/-- A file that got blocks has no new holes. -/
theorem Extends.filled (extended : Extends sb vol 0 inum after)
    (allocated : Allocated sb vol other) (filled : vol.Filled other) : after.Filled other := by
  by_cases same : other = inum
  · subst same
    refine filled.transfer extended.size_eq fun bn below present => ?_
    rw [extended.addresses bn below present]
    exact present
  · refine filled.transfer (by rw [extended.inodes other same]) ?_
    intro bn below present
    rw [extended.otherAddresses other allocated same bn below]
    exact present

theorem Extends.allocated_iff (extended : Extends sb vol 0 inum after) :
    Allocated sb after other ↔ Allocated sb vol other := by
  refine ⟨fun allocated => ⟨allocated.below, ?_⟩, extended.allocated⟩
  by_cases same : other = inum
  · subst same
    rw [← extended.type_eq]
    exact allocated.typed
  · rw [← extended.inodes other same]
    exact allocated.typed

namespace Sound

theorem extend (sound : Sound sb vol) (extended : Extends sb vol 0 inum after) :
    Sound sb after where
  owned := extended.owned
  filled := fun other allocated =>
    extended.filled (extended.allocated_iff.mp allocated)
      (sound.filled other (extended.allocated_iff.mp allocated))

theorem setSize (sound : Sound sb vol) (size_le : size ≤ MAXFILE * BSIZE)
    (present : ∀ pos < size, vol.dataAddr inum (pos / BSIZE) ≠ 0) :
    Sound sb (vol.setSize inum size) where
  owned := sound.owned.setSize size
  filled := fun other allocated => by
    by_cases same : other = inum
    · subst same
      refine ⟨by rwa [setSize_size], ?_⟩
      rw [setSize_size]
      intro pos below
      rw [setSize_dataAddr]
      exact present pos below
    · have typed := allocated.typed
      rw [setSize_type] at typed
      exact (sound.filled other ⟨allocated.below, typed⟩).of_inode
        (setSize_inode_of_ne same size) fun _ => rfl

theorem writei (sound : Sound sb vol) (allocated : Allocated sb vol inum)
    (off_le : off ≤ (vol.inode inum).size) (bounded : off + n ≤ MAXFILE * BSIZE)
    (wrote : Wrote sb source vol 0 inum off src n count spill after) :
    Sound sb (after.setSize inum (max (vol.inode inum).size (off + count))) := by
  have filled := (sound.extend wrote.extended).filled inum (wrote.extended.allocated allocated)
  have size_le := (sound.filled inum allocated).size_le
  have count_le := wrote.count_le
  refine (sound.extend wrote.extended).setSize (by omega) ?_
  intro pos below
  rcases Nat.lt_or_ge pos (vol.inode inum).size with old | new
  · exact filled.present pos (by rwa [wrote.extended.size_eq])
  · exact wrote.mapped pos (by omega) (by omega)

theorem itrunc (layout : sb.Layout) (sound : Sound sb vol) (allocated : Allocated sb vol inum)
    (truncates : vol.itrunc sb inum = .ok after) : Sound sb after := by
  obtain ⟨result, ends, kept, freed⟩ := sound.owned.itrunc layout allocated
  rw [truncates] at ends
  cases ends
  refine ⟨kept, fun other exists_ => ?_⟩
  have inodes := congrFun freed.inodes other
  by_cases same : other = inum
  · subst same
    refine .of_empty ?_
    rw [inodes]
    simp [detach]
  · have original : after.inode other = vol.inode other :=
      inodes.trans (setInode_inode_of_ne same _)
    have typed := exists_.typed
    rw [original] at typed
    have before : Allocated sb vol other := ⟨exists_.below, typed⟩
    refine (sound.filled other before).of_inode original fun present => ?_
    exact freed.blocks _ (sound.owned.indirect before present).1

/-- An inode is replaced by one without content. -/
theorem setInode (sound : Sound sb vol) (empty : ip.size = 0)
    (owned : Owned sb (vol.setInode inum ip) 0) : Sound sb (vol.setInode inum ip) := by
  refine ⟨owned, fun other exists_ => ?_⟩
  by_cases same : other = inum
  · subst same
    refine .of_empty ?_
    rw [setInode_inode_self]
    exact empty
  · have original : (vol.setInode inum ip).inode other = vol.inode other :=
      setInode_inode_of_ne same ip
    have typed := exists_.typed
    rw [original] at typed
    exact (sound.filled other ⟨exists_.below, typed⟩).of_inode original fun _ => rfl

theorem iputFree (layout : sb.Layout) (sound : Sound sb vol) (allocated : Allocated sb vol inum)
    (frees : vol.iputFree sb inum = .ok after) : Sound sb after := by
  obtain ⟨result, ends, kept⟩ := sound.owned.iputFree layout allocated
  obtain ⟨middle, truncates, -, freed⟩ := sound.owned.itrunc layout allocated
  have sound := sound.itrunc layout allocated truncates
  rw [frees] at ends
  cases ends
  rw [Volume.iputFree, truncates] at frees
  cases frees
  refine sound.setInode ?_ kept
  rw [freed.inodes]
  simp [detach]

theorem ialloc (sound : Sound sb vol) (type : Nat) : Sound sb (vol.ialloc sb type).2 := by
  have owned := sound.owned.ialloc type
  rw [Volume.ialloc] at owned ⊢
  generalize (List.range sb.ninodes).find? _ = found at owned ⊢
  cases found with
  | none => exact sound
  | some inum => exact sound.setInode rfl owned

theorem perform (layout : sb.Layout) (sound : Sound sb vol) (step : StorageStep)
    (legal : Legal sb vol step) (ends : vol.perform sb step = .ok after) : Sound sb after := by
  cases step with
  | bmap inum bn =>
    by_cases below : bn < MAXFILE
    · obtain ⟨addr, middle, maps, mapped⟩ := sound.owned.bmap layout legal below
      rw [Volume.perform, maps] at ends
      cases ends
      exact sound.extend mapped.extends
    · rw [Volume.perform, bmap_out_of_range below] at ends
      cases ends
  | writei inum source src off n =>
    rw [Volume.perform] at ends
    rcases sound.owned.writei layout source legal off.toNat_lt n.toNat_lt with
      ⟨-, refused⟩ | ⟨⟨off_le, bounded⟩, count, spill, middle, writes, wrote⟩
    · rw [refused] at ends
      cases ends
      exact sound
    · rw [writes] at ends
      cases ends
      exact sound.writei legal off_le bounded wrote
  | itrunc inum => exact sound.itrunc layout legal ends
  | iput inum => exact sound.iputFree layout legal ends
  | ialloc type =>
    cases ends
    exact sound.ialloc type

theorem run (layout : sb.Layout) (sound : Sound sb vol)
    (runs : Runs.run (Volume.next sb) vol steps = some after) : Sound sb after := by
  refine run_invariant (fun holds taken => ?_) runs sound
  obtain ⟨legal, ends⟩ := next_eq_some_iff.mp taken
  exact holds.perform layout _ legal ends

end Sound

theorem fileBytes_congr (same : ∀ pos, off ≤ pos → pos < off + n →
      after.fileByte inum pos = vol.fileByte inum pos) :
    after.fileBytes inum off n = vol.fileBytes inum off n := by
  refine List.map_congr_left fun index member => ?_
  have below := List.mem_range.mp member
  exact same _ (by omega) (by omega)

theorem take_content (off_le : off ≤ (vol.inode inum).size) :
    (vol.content inum).take off = vol.fileBytes inum 0 off := by
  rw [fileBytes_eq_content (by omega), List.drop_zero]

theorem drop_content (off : Nat) : (vol.content inum).drop off =
      vol.fileBytes inum off ((vol.inode inum).size - off) := by
  rcases Nat.lt_or_ge (vol.inode inum).size off with beyond | within
  · rw [show (vol.inode inum).size - off = 0 by omega, fileBytes, List.range_zero,
      List.map_nil, List.drop_eq_nil_iff]
    simp only [content, fileBytes, List.length_map, List.length_range]
    omega
  · rw [fileBytes_eq_content (by omega), List.take_of_length_le]
    simp [content, fileBytes]

/-- The content after a write, up to what has been spilled. -/
theorem Wrote.content_iff (filled : vol.Filled inum) (off_le : off ≤ (vol.inode inum).size)
    (wrote : Wrote sb source vol 0 inum off src n count spill after) :
    (after.setSize inum (max (vol.inode inum).size (off + count))).content inum =
      (vol.content inum).take off ++
        (List.range count).map (fun index => source.bytes (src + index)) ++
        (vol.content inum).drop (off + count) ↔
      ∀ index < spill.length, off + count + index < (vol.inode inum).size →
        spill.getD index 0 = vol.fileByte inum (off + count + index) := by
  have size_le := filled.size_le
  have range : ∀ pos < (vol.inode inum).size, pos / BSIZE < MAXFILE := by
    intro pos below
    exact Nat.div_lt_of_lt_mul (by rw [Nat.mul_comm]; omega)
  have lengths : max (vol.inode inum).size (off + count) =
      off + count + ((vol.inode inum).size - (off + count)) := by omega
  have before : after.fileBytes inum 0 off = vol.fileBytes inum 0 off := by
    refine fileBytes_congr fun pos _ below => ?_
    rw [wrote.unwritten pos (range pos (by omega))
      (filled.present pos (by omega)) (.inl (by omega)), if_neg (by omega)]
  have written : after.fileBytes inum off count =
      (List.range count).map fun index => source.bytes (src + index) := by
    refine List.map_congr_left fun index member => ?_
    have below := List.mem_range.mp member
    rw [wrote.written _ (by omega) (by omega), Nat.add_sub_cancel_left]
  have unsized : (after.setSize inum (max (vol.inode inum).size (off + count))).content inum =
      after.fileBytes inum 0 (off + count + ((vol.inode inum).size - (off + count))) := by
    rw [content, setSize_size, lengths, fileBytes, fileBytes]
    simp only [setSize_fileByte]
  rw [unsized, fileBytes_append, fileBytes_append, take_content off_le,
    drop_content, Nat.zero_add, Nat.zero_add, before, written,
    List.append_cancel_left_eq, fileBytes, fileBytes, List.map_inj_left]
  constructor
  · intro same index index_lt inside
    have equal := same index (List.mem_range.mpr (by omega))
    rw [← equal, wrote.unwritten _ (range _ inside)
      (filled.present _ inside) (.inr (by omega)), if_pos (by omega),
      Nat.add_sub_cancel_left]
  · intro same index member
    have below := List.mem_range.mp member
    rw [wrote.unwritten _ (range _ (by omega))
      (filled.present _ (by omega)) (.inr (by omega)), Nat.add_sub_cancel_left]
    split
    next spilled => exact same index (by omega) (by omega)
    next => rfl

/-- The other files are as before. -/
theorem Wrote.content_other (allocated : Allocated sb vol other) (filled : vol.Filled other)
    (differs : other ≠ inum) (wrote : Wrote sb source vol 0 inum off src n count spill after) :
    (after.setSize inum size).content other = vol.content other := by
  have size_le := filled.size_le
  rw [content, setSize_inode_of_ne differs, wrote.extended.inodes other differs, content]
  refine fileBytes_congr fun pos _ below => ?_
  have block_lt : pos / BSIZE < MAXFILE := Nat.div_lt_of_lt_mul (by rw [Nat.mul_comm]; omega)
  rw [setSize_fileByte, fileByte, wrote.extended.otherAddresses other allocated differs _ block_lt,
    wrote.extended.otherBlocks other allocated differs _ block_lt
      (filled.present pos (by omega)), fileByte]

/-- `writei` and `readi` write and read a byte array.  Reading takes no account
of a request whose end wraps, and fails where the destination refuses a piece. -/
theorem files_are_byte_arrays (sb : Superblock) (layout : sb.Layout) (image vol : Volume)
    (consistent : Consistent sb image)
    (filled : ∀ inum, Allocated sb image inum → image.Filled inum) (steps : List StorageStep)
    (runs : Runs.run (next sb) image steps = some vol) (inum : Nat)
    (allocated : Allocated sb vol inum) (off n : UInt32) :
    (∀ (source : Source) (src : Nat) (after : Volume),
      vol.writei sb source.fetch inum src off.toNat n.toNat = .ok ((n.toNat : Nat), after) →
      after.content inum = (vol.content inum).take off.toNat ++
        (List.range n.toNat).map (fun index => source.bytes (src + index)) ++
        (vol.content inum).drop (off.toNat + n.toNat) ∧
      (after.inode inum).size = max (vol.inode inum).size (off.toNat + n.toNat) ∧
      ∀ other, Allocated sb vol other → other ≠ inum → after.content other = vol.content other) ∧
    (∀ (accepts : Nat → Nat → Bool) (dst : Nat), off.toNat ≤ (vol.inode inum).size →
      off.toNat + n.toNat < 2 ^ 32 →
      (∀ index m, index + m ≤ min n.toNat ((vol.inode inum).size - off.toNat) →
        accepts (dst + index) m = true) →
      vol.readi sb accepts inum dst off.toNat n.toNat =
        .ok ((min n.toNat ((vol.inode inum).size - off.toNat) : Nat),
          ((vol.content inum).drop off.toNat).take n.toNat, vol)) ∧
    ∀ (source : Source) (src : Nat),
      (vol.inode inum).size < off.toNat ∨ 2 ^ 32 ≤ off.toNat + n.toNat ∨
        MAXFILE * BSIZE < off.toNat + n.toNat →
      vol.writei sb source.fetch inum src off.toNat n.toNat = .ok (-1, vol) := by
  have sound : Sound sb vol := Sound.run layout ⟨consistent.owned layout, filled⟩ runs
  have size_le := (sound.filled inum allocated).size_le
  have small := MAXFILE_mul_BSIZE_lt
  refine ⟨?_, ?_, ?_⟩
  · intro source src after returns
    rcases sound.owned.writei layout source allocated off.toNat_lt n.toNat_lt with ⟨-, refused⟩ |
      ⟨⟨off_le, bounded⟩, count, spill, middle, writes, wrote⟩
    · rw [refused] at returns
      cases returns
    · rw [writes] at returns
      simp only [Except.ok.injEq, Prod.mk.injEq] at returns
      obtain ⟨all, rfl⟩ := returns
      cases all
      have whole : spill = [] := by
        rcases wrote.stops with ⟨-, empty⟩ | ⟨less, -⟩
        · exact empty
        · exact absurd less (Nat.lt_irrefl _)
      subst whole
      refine ⟨(wrote.content_iff (sound.filled inum allocated) off_le).mpr nofun,
        setSize_size _, ?_⟩
      intro other exists_ differs
      exact wrote.content_other exists_ (sound.filled other exists_) differs
  · intro accepts dst off_le fits accepted
    rcases sound.owned.readi layout accepts allocated (sound.filled inum allocated) off_le fits with
      all | ⟨delivered, index, m, within, refused, -⟩
    · exact all
    · rw [accepted index m within] at refused
      cases refused
  · intro source src outside
    rcases sound.owned.writei layout source allocated off.toNat_lt
      n.toNat_lt with ⟨-, refused⟩ | ⟨inside, -⟩
    · exact refused
    · omega

theorem emptyDisk_filled (inum : Nat) (allocated : Allocated fourBlocks emptyDisk inum) :
    emptyDisk.Filled inum :=
  absurd rfl allocated.typed

/-- A file of three bytes. -/
def threeBytes : List StorageStep := [.ialloc 2, .writei 1 (.kernel fun _ => 7) 0 0 3]

theorem threeBytes_runs : ∃ vol, Runs.run (next fourBlocks) emptyDisk threeBytes = some vol ∧
      Allocated fourBlocks vol 1 ∧ (vol.inode 1).size = 3 := by
  have facts : (Runs.run (next fourBlocks) emptyDisk threeBytes).any (fun vol =>
      decide (Allocated fourBlocks vol 1 ∧ (vol.inode 1).size = 3)) = true := by
    decide +kernel
  rw [Option.any_eq_true] at facts
  obtain ⟨vol, runs, found⟩ := facts
  exact ⟨vol, runs, of_decide_eq_true found⟩

theorem files_are_byte_arrays_threeBytes :
    ∃ vol, Runs.run (next fourBlocks) emptyDisk threeBytes = some vol ∧
      vol.readi fourBlocks (fun _ _ => true) 1 0 1 9 =
        .ok (2, ((vol.content 1).drop 1).take 9, vol) := by
  obtain ⟨vol, runs, allocated, size⟩ := threeBytes_runs
  obtain ⟨-, reads, -⟩ := files_are_byte_arrays fourBlocks fourBlocks_layout
    emptyDisk vol emptyDisk_consistent emptyDisk_filled threeBytes runs 1
    allocated 1 9
  have result := reads (fun _ _ => true) 0 (by rw [size]; decide) (by decide) fun _ _ _ => rfl
  rw [size] at result
  exact ⟨vol, runs, result⟩

/-- Every block below the end of a file is there, so that `bmap` just finds it,
and `readi` changes nothing, whatever is asked for and wherever the copy to the
destination fails. -/
theorem reads_never_allocate (sb : Superblock) (layout : sb.Layout) (image vol : Volume)
    (consistent : Consistent sb image)
    (filled : ∀ inum, Allocated sb image inum → image.Filled inum) (steps : List StorageStep)
    (runs : Runs.run (next sb) image steps = some vol) (inum : Nat)
    (allocated : Allocated sb vol inum) :
    (∀ bn < ((vol.inode inum).size + BSIZE - 1) / BSIZE, vol.dataAddr inum bn ≠ 0 ∧
      vol.bmap sb inum bn = .ok (vol.dataAddr inum bn, vol)) ∧
    ∀ (accepts : Nat → Nat → Bool) (dst : Nat) (off n : UInt32), ∃ value delivered,
      vol.readi sb accepts inum dst off.toNat n.toNat = .ok (value, delivered, vol) := by
  have sound : Sound sb vol := Sound.run layout ⟨consistent.owned layout, filled⟩ runs
  have whole := sound.filled inum allocated
  constructor
  · intro bn below
    have inside : bn * BSIZE < (vol.inode inum).size := by
      rw [Nat.lt_div_iff_mul_lt (by decide)] at below
      omega
    have present := whole.present (bn * BSIZE) inside
    rw [Nat.mul_div_cancel bn (by decide)] at present
    have block_lt : bn < MAXFILE :=
      Nat.lt_of_mul_lt_mul_right (inside.trans_le whole.size_le)
    exact ⟨present, sound.owned.bmap_present layout allocated block_lt present⟩
  · intro accepts dst off n
    by_cases outside : off.toNat > (vol.inode inum).size ∨
        (off.toNat + n.toNat) % 2 ^ 32 < off.toNat
    · simp only [readi]
      rw [if_pos outside]
      exact ⟨_, _, rfl⟩
    · have off_lt := off.toNat_lt
      have n_lt := n.toNat_lt
      have off_le : off.toNat ≤ (vol.inode inum).size := by omega
      have fits : off.toNat + n.toNat < 2 ^ 32 := by omega
      rcases sound.owned.readi layout accepts allocated whole off_le fits with
        all | ⟨delivered, _, _, _, _, fails⟩
      · exact ⟨_, _, all⟩
      · exact ⟨_, _, fails⟩

theorem reads_never_allocate_threeBytes :
    ∃ vol, Runs.run (next fourBlocks) emptyDisk threeBytes = some vol ∧
      vol.dataAddr 1 0 ≠ 0 ∧ ∃ value delivered,
        vol.readi fourBlocks (fun _ _ => false) 1 0 1 2 = .ok (value, delivered, vol) := by
  obtain ⟨vol, runs, allocated, size⟩ := threeBytes_runs
  obtain ⟨mapped, reads⟩ := reads_never_allocate fourBlocks fourBlocks_layout emptyDisk vol
    emptyDisk_consistent emptyDisk_filled threeBytes runs 1 allocated
  exact ⟨vol, runs, (mapped 0 (by rw [size]; decide)).1, reads _ 0 1 2⟩

/-- Two bytes of the file follow, but none is read. -/
theorem readi_reads_nothing : ∃ vol, Runs.run (next fourBlocks) emptyDisk threeBytes = some vol ∧
      Allocated fourBlocks vol 1 ∧ (vol.inode 1).size = 3 ∧
      vol.readi fourBlocks (fun _ _ => true) 1 0 (1 : UInt32).toNat
        (4294967295 : UInt32).toNat = .ok (0, [], vol) ∧
      min (4294967295 : UInt32).toNat (3 - (1 : UInt32).toNat) = 2 := by
  obtain ⟨vol, runs, allocated, size⟩ := threeBytes_runs
  refine ⟨vol, runs, allocated, size, ?_, by decide⟩
  simp only [readi]
  rw [if_pos (.inr (by decide))]

end Xv6KernelEvent.Volume
