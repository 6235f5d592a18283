import Xv6KernelEvent.Storage.Truncation

/-!
# The bytes of a file

What `readi` and `writei` do to the bytes of files.  No two files share a block,
so a piece written to one of them changes nothing in the others.
-/

namespace Xv6KernelEvent.Volume

open CString Custody

/-- The byte at a position of a file whose block is present. -/
def fileByte (vol : Volume) (inum pos : Nat) : UInt8 :=
  byteAt (vol.block (vol.dataAddr inum (pos / BSIZE))) (pos % BSIZE)

/-- The memory that `writei` copies from.  A piece that is copied as a whole is
what the memory holds there; a copy that fails may have stored some bytes. -/
structure Source where
  bytes : Nat → UInt8
  fetch : Nat → Nat → Fetched
  complete : ∀ src m, (fetch src m).complete = true →
    (fetch src m).data = (List.range m).map fun index => bytes (src + index)
  length_le : ∀ src m, (fetch src m).data.length ≤ m

/-- A kernel address as the source: `memmove` does not fail. -/
def Source.kernel (bytes : Nat → UInt8) : Source where
  bytes := bytes
  fetch := fun src m =>
    { data := (List.range m).map fun index => bytes (src + index)
      complete := true }
  complete := fun _ _ _ => rfl
  length_le := fun _ _ => by simp

/-- What `writei` gets for the piece of a write at byte `tot`; pieces end with the
blocks of the file. -/
def Source.piece (source : Source) (off src n tot : Nat) : Fetched :=
  source.fetch (src + tot) (min (n - tot) (BSIZE - (off + tot) % BSIZE))

variable {sb : Superblock} {vol middle after : Volume} {hand : Multiset Nat} {inum bn addr : Nat}

/-- One file may have got blocks and other contents; the others are the same. -/
structure Extends (sb : Superblock) (vol : Volume) (hand : Multiset Nat)
    (inum : Nat) (after : Volume) : Prop where
  owned : Owned sb after hand
  inodes : ∀ other, other ≠ inum → after.inode other = vol.inode other
  type_eq : (after.inode inum).type = (vol.inode inum).type
  size_eq : (after.inode inum).size = (vol.inode inum).size
  addresses : ∀ bn < MAXFILE, vol.dataAddr inum bn ≠ 0 →
    after.dataAddr inum bn = vol.dataAddr inum bn
  otherAddresses : ∀ other, Allocated sb vol other → other ≠ inum →
    ∀ bn < MAXFILE, after.dataAddr other bn = vol.dataAddr other bn
  otherBlocks : ∀ other, Allocated sb vol other → other ≠ inum →
    ∀ bn < MAXFILE, vol.dataAddr other bn ≠ 0 →
    after.block (vol.dataAddr other bn) = vol.block (vol.dataAddr other bn)

namespace Extends

theorem refl (owned : Owned sb vol hand) : Extends sb vol hand inum vol :=
  ⟨owned, fun _ _ => rfl, rfl, rfl, fun _ _ _ => rfl, fun _ _ _ _ _ => rfl, fun _ _ _ _ _ _ => rfl⟩

theorem allocated (extended : Extends sb vol hand inum after) {other : Nat}
    (allocated : Allocated sb vol other) : Allocated sb after other := by
  refine ⟨allocated.below, ?_⟩
  by_cases same : other = inum
  · subst same
    rw [extended.type_eq]
    exact allocated.typed
  · rw [extended.inodes other same]
    exact allocated.typed

theorem trans (first : Extends sb vol hand inum middle)
    (second : Extends sb middle hand inum after) : Extends sb vol hand inum after where
  owned := second.owned
  inodes := fun other differs => (second.inodes other differs).trans (first.inodes other differs)
  type_eq := second.type_eq.trans first.type_eq
  size_eq := second.size_eq.trans first.size_eq
  addresses := fun bn below present => by
    have same := first.addresses bn below present
    rw [second.addresses bn below (by rwa [same]), same]
  otherAddresses := fun other exists_ differs bn below => by
    rw [second.otherAddresses other (first.allocated exists_) differs bn below,
      first.otherAddresses other exists_ differs bn below]
  otherBlocks := fun other exists_ differs bn below present => by
    have same := first.otherAddresses other exists_ differs bn below
    have later := second.otherBlocks other (first.allocated exists_) differs bn
      below (by rwa [same])
    rw [same] at later
    rw [later, first.otherBlocks other exists_ differs bn below present]

end Extends

theorem Mapped.extends (mapped : Mapped sb vol hand inum (place bn) addr after) :
    Extends sb vol hand inum after where
  owned := mapped.owned
  inodes := mapped.inodes
  type_eq := mapped.type_eq
  size_eq := mapped.size_eq
  addresses := fun other below present => by
    by_cases same : other = bn
    · subst same
      rw [mapped.present present]
    · exact mapped.slots _ (place_lt below)
        (fun equal => same (place_injective equal)) (place_ne_NDIRECT other)
  otherAddresses := fun other exists_ differs bn _ =>
    mapped.otherSlots other exists_ differs (place bn)
  otherBlocks := fun other exists_ _ bn below present =>
    mapped.kept other exists_ (place bn) (place_lt below) (place_ne_NDIRECT bn) present

theorem Mapped.fileByte_eq (mapped : Mapped sb vol hand inum (place bn) addr after)
    (exists_ : Allocated sb vol inum) (below : pos / BSIZE < MAXFILE)
    (present : vol.dataAddr inum (pos / BSIZE) ≠ 0) :
    after.fileByte inum pos = vol.fileByte inum pos := by
  rw [fileByte, fileByte, mapped.extends.addresses _ below present, dataAddr,
    mapped.kept inum exists_ _ (place_lt below) (place_ne_NDIRECT _) present]

section

variable (owned : Owned sb vol hand) (allocated : Allocated sb vol inum) (below : bn < MAXFILE)
  (present : vol.dataAddr inum bn ≠ 0)

include owned allocated below present

/-- The data of a file lies in no indirect block. -/
theorem Owned.dataAddr_ne_indirect (exists_ : Allocated sb vol other) :
    (vol.inode other).addrs NDIRECT ≠ vol.dataAddr inum bn := by
  intro same
  rw [← slot_direct (le_refl NDIRECT)] at same
  exact place_ne_NDIRECT bn (owned.slot_injective allocated exists_
    (place_lt below) NDIRECT_lt_NSLOTS present same.symm).2

theorem Owned.setData_slot (data : Block) (exists_ : Allocated sb vol other) (index : Nat) :
    (vol.setBlock (vol.dataAddr inum bn) data).slot other index = vol.slot other index := by
  refine slot_congr (congrFun (setBlock_inode _ data) other) ?_ index
  intro _
  exact setBlock_block_of_ne (owned.dataAddr_ne_indirect allocated below present exists_) data

/-- A block of data may be written. -/
theorem Owned.setData (layout : sb.Layout) (data : Block) :
    Extends sb vol hand inum (vol.setBlock (vol.dataAddr inum bn) data) where
  owned := by
    have references : (vol.setBlock (vol.dataAddr inum bn) data).references sb =
        vol.references sb :=
      references_of_inodes (setBlock_inode _ data) fun other exists_ _ =>
        setBlock_block_of_ne (owned.dataAddr_ne_indirect allocated below present exists_) data
    refine owned.transfer (by rw [references]) fun c c_lt => ?_
    exact setBlock_inUse layout c_lt (owned.of_slot allocated (place_lt below) present).1 data
  inodes := fun _ _ => rfl
  type_eq := rfl
  size_eq := rfl
  addresses := fun _ _ _ => owned.setData_slot allocated below present data allocated _
  otherAddresses := fun _ exists_ _ _ _ => owned.setData_slot allocated below present data exists_ _
  otherBlocks := fun other exists_ differs bn' bn'_lt present' => by
    refine setBlock_block_of_ne ?_ data
    intro same
    exact differs (owned.slot_injective exists_ allocated (place_lt bn'_lt)
      (place_lt below) present' same).1

theorem Owned.setData_fileByte (data : Block) (pos_lt : pos / BSIZE < MAXFILE)
    (mapped : vol.dataAddr inum (pos / BSIZE) ≠ 0) :
    (vol.setBlock (vol.dataAddr inum bn) data).fileByte inum pos =
      if pos / BSIZE = bn then byteAt data (pos % BSIZE)
      else vol.fileByte inum pos := by
  have same : (vol.setBlock (vol.dataAddr inum bn) data).dataAddr inum
      (pos / BSIZE) = vol.dataAddr inum (pos / BSIZE) :=
    owned.setData_slot allocated below present data allocated _
  rw [fileByte, same]
  split
  next equal => rw [equal, setBlock_block_self]
  next differs =>
    rw [setBlock_block_of_ne ?_ data, fileByte]
    intro equal
    exact differs (place_injective (owned.slot_injective allocated allocated
      (place_lt pos_lt) (place_lt below) mapped equal).2)

end

theorem byteAt_storeBytes (data : Block) (start : Nat) (bytes : List UInt8) (below : pos < BSIZE) :
    byteAt (storeBytes data start bytes) pos = if start ≤ pos ∧ pos < start + bytes.length then
        bytes.getD (pos - start) 0
      else byteAt data pos := by
  simp [byteAt_of_lt _ below, storeBytes]

/-- What the loop of `writei` does, from position `off` and address `src` on,
when it should write `n` bytes and writes `count` of them.  The bytes of a piece
that fails to be copied as a whole are its `spill`. -/
structure Wrote (sb : Superblock) (source : Source) (vol : Volume)
    (hand : Multiset Nat) (inum off src n count : Nat) (spill : List UInt8)
    (after : Volume) : Prop where
  extended : Extends sb vol hand inum after
  count_le : count ≤ n
  mapped : ∀ pos, off ≤ pos → pos < off + count → after.dataAddr inum (pos / BSIZE) ≠ 0
  written : ∀ pos, off ≤ pos → pos < off + count →
    after.fileByte inum pos = source.bytes (src + (pos - off))
  unwritten : ∀ pos, pos / BSIZE < MAXFILE →
    vol.dataAddr inum (pos / BSIZE) ≠ 0 → pos < off ∨ off + count ≤ pos →
    after.fileByte inum pos = if off + count ≤ pos ∧ pos < off + count + spill.length then
        spill.getD (pos - (off + count)) 0
      else vol.fileByte inum pos
  stops : count = n ∧ spill = [] ∨ count < n ∧
    (after.dataAddr inum ((off + count) / BSIZE) = 0 ∧ spill = [] ∨
      source.piece off src n count = ⟨spill, false⟩)
  aligned : count < n → count = 0 ∨ (off + count) % BSIZE = 0
  whole : ∀ tot < count, tot = 0 ∨ (off + tot) % BSIZE = 0 →
    (source.piece off src n tot).complete = true

theorem within_block (fits : length ≤ BSIZE - off % BSIZE) : off ≤ pos ∧ pos < off + length ↔
      pos / BSIZE = off / BSIZE ∧ off % BSIZE ≤ pos % BSIZE ∧
        pos % BSIZE < off % BSIZE + length := by
  rw [show BSIZE = 1024 from rfl] at *
  omega

section Writing

variable {off src n count : Nat}

theorem Wrote.nothing (owned : Owned sb vol hand) :
    Wrote sb source vol hand inum off src 0 0 [] vol where
  extended := .refl owned
  count_le := le_refl 0
  mapped := fun pos ge lt => by omega
  written := fun pos ge lt => by omega
  unwritten := fun pos _ _ _ => by
    rw [if_neg]
    rw [List.length_nil]
    omega
  stops := .inl ⟨rfl, rfl⟩
  aligned := fun lt => absurd lt (by omega)
  whole := fun _ lt => absurd lt (Nat.not_lt_zero _)

theorem Source.piece_add (source : Source) (off src m n tot : Nat) :
    source.piece off src (m + n) (m + tot) = source.piece (off + m) (src + m) n tot := by
  rw [piece, piece, Nat.add_sub_add_left, ← Nat.add_assoc, ← Nat.add_assoc]

/-- A piece, and what is written after it. -/
theorem Wrote.append (first : Wrote sb source vol hand inum off src m m [] middle)
    (rest : n = 0 ∨ (off + m) % BSIZE = 0) (bounded : off + m ≤ MAXFILE * BSIZE)
    (second : Wrote sb source middle hand inum (off + m) (src + m) n count spill after) :
    Wrote sb source vol hand inum off src (m + n) (m + count) spill after := by
  have range : ∀ pos, pos < off + m → pos / BSIZE < MAXFILE := by
    intro pos lt
    exact Nat.div_lt_of_lt_mul (by rw [Nat.mul_comm]; omega)
  have end_eq : off + (m + count) = off + m + count := by omega
  refine ⟨first.extended.trans second.extended,
    Nat.add_le_add_left second.count_le m, ?_, ?_, ?_, ?_, ?_, ?_⟩
  · intro pos ge lt
    rcases Nat.lt_or_ge pos (off + m) with inside | beyond
    · have present := first.mapped pos ge inside
      rw [second.extended.addresses _ (range pos inside) present]
      exact present
    · exact second.mapped pos beyond (by omega)
  · intro pos ge lt
    rcases Nat.lt_or_ge pos (off + m) with inside | beyond
    · rw [second.unwritten pos (range pos inside) (first.mapped pos ge inside)
        (.inl inside), if_neg (by omega), first.written pos ge inside]
    · rw [second.written pos beyond (by omega)]
      congr 1
      omega
  · intro pos pos_lt present outside
    have same := first.extended.addresses _ pos_lt present
    rw [second.unwritten pos pos_lt (by rwa [same]) (by omega), end_eq,
      first.unwritten pos pos_lt present (by omega), if_neg (c := off + m ≤ pos ∧ _)]
    rw [List.length_nil]
    omega
  · rw [end_eq]
    rcases second.stops with ⟨all, empty⟩ | ⟨less, reason⟩
    · exact .inl ⟨by omega, empty⟩
    · refine .inr ⟨by omega, ?_⟩
      rwa [Source.piece_add]
  · intro less
    rw [end_eq]
    rcases second.aligned (by omega) with zero | boundary
    · refine .inr ?_
      rw [zero, Nat.add_zero]
      exact rest.resolve_left (by omega)
    · exact .inr boundary
  · intro tot lt start
    rcases Nat.lt_or_ge tot m with inside | beyond
    · have same : source.piece off src (m + n) tot = source.piece off src m tot := by
        unfold Source.piece
        congr 1
        rw [show BSIZE = 1024 from rfl] at *
        omega
      rw [same]
      exact first.whole tot inside start
    · obtain ⟨later, rfl⟩ := Nat.exists_eq_add_of_le beyond
      rw [Source.piece_add]
      refine second.whole later (by omega) (start.imp (by omega) ?_)
      rw [Nat.add_assoc]
      exact id

section

variable (layout : sb.Layout) (mapped : Mapped sb vol hand inum (place (off / BSIZE)) addr middle)
  (exists_ : Allocated sb vol inum) (below : off / BSIZE < MAXFILE) (nonzero : addr ≠ 0)

include layout mapped exists_ below nonzero

/-- Bytes are stored in the block that `bmap` found. -/
theorem Mapped.store (bytes : List UInt8) (fits : bytes.length ≤ BSIZE - off % BSIZE)
    (after_eq : middle.setBlock addr (storeBytes (middle.block addr) (off % BSIZE) bytes) = after) :
    Extends sb vol hand inum after ∧ after.dataAddr inum (off / BSIZE) ≠ 0 ∧
      (∀ pos, off ≤ pos → pos < off + bytes.length →
        after.fileByte inum pos = bytes.getD (pos - off) 0) ∧
      ∀ pos, pos / BSIZE < MAXFILE → vol.dataAddr inum (pos / BSIZE) ≠ 0 →
        ¬(off ≤ pos ∧ pos < off + bytes.length) →
        after.fileByte inum pos = vol.fileByte inum pos := by
  have found : middle.dataAddr inum (off / BSIZE) = addr := mapped.found
  subst found
  have allocated := mapped.allocated exists_
  have stored := mapped.owned.setData allocated below nonzero layout
    (storeBytes (middle.block (middle.dataAddr inum (off / BSIZE))) (off % BSIZE) bytes)
  have bytesOf : ∀ pos, pos / BSIZE < MAXFILE → middle.dataAddr inum (pos / BSIZE) ≠ 0 →
      after.fileByte inum pos =
        if off ≤ pos ∧ pos < off + bytes.length then bytes.getD (pos - off) 0
        else middle.fileByte inum pos := by
    intro pos pos_lt present
    rw [← after_eq, mapped.owned.setData_fileByte allocated below nonzero _
      pos_lt present, if_congr (within_block fits) rfl rfl]
    have inside : pos % BSIZE < BSIZE := Nat.mod_lt pos (by decide)
    split
    next equal =>
      rw [byteAt_storeBytes _ _ _ inside]
      by_cases stored : off % BSIZE ≤ pos % BSIZE ∧ pos % BSIZE < off % BSIZE + bytes.length
      · rw [if_pos stored, if_pos ⟨equal, stored⟩]
        have offset : pos % BSIZE - off % BSIZE = pos - off := by
          rw [show BSIZE = 1024 from rfl] at *
          omega
        rw [offset]
      · rw [if_neg stored, if_neg fun both => stored both.2, fileByte, equal]
    next differs => rw [if_neg fun both => differs both.1]
  rw [after_eq] at stored
  refine ⟨mapped.extends.trans stored, ?_, ?_, ?_⟩
  · rw [stored.addresses _ below nonzero]
    exact nonzero
  · intro pos ge lt
    have equal := ((within_block fits).mp ⟨ge, lt⟩).1
    rw [bytesOf pos (by rwa [equal]) (by rwa [equal]), if_pos ⟨ge, lt⟩]
  · intro pos pos_lt present outside
    have same := mapped.extends.addresses _ pos_lt present
    rw [bytesOf pos pos_lt (by rwa [same]), if_neg outside,
      mapped.fileByte_eq exists_ pos_lt present]

/-- A piece that is copied as a whole. -/
theorem Mapped.piece (fits : m ≤ BSIZE - off % BSIZE)
    (complete : (source.fetch src m).complete = true) :
    Wrote sb source vol hand inum off src m m []
      (middle.setBlock addr (storeBytes (middle.block addr) (off % BSIZE)
        (source.fetch src m).data)) := by
  have data := source.complete src m complete
  have length : (source.fetch src m).data.length = m := by
    rw [data]
    simp
  obtain ⟨extended, present, inside, outside⟩ := mapped.store layout exists_ below nonzero
    (source.fetch src m).data (by rwa [length]) rfl
  rw [length] at inside outside
  refine ⟨extended, le_refl m, ?_, ?_, ?_, .inl ⟨rfl, rfl⟩, ?_, ?_⟩
  · intro pos ge lt
    rwa [((within_block fits).mp ⟨ge, lt⟩).1]
  · intro pos ge lt
    rw [inside pos ge lt, data]
    have position : pos - off < m := by omega
    simp [position]
  · intro pos pos_lt existing apart
    rw [outside pos pos_lt existing (by omega), if_neg]
    rw [List.length_nil]
    omega
  · exact fun less => absurd less (by omega)
  · intro tot lt start
    obtain rfl : tot = 0 := by
      rw [show BSIZE = 1024 from rfl] at *
      omega
    rw [Source.piece, Nat.add_zero, Nat.add_zero, Nat.sub_zero, Nat.min_eq_left fits]
    exact complete

/-- A piece of which only a part is copied. -/
theorem Mapped.partialPiece (m_eq : min n (BSIZE - off % BSIZE) = m)
    (positive : 0 < n) (fails : (source.fetch src m).complete = false) :
    Wrote sb source vol hand inum off src n 0 (source.fetch src m).data
      (middle.setBlock addr (storeBytes (middle.block addr) (off % BSIZE)
        (source.fetch src m).data)) := by
  have length := source.length_le src m
  obtain ⟨extended, present, inside, outside⟩ := mapped.store layout exists_ below nonzero
    (source.fetch src m).data (by omega) rfl
  refine ⟨extended, Nat.zero_le n, ?_, ?_, ?_, ?_, fun _ => .inl rfl,
    fun _ lt => absurd lt (Nat.not_lt_zero _)⟩
  · intro pos ge lt
    omega
  · intro pos ge lt
    omega
  · intro pos pos_lt existing _
    rw [Nat.add_zero]
    split
    next stored => exact inside pos stored.1 stored.2
    next apart => exact outside pos pos_lt existing apart
  · refine .inr ⟨positive, .inr ?_⟩
    rw [Source.piece, Nat.add_zero, Nat.add_zero, Nat.sub_zero, m_eq, ← fails]

end

/-- No block for the next piece. -/
theorem Mapped.noBlock (mapped : Mapped sb vol hand inum (place (off / BSIZE)) 0 middle)
    (exists_ : Allocated sb vol inum) (positive : 0 < n) :
    Wrote sb source vol hand inum off src n 0 [] middle := by
  refine ⟨mapped.extends, Nat.zero_le n, ?_, ?_, ?_, ?_, fun _ => .inl rfl,
    fun _ lt => absurd lt (Nat.not_lt_zero _)⟩
  · intro pos ge lt
    omega
  · intro pos ge lt
    omega
  · intro pos pos_lt existing _
    rw [if_neg (by rw [List.length_nil]; omega), mapped.fileByte_eq exists_ pos_lt existing]
  · exact .inr ⟨positive, .inl ⟨mapped.found, rfl⟩⟩

theorem Owned.writeiLoop (layout : sb.Layout) (source : Source) (fuel : Nat)
    (owned : Owned sb vol hand) (allocated : Allocated sb vol inum)
    (tot_le : tot ≤ n) (enough : n - tot ≤ fuel) (bounded : off + (n - tot) ≤ MAXFILE * BSIZE) :
    ∃ count spill after, vol.writeiLoop sb source.fetch inum fuel tot off src n =
        .ok (tot + count, off + count, after) ∧
      Wrote sb source vol hand inum off src (n - tot) count spill after := by
  induction fuel generalizing tot off src vol with
  | zero =>
    refine ⟨0, [], vol, rfl, ?_⟩
    rw [Nat.le_zero.mp enough]
    exact .nothing owned
  | succ fuel induction =>
    rw [Volume.writeiLoop]
    by_cases more : tot < n
    · rw [if_pos more]
      have below : off / BSIZE < MAXFILE := Nat.div_lt_of_lt_mul (by rw [Nat.mul_comm]; omega)
      obtain ⟨addr, middle, maps, mapped⟩ := owned.bmap layout allocated below
      rw [maps]
      by_cases full : addr = 0
      · subst full
        exact ⟨0, [], middle, rfl, mapped.noBlock allocated (by omega)⟩
      · obtain ⟨m, m_eq⟩ : ∃ m, min (n - tot) (BSIZE - off % BSIZE) = m := ⟨_, rfl⟩
        have positive : 0 < m := by
          have inside : off % BSIZE < BSIZE := Nat.mod_lt off (by decide)
          omega
        simp only [if_neg full, m_eq]
        cases complete : (source.fetch src m).complete with
        | false =>
          exact ⟨0, _, _, rfl, mapped.partialPiece layout allocated below full
            m_eq (by omega) complete⟩
        | true =>
          have first : Wrote sb source vol hand inum off src m m [] _ :=
            mapped.piece layout allocated below full (by omega) complete
          obtain ⟨count, spill, after, loops, second⟩ :=
            @induction _ (off + m) (src + m) (tot + m) first.extended.owned
              (first.extended.allocated allocated) (by omega) (by omega)
              (by omega)
          have boundary : n - (tot + m) = 0 ∨ (off + m) % BSIZE = 0 := by
            rw [show BSIZE = 1024 from rfl] at *
            omega
          have whole := first.append boundary (by omega) second
          rw [show m + (n - (tot + m)) = n - tot by omega] at whole
          refine ⟨m + count, spill, after, ?_, whole⟩
          rw [if_pos rfl, loops, Nat.add_assoc, Nat.add_assoc]
    · rw [if_neg more]
      refine ⟨0, [], vol, rfl, ?_⟩
      rw [show n - tot = 0 by omega]
      exact .nothing owned

def setSize (vol : Volume) (inum size : Nat) : Volume :=
  vol.setInode inum { vol.inode inum with size := size }

@[simp] theorem setSize_block (size : Nat) : (vol.setSize inum size).block = vol.block := rfl

@[simp] theorem setSize_size (size : Nat) : ((vol.setSize inum size).inode inum).size = size := by
  simp [setSize]

theorem setSize_inode_of_ne (differs : other ≠ inum) (size : Nat) :
    (vol.setSize inum size).inode other = vol.inode other :=
  setInode_inode_of_ne differs _

@[simp] theorem setSize_type (other size : Nat) :
    ((vol.setSize inum size).inode other).type = (vol.inode other).type := by
  by_cases same : other = inum
  · subst same
    simp [setSize]
  · rw [setSize_inode_of_ne same]

@[simp] theorem setSize_addrs (other size : Nat) :
    ((vol.setSize inum size).inode other).addrs = (vol.inode other).addrs := by
  by_cases same : other = inum
  · subst same
    simp [setSize]
  · rw [setSize_inode_of_ne same]

@[simp] theorem setSize_slot (other index size : Nat) :
    (vol.setSize inum size).slot other index = vol.slot other index := by
  rw [slot, slot, setSize_addrs, setSize_block]

@[simp] theorem setSize_dataAddr (other bn size : Nat) :
    (vol.setSize inum size).dataAddr other bn = vol.dataAddr other bn :=
  setSize_slot other (place bn) size

@[simp] theorem setSize_fileByte (other pos size : Nat) :
    (vol.setSize inum size).fileByte other pos = vol.fileByte other pos := by
  rw [fileByte, fileByte, setSize_dataAddr, setSize_block]

theorem Owned.setSize (owned : Owned sb vol hand) (size : Nat) :
    Owned sb (vol.setSize inum size) hand := by
  have references : (vol.setSize inum size).references sb = vol.references sb := by
    refine references_congr fun other _ => ?_
    rw [blocks, blocks, setSize_type]
    congr 1
    refine contents_congr fun index _ => ?_
    rw [Volume.owned, Volume.owned, setSize_slot]
  exact owned.transfer (by rw [references]) fun _ _ => rfl

theorem setSize_max (off : Nat) : (if off > (vol.inode inum).size then
        vol.setInode inum { vol.inode inum with size := off }
      else vol) = vol.setSize inum (max (vol.inode inum).size off) := by
  split
  next grows => rw [max_eq_right (Nat.le_of_lt grows), Volume.setSize]
  next stays =>
    rw [max_eq_left (not_lt.mp stays), Volume.setSize, setInode, Function.update_eq_self]

theorem MAXFILE_mul_BSIZE_lt : MAXFILE * BSIZE < 2 ^ 32 := by decide

/-- `writei` refuses what does not fit, and otherwise writes what it reports,
and the spill of a failing copy. -/
theorem Owned.writei (layout : sb.Layout) (source : Source) (owned : Owned sb vol hand)
    (allocated : Allocated sb vol inum) (off_lt : off < 2 ^ 32) (n_lt : n < 2 ^ 32) :
    ((vol.inode inum).size < off ∨ 2 ^ 32 ≤ off + n ∨ MAXFILE * BSIZE < off + n) ∧
      vol.writei sb source.fetch inum src off n = .ok (-1, vol) ∨
    (off ≤ (vol.inode inum).size ∧ off + n ≤ MAXFILE * BSIZE) ∧ ∃ count spill middle,
        vol.writei sb source.fetch inum src off n = .ok ((count : Nat),
          middle.setSize inum (max (vol.inode inum).size (off + count))) ∧
        Wrote sb source vol hand inum off src n count spill middle := by
  have small := MAXFILE_mul_BSIZE_lt
  simp only [Volume.writei]
  by_cases refused : off > (vol.inode inum).size ∨ (off + n) % 2 ^ 32 < off
  · rw [if_pos refused]
    exact .inl ⟨by omega, rfl⟩
  · rw [if_neg refused]
    have sum : (off + n) % 2 ^ 32 = off + n := by omega
    rw [sum]
    by_cases large : off + n > MAXFILE * BSIZE
    · rw [if_pos large]
      exact .inl ⟨.inr (.inr large), rfl⟩
    · rw [if_neg large]
      obtain ⟨count, spill, middle, loops, wrote⟩ :=
        owned.writeiLoop layout source n allocated (Nat.zero_le n)
          le_rfl (show off + n ≤ _ from not_lt.mp large)
      refine .inr ⟨by omega, count, spill, middle, ?_, wrote⟩
      rw [loops, Nat.zero_add]
      simp only
      rw [setSize_max, wrote.extended.size_eq]

end Writing

section Reading

variable {off n : Nat}

/-- Where a file has a block, `bmap` finds it and changes nothing. -/
theorem Owned.bmap_present (layout : sb.Layout) (owned : Owned sb vol hand)
    (allocated : Allocated sb vol inum) (below : bn < MAXFILE)
    (present : vol.dataAddr inum bn ≠ 0) :
    vol.bmap sb inum bn = .ok (vol.dataAddr inum bn, vol) := by
  obtain ⟨addr, after, maps, mapped⟩ := owned.bmap layout allocated below
  obtain rfl := mapped.present present
  rw [maps, ← mapped.found]
  rfl

/-- The bytes of a file from a position on. -/
def fileBytes (vol : Volume) (inum off n : Nat) : List UInt8 :=
  (List.range n).map fun index => vol.fileByte inum (off + index)

theorem fileBytes_append (m : Nat) : vol.fileBytes inum off (m + n) =
      vol.fileBytes inum off m ++ vol.fileBytes inum (off + m) n := by
  rw [fileBytes, List.range_add, List.map_append, List.map_map, fileBytes, fileBytes]
  congr 1
  refine List.map_congr_left fun index _ => ?_
  simp only [Function.comp_apply, Nat.add_assoc]

theorem fileBytes_in_block (fits : m ≤ BSIZE - off % BSIZE) : ((List.range m).map fun index =>
        byteAt (vol.block (vol.dataAddr inum (off / BSIZE)))
          (off % BSIZE + index)) = vol.fileBytes inum off m := by
  refine List.map_congr_left fun index member => ?_
  have below := List.mem_range.mp member
  obtain ⟨quotient, -, -⟩ := (within_block fits).mp
    ⟨Nat.le_add_right off index, Nat.add_lt_add_left below off⟩
  have remainder : (off + index) % BSIZE = off % BSIZE + index := by
    rw [show BSIZE = 1024 from rfl] at *
    omega
  rw [fileByte, quotient, remainder]

/-- The loop of `readi` delivers the bytes of the file, unless the destination
refuses a piece. -/
theorem Owned.readiLoop (layout : sb.Layout) (accepts : Nat → Nat → Bool) (fuel : Nat)
    {tot dst : Nat} {data : List UInt8} (owned : Owned sb vol hand)
    (allocated : Allocated sb vol inum) (tot_le : tot ≤ n)
    (enough : n - tot ≤ fuel) (bounded : off + (n - tot) ≤ MAXFILE * BSIZE)
    (present : ∀ pos, pos < off + (n - tot) → vol.dataAddr inum (pos / BSIZE) ≠ 0) :
    vol.readiLoop sb accepts inum fuel tot off dst n data =
        .ok ((n : Nat), data ++ vol.fileBytes inum off (n - tot), vol) ∨
      ∃ delivered index m, index + m ≤ n - tot ∧ accepts (dst + index) m = false ∧
        vol.readiLoop sb accepts inum fuel tot off dst n data = .ok (-1, delivered, vol) := by
  induction fuel generalizing tot off dst data with
  | zero =>
    have done : tot = n := by omega
    subst done
    refine .inl ?_
    rw [Nat.sub_self, fileBytes, List.range_zero, List.map_nil, List.append_nil, Volume.readiLoop]
  | succ fuel induction =>
    rw [Volume.readiLoop]
    by_cases more : tot < n
    · have below : off / BSIZE < MAXFILE := Nat.div_lt_of_lt_mul (by rw [Nat.mul_comm]; omega)
      have here := present off (by omega)
      obtain ⟨m, m_eq⟩ : ∃ m, min (n - tot) (BSIZE - off % BSIZE) = m := ⟨_, rfl⟩
      rw [if_pos more, owned.bmap_present layout allocated below here]
      simp only [if_neg here, m_eq]
      have positive : 0 < m := by
        have inside : off % BSIZE < BSIZE := Nat.mod_lt off (by decide)
        omega
      rw [fileBytes_in_block (by omega)]
      cases accepted : accepts dst m with
      | false =>
        refine .inr ⟨data, 0, m, by omega, accepted, ?_⟩
        rw [if_neg Bool.false_ne_true]
      | true =>
        have split : n - tot = m + (n - (tot + m)) := by omega
        rw [if_pos rfl, split, fileBytes_append, ← List.append_assoc]
        rcases @induction (off + m) (tot + m) (dst + m)
          (data ++ vol.fileBytes inum off m) (by omega) (by omega)
          (by omega) (fun pos lt => present pos (by omega)) with
          all | ⟨delivered, index, piece, within, refused, fails⟩
        · exact .inl all
        · exact .inr ⟨delivered, m + index, piece, by omega, by rwa [← Nat.add_assoc], fails⟩
    · have done : tot = n := by omega
      subst done
      refine .inl ?_
      rw [if_neg more, Nat.sub_self, fileBytes, List.range_zero, List.map_nil, List.append_nil]

/-- The whole content of a file. -/
def content (vol : Volume) (inum : Nat) : List UInt8 := vol.fileBytes inum 0 (vol.inode inum).size

/-- Every byte of a file is in a block of it. -/
structure Filled (vol : Volume) (inum : Nat) : Prop where
  size_le : (vol.inode inum).size ≤ MAXFILE * BSIZE
  present : ∀ pos < (vol.inode inum).size, vol.dataAddr inum (pos / BSIZE) ≠ 0

theorem fileBytes_eq_content (within : off + n ≤ (vol.inode inum).size) :
    vol.fileBytes inum off n = ((vol.content inum).drop off).take n := by
  apply List.ext_getElem
  · simp [fileBytes, content]
    omega
  · intro index _ _
    simp [fileBytes, content]

theorem Owned.readi (layout : sb.Layout) (accepts : Nat → Nat → Bool) {dst : Nat}
    (owned : Owned sb vol hand) (allocated : Allocated sb vol inum)
    (filled : vol.Filled inum) (off_le : off ≤ (vol.inode inum).size) (fits : off + n < 2 ^ 32) :
    vol.readi sb accepts inum dst off n = .ok ((min n ((vol.inode inum).size - off) : Nat),
          ((vol.content inum).drop off).take n, vol) ∨
      ∃ delivered index m, index + m ≤ min n ((vol.inode inum).size - off) ∧
        accepts (dst + index) m = false ∧
        vol.readi sb accepts inum dst off n = .ok (-1, delivered, vol) := by
  have sum : (off + n) % 2 ^ 32 = off + n := Nat.mod_eq_of_lt fits
  have count : (if off + n > (vol.inode inum).size then
      (vol.inode inum).size - off else n) =
      min n ((vol.inode inum).size - off) := by
    split <;> omega
  simp only [Volume.readi]
  rw [sum, if_neg (by omega), count]
  have size_le := filled.size_le
  rcases @readiLoop sb vol hand inum off (min n ((vol.inode inum).size - off))
    layout accepts (min n ((vol.inode inum).size - off)) 0 dst [] owned allocated
    (Nat.zero_le _) (Nat.sub_le _ _) (by omega)
    (fun pos lt => filled.present pos (by omega)) with
    all | ⟨delivered, index, m, within, refused, fails⟩
  · refine .inl ?_
    rw [all, List.nil_append, Nat.sub_zero, fileBytes_eq_content (by omega)]
    congr 3
    rw [List.take_eq_take_iff]
    simp [content, fileBytes]
  · exact .inr ⟨delivered, index, m, within, refused, fails⟩

end Reading

end Xv6KernelEvent.Volume
