import Xv6KernelEvent.Library.Runs
import Xv6KernelEvent.Storage.Content

/-!
# Runs of the storage layer

Sequences of the operations that change blocks and inodes, on any inodes and
with any arguments.  From a consistent image on, the free map stays exact, so
that freeing a file gives back what it held, and nothing is freed twice.
-/

namespace Xv6KernelEvent.Volume

open CString Custody Runs

/-- A consistent image: metadata is marked as used, and the slots of allocated
inodes and the marked data blocks correspond to each other. -/
structure Consistent (sb : Superblock) (vol : Volume) : Prop where
  metadata : ∀ b < sb.datastart, vol.inUse sb b = true
  marked : ∀ inum, Allocated sb vol inum → ∀ index < NSLOTS, vol.slot inum index ≠ 0 →
    sb.datastart ≤ vol.slot inum index ∧ vol.slot inum index < sb.size ∧
      vol.inUse sb (vol.slot inum index) = true
  distinct : ∀ inum other, Allocated sb vol inum → Allocated sb vol other →
    ∀ index < NSLOTS, ∀ place < NSLOTS, vol.slot inum index ≠ 0 →
    vol.slot inum index = vol.slot other place → inum = other ∧ index = place
  referenced : ∀ b, sb.datastart ≤ b → b < sb.size → vol.inUse sb b = true →
    ∃ inum, Allocated sb vol inum ∧ ∃ index < NSLOTS, vol.slot inum index = b

inductive StorageStep where
  | bmap (inum bn : Nat)
  | writei (inum : Nat) (source : Source) (src : Nat) (off n : UInt32)
  | itrunc (inum : Nat)
  | iput (inum : Nat)
  | ialloc (type : Nat)

def perform (sb : Superblock) (vol : Volume) : StorageStep → Except String Volume
  | .bmap inum bn => (vol.bmap sb inum bn).map Prod.snd
  | .writei inum source src off n =>
    (vol.writei sb source.fetch inum src off.toNat n.toNat).map Prod.snd
  | .itrunc inum => vol.itrunc sb inum
  | .iput inum => vol.iputFree sb inum
  | .ialloc type => .ok (vol.ialloc sb type).2

/-- The inode of a step is in use. -/
def Legal (sb : Superblock) (vol : Volume) : StorageStep → Prop
  | .bmap inum _ | .writei inum _ _ _ _ | .itrunc inum | .iput inum => Allocated sb vol inum
  | .ialloc _ => True

instance (sb : Superblock) (vol : Volume) (inum : Nat) : Decidable (Allocated sb vol inum) :=
  decidable_of_iff (inum < sb.ninodes ∧ (vol.inode inum).type ≠ 0)
    ⟨fun both => ⟨both.1, both.2⟩, fun allocated => ⟨allocated.below, allocated.typed⟩⟩

instance (sb : Superblock) (vol : Volume) (step : StorageStep) : Decidable (Legal sb vol step) :=
  match step with
  | .bmap inum _ | .writei inum _ _ _ _ | .itrunc inum | .iput inum =>
    inferInstanceAs (Decidable (Allocated sb vol inum))
  | .ialloc _ => isTrue trivial

/-- A step on an inode in use; a panic ends the run. -/
def next (sb : Superblock) (vol : Volume) (step : StorageStep) : Option Volume :=
  if Legal sb vol step then (vol.perform sb step).toOption else none

variable {sb : Superblock} {vol after : Volume} {inum : Nat}

theorem bmap_out_of_range (outside : ¬bn < MAXFILE) :
    vol.bmap sb inum bn = .error "bmap: out of range" := by
  rw [MAXFILE] at outside
  rw [Volume.bmap, if_neg (by omega), if_neg (by omega)]

theorem next_eq_some_iff : vol.next sb step = some after ↔
      Legal sb vol step ∧ vol.perform sb step = .ok after := by
  rw [next]
  split
  next legal =>
    cases vol.perform sb step with
    | error reason => simp [Except.toOption]
    | ok result => simp [Except.toOption, legal]
  next illegal => simp [illegal]

theorem Allocated.mem_blocks (allocated : Allocated sb vol inum) (nonzero : b ≠ 0) :
    b ∈ vol.blocks inum ↔ ∃ index < NSLOTS, vol.slot inum index = b := by
  rw [Volume.mem_blocks]
  exact ⟨fun both => both.2.2, fun found => ⟨allocated.typed, nonzero, found⟩⟩

theorem Owned.consistent (owned : Owned sb vol 0) : Consistent sb vol where
  metadata := owned.metadata
  marked := fun _ allocated _ below nonzero => owned.of_slot allocated below nonzero
  distinct := fun _ _ first second _ index_lt _ place_lt nonzero same =>
    owned.slot_injective first second index_lt place_lt nonzero same
  referenced := fun b data below used => by
    have member := (owned.marked b).mpr ⟨data, below, used⟩
    rw [add_zero] at member
    obtain ⟨inum, inum_lt, held⟩ := mem_references.mp member
    obtain ⟨typed, -, found⟩ := Volume.mem_blocks.mp held
    exact ⟨inum, ⟨inum_lt, typed⟩, found⟩

theorem Consistent.owned (layout : sb.Layout) (consistent : Consistent sb vol) :
    Owned sb vol 0 := by
  have allocated_of_mem : ∀ inum < sb.ninodes, ∀ b, b ∈ vol.blocks inum →
      Allocated sb vol inum := fun inum below b member =>
    ⟨below, (Volume.mem_blocks.mp member).1⟩
  refine ⟨consistent.metadata, ?_, ?_⟩
  · rw [add_zero]
    apply nodup_sum
    · intro inum member
      rw [blocks]
      split
      next => exact Multiset.nodup_zero
      next typed =>
        have allocated : Allocated sb vol inum := ⟨Finset.mem_range.mp member, typed⟩
        refine nodup_contents fun first first_lt second second_lt b at_first at_second => ?_
        obtain ⟨rfl, nonzero⟩ := owned_eq_some_iff.mp at_first
        exact (consistent.distinct inum inum allocated allocated first first_lt
          second second_lt nonzero (owned_eq_some_iff.mp at_second).1.symm).2
    · intro first first_mem second second_mem b with_first with_second
      have first_lt := Finset.mem_range.mp first_mem
      have second_lt := Finset.mem_range.mp second_mem
      obtain ⟨-, nonzero, index, index_lt, rfl⟩ := Volume.mem_blocks.mp with_first
      obtain ⟨-, -, place, place_lt, same⟩ := Volume.mem_blocks.mp with_second
      exact (consistent.distinct first second (allocated_of_mem first first_lt _ with_first)
        (allocated_of_mem second second_lt _ with_second) index index_lt place
        place_lt nonzero same.symm).1
  · intro b
    rw [add_zero, mem_references]
    constructor
    · rintro ⟨inum, inum_lt, held⟩
      have allocated := allocated_of_mem inum inum_lt b held
      obtain ⟨-, nonzero, index, index_lt, rfl⟩ := Volume.mem_blocks.mp held
      exact consistent.marked inum allocated index index_lt nonzero
    · rintro ⟨data, below, used⟩
      obtain ⟨inum, allocated, found⟩ := consistent.referenced b data below used
      have positive := layout.datastart_pos
      exact ⟨inum, allocated.below, (allocated.mem_blocks (by omega)).mpr found⟩

section Steps

variable (layout : sb.Layout) (owned : Owned sb vol 0)

include layout owned

theorem Owned.iputFree (allocated : Allocated sb vol inum) :
    ∃ after, vol.iputFree sb inum = .ok after ∧ Owned sb after 0 := by
  obtain ⟨middle, truncates, kept, freed⟩ := owned.itrunc layout allocated
  refine ⟨_, by rw [Volume.iputFree, truncates], ?_⟩
  have cleared : middle.blocks inum = 0 := by
    have inodes : middle.inode inum = (vol.detach inum).inode inum := congrFun freed.inodes inum
    rw [← @detach_blocks vol inum]
    refine blocks_congr inodes fun index _ => slot_congr inodes ?_ index
    intro present
    exact absurd (by simp [Volume.detach]) present
  have changed := @references_change sb middle
    (middle.setInode inum { middle.inode inum with type := 0 }) inum
    allocated.below fun other _ differs => setInode_blocks_of_ne differs _
  have unowned : (middle.setInode inum { middle.inode inum with type := 0 }).blocks inum = 0 := by
    rw [blocks, if_pos (by simp)]
  rw [cleared, unowned, add_zero, add_zero] at changed
  exact kept.transfer (by rw [changed]) fun _ _ => rfl

omit layout in
theorem Owned.ialloc (type : Nat) : Owned sb (vol.ialloc sb type).2 0 := by
  rw [Volume.ialloc]
  cases found : (List.range sb.ninodes).find? fun inum =>
      decide (1 ≤ inum) && decide ((vol.inode inum).type = 0) with
  | none => exact owned
  | some inum =>
    have below : inum < sb.ninodes := List.mem_range.mp (List.mem_of_find?_eq_some found)
    have free : (vol.inode inum).type = 0 := by
      have test := List.find?_some found
      rw [Bool.and_eq_true, decide_eq_true_eq, decide_eq_true_eq] at test
      exact test.2
    have changed := @references_change sb vol (vol.setInode inum
      { type := type, size := 0, addrs := fun _ => 0 }) inum below
      fun other _ differs => setInode_blocks_of_ne differs _
    have before : vol.blocks inum = 0 := by rw [blocks, if_pos free]
    have fresh : (vol.setInode inum
        { type := type, size := 0, addrs := fun _ => 0 }).blocks inum = 0 := by
      rw [blocks]
      split
      next => rfl
      next =>
        rw [← @contents_none Nat NSLOTS]
        refine contents_congr fun index _ => ?_
        rw [Volume.owned, if_pos]
        simp [slot]
    rw [before, fresh, add_zero, add_zero] at changed
    exact owned.transfer (by rw [changed]) fun _ _ => rfl

/-- What a step leads to, and that a block is never freed twice. -/
theorem Owned.perform (step : StorageStep) (legal : Legal sb vol step) :
    vol.perform sb step ≠ .error "freeing free block" ∧
      ∀ after, vol.perform sb step = .ok after → Owned sb after 0 := by
  cases step with
  | bmap inum bn =>
    by_cases below : bn < MAXFILE
    · obtain ⟨addr, middle, maps, mapped⟩ := owned.bmap layout legal below
      rw [Volume.perform, maps]
      exact ⟨nofun, fun _ ends => by cases ends; exact mapped.owned⟩
    · rw [Volume.perform, bmap_out_of_range below]
      exact ⟨fun same => absurd (Except.error.inj same) (by decide), fun _ ends => nomatch ends⟩
  | writei inum source src off n =>
    rw [Volume.perform]
    rcases owned.writei layout source legal off.toNat_lt n.toNat_lt with
      ⟨-, refused⟩ | ⟨-, count, spill, middle, writes, wrote⟩
    · rw [refused]
      exact ⟨nofun, fun _ ends => by cases ends; exact owned⟩
    · rw [writes]
      refine ⟨nofun, fun _ ends => ?_⟩
      cases ends
      exact wrote.extended.owned.setSize _
  | itrunc inum =>
    obtain ⟨middle, truncates, kept, -⟩ := owned.itrunc layout legal
    rw [Volume.perform, truncates]
    exact ⟨nofun, fun _ ends => by cases ends; exact kept⟩
  | iput inum =>
    obtain ⟨middle, frees, kept⟩ := owned.iputFree layout legal
    rw [Volume.perform, frees]
    exact ⟨nofun, fun _ ends => by cases ends; exact kept⟩
  | ialloc type => exact ⟨nofun, fun _ ends => by cases ends; exact owned.ialloc type⟩

end Steps

theorem Owned.run (layout : sb.Layout) (owned : Owned sb vol 0)
    (runs : Runs.run (Volume.next sb) vol steps = some after) : Owned sb after 0 := by
  have kept : ∀ {vol step after}, Owned sb vol 0 →
      Volume.next sb vol step = some after → Owned sb after 0 := by
    intro vol step after holds taken
    obtain ⟨legal, ends⟩ := next_eq_some_iff.mp taken
    exact (Owned.perform layout holds step legal).2 after ends
  exact run_invariant kept runs owned

/-- `itrunc` returns exactly the blocks in the slots of the inode. -/
theorem Owned.itrunc_exact (layout : sb.Layout) (owned : Owned sb vol 0)
    (allocated : Allocated sb vol inum) :
    ∃ after, vol.itrunc sb inum = .ok after ∧ (∀ index, after.slot inum index = 0) ∧
      ∀ b, sb.datastart ≤ b → b < sb.size → (after.inUse sb b = true ↔
          vol.inUse sb b = true ∧ ∀ index < NSLOTS, vol.slot inum index ≠ b) := by
  obtain ⟨after, truncates, -, freed⟩ := owned.itrunc layout allocated
  refine ⟨after, truncates, ?_, ?_⟩
  · intro index
    have inodes := congrFun freed.inodes inum
    rw [← detach_slot index]
    refine slot_congr inodes ?_ index
    intro present
    exact absurd (by simp [Volume.detach]) present
  · intro b data below
    have positive := layout.datastart_pos
    have bits := freed.bits b below
    rw [allocated.mem_blocks (by omega)] at bits
    have same : (vol.detach inum).inUse sb b = vol.inUse sb b := rfl
    rw [same] at bits
    simpa using bits

/-- A disk of four blocks, of which the first holds the free map. -/
def fourBlocks : Superblock := { size := 4, nblocks := 3, ninodes := 3, bmapstart := 0 }

/-- No inode is in use, and only the first block. -/
def emptyDisk : Volume where
  block := fun number => if number = 0 then zeroBlock.setIfInBounds 0 1 else zeroBlock
  inode := fun _ => { type := 0, size := 0, addrs := fun _ => 0 }

theorem fourBlocks_layout : fourBlocks.Layout where
  datastart_pos := by decide
  bblock_lt := by decide
  size_le := by decide

theorem emptyDisk_consistent : Consistent fourBlocks emptyDisk where
  metadata := by decide +kernel
  marked := fun _ allocated => absurd rfl allocated.typed
  distinct := fun _ _ allocated => absurd rfl allocated.typed
  referenced := by
    have unused : ∀ b < 4, 1 ≤ b → emptyDisk.inUse fourBlocks b = false := by decide +kernel
    intro b data below used
    rw [unused b below data] at used
    cases used

/-- The free map is exact in every state that a sequence of operations leads to
from a consistent image. -/
theorem blocks_are_owned (sb : Superblock) (layout : sb.Layout) (image vol : Volume)
    (consistent : Consistent sb image) (steps : List StorageStep)
    (runs : Runs.run (next sb) image steps = some vol) :
    (∀ inum, Allocated sb vol inum → ∀ index < NSLOTS, vol.slot inum index ≠ 0 →
      sb.datastart ≤ vol.slot inum index ∧ vol.slot inum index < sb.size ∧
        vol.inUse sb (vol.slot inum index) = true) ∧
    (∀ inum other, Allocated sb vol inum → Allocated sb vol other →
      ∀ index < NSLOTS, ∀ place < NSLOTS, vol.slot inum index ≠ 0 →
      vol.slot inum index = vol.slot other place →
      inum = other ∧ index = place) ∧
    (∀ b, sb.datastart ≤ b → b < sb.size → vol.inUse sb b = true →
      ∃! inum, Allocated sb vol inum ∧ ∃ index < NSLOTS, vol.slot inum index = b) ∧
    (∀ step, Legal sb vol step → vol.perform sb step ≠ .error "freeing free block") ∧
    ∀ inum, Allocated sb vol inum → ∃ after, vol.itrunc sb inum = .ok after ∧
      (∀ index, after.slot inum index = 0) ∧
      ∀ b, sb.datastart ≤ b → b < sb.size → (after.inUse sb b = true ↔ vol.inUse sb b = true ∧
            ∀ index < NSLOTS, vol.slot inum index ≠ b) := by
  have owned := (consistent.owned layout).run layout runs
  have reached := owned.consistent
  refine ⟨reached.marked, reached.distinct, ?_, ?_, ?_⟩
  · intro b data below used
    obtain ⟨inum, allocated, index, index_lt, rfl⟩ := reached.referenced b data below used
    refine ⟨inum, ⟨allocated, index, index_lt, rfl⟩, ?_⟩
    rintro other ⟨exists_, place, place_lt, same⟩
    have positive := layout.datastart_pos
    exact (reached.distinct other inum exists_ allocated place place_lt index
      index_lt (by omega) same).1
  · exact fun step legal => (owned.perform layout step legal).1
  · exact fun inum allocated => owned.itrunc_exact layout allocated

theorem blocks_are_owned_shortFile : ∃ vol, Runs.run (next fourBlocks) emptyDisk
        [.ialloc 2, .writei 1 (.kernel fun _ => 7) 0 0 3] = some vol ∧
      Allocated fourBlocks vol 1 ∧
      ∃ after, vol.itrunc fourBlocks 1 = .ok after ∧ ∀ index, after.slot 1 index = 0 := by
  have allocated : (Runs.run (next fourBlocks) emptyDisk
      [.ialloc 2, .writei 1 (.kernel fun _ => 7) 0 0 3]).any
      (fun vol => decide (Allocated fourBlocks vol 1)) = true := by
    decide +kernel
  rw [Option.any_eq_true] at allocated
  obtain ⟨vol, runs, found⟩ := allocated
  have exists_ := of_decide_eq_true found
  obtain ⟨-, -, -, -, truncates⟩ := blocks_are_owned fourBlocks
    fourBlocks_layout emptyDisk vol emptyDisk_consistent _ runs
  obtain ⟨after, ends, cleared, -⟩ := truncates 1 exists_
  exact ⟨vol, runs, exists_, after, ends, cleared⟩

end Xv6KernelEvent.Volume
