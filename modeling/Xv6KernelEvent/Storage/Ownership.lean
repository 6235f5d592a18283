import Xv6KernelEvent.Storage.Bitmap

/-!
# Who owns a block

The slots of an inode are its addresses, the one of its indirect block among
them, and the entries of the indirect block.  All slots of all allocated inodes,
together with the blocks that the running code has in its hands, hold every data
block that is marked in the free map exactly once.
-/

namespace Xv6KernelEvent.Volume

open CString Custody

def NSLOTS : Nat := NDIRECT + 1 + NINDIRECT

def slot (vol : Volume) (inum index : Nat) : Nat :=
  if index ≤ NDIRECT then (vol.inode inum).addrs index
  else if (vol.inode inum).addrs NDIRECT = 0 then 0
  else Header.word (vol.block ((vol.inode inum).addrs NDIRECT)) (index - NDIRECT - 1)

/-- The block in a slot. -/
def owned (vol : Volume) (inum index : Nat) : Option Nat :=
  if vol.slot inum index = 0 then none else some (vol.slot inum index)

def blocks (vol : Volume) (inum : Nat) : Multiset Nat :=
  if (vol.inode inum).type = 0 then 0 else contents NSLOTS (vol.owned inum)

def references (sb : Superblock) (vol : Volume) : Multiset Nat :=
  ∑ inum ∈ Finset.range sb.ninodes, vol.blocks inum

/-- The free map is exact, with some blocks in hand. -/
structure Owned (sb : Superblock) (vol : Volume) (hand : Multiset Nat) : Prop where
  metadata : ∀ b < sb.datastart, vol.inUse sb b = true
  distinct : (vol.references sb + hand).Nodup
  marked : ∀ b, b ∈ vol.references sb + hand ↔
    sb.datastart ≤ b ∧ b < sb.size ∧ vol.inUse sb b = true

/-- An inode in use. -/
structure Allocated (sb : Superblock) (vol : Volume) (inum : Nat) : Prop where
  below : inum < sb.ninodes
  typed : (vol.inode inum).type ≠ 0

variable {sb : Superblock} {vol after : Volume} {hand : Multiset Nat} {inum index b : Nat}

theorem owned_eq_some_iff : vol.owned inum index = some b ↔ vol.slot inum index = b ∧ b ≠ 0 := by
  rw [owned]
  split
  next zero =>
    constructor
    · exact nofun
    · rintro ⟨same, nonzero⟩
      exact absurd (same.symm.trans zero) nonzero
  next nonzero =>
    rw [Option.some_inj]
    constructor
    · rintro rfl
      exact ⟨rfl, nonzero⟩
    · exact And.left

theorem mem_blocks : b ∈ vol.blocks inum ↔ (vol.inode inum).type ≠ 0 ∧ b ≠ 0 ∧
        ∃ index < NSLOTS, vol.slot inum index = b := by
  rw [blocks]
  split
  next untyped => simp [untyped]
  next typed =>
    rw [mem_contents]
    simp only [owned_eq_some_iff]
    constructor
    · rintro ⟨index, below, same, nonzero⟩
      exact ⟨typed, nonzero, index, below, same⟩
    · rintro ⟨-, nonzero, index, below, same⟩
      exact ⟨index, below, same, nonzero⟩

theorem mem_references : b ∈ vol.references sb ↔ ∃ inum < sb.ninodes, b ∈ vol.blocks inum := by
  simp only [references, Multiset.mem_sum, Finset.mem_range]

theorem blocks_congr (inodes : after.inode inum = vol.inode inum)
    (slots : ∀ index < NSLOTS, after.slot inum index = vol.slot inum index) :
    after.blocks inum = vol.blocks inum := by
  rw [blocks, blocks, inodes]
  congr 1
  refine contents_congr fun index below => ?_
  rw [owned, owned, slots index below]

theorem references_congr (same : ∀ inum < sb.ninodes, after.blocks inum = vol.blocks inum) :
    after.references sb = vol.references sb :=
  Finset.sum_congr rfl fun inum below => same inum (Finset.mem_range.mp below)

/-- Only the blocks of one inode change. -/
theorem references_change (below : inum < sb.ninodes)
    (others : ∀ other < sb.ninodes, other ≠ inum → after.blocks other = vol.blocks other) :
    after.references sb + vol.blocks inum = vol.references sb + after.blocks inum := by
  have member : inum ∈ Finset.range sb.ninodes := Finset.mem_range.mpr below
  have rest : ∑ other ∈ (Finset.range sb.ninodes).erase inum, after.blocks other =
      ∑ other ∈ (Finset.range sb.ninodes).erase inum, vol.blocks other := by
    apply Finset.sum_congr rfl
    intro other inside
    obtain ⟨differs, inside⟩ := Finset.mem_erase.mp inside
    exact others other (Finset.mem_range.mp inside) differs
  rw [references, references, ← Finset.add_sum_erase _ _ member, rest,
    ← Finset.add_sum_erase _ (fun inum => vol.blocks inum) member]
  ac_rfl

namespace Owned

section

variable (owned : Owned sb vol hand)

include owned

theorem transfer (moved : after.references sb + rest = vol.references sb + hand)
    (bits : ∀ b < sb.size, after.inUse sb b = vol.inUse sb b) : Owned sb after rest where
  metadata := fun b below => by
    rw [bits b (below.trans_le (Nat.sub_le _ _)), owned.metadata b below]
  distinct := moved ▸ owned.distinct
  marked := fun b => by
    rw [moved, owned.marked b]
    refine and_congr_right fun _ => and_congr_right fun below => ?_
    rw [bits b below]

theorem of_slot (allocated : Allocated sb vol inum)
    (below : index < NSLOTS) (nonzero : vol.slot inum index ≠ 0) :
    sb.datastart ≤ vol.slot inum index ∧ vol.slot inum index < sb.size ∧
      vol.inUse sb (vol.slot inum index) = true := by
  refine (owned.marked _).mp (Multiset.mem_add.mpr (.inl ?_))
  exact mem_references.mpr ⟨inum, allocated.below,
    mem_blocks.mpr ⟨allocated.typed, nonzero, index, below, rfl⟩⟩

/-- No block is in two slots. -/
theorem slot_injective {other place : Nat}
    (first : Allocated sb vol inum) (second : Allocated sb vol other)
    (index_lt : index < NSLOTS) (place_lt : place < NSLOTS) (nonzero : vol.slot inum index ≠ 0)
    (same : vol.slot inum index = vol.slot other place) : inum = other ∧ index = place := by
  have distinct := (Multiset.nodup_add.mp owned.distinct).1
  have in_first : vol.slot inum index ∈ vol.blocks inum :=
    mem_blocks.mpr ⟨first.typed, nonzero, index, index_lt, rfl⟩
  have in_second : vol.slot inum index ∈ vol.blocks other :=
    mem_blocks.mpr ⟨second.typed, nonzero, place, place_lt, same.symm⟩
  obtain rfl : inum = other := unique_of_nodup_sum distinct
    (Finset.mem_range.mpr first.below) (Finset.mem_range.mpr second.below)
    in_first in_second
  have within : (contents NSLOTS (vol.owned inum)).Nodup := by
    have inside : vol.blocks inum ≤ vol.references sb :=
      Finset.single_le_sum (fun _ _ => zero_le) (Finset.mem_range.mpr first.below)
    have nodup := Multiset.nodup_of_le inside distinct
    rwa [blocks, if_neg first.typed] at nodup
  exact ⟨rfl, contents_injective within index_lt place_lt (owned_eq_some_iff.mpr ⟨rfl, nonzero⟩)
    (owned_eq_some_iff.mpr ⟨same.symm, nonzero⟩)⟩

/-- A block in hand is in no slot. -/
theorem slot_ne_hand (allocated : Allocated sb vol inum)
    (below : index < NSLOTS) (nonzero : vol.slot inum index ≠ 0)
    (held : b ∈ hand) : vol.slot inum index ≠ b := by
  rintro rfl
  refine Multiset.disjoint_left.mp (Multiset.nodup_add.mp owned.distinct).2.2 ?_ held
  exact mem_references.mpr ⟨inum, allocated.below,
    mem_blocks.mpr ⟨allocated.typed, nonzero, index, below, rfl⟩⟩

end

end Owned

end Xv6KernelEvent.Volume
