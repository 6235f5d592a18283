import Mathlib.Data.Nat.Bitwise
import Xv6KernelEvent.Storage.Volume

/-!
# The free map

The bits of the free map lie in the bytes of several blocks.  Setting or
clearing the bit of one block changes the bit of no other block, and a block
that is not part of the map can be written without changing a bit.
-/

namespace Xv6KernelEvent

open CString

/-- How a disk is laid out: the blocks of the free map, like those of the other
metadata, are before the data blocks. -/
structure Superblock.Layout (sb : Superblock) : Prop where
  datastart_pos : 0 < sb.datastart
  bblock_lt : ∀ b < sb.size, sb.bblock b < sb.datastart
  size_le : sb.size ≤ 2 ^ 32

namespace Volume

variable {sb : Superblock} {vol : Volume}

@[simp] theorem setBlock_inode (number : Nat) (data : Block) :
    (vol.setBlock number data).inode = vol.inode := rfl

@[simp] theorem setBlock_block_self (number : Nat) (data : Block) :
    (vol.setBlock number data).block number = data := by
  simp [setBlock]

theorem setBlock_block_of_ne (differs : other ≠ number) (data : Block) :
    (vol.setBlock number data).block other = vol.block other := by
  simp [setBlock, differs]

theorem mask_toNat (b : Nat) : (mask b).toNat = 2 ^ (b % 8) := by
  have small : b % 8 < 8 := Nat.mod_lt b (by decide)
  have shift : (UInt8.ofNat (b % 8)).toNat % 8 = b % 8 := by
    rw [UInt8.toNat_ofNat']
    omega
  have bound : 2 ^ (b % 8) < 2 ^ 8 := Nat.pow_lt_pow_right (by decide) small
  rw [mask, UInt8.toNat_shiftLeft, shift, Nat.shiftLeft_eq]
  simp only [UInt8.reduceToNat, Nat.one_mul]
  exact Nat.mod_eq_of_lt bound

theorem and_mask_eq_zero_iff (byte : UInt8) (b : Nat) :
    byte &&& mask b = 0 ↔ byte.toNat.testBit (b % 8) = false := by
  rw [← UInt8.toNat_inj, UInt8.toNat_and, mask_toNat, Nat.and_two_pow]
  cases byte.toNat.testBit (b % 8) <;> simp

theorem testBit_or_mask (byte : UInt8) (b index : Nat) : (byte ||| mask b).toNat.testBit index =
      (byte.toNat.testBit index || decide (b % 8 = index)) := by
  rw [UInt8.toNat_or, Nat.testBit_or, mask_toNat, Nat.testBit_two_pow]

theorem testBit_and_not_mask (byte : UInt8) (b : Nat) (small : index < 8) :
    (byte &&& ~~~mask b).toNat.testBit index =
      (byte.toNat.testBit index && !decide (b % 8 = index)) := by
  have complement : (~~~mask b).toNat = 2 ^ 8 - (2 ^ (b % 8) + 1) := by
    rw [UInt8.toNat_not, mask_toNat]
    exact Nat.sub_sub _ _ _ |>.trans (by rw [Nat.add_comm]; rfl)
  have bound : 2 ^ (b % 8) < 2 ^ 8 := Nat.pow_lt_pow_right (by decide) (Nat.mod_lt b (by decide))
  rw [UInt8.toNat_and, Nat.testBit_and, complement,
    Nat.testBit_two_pow_sub_succ bound, Nat.testBit_two_pow]
  simp [small]

theorem inUse_eq (b : Nat) : vol.inUse sb b = (vol.bitmapByte sb b).toNat.testBit (b % 8) := by
  rw [inUse]
  cases bit : (vol.bitmapByte sb b).toNat.testBit (b % 8) with
  | false =>
    rw [(and_mask_eq_zero_iff _ _).mpr bit]
    rfl
  | true =>
    rw [bne_iff_ne, Ne, and_mask_eq_zero_iff, bit]
    decide

/-- Two bits are in one byte of one block if their numbers have one quotient. -/
theorem byte_eq_iff (b c : Nat) :
    c / BPB = b / BPB ∧ c % BPB / 8 = b % BPB / 8 ↔ c / 8 = b / 8 := by
  rw [show BPB = 8192 from rfl]
  omega

theorem bitmapByte_setBitmapByte (b c : Nat) (byte : UInt8) :
    (vol.setBitmapByte sb b byte).bitmapByte sb c =
      if c / 8 = b / 8 then byte else vol.bitmapByte sb c := by
  have within : b % BPB / 8 < BSIZE := by
    rw [show BPB = 8192 from rfl, show BSIZE = 1024 from rfl]
    omega
  rw [bitmapByte, setBitmapByte, ← if_congr (byte_eq_iff b c) rfl rfl]
  by_cases quotient : c / BPB = b / BPB
  · have same : sb.bblock c = sb.bblock b := by rw [Superblock.bblock, quotient, Superblock.bblock]
    rw [same, setBlock_block_self, byteAt_setIfInBounds _ _ _ within]
    simp only [quotient, true_and, bitmapByte, same]
  · have apart : sb.bblock c ≠ sb.bblock b := by
      intro same
      exact quotient (Nat.add_right_cancel same)
    rw [setBlock_block_of_ne apart, if_neg fun both => quotient both.1, bitmapByte]

theorem bitmapByte_congr (byte : c / 8 = b / 8) : vol.bitmapByte sb b = vol.bitmapByte sb c := by
  obtain ⟨quotient, position⟩ := (byte_eq_iff b c).mpr byte
  simp only [bitmapByte, Superblock.bblock, quotient, position]

theorem bit_eq_iff (byte : c / 8 = b / 8) : b % 8 = c % 8 ↔ c = b := by omega

/-- `balloc` sets one bit. -/
theorem inUse_set (b c : Nat) :
    (vol.setBitmapByte sb b (vol.bitmapByte sb b ||| mask b)).inUse sb c =
      (vol.inUse sb c || decide (c = b)) := by
  rw [inUse_eq, inUse_eq, bitmapByte_setBitmapByte]
  by_cases byte : c / 8 = b / 8
  · rw [if_pos byte, testBit_or_mask, bitmapByte_congr byte]
    simp only [bit_eq_iff byte]
  · have differs : c ≠ b := fun equal => byte (by rw [equal])
    simp [byte, differs]

/-- `bfree` clears one bit. -/
theorem inUse_clear (b c : Nat) :
    (vol.setBitmapByte sb b (vol.bitmapByte sb b &&& ~~~mask b)).inUse sb c =
      (vol.inUse sb c && !decide (c = b)) := by
  rw [inUse_eq, inUse_eq, bitmapByte_setBitmapByte]
  by_cases byte : c / 8 = b / 8
  · rw [if_pos byte, testBit_and_not_mask _ _ (Nat.mod_lt c (by decide)), bitmapByte_congr byte]
    simp only [bit_eq_iff byte]
  · have differs : c ≠ b := fun equal => byte (by rw [equal])
    simp [byte, differs]

theorem inUse_congr {after : Volume} {b : Nat}
    (same : after.block (sb.bblock b) = vol.block (sb.bblock b)) :
    after.inUse sb b = vol.inUse sb b := by
  rw [inUse, inUse, bitmapByte, bitmapByte, same]

end Volume

end Xv6KernelEvent
