import Mathlib.Data.Nat.Bitwise
import Xv6KernelEvent.Memory.UserSpace

/-!
# Addresses and page table entries

The macros of `kernel/riscv.h` that take virtual addresses and page table
entries apart, on 64-bit words, and what they compute in terms of page
numbers.
-/

namespace Xv6KernelEvent

def PTE_V : UInt64 := (1 : UInt64) <<< 0

def PTE_R : UInt64 := (1 : UInt64) <<< 1

def PTE_W : UInt64 := (1 : UInt64) <<< 2

def PTE_X : UInt64 := (1 : UInt64) <<< 3

def PTE_U : UInt64 := (1 : UInt64) <<< 4

/-- `PA2PTE(pa)`. -/
def pa2pte (pa : UInt64) : UInt64 := (pa >>> 12) <<< 10

/-- `PTE2PA(pte)`. -/
def pte2pa (pte : UInt64) : UInt64 := (pte >>> 10) <<< 12

/-- `PTE_FLAGS(pte)`. -/
def pteFlags (pte : UInt64) : UInt64 := pte &&& 0x3FF

/-- `PX(level, va)`. -/
def px (level : Nat) (va : UInt64) : UInt64 := (va >>> UInt64.ofNat (12 + 9 * level)) &&& 0x1FF

theorem pa2pte_toNat (pa : UInt64) : (pa2pte pa).toNat = pa.toNat / PGSIZE * 1024 := by
  have bound := pa.toNat_lt
  simp only [pa2pte, PGSIZE, UInt64.toNat_shiftLeft, UInt64.toNat_shiftRight,
    Nat.shiftRight_eq_div_pow, Nat.shiftLeft_eq, UInt64.reduceToNat,
    Nat.reduceMod, Nat.reducePow] at bound ⊢
  omega

theorem pte2pa_toNat (bound : pte.toNat < 2 ^ 54) :
    (pte2pa pte).toNat = pte.toNat / 1024 * PGSIZE := by
  simp only [pte2pa, PGSIZE, UInt64.toNat_shiftLeft, UInt64.toNat_shiftRight,
    Nat.shiftRight_eq_div_pow, Nat.shiftLeft_eq, UInt64.reduceToNat,
    Nat.reduceMod, Nat.reducePow] at bound ⊢
  omega

theorem pteFlags_toNat (pte : UInt64) : (pteFlags pte).toNat = pte.toNat % 1024 := by
  rw [pteFlags, UInt64.toNat_and]
  exact Nat.and_two_pow_sub_one_eq_mod pte.toNat 10

theorem px_toNat (bound : level ≤ 2) (va : UInt64) :
    (px level va).toNat = va.toNat / 2 ^ (12 + 9 * level) % 512 := by
  have shift : (UInt64.ofNat (12 + 9 * level)).toNat % 64 = 12 + 9 * level := by
    rw [UInt64.toNat_ofNat']
    omega
  rw [px, UInt64.toNat_and, UInt64.toNat_shiftRight, shift, Nat.shiftRight_eq_div_pow]
  exact Nat.and_two_pow_sub_one_eq_mod _ 9

/-- The fields of an entry do not overlap. -/
theorem entry_toNat (pa : UInt64) (small : flags.toNat < 1024) :
    (pa2pte pa ||| flags).toNat = pa.toNat / PGSIZE * 1024 + flags.toNat := by
  have fits : flags.toNat < 2 ^ 10 := small
  rw [UInt64.toNat_or, pa2pte_toNat, Nat.mul_comm]
  exact (Nat.two_pow_add_eq_or_of_lt fits _).symm

theorem flags_or_valid_lt (small : perm.toNat < 1024) : (perm ||| PTE_V).toNat < 1024 := by
  rw [UInt64.toNat_or]
  exact Nat.or_lt_two_pow (n := 10) small (by decide)

/-- Testing a word for `PTE_V`. -/
theorem and_valid_eq_zero_iff (pte : UInt64) : pte &&& PTE_V = 0 ↔ pte.toNat % 2 = 0 := by
  rw [← UInt64.toNat_inj, UInt64.toNat_and]
  exact Eq.congr_left (Nat.and_one_is_mod pte.toNat)

theorem or_valid_odd (perm : UInt64) : (perm ||| PTE_V).toNat % 2 = 1 := by
  rw [UInt64.toNat_or]
  have bit := Nat.testBit_or perm.toNat PTE_V.toNat 0
  have set : PTE_V.toNat.testBit 0 = true := by decide
  rw [set, Bool.or_true, Nat.testBit_zero] at bit
  exact of_decide_eq_true bit

/-- Taking `PTE_U` out of an entry touches only its flags. -/
theorem entry_and_not_user (pa flags : UInt64) :
    (pa2pte pa ||| flags) &&& ~~~PTE_U = pa2pte pa ||| flags &&& ~~~PTE_U := by
  have number : pa2pte pa &&& ~~~PTE_U = pa2pte pa := by
    rw [pa2pte, ← UInt64.toBitVec_inj]
    change ((pa >>> 12).toBitVec <<< 10) &&& ~~~16#64 = (pa >>> 12).toBitVec <<< 10
    apply BitVec.eq_of_getLsbD_eq
    intro index bound
    rw [BitVec.getLsbD_and, BitVec.getLsbD_shiftLeft, BitVec.getLsbD_not]
    by_cases low : index < 10
    · simp [low]
    · have unset : (16#64).getLsbD index = false := by
        rw [BitVec.getLsbD_ofNat, show 16 = 2 ^ 4 from rfl, Nat.testBit_two_pow]
        simp only [Bool.and_eq_false_imp, decide_eq_true_eq, decide_eq_false_iff_not]
        omega
      rw [unset]
      simp [bound]
  have split : (pa2pte pa ||| flags) &&& ~~~PTE_U =
      pa2pte pa &&& ~~~PTE_U ||| flags &&& ~~~PTE_U := by
    rw [← UInt64.toBitVec_inj]
    exact BitVec.and_or_distrib_right
  rw [split, number]

theorem and_not_user_odd (odd : flags.toNat % 2 = 1) : (flags &&& ~~~PTE_U).toNat % 2 = 1 := by
  have bit := Nat.testBit_and flags.toNat (~~~PTE_U).toNat 0
  have set : (~~~PTE_U).toNat.testBit 0 = true := by decide
  rw [set, Bool.and_true, Nat.testBit_zero, Nat.testBit_zero] at bit
  rw [UInt64.toNat_and]
  simpa [odd] using bit

/-- `PTE2PA` undoes `PA2PTE`, and the flags of an entry are those it was made
with. -/
theorem entry_round_trip (aligned : pa.toNat % PGSIZE = 0)
    (bound : pa.toNat < 2 ^ 56) (small : flags.toNat < 1024) :
    pte2pa (pa2pte pa ||| flags) = pa ∧ pteFlags (pa2pte pa ||| flags) = flags := by
  have value := entry_toNat pa small
  have low : (pa2pte pa ||| flags).toNat < 2 ^ 54 := by
    rw [value]
    simp only [PGSIZE] at aligned ⊢
    omega
  constructor
  · rw [← UInt64.toNat_inj, pte2pa_toNat low, value]
    simp only [PGSIZE] at aligned ⊢
    omega
  · rw [← UInt64.toNat_inj, pteFlags_toNat, value]
    omega

end Xv6KernelEvent
