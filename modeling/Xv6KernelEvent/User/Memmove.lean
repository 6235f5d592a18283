import Mathlib.Algebra.Order.Ring.Nat
import Mathlib.Logic.Function.Basic

/-!
# `memmove`

Memory is a function from addresses to bytes.  Both implementations copy with
one of two loops, upwards or downwards, and choose the loop in different ways.
-/

namespace Xv6KernelEvent

variable {memory : Nat → UInt8}

/-- `while(n-- > 0) *d++ = *s++;`. -/
def copyUp : (n : Nat) → (memory : Nat → UInt8) → (d s : Nat) → Nat → UInt8
  | 0, memory, _, _ => memory
  | n + 1, memory, d, s => copyUp n (Function.update memory d (memory s)) (d + 1) (s + 1)

/-- `while(n-- > 0) *--d = *--s;`, with `d` and `s` just behind `n` bytes that
start at `dst` and `src`. -/
def copyDown : (n : Nat) → (memory : Nat → UInt8) → (dst src : Nat) → Nat → UInt8
  | 0, memory, _, _ => memory
  | n + 1, memory, dst, src =>
    copyDown n (Function.update memory (dst + n) (memory (src + n))) dst src

/-- `memmove` of the user library, with its `int n`. -/
def userMemmove (memory : Nat → UInt8) (dst src : Nat) (n : Int) : Nat → UInt8 :=
  if src > dst then copyUp n.toNat memory dst src else copyDown n.toNat memory dst src

/-- `memmove` of the kernel, with its `uint n`.  The sum is a pointer and wraps. -/
def kernelMemmove (memory : Nat → UInt8) (dst src : Nat) (n : UInt32) : Nat → UInt8 :=
  if n = 0 then memory
  else if src < dst ∧ (src + n.toNat) % 2 ^ 64 > dst then copyDown n.toNat memory dst src
  else copyUp n.toNat memory dst src

/-- The destination has the bytes of the source, and all others are kept. -/
def Moved (memory : Nat → UInt8) (dst src n : Nat) : Nat → UInt8 := fun address =>
  if dst ≤ address ∧ address < dst + n then memory (src + (address - dst)) else memory address

/-- Upwards, every byte is read before it is overwritten. -/
theorem copyUp_eq (n dst src : Nat) (apart : dst ≤ src ∨ src + n ≤ dst) :
    copyUp n memory dst src = Moved memory dst src n := by
  induction n generalizing memory dst src with
  | zero =>
    funext address
    simp only [copyUp, Moved]
    rw [if_neg (by omega)]
  | succ n induction =>
    rw [copyUp, induction (dst + 1) (src + 1) (by omega)]
    funext address
    simp only [Moved, Function.update_apply]
    by_cases first : address = dst
    · subst first
      rw [if_neg (by omega), if_pos rfl, if_pos (by omega), Nat.sub_self, Nat.add_zero]
    · by_cases inside : dst ≤ address ∧ address < dst + (n + 1)
      · rw [if_pos (by omega), if_neg (by omega), if_pos inside]
        congr 1
        omega
      · rw [if_neg (by omega), if_neg first, if_neg inside]

/-- Downwards, every byte is read before it is overwritten. -/
theorem copyDown_eq (n dst src : Nat) (apart : src ≤ dst) :
    copyDown n memory dst src = Moved memory dst src n := by
  induction n generalizing memory with
  | zero =>
    funext address
    simp only [copyDown, Moved]
    rw [if_neg (by omega)]
  | succ n induction =>
    rw [copyDown, induction]
    funext address
    simp only [Moved, Function.update_apply]
    by_cases last : address = dst + n
    · subst last
      rw [if_neg (by omega), if_pos rfl, if_pos (by omega)]
      congr 1
      omega
    · by_cases inside : dst ≤ address ∧ address < dst + n
      · rw [if_pos inside, if_neg (by omega), if_pos (by omega)]
      · rw [if_neg inside, if_neg last, if_neg (by omega)]

theorem userMemmove_eq (dst src : Nat) (n : Int) :
    userMemmove memory dst src n = Moved memory dst src n.toNat := by
  rw [userMemmove]
  split
  · exact copyUp_eq _ dst src (by omega)
  · exact copyDown_eq _ dst src (by omega)

theorem kernelMemmove_eq (n : UInt32) (inside : dst + n.toNat ≤ 2 ^ 64) :
    kernelMemmove memory dst src n = Moved memory dst src n.toNat := by
  rw [kernelMemmove]
  split
  next zero =>
    subst zero
    exact copyUp_eq 0 dst src (by omega)
  next =>
    -- Below the end of the destination, the end of the source does not wrap.
    split
    · exact copyDown_eq _ dst src (by omega)
    · exact copyUp_eq _ dst src (by omega)

/-- Both move a region of this length, however it overlaps, and so they agree.
An `int` below zero moves nothing. -/
theorem memmove_exact (memory : Nat → UInt8) (dst src length : Nat)
    (inside : dst + length ≤ 2 ^ 64 ∧ src + length ≤ 2 ^ 64) :
    (∀ n : UInt32, n.toNat = length →
      kernelMemmove memory dst src n = Moved memory dst src length) ∧
    (∀ n : Int32, n.toInt.toNat = length →
      userMemmove memory dst src n.toInt = Moved memory dst src length) ∧
    ∀ (n : UInt32) (m : Int32), n.toNat = length → m.toInt = length →
      kernelMemmove memory dst src n = userMemmove memory dst src m.toInt := by
  refine ⟨?_, ?_, ?_⟩
  · rintro n rfl
    exact kernelMemmove_eq n inside.1
  · rintro n rfl
    exact userMemmove_eq dst src n.toInt
  · rintro n m rfl same
    rw [kernelMemmove_eq n inside.1, userMemmove_eq, same, Int.toNat_natCast]

theorem memmove_exact_overlapping :
    kernelMemmove UInt8.ofNat 1 0 3 = Moved UInt8.ofNat 1 0 3 ∧
      userMemmove UInt8.ofNat 1 0 3 = Moved UInt8.ofNat 1 0 3 := by
  obtain ⟨kernel, user, _⟩ := memmove_exact UInt8.ofNat 1 0 3 (by decide)
  exact ⟨kernel 3 rfl, user 3 rfl⟩

end Xv6KernelEvent
