import Xv6KernelEvent.Library.CString

/-!
# Copying names with `safestrcpy`

`safestrcpy` of `kernel/string.c` copies at most `n - 1` bytes and always
leaves a NUL behind them.  When it meets the NUL of its source early, the
destination pointer has already moved past the copied NUL, so the closing
store clears one byte more; every later byte keeps its old value.
-/

namespace Xv6KernelEvent

open CString

variable {size : Nat}

/-- The copying loop of `safestrcpy`.  The first argument is the value of `n`
before the decrement in the loop condition, and `offset` is how far both
pointers have moved. -/
def safestrcpyLoop (source : Nat → UInt8) : Nat → Nat → Vector UInt8 size → Vector UInt8 size × Nat
  | 0, offset, target => (target, offset)
  | n + 1, offset, target =>
    if 0 < n then
      let copied := target.setIfInBounds offset (source offset)
      if source offset ≠ 0 then safestrcpyLoop source n (offset + 1) copied
      else (copied, offset + 1)
    else (target, offset)

/-- `safestrcpy(target, source, n)`. -/
def safestrcpy (target : Vector UInt8 size) (source : Nat → UInt8) (n : Int) : Vector UInt8 size :=
  if n ≤ 0 then target
  else
    let (copied, offset) := safestrcpyLoop source n.toNat 0 target
    copied.setIfInBounds offset 0

theorem safestrcpyLoop_stop (target : Vector UInt8 size) (nul : source offset = 0) :
    safestrcpyLoop source (n + 2) offset target = (target.setIfInBounds offset 0, offset + 1) := by
  simp [safestrcpyLoop, nul]

theorem safestrcpyLoop_step (target : Vector UInt8 size) (nonzero : source offset ≠ 0) :
    safestrcpyLoop source (n + 2) offset target = safestrcpyLoop source (n + 1) (offset + 1)
        (target.setIfInBounds offset (source offset)) := by
  rw [safestrcpyLoop]
  simp [nonzero]

/-- What one call leaves at an offset of its destination, when the source
string has `length` bytes and the limit is `n`. -/
def safestrcpyByte (old : Nat → UInt8) (source : Nat → UInt8) (length n offset : Nat) : UInt8 :=
  if offset < length then source offset
  else if offset = length then 0
  else if offset = length + 1 ∧ length + 1 < n then 0
  else old offset

private theorem safestrcpyLoop_spec
    (source : Nat → UInt8) (n offset : Nat) (target : Vector UInt8 size)
    (positive : 0 < n) (within : offset + n ≤ size) :
    let length := strnlen (fun index => source (offset + index)) (n - 1)
    let result := safestrcpyLoop source n offset target
    result.2 = (if length + 1 < n then offset + length + 1
      else offset + length) ∧
    ∀ index, byteAt result.1 index = if offset ≤ index ∧ index < offset + length then source index
      else if index = offset + length ∧ length + 1 < n then 0
      else byteAt target index := by
  induction n generalizing offset target with
  | zero => omega
  | succ n induction =>
    cases n with
    | zero => simp [safestrcpyLoop, strnlen]
    | succ n =>
      have offsetBelow : offset < size := by omega
      by_cases zero : source offset = 0
      · have length : strnlen (fun index => source (offset + index)) (n + 1) = 0 := by
          simp [strnlen, zero]
        simp only [safestrcpyLoop_stop target zero, Nat.add_sub_cancel, length]
        refine ⟨by simp, ?_⟩
        intro index
        simp [byteAt_setIfInBounds _ _ _ offsetBelow]
      · have tail := induction (offset + 1) (target.setIfInBounds offset (source offset))
          (by omega) (by omega)
        have shifted : (fun index => source (offset + (index + 1))) =
            fun index => source (offset + 1 + index) := by
          funext index
          congr 1
          omega
        have length : strnlen (fun index => source (offset + index)) (n + 1) =
              strnlen (fun index => source (offset + 1 + index)) n + 1 := by
          simp [strnlen, zero, shifted]
        simp only [Nat.add_sub_cancel] at tail ⊢
        simp only [safestrcpyLoop_step target zero, length]
        obtain ⟨pointer, bytes⟩ := tail
        refine ⟨?_, ?_⟩
        · rw [pointer]
          split <;> split <;> omega
        · intro index
          rw [bytes index, byteAt_setIfInBounds _ _ _ offsetBelow]
          by_cases first : index = offset
          · subst index
            simp
            intro _notInside atEnd
            omega
          · have same : (offset + 1 ≤ index) = (offset ≤ index) := by
              apply propext
              omega
            simp only [same, first, if_false]
            congr 1
            · congr 1
              apply propext
              omega
            · congr 1
              apply propext
              omega

/-- Every byte of the destination after `safestrcpy`. -/
theorem byteAt_safestrcpy (target : Vector UInt8 size) (source : Nat → UInt8)
    (positive : 0 < n) (within : n ≤ size) (offset : Nat) :
    byteAt (safestrcpy target source n) offset =
      safestrcpyByte (byteAt target) source (strnlen source (n - 1)) n
        offset := by
  have loop := safestrcpyLoop_spec source n 0 target positive (by omega)
  have whole : (fun index => source (0 + index)) = source := by
    funext index
    rw [Nat.zero_add]
  simp only [whole] at loop
  simp only [Nat.zero_add, Nat.zero_le, true_and] at loop
  obtain ⟨pointer, bytes⟩ := loop
  have lengthBelow := strnlen_le source (n - 1)
  have notNonpositive : ¬((n : Int) ≤ 0) := by omega
  simp only [safestrcpy, notNonpositive, if_false, Int.toNat_natCast]
  have pointerWithin : (safestrcpyLoop source n 0 target).2 < size := by
    rw [pointer]
    split <;> omega
  rw [byteAt_setIfInBounds _ _ _ pointerWithin, bytes offset, pointer]
  simp only [safestrcpyByte]
  grind

/-- The destination holds the source string, cut to `n - 1` bytes. -/
theorem text_safestrcpy (target : Vector UInt8 size) (source : Nat → UInt8)
    (positive : 0 < n) (within : n ≤ size) :
    text (byteAt (safestrcpy target source n)) size = text source (n - 1) := by
  have lengthBelow := strnlen_le source (n - 1)
  have bytes := byteAt_safestrcpy target source positive within
  have length : strnlen (byteAt (safestrcpy target source n)) size = strnlen source (n - 1) := by
    apply strnlen_eq
    · omega
    · intro offset below
      rw [bytes offset]
      simpa [safestrcpyByte, below] using byte_ne_zero_of_lt_strnlen below
    · intro _below
      rw [bytes]
      simp [safestrcpyByte]
  apply text_congr length
  intro offset below
  rw [bytes offset]
  simp [safestrcpyByte, below]

end Xv6KernelEvent
