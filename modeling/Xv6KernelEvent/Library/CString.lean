import Mathlib.Algebra.Order.Ring.Nat
import Mathlib.Data.List.Basic

/-!
# Bounded C strings

Memory behind a `char *` is a function from offsets to bytes.  A C string read
with a limit is the run of non-zero bytes before the first NUL or the limit,
whichever comes first.
-/

namespace Xv6KernelEvent.CString

/-- The number of leading non-zero bytes, counting at most `limit`. -/
def strnlen (bytes : Nat → UInt8) : Nat → Nat
  | 0 => 0
  | limit + 1 =>
    if bytes 0 = 0 then 0
    else strnlen (fun offset => bytes (offset + 1)) limit + 1

/-- The string itself. -/
def text (bytes : Nat → UInt8) (limit : Nat) : List UInt8 :=
  (List.range (strnlen bytes limit)).map bytes

theorem strnlen_le (bytes : Nat → UInt8) (limit : Nat) : strnlen bytes limit ≤ limit := by
  induction limit generalizing bytes with
  | zero => simp [strnlen]
  | succ limit induction =>
    simp only [strnlen]
    split
    · omega
    · have := induction fun offset => bytes (offset + 1)
      omega

theorem byte_ne_zero_of_lt_strnlen {bytes : Nat → UInt8} {limit offset : Nat}
    (below : offset < strnlen bytes limit) : bytes offset ≠ 0 := by
  induction limit generalizing bytes offset with
  | zero => simp [strnlen] at below
  | succ limit induction =>
    simp only [strnlen] at below
    split at below
    · omega
    · cases offset with
      | zero => assumption
      | succ offset => exact @induction (fun offset => bytes (offset + 1)) offset (by omega)

theorem byte_strnlen_eq_zero (below : strnlen bytes limit < limit) :
    bytes (strnlen bytes limit) = 0 := by
  induction limit generalizing bytes with
  | zero => omega
  | succ limit induction =>
    simp only [strnlen] at below ⊢
    split
    · assumption
    · rename_i nonzero
      simp only [nonzero, if_false] at below
      exact @induction (fun offset => bytes (offset + 1)) (by omega)

/-- The three facts above determine the length. -/
theorem strnlen_eq (within : length ≤ limit)
    (nonzero : ∀ offset, offset < length → bytes offset ≠ 0)
    (stop : length < limit → bytes length = 0) : strnlen bytes limit = length := by
  rcases Nat.lt_trichotomy (strnlen bytes limit) length with
    shorter | same | longer
  · exact absurd (byte_strnlen_eq_zero (shorter.trans_le within)) (nonzero _ shorter)
  · exact same
  · exact absurd (stop (longer.trans_le (strnlen_le bytes limit)))
      (byte_ne_zero_of_lt_strnlen longer)

@[simp] theorem length_text (bytes : Nat → UInt8) (limit : Nat) :
    (text bytes limit).length = strnlen bytes limit := by
  simp [text]

/-- Two memories with the same string bytes hold the same string. -/
theorem text_congr (lengths : strnlen left leftLimit = strnlen right rightLimit)
    (bytes : ∀ offset, offset < strnlen right rightLimit → left offset = right offset) :
    text left leftLimit = text right rightLimit := by
  simp only [text, lengths]
  apply List.map_congr_left
  intro offset member
  exact bytes offset (List.mem_range.mp member)

/-- Equal strings agree byte by byte. -/
theorem byte_eq_of_text_eq (same : text left leftLimit = text right rightLimit)
    (below : offset < strnlen left leftLimit) : left offset = right offset := by
  have lengths : strnlen left leftLimit = strnlen right rightLimit := by
    simpa using congrArg List.length same
  have item := congrArg (fun string => string[offset]?) same
  have belowRight : offset < strnlen right rightLimit := lengths ▸ below
  simpa [text, below, belowRight] using item

/-- The byte at an offset of a fixed buffer; offsets past its end read NUL. -/
def byteAt {size : Nat} (buffer : Vector UInt8 size) (offset : Nat) : UInt8 :=
  buffer[offset]?.getD 0

theorem byteAt_of_lt (buffer : Vector UInt8 size)
    (below : offset < size) : byteAt buffer offset = buffer[offset] := by
  simp [byteAt, below]

theorem byteAt_setIfInBounds (buffer : Vector UInt8 size) (index : Nat) (value : UInt8)
    (within : index < size) (offset : Nat) :
    byteAt (buffer.setIfInBounds index value) offset =
      if offset = index then value else byteAt buffer offset := by
  by_cases same : offset = index
  · subst offset
    simp [byteAt, within]
  · have reverse : index ≠ offset := Ne.symm same
    simp [byteAt, same, reverse]

theorem ext_byteAt {size : Nat} {left right : Vector UInt8 size}
    (bytes : ∀ offset, offset < size → byteAt left offset = byteAt right offset) :
    left = right := by
  apply Vector.ext
  intro offset below
  simpa [byteAt_of_lt, below] using bytes offset below

end Xv6KernelEvent.CString
