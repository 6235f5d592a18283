import Xv6KernelEvent.Library.CString

/-!
# The on-disk log header

`struct logheader` laid over a disk block: the word `n` followed by the words
`block[0]`, ..., `block[LOGBLOCKS-1]`, little endian.  `write_head` changes
`n` and the first `n` entries of the buffered block and leaves its other bytes
alone; `read_head` reads back what it wrote.
-/

namespace Xv6KernelEvent

open CString

def BSIZE : Nat := 1024

def MAXOPBLOCKS : Nat := 10

def LOGBLOCKS : Nat := MAXOPBLOCKS * 3

abbrev Block : Type := Vector UInt8 BSIZE

namespace Header

/-- The 32-bit word at an index of a block. -/
def word (block : Block) (index : Nat) : Nat :=
  (byteAt block (4 * index)).toNat + 256 * (byteAt block (4 * index + 1)).toNat +
    65536 * (byteAt block (4 * index + 2)).toNat +
    16777216 * (byteAt block (4 * index + 3)).toNat

def setWord (block : Block) (index value : Nat) : Block :=
  Vector.ofFn fun position : Fin BSIZE =>
    if position.val / 4 = index then UInt8.ofNat (value / 256 ^ (position.val % 4))
    else byteAt block position.val

/-- The loop `hb->block[i] = log.lh.block[i]` from index `i` on. -/
def putBlocks (numbers : List Nat) (i : Nat) (block : Block) : Block :=
  match numbers with
  | [] => block
  | number :: numbers => putBlocks numbers (i + 1) (setWord block (i + 1) number)

/-- The header block as `write_head` leaves it in the buffer. -/
def put (numbers : List Nat) (block : Block) : Block :=
  putBlocks numbers 0 (setWord block 0 numbers.length)

/-- `lh->n`, a C `int`. -/
def count (block : Block) : Int := Int.bmod (word block 0) (2 ^ 32)

/-- `read_head`.  A count above `LOGBLOCKS` makes it write behind the end of
`log.lh.block`, which is undefined. -/
def get (block : Block) : Option (List Nat) :=
  if count block > LOGBLOCKS then none
  else some ((List.range (count block).toNat).map fun i => word block (i + 1))

theorem byteAt_setWord (block : Block) (below : position < BSIZE) :
    byteAt (setWord block index value) position =
      if position / 4 = index then UInt8.ofNat (value / 256 ^ (position % 4))
      else byteAt block position := by
  simp [byteAt_of_lt _ below, setWord]

theorem word_setWord (block : Block) (below : 4 * index + 3 < BSIZE) (fits : value < 2 ^ 32) :
    word (setWord block index value) index = value := by
  have first : 4 * index / 4 = index ∧ 4 * index % 4 = 0 := by omega
  have second : (4 * index + 1) / 4 = index ∧ (4 * index + 1) % 4 = 1 := by omega
  have third : (4 * index + 2) / 4 = index ∧ (4 * index + 2) % 4 = 2 := by omega
  have fourth : (4 * index + 3) / 4 = index ∧ (4 * index + 3) % 4 = 3 := by omega
  simp only [word, byteAt_setWord block (show 4 * index < BSIZE by omega),
    byteAt_setWord block (show 4 * index + 1 < BSIZE by omega),
    byteAt_setWord block (show 4 * index + 2 < BSIZE by omega),
    byteAt_setWord block below, first, second, third, fourth, if_true,
    UInt8.toNat_ofNat']
  omega

theorem word_setWord_of_ne (block : Block)
    (below : 4 * other + 3 < BSIZE) (different : other ≠ index) :
    word (setWord block index value) other = word block other := by
  have first : 4 * other / 4 ≠ index := by omega
  have second : (4 * other + 1) / 4 ≠ index := by omega
  have third : (4 * other + 2) / 4 ≠ index := by omega
  have fourth : (4 * other + 3) / 4 ≠ index := by omega
  simp only [word, byteAt_setWord block (show 4 * other < BSIZE by omega),
    byteAt_setWord block (show 4 * other + 1 < BSIZE by omega),
    byteAt_setWord block (show 4 * other + 2 < BSIZE by omega),
    byteAt_setWord block below, first, second, third, fourth, if_false]

/-- The header fits in a block, as `initlog` checks. -/
theorem word_within (below : index ≤ LOGBLOCKS) : 4 * index + 3 < BSIZE := by
  have small : LOGBLOCKS = 30 := by decide
  have large : BSIZE = 1024 := by decide
  omega

theorem word_putBlocks_of_le (block : Block) (start index : Nat) (numbers : List Nat)
    (room : start + numbers.length ≤ LOGBLOCKS) (below : index ≤ start) :
    word (putBlocks numbers start block) index = word block index := by
  induction numbers generalizing block start with
  | nil => rfl
  | cons number numbers induction =>
    simp only [List.length_cons] at room
    have rest := induction (setWord block (start + 1) number) (start + 1) (by omega) (by omega)
    rw [putBlocks, rest, word_setWord_of_ne block (word_within (by omega)) (by omega)]

theorem word_putBlocks (block : Block) (start offset : Nat) (numbers : List Nat)
    (room : start + numbers.length ≤ LOGBLOCKS) (fits : ∀ number ∈ numbers, number < 2 ^ 32)
    (found : numbers[offset]? = some number) :
    word (putBlocks numbers start block) (start + offset + 1) = number := by
  induction numbers generalizing block start offset with
  | nil => simp at found
  | cons first numbers induction =>
    simp only [List.length_cons] at room
    cases offset with
    | zero =>
      simp only [List.getElem?_cons_zero, Option.some.injEq] at found
      have kept := word_putBlocks_of_le (setWord block (start + 1) first)
        (start + 1) (start + 1) numbers (by omega) (by omega)
      rw [putBlocks, Nat.add_zero, kept, ← found]
      exact word_setWord block (word_within (by omega)) (fits first List.mem_cons_self)
    | succ offset =>
      rw [List.getElem?_cons_succ] at found
      have rest := induction (setWord block (start + 1) first) (start + 1) offset (by omega)
        (fun number member => fits number (List.mem_cons_of_mem _ member))
        found
      have shifted : start + (offset + 1) + 1 = start + 1 + offset + 1 := by omega
      rw [putBlocks, shifted, rest]

theorem bmod_of_small {value : Nat} (small : value < 2 ^ 31) : Int.bmod value (2 ^ 32) = value := by
  simp only [Int.bmod]
  omega

theorem count_put (block : Block) {numbers : List Nat} (room : numbers.length ≤ LOGBLOCKS) :
    count (put numbers block) = numbers.length := by
  have small : LOGBLOCKS = 30 := by decide
  have within : 0 + numbers.length ≤ LOGBLOCKS := by omega
  have fits : numbers.length < 2 ^ 32 := by omega
  have first : word (put numbers block) 0 = numbers.length := by
    rw [put, word_putBlocks_of_le _ 0 0 numbers within le_rfl,
      word_setWord block (word_within (Nat.zero_le LOGBLOCKS)) fits]
  have short : numbers.length < 2 ^ 31 := by omega
  unfold count
  rw [first]
  exact bmod_of_small short

/-- `read_head` reads what `write_head` wrote. -/
theorem get_put (block : Block) (room : numbers.length ≤ LOGBLOCKS)
    (fits : ∀ number ∈ numbers, number < 2 ^ 32) : get (put numbers block) = some numbers := by
  have within : 0 + numbers.length ≤ LOGBLOCKS := by omega
  have counted := count_put block room
  have inRange : ¬count (put numbers block) > LOGBLOCKS := by
    rw [counted]
    omega
  have words : (List.range numbers.length).map
      (fun i => word (put numbers block) (i + 1)) = numbers := by
    apply List.ext_getElem
    · simp
    · intro index _leftBelow below
      have read := word_putBlocks (setWord block 0 numbers.length) 0 index
        numbers within fits (List.getElem?_eq_getElem below)
      rw [Nat.zero_add] at read
      rw [List.getElem_map, List.getElem_range, put, read]
  rw [get, if_neg inRange, counted, Int.toNat_natCast, words]

theorem get_of_count_eq_zero (cleared : count block = 0) : get block = some [] := by
  simp [get, cleared]

end Header

end Xv6KernelEvent
