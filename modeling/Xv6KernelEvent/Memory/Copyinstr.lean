import Xv6KernelEvent.Memory.UserSpace

/-!
# Fetching strings from user memory

`copyinstr` of `kernel/vm.c` walks the string page by page and copies bytes
until a NUL or the limit.  The specification reads the string byte by byte;
`copyBytes` is the loop seen that way, and the page structure of the source
only groups its iterations.
-/

namespace Xv6KernelEvent

open CString

variable {size : Nat}

/-- The destination of `copyinstr`: its bytes, how far `dst` has moved, and
`got_null`. -/
structure StringCopy (size : Nat) where
  buffer : Vector UInt8 size
  written : Nat
  gotNull : Bool

/-- `*dst = byte; dst++`. -/
def StringCopy.append (copy : StringCopy size) (byte : UInt8) : StringCopy size :=
  { copy with
    buffer := copy.buffer.setIfInBounds copy.written byte
    written := copy.written + 1 }

/-- `*dst = '\\0'; got_null = 1`. -/
def StringCopy.terminate (copy : StringCopy size) : StringCopy size :=
  { copy with
    buffer := copy.buffer.setIfInBounds copy.written 0
    gotNull := true }

/-- The inner loop of `copyinstr` over `n` bytes of one page. -/
def copyinstrPage (data : Nat → UInt8) : Nat → Nat → StringCopy size → StringCopy size
  | 0, _, copy => copy
  | n + 1, offset, copy =>
    if data offset = 0 then copy.terminate
    else copyinstrPage data n (offset + 1) (copy.append (data offset))

/-- The outer loop of `copyinstr`.  The first argument bounds the number of
pages visited. -/
def copyinstrLoop (space : UserSpace) : Nat → Nat → Nat → StringCopy size → Int × StringCopy size
  | 0, _, _, copy => (-1, copy)
  | fuel + 1, srcva, max, copy =>
    if copy.gotNull = false ∧ 0 < max then
      let va0 := pgrounddown srcva
      match space.walkaddr va0 with
      | none => (-1, copy)
      | some page =>
        let n := min (PGSIZE - (srcva - va0)) max
        copyinstrLoop space fuel (va0 + PGSIZE) (max - n)
          (copyinstrPage page.data n (srcva - va0) copy)
    else if copy.gotNull then (0, copy)
    else (-1, copy)

/-- `copyinstr(pagetable, dst, srcva, max)`: its result and the bytes it
leaves in the destination. -/
def copyinstr (space : UserSpace) (buffer : Vector UInt8 size)
    (srcva max : Nat) : Int × Vector UInt8 size :=
  let (result, copy) := copyinstrLoop space (max + 1) srcva max
    { buffer := buffer, written := 0, gotNull := false }
  (result, copy.buffer)

namespace UserSpace

/-- The byte `walkaddr` makes readable at a user address. -/
def byte? (space : UserSpace) (va : Nat) : Option UInt8 :=
  (space.walkaddr (pgrounddown va)).map fun page => page.data (va - pgrounddown va)

/-- The NUL-terminated string at a user address, when each of its bytes is
readable and the NUL is among the first `max` bytes. -/
def string? (space : UserSpace) : Nat → Nat → Option (List UInt8)
  | _, 0 => none
  | va, max + 1 =>
    match space.byte? va with
    | none => none
    | some byte =>
      if byte = 0 then some []
      else (space.string? (va + 1) max).map (byte :: ·)

end UserSpace

/-- `copyinstr` one byte at a time. -/
def copyBytes (space : UserSpace) : Nat → Nat → StringCopy size → Int × StringCopy size
  | 0, _, copy => (-1, copy)
  | max + 1, va, copy =>
    match space.byte? va with
    | none => (-1, copy)
    | some byte =>
      if byte = 0 then (0, copy.terminate)
      else copyBytes space max (va + 1) (copy.append byte)

theorem pgrounddown_eq (lower : pgrounddown va ≤ other) (upper : other < pgrounddown va + PGSIZE) :
    pgrounddown other = pgrounddown va := by
  simp only [pgrounddown, div_eq_of_pgrounddown lower upper]

@[simp] theorem StringCopy.append_gotNull (copy : StringCopy size) (byte : UInt8) :
    (copy.append byte).gotNull = copy.gotNull :=
  rfl

/-- The bytes of one page, as a stretch of the byte-wise loop. -/
theorem copyBytes_page {space : UserSpace} {page : Page} {srcva : Nat}
    (mapped : space.walkaddr (pgrounddown srcva) = some page)
    {n max va : Nat} (within : n ≤ max) (lower : pgrounddown srcva ≤ va)
    (upper : va + n ≤ pgrounddown srcva + PGSIZE) {copy : StringCopy size}
    (running : copy.gotNull = false) :
    copyBytes space max va copy =
      let next := copyinstrPage page.data n (va - pgrounddown srcva) copy
      if next.gotNull then (0, next)
      else copyBytes space (max - n) (va + n) next := by
  induction n generalizing max va copy with
  | zero => simp [copyinstrPage, running]
  | succ n induction =>
    obtain ⟨rest, rfl⟩ : ∃ rest, max = rest + 1 := Nat.exists_eq_succ_of_ne_zero (by omega)
    have rounded : pgrounddown va = pgrounddown srcva := pgrounddown_eq lower (by omega)
    have byte : space.byte? va = some (page.data (va - pgrounddown srcva)) := by
      simp [UserSpace.byte?, rounded, mapped]
    by_cases nul : page.data (va - pgrounddown srcva) = 0
    · simp [copyBytes, byte, copyinstrPage, nul, StringCopy.terminate]
    · have shifted : va - pgrounddown srcva + 1 = va + 1 - pgrounddown srcva := by omega
      have lengths : rest + 1 - (n + 1) = rest - n := by omega
      have addresses : va + (n + 1) = va + 1 + n := by omega
      simp only [copyBytes, byte, copyinstrPage, nul, if_false, shifted, lengths, addresses]
      exact induction (by omega) (by omega) (by omega) (by simpa using running)

/-- The outer loop stops once the NUL has been copied. -/
theorem copyinstrLoop_of_gotNull (space : UserSpace) (fuel srcva max : Nat)
    (found : copy.gotNull = true) : copyinstrLoop space (fuel + 1) srcva max copy = (0, copy) := by
  simp [copyinstrLoop, found]

/-- The loop over pages computes what the loop over bytes computes. -/
theorem copyinstrLoop_eq_copyBytes
    {space : UserSpace} {fuel max srcva : Nat} {copy : StringCopy size}
    (enough : max < fuel) (running : copy.gotNull = false) :
    copyinstrLoop space fuel srcva max copy = copyBytes space max srcva copy := by
  induction fuel generalizing max srcva copy with
  | zero => omega
  | succ fuel induction =>
    cases max with
    | zero => simp [copyinstrLoop, copyBytes, running]
    | succ max =>
      have roundDown := pgrounddown_le srcva
      have roundUp := lt_pgrounddown_add srcva
      cases mapped : space.walkaddr (pgrounddown srcva) with
      | none => simp [copyinstrLoop, copyBytes, running, UserSpace.byte?, mapped]
      | some page =>
        obtain ⟨n, lengthEq⟩ : ∃ n, min (PGSIZE - (srcva - pgrounddown srcva)) (max + 1) = n :=
          ⟨_, rfl⟩
        have positive : 0 < n := by omega
        have withinMax : n ≤ max + 1 := by omega
        have withinPage : srcva + n ≤ pgrounddown srcva + PGSIZE := by omega
        rw [copyBytes_page mapped withinMax roundDown withinPage running]
        simp only [copyinstrLoop, running, Nat.zero_lt_succ, and_self, if_true, mapped, lengthEq]
        generalize nextEq : copyinstrPage page.data n (srcva - pgrounddown srcva) copy = next
        cases found : next.gotNull with
        | true =>
          obtain ⟨rest, rfl⟩ : ∃ rest, fuel = rest + 1 := Nat.exists_eq_succ_of_ne_zero (by omega)
          exact copyinstrLoop_of_gotNull space rest _ _ found
        | false =>
          rw [induction (by omega) found]
          by_cases exhausted : max + 1 - n = 0
          · simp [exhausted, copyBytes]
          · have boundary : srcva + n = pgrounddown srcva + PGSIZE := by omega
            simp [boundary]

/-- What `copyinstr` leaves at an offset of a buffer in which it wrote
`string` from `start` on. -/
def stringByte (old : Nat → UInt8) (start : Nat) (string : List UInt8) (offset : Nat) : UInt8 :=
  if offset < start then old offset
  else if offset < start + string.length then string.getD (offset - start) 0
  else if offset = start + string.length then 0
  else old offset

/-- The byte-wise loop succeeds exactly when the string can be read, and then
leaves it behind the bytes already written. -/
theorem copyBytes_spec {space : UserSpace} {max va : Nat} {copy : StringCopy size}
    (within : copy.written + max ≤ size) :
    match space.string? va max with
    | none => (copyBytes space max va copy).1 = -1
    | some string =>
      (copyBytes space max va copy).1 = 0 ∧
      ∀ offset, byteAt (copyBytes space max va copy).2.buffer offset =
          stringByte (byteAt copy.buffer) copy.written string offset := by
  induction max generalizing va copy with
  | zero => simp [UserSpace.string?, copyBytes]
  | succ max induction =>
    have writtenBelow : copy.written < size := by omega
    cases readable : space.byte? va with
    | none => simp [UserSpace.string?, copyBytes, readable]
    | some byte =>
      by_cases nul : byte = 0
      · simp only [UserSpace.string?, copyBytes, readable, nul, if_true, true_and]
        intro offset
        simp only [StringCopy.terminate, byteAt_setIfInBounds _ _ _ writtenBelow, stringByte,
          List.length_nil, Nat.add_zero]
        split
        · rename_i same
          simp [same]
        · split <;> rfl
      · have rest := @induction (va + 1) (copy.append byte) (by
          simp only [StringCopy.append]
          omega)
        simp only [UserSpace.string?, copyBytes, readable, nul, if_false]
        cases tail : space.string? (va + 1) max with
        | none =>
          simp only [tail] at rest
          simpa using rest
        | some string =>
          simp only [tail] at rest
          simp only [Option.map_some]
          refine ⟨rest.1, ?_⟩
          intro offset
          rw [rest.2 offset]
          simp only [StringCopy.append, stringByte, List.length_cons,
            byteAt_setIfInBounds _ _ _ writtenBelow]
          grind

/-- `copyinstr` succeeds exactly on readable strings that end within the
limit; it then leaves the string and its NUL at the start of the buffer. -/
theorem copyinstr_spec (space : UserSpace) (buffer : Vector UInt8 size) (srcva : Nat) {max : Nat}
    (within : max ≤ size) :
    match space.string? srcva max with
    | none => (copyinstr space buffer srcva max).1 = -1
    | some string =>
      (copyinstr space buffer srcva max).1 = 0 ∧
      ∀ offset, byteAt (copyinstr space buffer srcva max).2 offset =
        stringByte (byteAt buffer) 0 string offset := by
  have bytes := @copyBytes_spec size space max srcva
    { buffer := buffer, written := 0, gotNull := false } (by simpa using within)
  have loop := @copyinstrLoop_eq_copyBytes size space (max + 1) max srcva
    { buffer := buffer, written := 0, gotNull := false } (by omega) rfl
  simp only [copyinstr, loop]
  exact bytes

/-- A fetched string has no NUL inside and ends before the limit. -/
theorem UserSpace.string?_spec {space : UserSpace} {va max : Nat} {string : List UInt8}
    (found : space.string? va max = some string) :
    string.length < max ∧ ∀ byte ∈ string, byte ≠ 0 := by
  induction max generalizing va string with
  | zero => simp [UserSpace.string?] at found
  | succ max induction =>
    simp only [UserSpace.string?] at found
    split at found
    · simp at found
    · rename_i byte readable
      split at found
      · simp only [Option.some.injEq] at found
        subst string
        simp
      · rename_i nonzero
        obtain ⟨tail, tailFound, rfl⟩ := Option.map_eq_some_iff.mp found
        obtain ⟨short, nonzeros⟩ := induction tailFound
        refine ⟨by simpa using short, ?_⟩
        intro other member
        rcases List.mem_cons.mp member with rfl | later
        · exact nonzero
        · exact nonzeros other later

end Xv6KernelEvent
