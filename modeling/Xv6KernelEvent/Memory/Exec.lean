import Xv6KernelEvent.Memory.Custodian

/-!
# Memory of a new program

`kexec` (`kernel/exec.c`) and `sys_exec` (`kernel/sysfile.c`) as programs that
take pages and give them back.  What the file and the user's memory contain is
an argument.
-/

namespace Xv6KernelEvent

open Custody

/-- A program header as `kexec` finds it in the file. -/
inductive ProgramHeader where
  | unreadable
  | other
  | load (memsz filesz vaddr : UInt64) (flags : UInt32) (readable : Nat → Bool)

def flags2perm (flags : UInt32) : UInt64 :=
  let perm := if flags &&& 0x1 ≠ 0 then PTE_X else 0
  if flags &&& 0x2 ≠ 0 then perm ||| PTE_W else perm

/-- The loop of `loadseg` from page `i` of the segment on; `readable i` says
whether `readi` delivers that page. -/
def loadseg (table : PageTable) (va : Nat) (readable : Nat → Bool) :
    (remaining : Nat) → (i : Nat) → Program Nat Bool
  | 0, _ => pure true
  | remaining + 1, i => do
    match ← table.walkaddr (va + i * PGSIZE) with
    | none => halt "loadseg: address should exist"
    | some _ =>
      if readable i then loadseg table va readable remaining (i + 1)
      else pure false

/-- The loop over the program headers, with the size of the program so far. -/
def loadProgram : List ProgramHeader → PageTable → (sz : Nat) → Program Nat (Bool × PageTable × Nat)
  | [], table, sz => pure (true, table, sz)
  | .unreadable :: _, table, sz => pure (false, table, sz)
  | .other :: headers, table, sz => loadProgram headers table sz
  | .load memsz filesz vaddr flags readable :: headers, table, sz =>
    if memsz < filesz then pure (false, table, sz)
    else if vaddr + memsz < vaddr then pure (false, table, sz)
    else if vaddr.toNat % PGSIZE ≠ 0 then pure (false, table, sz)
    else do
      let (sz1, table) ← table.uvmalloc sz (vaddr + memsz).toNat (flags2perm flags)
      if sz1 = 0 then pure (false, table, sz)
      else do
        -- `loadseg` takes the length of the segment as a 32-bit number.
        let loaded ← loadseg table vaddr.toNat readable (rounds 0 (filesz.toNat % 2 ^ 32)) 0
        if loaded then loadProgram headers table sz1
        else pure (false, table, sz1)

/-- `sp -= len; sp -= sp % 16`.  The stack pointer stays above the guard page,
so the subtraction does not wrap. -/
def push (sp len : Nat) : Nat := sp - len - (sp - len) % 16

/-- The loop of `kexec` that copies the argument strings, by their lengths. -/
def pushStrings (table : PageTable) (stackbase : Nat) :
    (argv : List (Fin PGSIZE)) → (argc : Nat) → (sp : Nat) → ProcessMemory →
      Program Nat (Option Nat × ProcessMemory)
  | [], _, sp, p => pure (some sp, p)
  | length :: argv, argc, sp, p =>
    if argc ≥ MAXARG then pure (none, p)
    else
      let sp := push sp (length + 1)
      if sp < stackbase then pure (none, p)
      else do
        let (copied, p) ← copyout (fun _ => table) (length + 1) p sp (length + 1)
        if copied then pushStrings table stackbase argv (argc + 1) sp p
        else pure (none, p)

/-- The arguments of `kexec` as far as memory is concerned. -/
structure Executable where
  found : Bool
  elf : Bool
  headers : List ProgramHeader
  argv : List (Fin PGSIZE)

/-- `kexec` from the commit point or from `bad` on. -/
def kexecFinish (p : ProcessMemory) (table : PageTable) (sz : Nat)
    (committed : Bool) : Program Nat (Bool × ProcessMemory) :=
  if committed then do
    procFreepagetable p.table p.sz
    pure (true, { p with table := table, sz := sz })
  else do
    procFreepagetable table sz
    pure (false, p)

/-- The part of `kexec` that fills the stack. -/
def kexecArguments (argv : List (Fin PGSIZE)) (p : ProcessMemory)
    (table : PageTable) (sz stackbase : Nat) :
    Program Nat (Bool × ProcessMemory) := do
  let (sp, p) ← pushStrings table stackbase argv 0 sz p
  match sp with
  | none => kexecFinish p table sz false
  | some sp =>
    let bytes := (argv.length + 1) * 8
    if push sp bytes < stackbase then kexecFinish p table sz false
    else do
      let (copied, p) ← copyout (fun _ => table) bytes p (push sp bytes) bytes
      kexecFinish p table sz copied

/-- The part of `kexec` that makes the stack. -/
def kexecStack (argv : List (Fin PGSIZE)) (p : ProcessMemory)
    (table : PageTable) (sz : Nat) : Program Nat (Bool × ProcessMemory) := do
  let sz := pgroundup sz
  let (sz1, table) ← table.uvmalloc sz (sz + (USERSTACK + 1) * PGSIZE) PTE_W
  if sz1 = 0 then kexecFinish p table sz false
  else do
    let table ← table.uvmclear ((sz1 - (USERSTACK + 1) * PGSIZE) / PGSIZE)
    kexecArguments argv p table sz1 (sz1 - USERSTACK * PGSIZE)

/-- `kexec`, which says whether it succeeded. -/
def kexec (trampoline : Nat) (executable : Executable) (p : ProcessMemory) :
    Program Nat (Bool × ProcessMemory) :=
  if executable.found = false ∨ executable.elf = false then pure (false, p)
  else do
    match ← procPagetable trampoline p.trapframe with
    | none => pure (false, p)
    | some table => do
      let (loaded, table, sz) ← loadProgram executable.headers table 0
      if loaded then kexecStack executable.argv p table sz
      else kexecFinish p table sz false

/-- What `sys_exec` finds at one place of the user's array: a null pointer, or
a string that can be fetched or not. -/
inductive Argument where
  | null
  | string (length : Option (Fin PGSIZE))

/-- `fetchaddr`. -/
def fetchaddr (p : ProcessMemory) (addr : Nat) : Program Nat (Bool × ProcessMemory) :=
  if addr ≥ p.sz ∨ (addr + 8) % 2 ^ 64 > p.sz then pure (false, p)
  else copyin 8 p addr 8

def kfreeAll : List Nat → Program Nat Unit
  | [] => pure ()
  | frame :: frames => do
    release frame
    kfreeAll frames

/-- The loop of `sys_exec` that fetches the arguments into pages of their own,
with the pages and lengths so far. -/
def fetchArguments (uargv : Nat) (argument : Nat → Argument) :
    (remaining : Nat) → (i : Nat) → (argv : List (Nat × Fin PGSIZE)) → ProcessMemory →
        Program Nat (Bool × List Nat × List (Fin PGSIZE) × ProcessMemory)
  | 0, _, argv, p => pure (false, argv.map Prod.fst, argv.map Prod.snd, p)
  | remaining + 1, i, argv, p => do
    let (fetched, p) ← fetchaddr p ((uargv + 8 * i) % 2 ^ 64)
    if fetched then
      match argument i with
      | .null => pure (true, argv.map Prod.fst, argv.map Prod.snd, p)
      | .string length => do
        match ← acquire with
        | none => pure (false, argv.map Prod.fst, argv.map Prod.snd, p)
        | some frame =>
          match length with
          | none => pure (false, argv.map Prod.fst ++ [frame], argv.map Prod.snd, p)
          | some length =>
            fetchArguments uargv argument remaining (i + 1) (argv ++ [(frame, length)]) p
    else pure (false, argv.map Prod.fst, argv.map Prod.snd, p)

/-- `sys_exec`, once it has got the path. -/
def sysExec (trampoline : Nat) (uargv : Nat) (argument : Nat → Argument)
    (found elf : Bool) (headers : List ProgramHeader) (p : ProcessMemory) :
    Program Nat (Bool × ProcessMemory) := do
  let (fetched, frames, lengths, p) ← fetchArguments uargv argument MAXARG 0 [] p
  if fetched then do
    let (executed, p) ← kexec trampoline
      { found := found, elf := elf, headers := headers, argv := lengths } p
    kfreeAll frames
    pure (executed, p)
  else do
    kfreeAll frames
    pure (false, p)

section Accounts

variable {trampoline trapframe sz : Nat} {table : PageTable}
  {stock : Multiset Nat} {p : ProcessMemory}

/-- A table as `kexec` builds it: every page below the size is there. -/
structure Loaded (trampoline trapframe : Nat) (table : PageTable) (sz : Nat) : Prop where
  shape : UserTable trampoline trapframe (npages sz) table
  filled : ∀ page < npages sz, ∃ leaf, table.leaf page = some leaf ∧ leaf.flags &&& PTE_U ≠ 0

theorem flags2perm_user (flags : UInt32) :
    (PTE_R ||| PTE_U ||| flags2perm flags ||| PTE_V) &&& PTE_U ≠ 0 := by
  rw [flags2perm]
  split <;> split <;> decide

section

variable (loaded : Loaded trampoline trapframe table sz)

include loaded

theorem Loaded.extend (user : flags &&& PTE_U ≠ 0)
    (ordered : sz ≤ more) (small : more ≤ TRAPFRAME * PGSIZE)
    (extension : PageTable.Extends table (npages sz) (npages more) flags after) :
    Loaded trampoline trapframe after more := by
  refine ⟨loaded.shape.extend extension (npages_le_iff.mpr small) (npages_mono ordered), ?_⟩
  intro page below
  rcases Nat.lt_or_ge page (npages sz) with old | new
  · rw [extension.outside page (by omega)]
    exact loaded.filled page old
  · obtain ⟨frame, mapped⟩ := extension.inside page new below
    exact ⟨_, mapped, user⟩

theorem Loaded.of_leaf_eq (wellFormed : after.WellFormed) (same : after.leaf = table.leaf) :
    Loaded trampoline trapframe after sz :=
  ⟨loaded.shape.of_leaf_eq wellFormed same, same ▸ loaded.filled⟩

theorem Loaded.full (page : Nat) (below : page < npages sz) : table.leaf page ≠ none := by
  obtain ⟨leaf, mapped, _⟩ := loaded.filled page below
  simp [mapped]

/-- `uvmalloc` in `kexec` stops before it reaches the trapframe, because memory
runs out. -/
theorem Loaded.uvmalloc (bound : stock.card ≤ TRAPFRAME) (newsz : Nat)
    (user : (PTE_R ||| PTE_U ||| xperm ||| PTE_V) &&& PTE_U ≠ 0) :
    Accounts stock (fun (sz1, after) held => held = after.space ∧
        (sz1 = max sz newsz ∧ sz1 ≤ TRAPFRAME * PGSIZE ∧ Loaded trampoline trapframe after sz1 ∧
            PageTable.Extends table (npages sz) (npages sz1)
              (PTE_R ||| PTE_U ||| xperm ||| PTE_V) after ∨
          sz1 = 0 ∧ Loaded trampoline trapframe after sz))
      table.space (table.uvmalloc sz newsz xperm) := by
  refine (PageTable.uvmalloc_accounts loaded.shape.wellFormed
    (npages_le_iff.mp loaded.shape.limit) loaded.shape.bare
    (.inr ⟨loaded.full, bound⟩)).mono ?_
  rintro ⟨sz1, after⟩ held ⟨rfl, ⟨rfl, small, extension⟩ | ⟨rfl, wellFormed, leaf⟩⟩
  · exact ⟨rfl, .inl ⟨rfl, small, loaded.extend user (Nat.le_max_left _ _)
      small extension, extension⟩⟩
  · exact ⟨rfl, .inr ⟨rfl, loaded.of_leaf_eq wellFormed leaf⟩⟩

end

theorem walkaddr_user (wellFormed : table.WellFormed)
    (below : va < MAXVA) (mapped : table.leaf (va / PGSIZE) = some leaf)
    (user : leaf.flags &&& PTE_U ≠ 0) : table.walkaddr va = pure (some leaf) := by
  have low : va / PGSIZE < VPAGES := by
    have pages : VPAGES = 2 ^ 26 := by decide
    simp only [PGSIZE, MAXVA] at below ⊢
    omega
  have present : table.leaf (va / PGSIZE) ≠ none := by simp [mapped]
  have hangs := wellFormed.lower_of_leaf present
  rw [PageTable.walkaddr, if_neg (Nat.not_le.mpr below),
    PageTable.walk_false wellFormed low, Option.isSome_iff_ne_none.mpr hangs]
  change (pure (if true = true then (table.leaf (va / PGSIZE)).filter _
    else none) : Program Nat _) = _
  rw [if_pos rfl, mapped, Option.filter_some, if_pos (by simpa using user)]

/-- The pages that `loadseg` asks for exist. -/
theorem Loaded.loadseg (loaded : Loaded trampoline trapframe table sz)
    (aligned : va % PGSIZE = 0) (readable : Nat → Bool) (remaining i : Nat)
    (inside : va / PGSIZE + i + remaining ≤ npages sz) :
    ∃ read, loadseg table va readable remaining i = pure read := by
  induction remaining generalizing i with
  | zero => exact ⟨true, rfl⟩
  | succ remaining induction =>
    have page : (va + i * PGSIZE) / PGSIZE = va / PGSIZE + i :=
      Nat.add_mul_div_right va i PGSIZE_pos
    obtain ⟨leaf, mapped, user⟩ := loaded.filled (va / PGSIZE + i) (by omega)
    have limit := loaded.shape.limit
    have below : va + i * PGSIZE < MAXVA := by
      have top : TRAPFRAME = 67108862 := by decide
      simp only [PGSIZE, MAXVA] at aligned inside ⊢
      omega
    rw [Xv6KernelEvent.loadseg, walkaddr_user loaded.shape.wellFormed below (by rwa [page]) user]
    change ∃ read, (if readable i = true then _ else _) = _
    split
    · exact induction (i + 1) (by omega)
    · exact ⟨false, rfl⟩

/-- The part of a segment that is read from the file lies below the size. -/
theorem segment_inside {memsz filesz vaddr : UInt64} (fits : ¬memsz < filesz)
    (wraps : ¬vaddr + memsz < vaddr) (aligned : vaddr.toNat % PGSIZE = 0)
    (covers : (vaddr + memsz).toNat ≤ sz) :
    vaddr.toNat / PGSIZE + 0 + rounds 0 (filesz.toNat % 2 ^ 32) ≤ npages sz := by
  rw [UInt64.lt_iff_toNat_lt] at fits wraps
  rw [UInt64.toNat_add] at wraps covers
  have := vaddr.toNat_lt
  have := memsz.toNat_lt
  simp only [rounds, npages, PGSIZE] at aligned ⊢
  omega

theorem loadProgram_accounts (bound : stock.card ≤ TRAPFRAME) (headers : List ProgramHeader)
    (loaded : Loaded trampoline trapframe table sz) :
    Accounts stock (fun (_, after, sz1) held => held = after.space ∧
        Loaded trampoline trapframe after sz1)
      table.space (loadProgram headers table sz) := by
  induction headers generalizing table sz with
  | nil => exact ⟨rfl, loaded⟩
  | cons header headers induction =>
    cases header with
    | unreadable => exact ⟨rfl, loaded⟩
    | other => exact induction loaded
    | load memsz filesz vaddr flags readable =>
      rw [loadProgram]
      split
      · exact ⟨rfl, loaded⟩
      rename_i fits
      split
      · exact ⟨rfl, loaded⟩
      rename_i wraps
      split
      · exact ⟨rfl, loaded⟩
      rename_i aligned
      rw [not_ne_iff] at aligned
      refine (loaded.uvmalloc bound _ (flags2perm_user flags)).seq ?_
      rintro ⟨sz1, after⟩ held ⟨rfl, ⟨sz1_eq, small, more, _⟩ | ⟨rfl, same⟩⟩
      · change Accounts stock _ _ (if sz1 = 0 then _ else _)
        split
        · rename_i empty
          obtain rfl : sz = sz1 := by omega
          exact ⟨rfl, more⟩
        · obtain ⟨read, reads⟩ := more.loadseg aligned readable (rounds 0 (filesz.toNat % 2 ^ 32)) 0
            (segment_inside fits wraps aligned (by omega))
          rw [reads]
          cases read with
          | true => exact induction more
          | false => exact ⟨rfl, more⟩
      · exact ⟨rfl, same⟩

/-- A leaf with other flags has the same page behind it. -/
theorem PageTable.space_setFlags {leaf : Leaf} (mapped : table.leaf page = some leaf)
    (flags : UInt64) :
    (table.setLeaf page (some { leaf with flags := flags })).space =
      table.space := by
  rw [PageTable.space, PageTable.space, PageTable.nodes_setLeaf]
  congr 1
  rw [PageTable.leafFrames, PageTable.leafFrames]
  congr 1
  funext other
  by_cases same : other = page
  · subst other
    simp [PageTable.setLeaf, mapped]
  · simp [PageTable.setLeaf, same]

/-- `uvmclear` takes a page from the user, but not from the process. -/
theorem uvmclear_pure (wellFormed : table.WellFormed)
    (below : page < VPAGES) (mapped : table.leaf page = some leaf) :
    ∃ after, table.uvmclear page = pure after ∧ after.WellFormed ∧ after.space = table.space ∧
      after.leaf = Function.update table.leaf page
        (some { leaf with flags := leaf.flags &&& ~~~PTE_U }) := by
  have present : table.leaf page ≠ none := by simp [mapped]
  have hangs := wellFormed.lower_of_leaf present
  refine ⟨table.setLeaf page (some { leaf with
    flags := leaf.flags &&& ~~~PTE_U }), ?_, wellFormed.setLeaf fun _ => hangs,
    PageTable.space_setFlags mapped _, rfl⟩
  rw [PageTable.uvmclear, PageTable.walk_false wellFormed below,
    Option.isSome_iff_ne_none.mpr hangs]
  change (pure (table.setLeaf page ((table.leaf page).map _)) : Program Nat _) = _
  rw [mapped]
  rfl

/-- The table of a new program has a stack page that the user can write. -/
structure Stacked (trampoline trapframe : Nat) (table : PageTable) (sz : Nat) : Prop where
  shape : UserTable trampoline trapframe (npages sz) table
  aligned : sz % PGSIZE = 0
  guarded : 2 * PGSIZE ≤ sz
  stack : ∃ leaf, table.leaf (sz / PGSIZE - 1) = some leaf ∧
    leaf.flags &&& PTE_U ≠ 0 ∧ leaf.flags &&& PTE_W ≠ 0

/-- Two pages have been added, and the lower one is taken from the user. -/
theorem Loaded.stacked {guard : Leaf} (loaded : Loaded trampoline trapframe first sz)
    (size : sz = (base + 2) * PGSIZE) (extension : PageTable.Extends table base (base + 2)
      (PTE_R ||| PTE_U ||| PTE_W ||| PTE_V) first) (wellFormed : last.WellFormed)
    (leaf : last.leaf = Function.update first.leaf base (some guard)) :
    Stacked trampoline trapframe last sz := by
  have total : npages sz = base + 2 := by rw [size, npages_mul]
  obtain ⟨other, stack⟩ := extension.inside (base + 1) (by omega) (by omega)
  refine ⟨loaded.shape.map wellFormed (by omega) leaf, ?_, ?_,
    { frame := other, flags := PTE_R ||| PTE_U ||| PTE_W ||| PTE_V }, ?_,
    show (PTE_R ||| PTE_U ||| PTE_W ||| PTE_V) &&& PTE_U ≠ 0 by decide,
    show (PTE_R ||| PTE_U ||| PTE_W ||| PTE_V) &&& PTE_W ≠ 0 by decide⟩
  · rw [size, Nat.mul_mod_left]
  · rw [size]
    exact Nat.mul_le_mul_right PGSIZE (by omega)
  · rw [leaf, size, Nat.mul_div_cancel _ PGSIZE_pos, Function.update_of_ne (by omega)]
    exact stack

theorem copyout_nothing (pagetable : ProcessMemory → PageTable) (fuel : Nat) (p : ProcessMemory)
    (dstva : Nat) : copyout pagetable fuel p dstva 0 = pure (true, p) := by
  cases fuel <;> rfl

/-- Copying to the stack page touches no page table. -/
theorem Stacked.copyout (stacked : Stacked trampoline trapframe table sz)
    (above : sz ≤ dstva + USERSTACK * PGSIZE) (inside : dstva + len ≤ sz) :
    copyout (fun _ => table) len p dstva len = pure (true, p) := by
  have aligned := stacked.aligned
  have guarded := stacked.guarded
  have limit := npages_le_iff.mp stacked.shape.limit
  obtain ⟨leaf, mapped, user, writable⟩ := stacked.stack
  cases len with
  | zero => rfl
  | succ len =>
    obtain ⟨va0, va0_eq⟩ : ∃ va0, pgrounddown dstva = va0 := ⟨_, rfl⟩
    have start : va0 + PGSIZE = sz := by
      simp only [← va0_eq, pgrounddown, USERSTACK, PGSIZE] at *
      omega
    have page : va0 / PGSIZE = sz / PGSIZE - 1 := by
      simp only [PGSIZE] at *
      omega
    have below : va0 < MAXVA := by
      have top : TRAPFRAME * PGSIZE = 274877898752 := by decide
      simp only [PGSIZE, MAXVA] at *
      omega
    have low : va0 / PGSIZE < VPAGES := by
      have pages : VPAGES = 2 ^ 26 := by decide
      simp only [PGSIZE, MAXVA] at below ⊢
      omega
    have all : len + 1 - min (PGSIZE - (dstva - va0)) (len + 1) = 0 := by
      simp only [← va0_eq, pgrounddown, USERSTACK, PGSIZE] at *
      omega
    rw [← page] at mapped
    have present : table.leaf (va0 / PGSIZE) ≠ none := by simp [mapped]
    have hangs := stacked.shape.wellFormed.lower_of_leaf present
    have found : table.walkaddr va0 = pure (some leaf) :=
      walkaddr_user stacked.shape.wellFormed below mapped user
    have resolved : resolve table p va0 = pure (true, p) := by
      rw [resolve, found]
      rfl
    rw [Xv6KernelEvent.copyout, if_neg (Nat.succ_ne_zero len)]
    simp only [va0_eq, if_neg (Nat.not_le.mpr below), resolved]
    simp only [Program.pure_bind, PageTable.walk_false stacked.shape.wellFormed low,
      Option.isSome_iff_ne_none.mpr hangs, if_true, mapped, writable, if_false, all]
    exact copyout_nothing _ _ _ _

theorem Stacked.pushStrings (stacked : Stacked trampoline trapframe table sz)
    (base : stackbase + USERSTACK * PGSIZE = sz) (argv : List (Fin PGSIZE))
    (argc sp : Nat) (count : argc ≤ MAXARG) (above : stackbase ≤ sp) (inside : sp ≤ sz) :
    ∃ last, pushStrings table stackbase argv argc sp p = pure (last, p) ∧
      ∀ sp1, last = some sp1 → stackbase ≤ sp1 ∧ sp1 ≤ sz ∧ argc + argv.length ≤ MAXARG := by
  induction argv generalizing argc sp with
  | nil =>
    refine ⟨some sp, rfl, ?_⟩
    intro sp1 same
    cases same
    exact ⟨above, inside, count⟩
  | cons length argv induction =>
    have guarded := stacked.guarded
    have short := length.isLt
    rw [Xv6KernelEvent.pushStrings]
    split
    · exact ⟨none, rfl, by simp⟩
    · rename_i more
      simp only
      split
      · exact ⟨none, rfl, by simp⟩
      · rename_i high
        have room : push sp (length + 1) + (length + 1) ≤ sp := by
          simp only [push, USERSTACK, PGSIZE] at *
          omega
        rw [stacked.copyout (by omega) (room.trans inside)]
        have rest := induction (argc + 1) (push sp (length + 1)) (by omega)
          (not_lt.mp high) (by omega)
        rw [List.length_cons, show argc + (argv.length + 1) = argc + 1 + argv.length by omega]
        exact rest

/-- A process and its pages. -/
abbrev Settled {α : Type} (trampoline : Nat) (outcome : α × ProcessMemory)
    (held : Multiset Nat) : Prop :=
  held = outcome.2.holdings ∧ outcome.2.Sound trampoline

/-- `kexec` ends with the pages of the process, old or new. -/
theorem kexecFinish_accounts (sound : p.Sound trampoline)
    (shape : UserTable trampoline p.trapframe (npages sz) table) (committed : Bool) :
    Accounts stock (Settled trampoline) (p.holdings + table.space)
      (kexecFinish p table sz committed) := by
  rw [kexecFinish]
  split
  · refine (UserTable.free_accounts sound).seq_frame
      (show _ = p.table.space + ({p.trapframe} + table.space) from ?_) ?_
    · rw [ProcessMemory.holdings_eq, add_assoc]
    · rintro - held rfl
      refine ⟨?_, shape⟩
      rw [zero_add]
      rfl
  · refine shape.free_accounts.seq_frame (add_comm _ _) ?_
    rintro - held rfl
    exact ⟨zero_add _, sound⟩

theorem Stacked.kexecArguments (stacked : Stacked trampoline p.trapframe table sz)
    (sound : p.Sound trampoline)
    (base : stackbase + USERSTACK * PGSIZE = sz) (argv : List (Fin PGSIZE)) :
    Accounts stock (Settled trampoline) (p.holdings + table.space)
      (kexecArguments argv p table sz stackbase) := by
  have finish (committed : Bool) : Accounts stock (Settled trampoline)
      (p.holdings + table.space) (kexecFinish p table sz committed) :=
    kexecFinish_accounts sound stacked.shape committed
  obtain ⟨last, pushes, range⟩ :
      ∃ last, Xv6KernelEvent.pushStrings table stackbase argv 0 sz p = pure (last, p) ∧
        ∀ sp1, last = some sp1 → stackbase ≤ sp1 ∧ sp1 ≤ sz ∧ 0 + argv.length ≤ MAXARG :=
    stacked.pushStrings base argv 0 sz (Nat.zero_le _) (by omega) le_rfl
  rw [Xv6KernelEvent.kexecArguments, pushes]
  cases last with
  | none => exact finish false
  | some sp =>
    obtain ⟨above, inside, count⟩ := range sp rfl
    change Accounts stock _ _ (if push sp ((argv.length + 1) * 8) < stackbase then _ else _)
    split
    · exact finish false
    · rename_i high
      have room : push sp ((argv.length + 1) * 8) + (argv.length + 1) * 8 ≤ sz := by
        have guarded := stacked.guarded
        simp only [push, USERSTACK, MAXARG, PGSIZE] at *
        omega
      rw [stacked.copyout (by omega) room]
      exact finish true

theorem kexecStack_accounts (bound : stock.card ≤ TRAPFRAME) (sound : p.Sound trampoline)
    (argv : List (Fin PGSIZE)) (loaded : Loaded trampoline p.trapframe table sz) :
    Accounts stock (Settled trampoline) (p.holdings + table.space)
      (kexecStack argv p table sz) := by
  have small := npages_le_iff.mp loaded.shape.limit
  have pages : npages (npages sz * PGSIZE) = npages sz := npages_mul _
  have rounded : Loaded trampoline p.trapframe table (npages sz * PGSIZE) :=
    ⟨by rw [pages]; exact loaded.shape, by rw [pages]; exact loaded.filled⟩
  rw [kexecStack, pgroundup_eq small]
  refine (rounded.uvmalloc bound _ (by decide)).seq_frame (add_comm _ _) ?_
  rintro ⟨sz1, first⟩ held ⟨rfl, ⟨sz1_eq, fits, grown, extension⟩ | ⟨rfl, same⟩⟩
  · have size : sz1 = (npages sz + 2) * PGSIZE := by
      rw [sz1_eq]
      simp only [USERSTACK, PGSIZE]
      omega
    have guard : (sz1 - (USERSTACK + 1) * PGSIZE) / PGSIZE = npages sz := by
      rw [size]
      simp only [USERSTACK, PGSIZE]
      omega
    have base : sz1 - USERSTACK * PGSIZE + USERSTACK * PGSIZE = sz1 := by
      rw [size]
      simp only [USERSTACK, PGSIZE]
      omega
    have total : npages sz1 = npages sz + 2 := by rw [size, npages_mul]
    have top : npages sz + 2 ≤ TRAPFRAME := by
      rw [← total]
      exact npages_le_iff.mpr fits
    have low : npages sz < VPAGES := by
      have := TRAPFRAME_lt
      omega
    rw [pages, total] at extension
    obtain ⟨frame, mapped⟩ := extension.inside (npages sz) le_rfl (by omega)
    obtain ⟨last, clears, wellFormed, kept, leaf⟩ := uvmclear_pure extension.wellFormed low mapped
    have stacked : Stacked trampoline p.trapframe last sz1 :=
      grown.stacked size extension wellFormed leaf
    have nonzero : sz1 ≠ 0 := by
      rw [size]
      simp only [PGSIZE]
      omega
    simp only [nonzero, if_false]
    rw [guard, clears, add_comm, ← kept]
    exact stacked.kexecArguments sound base argv
  · rw [add_comm]
    exact kexecFinish_accounts sound same.shape false

theorem kexec_accounts (bound : stock.card ≤ TRAPFRAME) (sound : p.Sound trampoline)
    (executable : Executable) :
    Accounts stock (Settled trampoline) p.holdings (kexec trampoline executable p) := by
  rw [kexec]
  split
  · exact ⟨rfl, sound⟩
  · refine procPagetable_accounts.seq_frame (zero_add _).symm ?_
    rintro (_ | table) held made
    · obtain rfl := made
      exact ⟨zero_add _, sound⟩
    · obtain ⟨rfl, shape⟩ := made
      have empty : npages 0 = 0 := by decide
      have loaded : Loaded trampoline p.trapframe table 0 := by
        refine ⟨by rw [empty]; exact shape, ?_⟩
        intro page below
        rw [empty] at below
        omega
      refine (loadProgram_accounts bound executable.headers loaded).seq_frame rfl ?_
      rintro ⟨complete, after, sz⟩ held ⟨rfl, loaded⟩
      rw [add_comm]
      cases complete with
      | true => exact kexecStack_accounts bound sound executable.argv loaded
      | false => exact kexecFinish_accounts sound loaded.shape false

theorem kfreeAll_accounts (frames : List Nat) :
    Accounts stock (fun _ held => held = 0) (frames : Multiset Nat) (kfreeAll frames) := by
  induction frames with
  | nil => exact rfl
  | cons frame frames induction =>
    exact Accounts.release_seq (Multiset.cons_coe frame frames).symm induction

theorem fetchaddr_accounts (sound : p.Sound trampoline) (addr : Nat) :
    Accounts stock (fun (_, after) held => Keeps trampoline p after held)
      p.holdings (fetchaddr p addr) := by
  rw [fetchaddr]
  split
  · exact ⟨rfl, sound, rfl⟩
  · exact copyin_accounts sound 8 addr 8

/-- The arguments that `sys_exec` has fetched are in pages of their own. -/
theorem fetchArguments_accounts
    (sound : p.Sound trampoline) (uargv : Nat) (argument : Nat → Argument)
    (remaining i : Nat) (argv : List (Nat × Fin PGSIZE)) :
    Accounts stock (fun (_, frames, _, after) held =>
        held = after.holdings + (frames : Multiset Nat) ∧ after.Sound trampoline)
      (p.holdings + (argv.map Prod.fst : List Nat))
      (fetchArguments uargv argument remaining i argv p) := by
  induction remaining generalizing i argv p with
  | zero => exact ⟨rfl, sound⟩
  | succ remaining induction =>
    refine (fetchaddr_accounts sound _).seq_frame rfl ?_
    rintro ⟨fetched, after⟩ held ⟨rfl, kept, _⟩
    cases fetched with
    | false => exact ⟨rfl, kept⟩
    | true =>
      simp only [if_true]
      cases argument i with
      | null => exact ⟨rfl, kept⟩
      | string length =>
        refine Accounts.acquire_seq ⟨rfl, kept⟩ ?_
        intro frame available
        have moved : frame ::ₘ (after.holdings +
            ((argv.map Prod.fst : List Nat) : Multiset Nat)) = after.holdings +
                ((argv.map Prod.fst ++ [frame] : List Nat) : Multiset Nat) := by
          rw [← Multiset.coe_add, ← add_assoc, Multiset.coe_singleton, ← Multiset.singleton_add]
          exact add_comm _ _
        rw [moved]
        cases length with
        | none => exact ⟨rfl, kept⟩
        | some length =>
          have rest := induction kept (i + 1) (argv ++ [(frame, length)])
          rw [List.map_append] at rest
          exact rest

theorem sysExec_accounts (bound : stock.card ≤ TRAPFRAME) (sound : p.Sound trampoline)
    (uargv : Nat) (argument : Nat → Argument) (found elf : Bool) (headers : List ProgramHeader) :
    Accounts stock (Settled trampoline) p.holdings
      (sysExec trampoline uargv argument found elf headers p) := by
  refine (fetchArguments_accounts sound uargv argument MAXARG 0 []).seq_frame
    (show p.holdings = _ + 0 by simp) ?_
  rintro ⟨fetched, frames, lengths, after⟩ held ⟨rfl, kept⟩
  rw [add_zero]
  cases fetched with
  | true =>
    refine (kexec_accounts bound kept _).seq_frame rfl ?_
    rintro ⟨executed, last⟩ held ⟨rfl, sound⟩
    refine (kfreeAll_accounts frames).seq_frame (add_comm _ _) ?_
    rintro - held rfl
    exact ⟨zero_add _, sound⟩
  | false =>
    refine (kfreeAll_accounts frames).seq_frame (add_comm _ _) ?_
    rintro - held rfl
    exact ⟨zero_add _, kept⟩

end Accounts

end Xv6KernelEvent
