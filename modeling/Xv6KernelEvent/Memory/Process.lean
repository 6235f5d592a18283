import Xv6KernelEvent.Memory.PageTable

/-!
# The memory of a process

The functions of `kernel/vm.c`, `kernel/proc.c`, `kernel/exec.c`,
`kernel/sysproc.c` and `kernel/sysfile.c` that give a process memory and take
it away, as programs over its page table.  Whenever they call `kalloc`, it may
refuse.

Bytes are left out.  Where the course of a function depends on what it reads
from a file or from user memory, that is an argument.
-/

namespace Xv6KernelEvent

open Custody

/-- The virtual page of the trampoline. -/
def TRAMPOLINE : Nat := VPAGES - 1

/-- The virtual page of the trapframe. -/
def TRAPFRAME : Nat := VPAGES - 2

def USERSTACK : Nat := 1

def MAXARG : Nat := 32

/-- `PGROUNDUP(sz)` on 64 bits. -/
def pgroundup (sz : Nat) : Nat := (sz + PGSIZE - 1) % 2 ^ 64 / PGSIZE * PGSIZE

/-- The pages that the first `sz` bytes touch. -/
def npages (sz : Nat) : Nat := (sz + PGSIZE - 1) / PGSIZE

/-- The rounds of `for(a = start*PGSIZE; a < limit; a += PGSIZE)`. -/
def rounds (start limit : Nat) : Nat := npages limit - start

/-- `p->trapframe`, `p->pagetable` and `p->sz`. -/
structure ProcessMemory where
  trapframe : Nat
  table : PageTable
  sz : Nat

namespace PageTable

def uvmdealloc (table : PageTable) (oldsz newsz : Nat) : Program Nat (Nat × PageTable) :=
  if newsz ≥ oldsz then pure (oldsz, table)
  else if pgroundup newsz < pgroundup oldsz then do
    let npages := (pgroundup oldsz - pgroundup newsz) / PGSIZE
    let table ← table.uvmunmap (pgroundup newsz / PGSIZE) npages true
    pure (newsz, table)
  else pure (newsz, table)

/-- The loop of `uvmalloc` from page `a` on. -/
def uvmallocLoop (start newsz : Nat) (xperm : UInt64) :
    (remaining : Nat) → (a : Nat) → PageTable → Program Nat (Nat × PageTable)
  | 0, _, table => pure (newsz, table)
  | remaining + 1, a, table => do
    match ← acquire with
    | none => do
      let (_, table) ← table.uvmdealloc (a * PGSIZE) (start * PGSIZE)
      pure (0, table)
    | some mem => do
      let (mapped, table) ← table.mappages a 1 mem (PTE_R ||| PTE_U ||| xperm)
      if mapped then uvmallocLoop start newsz xperm remaining (a + 1) table
      else do
        release mem
        let (_, table) ← table.uvmdealloc (a * PGSIZE) (start * PGSIZE)
        pure (0, table)

def uvmalloc (table : PageTable) (oldsz newsz : Nat) (xperm : UInt64) :
    Program Nat (Nat × PageTable) :=
  if newsz < oldsz then pure (oldsz, table)
  else
    let start := pgroundup oldsz / PGSIZE
    uvmallocLoop start newsz xperm (rounds start newsz) start table

/-- The first half of `uvmfree`. -/
def unmapAll (table : PageTable) (sz : Nat) : Program Nat PageTable :=
  if sz > 0 then table.uvmunmap 0 (pgroundup sz / PGSIZE) true
  else pure table

def uvmfree (table : PageTable) (sz : Nat) : Program Nat Unit := do
  let table ← table.unmapAll sz
  table.freewalk

/-- The loop of `uvmcopy` from page `i` on. -/
def uvmcopyLoop (old : PageTable) : (remaining : Nat) → (i : Nat) → (new : PageTable) →
      Program Nat (Bool × PageTable)
  | 0, _, new => pure (true, new)
  | remaining + 1, i, new => do
    let (found, _) ← old.walk i false
    match if found then old.leaf i else none with
    | none => uvmcopyLoop old remaining (i + 1) new
    | some leaf => do
      match ← acquire with
      | none => do
        let new ← new.uvmunmap 0 i true
        pure (false, new)
      | some mem => do
        let (mapped, new) ← new.mappages i 1 mem leaf.flags
        if mapped then uvmcopyLoop old remaining (i + 1) new
        else do
          release mem
          let new ← new.uvmunmap 0 i true
          pure (false, new)

/-- `uvmcopy`, which says whether it succeeded. -/
def uvmcopy (old new : PageTable) (sz : Nat) : Program Nat (Bool × PageTable) :=
  uvmcopyLoop old (rounds 0 sz) 0 new

def uvmclear (table : PageTable) (page : Nat) : Program Nat PageTable := do
  let (found, table) ← table.walk page false
  if found then
    pure (table.setLeaf page ((table.leaf page).map fun leaf =>
      { leaf with flags := leaf.flags &&& ~~~PTE_U }))
  else halt "uvmclear"

def ismapped (table : PageTable) (page : Nat) : Program Nat Bool := do
  let (found, table) ← table.walk page false
  pure (found && (table.leaf page).isSome)

/-- `walkaddr`, with the leaf instead of the physical address. -/
def walkaddr (table : PageTable) (va : Nat) : Program Nat (Option Leaf) :=
  if va ≥ MAXVA then pure none
  else do
    let (found, table) ← table.walk (va / PGSIZE) false
    pure (if found then (table.leaf (va / PGSIZE)).filter fun leaf => leaf.flags &&& PTE_U ≠ 0
    else none)

end PageTable

/-- `vmfault`, on `pagetable` but for the process `p`. -/
def vmfault (pagetable : PageTable) (p : ProcessMemory) (va : Nat) :
    Program Nat (Option Nat × ProcessMemory) :=
  if va ≥ p.sz then pure (none, p)
  else do
    if ← pagetable.ismapped (va / PGSIZE) then pure (none, p)
    else
      match ← acquire with
      | none => pure (none, p)
      | some mem => do
        let (mapped, table) ← p.table.mappages (va / PGSIZE) 1 mem (PTE_W ||| PTE_U ||| PTE_R)
        if mapped then pure (some mem, { p with table := table })
        else do
          release mem
          pure (none, { p with table := table })

/-- How `copyout` and `copyin` find the page behind `va0`, and whether they
do. -/
def resolve (pagetable : PageTable) (p : ProcessMemory) (va0 : Nat) :
    Program Nat (Bool × ProcessMemory) := do
  match ← pagetable.walkaddr va0 with
  | some _ => pure (true, p)
  | none => do
    let (mem, p) ← vmfault pagetable p va0
    pure (mem.isSome, p)

/-- The loop of `copyout` on the table that `pagetable` picks, with the flags
of the entry that it looks up again.  It says whether everything was copied. -/
def copyout (pagetable : ProcessMemory → PageTable) :
    (fuel : Nat) → (p : ProcessMemory) → (dstva len : Nat) → Program Nat (Bool × ProcessMemory)
  | 0, p, _, _ => pure (true, p)
  | fuel + 1, p, dstva, len =>
    if len = 0 then pure (true, p)
    else
      let va0 := pgrounddown dstva
      if va0 ≥ MAXVA then pure (false, p)
      else do
        let (resolved, p) ← resolve (pagetable p) p va0
        if resolved then do
          let (found, table) ← (pagetable p).walk (va0 / PGSIZE) false
          if found then
            match table.leaf (va0 / PGSIZE) with
            | none => pure (false, p)
            | some leaf =>
              if leaf.flags &&& PTE_W = 0 then pure (false, p)
              else
                let n := min (PGSIZE - (dstva - va0)) len
                copyout pagetable fuel p (va0 + PGSIZE) (len - n)
          else halt "copyout through a null entry"
        else pure (false, p)

/-- The loop of `copyin`. -/
def copyin : (fuel : Nat) → (p : ProcessMemory) → (srcva len : Nat) →
      Program Nat (Bool × ProcessMemory)
  | 0, p, _, _ => pure (true, p)
  | fuel + 1, p, srcva, len =>
    if len = 0 then pure (true, p)
    else do
      let va0 := pgrounddown srcva
      let (resolved, p) ← resolve p.table p va0
      if resolved then
        let n := min (PGSIZE - (srcva - va0)) len
        copyin fuel p (va0 + PGSIZE) (len - n)
      else pure (false, p)

namespace ProcessMemory

/-- `growproc`, on 64 bits.  It says whether it succeeded. -/
def growproc (p : ProcessMemory) (n : Int) : Program Nat (Bool × ProcessMemory) :=
  let newsz := ((p.sz + n) % 2 ^ 64).toNat
  if n > 0 then
    if newsz > TRAPFRAME * PGSIZE then pure (false, p)
    else do
      let (sz, table) ← p.table.uvmalloc p.sz newsz PTE_W
      if sz = 0 then pure (false, { p with table := table })
      else pure (true, { p with table := table, sz := sz })
  else if n < 0 then do
    let (sz, table) ← p.table.uvmdealloc p.sz newsz
    pure (true, { p with table := table, sz := sz })
  else pure (true, p)

def SBRK_EAGER : Int := 1

/-- `sys_sbrk(n, t)`. -/
def sysSbrk (p : ProcessMemory) (n t : Int) : Program Nat (Int × ProcessMemory) :=
  let addr := p.sz
  if t = SBRK_EAGER ∨ n < 0 then do
    let (grown, p) ← p.growproc n
    pure (if grown then addr else -1, p)
  else
    let newsz := ((p.sz + n) % 2 ^ 64).toNat
    if newsz < addr then pure (-1, p)
    else if newsz > TRAPFRAME * PGSIZE then pure (-1, p)
    else pure (addr, { p with sz := newsz })

end ProcessMemory

/-- `proc_pagetable`, for a process with its trapframe in place.  The code of
the trampoline is in physical page `trampoline`. -/
def procPagetable (trampoline trapframe : Nat) : Program Nat (Option PageTable) := do
  match ← acquire with
  | none => pure none
  | some root => do
    let (mapped, table) ← (PageTable.empty root).mappages TRAMPOLINE 1 trampoline (PTE_R ||| PTE_X)
    if mapped then do
      let (mapped, table) ← table.mappages TRAPFRAME 1 trapframe (PTE_R ||| PTE_W)
      if mapped then pure (some table)
      else do
        let table ← table.uvmunmap TRAMPOLINE 1 false
        table.uvmfree 0
        pure none
    else do
      table.uvmfree 0
      pure none

def procFreepagetable (table : PageTable) (sz : Nat) : Program Nat Unit := do
  let table ← table.uvmunmap TRAMPOLINE 1 false
  let table ← table.uvmunmap TRAPFRAME 1 false
  table.uvmfree sz

/-- `freeproc`, for a process that may lack its trapframe or page table. -/
def freeproc (trapframe : Option Nat) (table : Option PageTable) (sz : Nat) : Program Nat Unit := do
  trapframe.elim (pure ()) release
  table.elim (pure ()) fun table => procFreepagetable table sz

/-- `allocproc`, once it has found an unused slot. -/
def allocproc (trampoline : Nat) : Program Nat (Option ProcessMemory) := do
  match ← acquire with
  | none => do
    freeproc none none 0
    pure none
  | some trapframe => do
    match ← procPagetable trampoline trapframe with
    | none => do
      freeproc (some trapframe) none 0
      pure none
    | some table => pure (some { trapframe := trapframe, table := table, sz := 0 })

/-- `kfork`, with the memory of the child. -/
def kfork (trampoline : Nat) (p : ProcessMemory) : Program Nat (Option ProcessMemory) := do
  match ← allocproc trampoline with
  | none => pure none
  | some np => do
    let (copied, table) ← p.table.uvmcopy np.table p.sz
    if copied then pure (some { np with table := table, sz := p.sz })
    else do
      freeproc (some np.trapframe) (some table) np.sz
      pure none

end Xv6KernelEvent
