import Xv6KernelEvent.Library.Realization
import Xv6KernelEvent.Memory.UserCopy

/-!
# User memory in physical memory

The functions of `kernel/vm.c` and `kernel/proc.c` that make, copy and free the
memory of a process, as actions on physical memory.  They return what the source
returns; a null pointer is the address 0.

Sizes are natural numbers below `2 ^ 64`, and loops over them count pages.
-/

namespace Xv6KernelEvent

open Custody

abbrev MemoryM := Action PhysicalMemory

namespace MemoryM

def kalloc : MemoryM (Option Nat) := fun mem => .ok mem.kalloc

/-- `kfree` for a kernel that ends at `kend`. -/
def kfree (kend : Nat) (pa : UInt64) : MemoryM Unit :=
  fun mem =>
    match mem.kfree kend pa.toNat with
    | .error reason => .error reason
    | .ok mem => .ok ((), mem)

def load (pa : Nat) : MemoryM UInt64 := fun mem => .ok (mem.ram.load pa, mem)

def store (pa : Nat) (word : UInt64) : MemoryM Unit :=
  fun mem => .ok ((), { mem with ram := mem.ram.store pa word })

def memset (pa : Nat) (byte : UInt8) (n : Nat) : MemoryM Unit :=
  fun mem => .ok ((), { mem with ram := mem.ram.memset pa byte n })

/-- `memmove` between different pages. -/
def memmove (dst src n : Nat) : MemoryM Unit :=
  fun mem => .ok ((),
    { mem with
      ram := mem.ram.memmove dst (fun index => mem.ram (src + index)) n })

def walk (pagetable va : UInt64) (alloc : Bool) : MemoryM (Option Nat) :=
  PhysicalMemory.walk pagetable va alloc

def walkaddr (pagetable va : UInt64) : MemoryM UInt64 :=
  fun mem =>
    match mem.walkaddr pagetable va with
    | .error reason => .error reason
    | .ok pa => .ok (pa, mem)

def mappages (pagetable va size pa perm : UInt64) : MemoryM Int :=
  PhysicalMemory.mappages pagetable va size pa perm

def uvmunmap (kend : Nat) (pagetable va npages : UInt64) (doFree : Bool) : MemoryM Unit :=
  fun mem =>
    match mem.uvmunmap kend pagetable va npages doFree with
    | .error reason => .error reason
    | .ok mem => .ok ((), mem)

def uvmcreate : MemoryM UInt64 :=
  fun mem =>
    match mem.uvmcreate with
    | (none, mem) => .ok (0, mem)
    | (some pagetable, mem) => .ok (pagetable, mem)

/-- `uvmdealloc`.  The pages of an address space are few enough for the `int`
that it counts them with. -/
def uvmdealloc (kend : Nat) (pagetable : UInt64) (oldsz newsz : Nat) : MemoryM Nat :=
  if newsz ≥ oldsz then pure oldsz
  else if pgroundup newsz < pgroundup oldsz then do
    let npages := (pgroundup oldsz - pgroundup newsz) / PGSIZE
    uvmunmap kend pagetable (UInt64.ofNat (pgroundup newsz)) (UInt64.ofNat npages) true
    pure newsz
  else pure newsz

/-- The loop of `uvmalloc` from page `a` on. -/
def uvmallocLoop (kend : Nat) (pagetable : UInt64) (start newsz : Nat)
    (xperm : UInt64) : (remaining : Nat) → (a : Nat) → MemoryM Nat
  | 0, _ => pure newsz
  | remaining + 1, a => do
    match ← kalloc with
    | none => do
      let _ ← uvmdealloc kend pagetable (a * PGSIZE) (start * PGSIZE)
      pure 0
    | some mem => do
      memset (mem * PGSIZE) 0 PGSIZE
      let mapped ← mappages pagetable (UInt64.ofNat (a * PGSIZE)) 4096
        (UInt64.ofNat (mem * PGSIZE)) (PTE_R ||| PTE_U ||| xperm)
      if mapped ≠ 0 then do
        kfree kend (UInt64.ofNat (mem * PGSIZE))
        let _ ← uvmdealloc kend pagetable (a * PGSIZE) (start * PGSIZE)
        pure 0
      else uvmallocLoop kend pagetable start newsz xperm remaining (a + 1)

def uvmalloc (kend : Nat) (pagetable : UInt64) (oldsz newsz : Nat) (xperm : UInt64) : MemoryM Nat :=
  if newsz < oldsz then pure oldsz
  else
    let start := pgroundup oldsz / PGSIZE
    uvmallocLoop kend pagetable start newsz xperm (rounds start newsz) start

/-- What `freewalk` does with entry `i`; `recurse` is `freewalk` itself. -/
def freewalkEntry (recurse : UInt64 → MemoryM Unit) (pagetable : UInt64)
    (i : Nat) : MemoryM Unit := do
  let pte ← load (pagetable.toNat + 8 * i)
  if pte &&& PTE_V ≠ 0 ∧ pte &&& (PTE_R ||| PTE_W ||| PTE_X) = 0 then do
    recurse (pte2pa pte)
    store (pagetable.toNat + 8 * i) 0
  else if pte &&& PTE_V ≠ 0 then throw "freewalk: leaf"
  else pure ()

/-- `freewalk` on a page table with so many levels. -/
def freewalk (kend : Nat) : (levels : Nat) → (pagetable : UInt64) → MemoryM Unit
  | 0, _ => throw "freewalk of a page"
  | levels + 1, pagetable => do
    perform (freewalkEntry (freewalk kend levels) pagetable) 512
    kfree kend pagetable

/-- The first half of `uvmfree`. -/
def unmapAll (kend : Nat) (pagetable : UInt64) (sz : Nat) : MemoryM Unit :=
  if sz > 0 then uvmunmap kend pagetable 0 (UInt64.ofNat (pgroundup sz / PGSIZE)) true
  else pure ()

def uvmfree (kend : Nat) (pagetable : UInt64) (sz : Nat) : MemoryM Unit := do
  unmapAll kend pagetable sz
  freewalk kend 3 pagetable

/-- The loop of `uvmcopy` from page `i` on. -/
def uvmcopyLoop (kend : Nat) (old new : UInt64) : (remaining : Nat) → (i : Nat) → MemoryM Int
  | 0, _ => pure 0
  | remaining + 1, i => do
    match ← walk old (UInt64.ofNat (i * PGSIZE)) false with
    | none => uvmcopyLoop kend old new remaining (i + 1)
    | some pte => do
      let word ← load pte
      if word &&& PTE_V = 0 then uvmcopyLoop kend old new remaining (i + 1)
      else
        let pa := pte2pa word
        let flags := pteFlags word
        match ← kalloc with
        | none => do
          uvmunmap kend new 0 (UInt64.ofNat i) true
          pure (-1)
        | some mem => do
          memmove (mem * PGSIZE) pa.toNat PGSIZE
          let mapped ← mappages new (UInt64.ofNat (i * PGSIZE)) 4096
            (UInt64.ofNat (mem * PGSIZE)) flags
          if mapped ≠ 0 then do
            kfree kend (UInt64.ofNat (mem * PGSIZE))
            uvmunmap kend new 0 (UInt64.ofNat i) true
            pure (-1)
          else uvmcopyLoop kend old new remaining (i + 1)

def uvmcopy (kend : Nat) (old new : UInt64) (sz : Nat) : MemoryM Int :=
  uvmcopyLoop kend old new (rounds 0 sz) 0

def uvmclear (pagetable : UInt64) (va : Nat) : MemoryM Unit := do
  match ← walk pagetable (UInt64.ofNat va) false with
  | none => throw "uvmclear"
  | some pte => do
    let word ← load pte
    store pte (word &&& ~~~PTE_U)

/-- `proc_pagetable` for a process with the trapframe at an address.  The code
of the trampoline is in page `trampoline`. -/
def procPagetable (kend trampoline : Nat) (trapframe : UInt64) : MemoryM UInt64 := do
  let pagetable ← uvmcreate
  if pagetable = 0 then pure 0
  else do
    let mapped ← mappages pagetable (UInt64.ofNat (TRAMPOLINE * PGSIZE)) 4096
      (UInt64.ofNat (trampoline * PGSIZE)) (PTE_R ||| PTE_X)
    if mapped < 0 then do
      uvmfree kend pagetable 0
      pure 0
    else do
      let mapped ← mappages pagetable (UInt64.ofNat (TRAPFRAME * PGSIZE)) 4096
        trapframe (PTE_R ||| PTE_W)
      if mapped < 0 then do
        uvmunmap kend pagetable (UInt64.ofNat (TRAMPOLINE * PGSIZE)) 1 false
        uvmfree kend pagetable 0
        pure 0
      else pure pagetable

def procFreepagetable (kend : Nat) (pagetable : UInt64) (sz : Nat) : MemoryM Unit := do
  uvmunmap kend pagetable (UInt64.ofNat (TRAMPOLINE * PGSIZE)) 1 false
  uvmunmap kend pagetable (UInt64.ofNat (TRAPFRAME * PGSIZE)) 1 false
  uvmfree kend pagetable sz

end MemoryM

end Xv6KernelEvent
