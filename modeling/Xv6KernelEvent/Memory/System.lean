import Xv6KernelEvent.Library.Runs
import Xv6KernelEvent.Memory.Exec
import Xv6KernelEvent.Memory.Ram
import Xv6KernelEvent.Param

/-!
# The memory of all processes

Processes that use the page allocator side by side.  A call of `kalloc` or
`kfree` is one step, for `kmem.lock` is held throughout; what a process does
between two such calls only touches page tables that nobody else uses.  Any
process may take the next step, and `kalloc` may refuse at any time.

Beside the program of a call in progress stand the pages in its hands.
-/

namespace Xv6KernelEvent

open Custody Runs

/-- The pages that `freerange` finds between two addresses, one after the
other. -/
def pagesBetween (start stop : Nat) : List Nat :=
  List.range' (pgroundup start / PGSIZE) (stop / PGSIZE - pgroundup start / PGSIZE)

/-- `kinit`: every page is pushed on the free list. -/
def kinit (kend : Nat) : List Nat :=
  (pagesBetween kend PHYSTOP).foldl (fun freelist page => page :: freelist) []

/-- The operations of processes that call `kalloc` and `kfree`.  `reap` is
the `freeproc` of a zombie in `kwait`. -/
inductive MemoryCall where
  | sbrk (n t : Int32)
  | fault (va : UInt64)
  | copyin (srcva len : UInt64)
  | copyout (dstva len : UInt64)
  | exec (uargv : UInt64) (argument : Nat → Argument) (found elf : Bool)
      (headers : List ProgramHeader)
  | fork (child : Nat)
  | reap (child : Nat)
  | pipealloc
  | pipeclose (page : Nat)

/-- How a call ends: its value, the memory of the caller, that of a child it
made, and the page of a new pipe. -/
structure CallEnd where
  value : Int
  self : ProcessMemory
  child : Option ProcessMemory
  pipe : Option Nat

def CallEnd.plain (value : Int) (p : ProcessMemory) : CallEnd :=
  { value := value, self := p, child := none, pipe := none }

/-- The process whose slot a call fills or empties. -/
def MemoryCall.target : MemoryCall → Option Nat
  | .fork child | .reap child => some child
  | _ => none

/-- The program of a call by a process with memory `p`; `zombie` is the memory
that `reap` frees.  Only the value of `sbrk` is kept. -/
def MemoryCall.program (trampoline : Nat) (p : ProcessMemory)
    (zombie : Option ProcessMemory) : MemoryCall → Program Nat CallEnd
  | .sbrk n t => do
    let (value, p) ← p.sysSbrk n.toInt t.toInt
    pure (.plain value p)
  | .fault va => do
    let (_, p) ← vmfault p.table p va.toNat
    pure (.plain 0 p)
  | .copyin srcva len => do
    let (_, p) ← Xv6KernelEvent.copyin len.toNat p srcva.toNat len.toNat
    pure (.plain 0 p)
  | .copyout dstva len => do
    let (_, p) ← Xv6KernelEvent.copyout ProcessMemory.table len.toNat p dstva.toNat len.toNat
    pure (.plain 0 p)
  | .exec uargv argument found elf headers => do
    let (_, p) ← sysExec trampoline uargv.toNat argument found elf headers p
    pure (.plain 0 p)
  | .fork _ => do
    let child ← kfork trampoline p
    pure { value := 0, self := p, child := child, pipe := none }
  | .reap _ => do
    zombie.elim (pure ()) fun q => freeproc (some q.trapframe) (some q.table) q.sz
    pure (.plain 0 p)
  | .pipealloc => do
    let page ← acquire
    pure { value := 0, self := p, child := none, pipe := page }
  | .pipeclose page => do
    release page
    pure (.plain 0 p)

/-- What a call has in its hands when it starts: the memory of its caller, and
what it is to free. -/
def MemoryCall.demand (p : ProcessMemory) (zombie : Option ProcessMemory) :
    MemoryCall → Multiset Nat
  | .reap _ => p.holdings + zombie.elim 0 ProcessMemory.holdings
  | .pipeclose page => page ::ₘ p.holdings
  | _ => p.holdings

/-- A call in progress, with the memory its caller had before and the pages in
its hands. -/
structure Activity where
  call : MemoryCall
  before : ProcessMemory
  task : Program Nat CallEnd
  held : Multiset Nat

/-- A slot of the process table.  A zombie is idle; a slot is `reserved` while
another process makes or frees what is in it. -/
inductive Slot where
  | unused
  | reserved (caller : Nat)
  | idle (p : ProcessMemory)
  | busy (activity : Activity)

def Slot.holdings : Slot → Multiset Nat
  | .unused | .reserved _ => 0
  | .idle p => p.holdings
  | .busy activity => activity.held

/-- The page allocator and those who have pages from it: processes, pipes and
the kernel since it booted. -/
structure MemorySystem where
  free : List Nat
  slot : Nat → Slot
  pipes : Multiset Nat
  boot : Multiset Nat

inductive MemoryStep where
  | boot
  | userinit (slot : Nat)
  | start (slot : Nat) (call : MemoryCall)
  | advance (slot : Nat) (refuse : Bool)
  | finish (slot : Nat)

namespace MemorySystem

def initial (kend : Nat) : MemorySystem :=
  { free := kinit kend, slot := fun _ => .unused, pipes := 0, boot := 0 }

def setSlot (system : MemorySystem) (index : Nat) (slot : Slot) : MemorySystem :=
  { system with slot := Function.update system.slot index slot }

def start (trampoline : Nat) (system : MemorySystem) (index : Nat)
    (call : MemoryCall) (p : ProcessMemory) : Option MemorySystem :=
  let begun (zombie : Option ProcessMemory) : MemorySystem :=
    system.setSlot index (.busy
      { call := call
        before := p
        task := call.program trampoline p zombie
        held := call.demand p zombie })
  match call with
  | .fork child =>
    match system.slot child with
    | .unused =>
      if child < NPROC then some ((begun none).setSlot child (.reserved index))
      else none
    | _ => none
  | .reap child =>
    match system.slot child with
    | .idle q =>
      if child = index then none
      else some ((begun (some q)).setSlot child (.reserved index))
    | _ => none
  | .pipeclose page =>
    if page ∈ system.pipes then some { begun none with pipes := system.pipes.erase page }
    else none
  | _ => some (begun none)

/-- One call of `kalloc` or `kfree`. -/
def advance (system : MemorySystem) (index : Nat) (refuse : Bool)
    (activity : Activity) : Option MemorySystem :=
  match activity.task with
  | .acquire next =>
    match system.free with
    | page :: rest =>
      if refuse then some (system.setSlot index (.busy { activity with task := next none }))
      else
        some { system.setSlot index (.busy
            { activity with
              task := next (some page)
              held := page ::ₘ activity.held }) with
          free := rest }
    | [] => some (system.setSlot index (.busy { activity with task := next none }))
  | .release page next =>
    some { system.setSlot index (.busy
        { activity with task := next, held := activity.held.erase page }) with
      free := page :: system.free }
  | _ => none

/-- A call returns. -/
def finish (system : MemorySystem) (index : Nat) (activity : Activity) : Option MemorySystem :=
  match activity.task with
  | .done result =>
    let returned :=
      { system.setSlot index (.idle result.self) with
        pipes := system.pipes + result.pipe.elim 0 fun page => {page} }
    match activity.call.target with
    | none => some returned
    | some target => some (returned.setSlot target (result.child.elim .unused .idle))
  | _ => none

def next (trampoline : Nat) (system : MemorySystem) : MemoryStep → Option MemorySystem
  | .boot =>
    match system.free with
    | page :: rest => some { system with free := rest, boot := page ::ₘ system.boot }
    | [] => none
  | .userinit index =>
    match system.slot index, (allocproc trampoline).execute system.free with
    | .unused, .ok (some p, rest) =>
      if index < NPROC then some { system.setSlot index (.idle p) with free := rest }
      else none
    | _, _ => none
  | .start index call =>
    match system.slot index with
    | .idle p => system.start trampoline index call p
    | _ => none
  | .advance index refuse =>
    match system.slot index with
    | .busy activity => system.advance index refuse activity
    | _ => none
  | .finish index =>
    match system.slot index with
    | .busy activity => system.finish index activity
    | _ => none

end MemorySystem

end Xv6KernelEvent
