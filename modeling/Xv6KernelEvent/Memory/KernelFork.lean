import Xv6KernelEvent.Memory.ForkCopy
import Xv6KernelEvent.Process.State

/-!
# `kfork`

`allocproc`, `freeproc` and `kfork` (`kernel/proc.c`) on the process table, the
reference counts, the event queue and physical memory.  The kernel runs them
without anything else that uses the same slot, so they are one action here.
-/

namespace Xv6KernelEvent.Fork

open Custody Process

/-- `struct proc` without its lock, its kernel stack and its context. -/
structure Proc where
  state : ProcState
  chan : Option Chan
  killed : Int
  xstate : Int
  pid : Int
  parent : Option Nat
  sz : Nat
  pagetable : UInt64
  trapframe : UInt64
  ofile : Nat → Option Nat
  cwd : Option Nat
  name : Vector UInt8 16

/-- `fileRef` and `inodeRef` are the `ref` fields of `ftable` and `itable`;
`nextpid` has not overflowed. -/
structure Kernel where
  mem : PhysicalMemory
  proc : Nat → Proc
  nextpid : Nat
  fileRef : Nat → Nat
  inodeRef : Nat → Nat
  kq : Kqueue

abbrev KernelM := Action Kernel

def onMemory {Value : Type} (action : MemoryM Value) : KernelM Value :=
  fun kernel =>
    match action kernel.mem with
    | .error reason => .error reason
    | .ok (value, mem) => .ok (value, { kernel with mem := mem })

def getProc (i : Nat) : KernelM Proc := fun kernel => .ok (kernel.proc i, kernel)

def Kernel.setProc (kernel : Kernel) (i : Nat) (p : Proc) : Kernel :=
  { kernel with proc := Function.update kernel.proc i p }

def setProc (i : Nat) (change : Proc → Proc) : KernelM Unit :=
  fun kernel => .ok ((), kernel.setProc i (change (kernel.proc i)))

def allocpid : KernelM Nat :=
  fun kernel => .ok (kernel.nextpid, { kernel with nextpid := kernel.nextpid + 1 })

/-- What `freeproc` resets behind the page table. -/
def Proc.cleared (p : Proc) : Proc :=
  { p with
    pagetable := 0
    sz := 0
    pid := 0
    parent := none
    name := p.name.set 0 0
    chan := none
    killed := 0
    xstate := 0
    state := .unused }

def freeTrapframe (kend : Nat) (trapframe : UInt64) : MemoryM Unit :=
  if trapframe ≠ 0 then MemoryM.kfree kend trapframe else pure ()

def freePagetable (kend : Nat) (pagetable : UInt64) (sz : Nat) : MemoryM Unit :=
  if pagetable ≠ 0 then MemoryM.procFreepagetable kend pagetable sz else pure ()

def freeproc (kend np : Nat) : KernelM Unit := do
  let p ← getProc np
  onMemory (freeTrapframe kend p.trapframe)
  setProc np fun p => { p with trapframe := 0 }
  onMemory (freePagetable kend p.pagetable p.sz)
  setProc np Proc.cleared

/-- `p->pid = allocpid(); p->state = USED`. -/
def claim (np : Nat) : KernelM Unit := do
  let pid ← allocpid
  setProc np fun p => { p with pid := pid, state := .used }

/-- `allocproc` behind the label `found`. -/
def allocprocFound (kend trampoline np : Nat) : KernelM (Option Nat) := do
  claim np
  match ← onMemory MemoryM.kalloc with
  | none => do
    setProc np fun p => { p with trapframe := 0 }
    freeproc kend np
    pure none
  | some frame => do
    let trapframe := UInt64.ofNat (frame * PGSIZE)
    setProc np fun p => { p with trapframe := trapframe }
    let pagetable ← onMemory (MemoryM.procPagetable kend trampoline trapframe)
    setProc np fun p => { p with pagetable := pagetable }
    if pagetable = 0 then do
      freeproc kend np
      pure none
    else pure (some np)

/-- The slot that the loop of `allocproc` finds. -/
def Kernel.unusedSlot (kernel : Kernel) : Option Nat :=
  (List.range NPROC).find? fun i => decide ((kernel.proc i).state = .unused)

/-- `allocproc`, with the number of the slot. -/
def allocproc (kend trampoline : Nat) : KernelM (Option Nat) :=
  fun kernel =>
    match kernel.unusedSlot with
    | none => .ok (none, kernel)
    | some np => allocprocFound kend trampoline np kernel

def filedup (f : Nat) : KernelM Unit :=
  fun kernel =>
    if kernel.fileRef f < 1 then .error "filedup"
    else .ok ((), { kernel with
      fileRef := Function.update kernel.fileRef f (kernel.fileRef f + 1) })

/-- A round of the loop of `kfork` over the open files. -/
def dupFile (current np i : Nat) : KernelM Unit := do
  let p ← getProc current
  match p.ofile i with
  | none => pure ()
  | some f => do
    filedup f
    setProc np fun child => { child with ofile := Function.update child.ofile i (some f) }

/-- `np->cwd = idup(p->cwd)`. -/
def dupCwd (current np : Nat) : KernelM Unit :=
  fun kernel =>
    match (kernel.proc current).cwd with
    | none => .error "idup of a null pointer"
    | some ip =>
      let counted := { kernel with
        inodeRef := Function.update kernel.inodeRef ip (kernel.inodeRef ip + 1) }
      .ok ((), counted.setProc np { kernel.proc np with cwd := some ip })

/-- `wakeup(&kq)`. -/
def Kernel.wakeup (kernel : Kernel) (current : Nat) : Kernel :=
  { kernel with
    proc := fun i =>
      let p := kernel.proc i
      if i ≠ current ∧ p.state = .sleeping ∧ p.chan = some .kq then { p with state := .runnable }
      else p }

/-- `kqueue_post("fork", pid)`. -/
def postFork (current : Nat) (time : UInt64) (pid : Int) : KernelM Unit :=
  fun kernel =>
    match kqueuePost (fun offset => EventName.fork.bytes.getD offset 0)
      (Int32.ofInt pid) time kernel.kq with
    | none => .error "kqueue_post"
    | some kq => .ok ((), { kernel with kq := kq }.wakeup current)

/-- `kfork` once user memory has been copied.  A trapframe has 288 bytes, with
`a0` at offset 112. -/
def kforkChild (time : UInt64) (current np : Nat) : KernelM Int := do
  let p ← getProc current
  let child ← getProc np
  setProc np fun child => { child with sz := p.sz }
  onMemory (MemoryM.memmove child.trapframe.toNat p.trapframe.toNat 288)
  onMemory (MemoryM.store (child.trapframe.toNat + 112) 0)
  perform (dupFile current np) NOFILE
  dupCwd current np
  setProc np fun child =>
    { child with
      name := safestrcpy child.name (CString.byteAt p.name) 16
      parent := some current
      state := .runnable }
  postFork current time child.pid
  pure child.pid

def kfork (kend trampoline : Nat) (time : UInt64) (current : Nat) : KernelM Int := do
  match ← allocproc kend trampoline with
  | none => pure (-1)
  | some np => do
    let p ← getProc current
    let child ← getProc np
    let copied ← onMemory (MemoryM.uvmcopy kend p.pagetable child.pagetable p.sz)
    if copied < 0 then do
      freeproc kend np
      pure (-1)
    else kforkChild time current np

section Returns

variable {table : PageTable} {kernel : Kernel}

theorem onMemory_ok {Value : Type} {action : MemoryM Value} {value : Value}
    {mem : PhysicalMemory} (acts : action kernel.mem = .ok (value, mem)) :
    onMemory action kernel = .ok (value, { kernel with mem := mem }) := by
  rw [onMemory, acts]

/-- What `freeproc` leaves of a slot, with the memory that it leaves. -/
def Kernel.freed (kernel : Kernel) (np : Nat) (mem : PhysicalMemory) : Kernel :=
  { kernel with mem := mem }.setProc np { kernel.proc np with trapframe := 0 }.cleared

/-- `freeproc`, by what it does to memory. -/
theorem freeproc_ok {middle mem : PhysicalMemory}
    (first : freeTrapframe kend (kernel.proc np).trapframe kernel.mem = .ok ((), middle))
    (second : freePagetable kend (kernel.proc np).pagetable (kernel.proc np).sz
      middle = .ok ((), mem)) : freeproc kend np kernel = .ok ((), kernel.freed np mem) := by
  rw [freeproc, Action.bind_ok rfl, Action.bind_ok (onMemory_ok first),
    Action.bind_ok rfl, Action.bind_ok (onMemory_ok second)]
  simp only [setProc, Kernel.setProc, Kernel.freed, Function.update_idem, Function.update_self]

/-- A slot without memory. -/
theorem freeproc_empty (trapframe : (kernel.proc np).trapframe = 0)
    (pagetable : (kernel.proc np).pagetable = 0) :
    freeproc kend np kernel = .ok ((), kernel.freed np kernel.mem) := by
  have first : freeTrapframe kend (kernel.proc np).trapframe kernel.mem = .ok ((), kernel.mem) := by
    rw [trapframe]
    rfl
  refine freeproc_ok first ?_
  rw [pagetable]
  rfl

section

variable (pages : Pages kend stock)

include pages

theorem freeTrapframe_ok (member : frame ∈ stock) (mem : PhysicalMemory) :
    freeTrapframe kend (UInt64.ofNat (frame * PGSIZE)) mem = .ok ((), mem.freed frame) := by
  rw [freeTrapframe, if_pos (pages.nonzero member), MemoryM.kfree_eq pages member]

/-- A slot that has only got its trapframe. -/
theorem freeproc_trapframe (stocked : Stocked stock ram {frame} kernel.mem)
    (trapframe : (kernel.proc np).trapframe = UInt64.ofNat (frame * PGSIZE))
    (pagetable : (kernel.proc np).pagetable = 0) :
    ∃ mem, freeproc kend np kernel = .ok ((), kernel.freed np mem) ∧ Stocked stock ram 0 mem := by
  have member := stocked.mem_held (Multiset.mem_singleton_self frame)
  have first := freeTrapframe_ok pages member kernel.mem
  rw [← trapframe] at first
  refine ⟨_, freeproc_ok first ?_,
    Stocked.kfree (show Stocked stock ram (frame ::ₘ 0) kernel.mem from stocked)⟩
  rw [pagetable]
  rfl

theorem freePagetable_ok (owns : Owns stock ram extra table mem)
    (shape : UserTable trampoline frame (npages sz) table) :
    ∃ result, freePagetable kend (UInt64.ofNat (table.root * PGSIZE)) sz mem =
        .ok ((), result) ∧ Stocked stock ram extra result := by
  have node : table.root ∈ table.nodes :=
    PageTable.mem_nodes owns.represents.wellFormed
      (show table.frameAt .root = some table.root from rfl)
  rw [freePagetable, if_pos (pages.nonzero (owns.standing.nodes _ node))]
  exact owns.procFreepagetable_returns pages shape

/-- A slot with a trapframe and a page table. -/
theorem freeproc_table (owns : Owns stock ram {frame} table kernel.mem)
    (shape : UserTable trampoline frame (npages (kernel.proc np).sz) table)
    (trapframe : (kernel.proc np).trapframe = UInt64.ofNat (frame * PGSIZE))
    (pagetable : (kernel.proc np).pagetable = UInt64.ofNat (table.root * PGSIZE)) :
    ∃ mem, freeproc kend np kernel = .ok ((), kernel.freed np mem) ∧ Stocked stock ram 0 mem := by
  have member := owns.stocked.mem_held (Multiset.mem_add.mpr
    (.inl (Multiset.mem_singleton_self frame)))
  have kept : Owns stock ram 0 table (kernel.mem.freed frame) :=
    Owns.kfree pages (show Owns stock ram (frame ::ₘ 0) table kernel.mem from owns)
  have first := freeTrapframe_ok pages member kernel.mem
  rw [← trapframe] at first
  obtain ⟨mem, frees, stocked⟩ := freePagetable_ok pages kept shape
  rw [← pagetable] at frees
  exact ⟨mem, freeproc_ok first frees, stocked⟩

end

/-- A call of `kfork` that has failed. -/
structure NoTrace (kernel after : Kernel) : Prop where
  pages : after.mem.freelist.Perm kernel.mem.freelist
  bytes : ∀ address, address / PGSIZE ∉ kernel.mem.freelist →
    after.mem.ram address = kernel.mem.ram address
  fileRef : after.fileRef = kernel.fileRef
  inodeRef : after.inodeRef = kernel.inodeRef
  kq : after.kq = kernel.kq
  nextpid : after.nextpid = kernel.nextpid ∨ after.nextpid = kernel.nextpid + 1
  others : ∀ i, kernel.unusedSlot ≠ some i → after.proc i = kernel.proc i
  slot : ∀ np, kernel.unusedSlot = some np →
    after.proc np = { kernel.proc np with trapframe := 0 }.cleared

/-- The kernel with a slot that `allocproc` has filled in. -/
def Kernel.allocated (kernel : Kernel) (np : Nat) (trapframe pagetable : UInt64)
    (mem : PhysicalMemory) : Kernel :=
  { kernel with mem := mem, nextpid := kernel.nextpid + 1 }.setProc np
    { kernel.proc np with
      pid := kernel.nextpid
      state := .used
      trapframe := trapframe
      pagetable := pagetable }

theorem allocated_proc (kernel : Kernel) (np : Nat) (trapframe pagetable : UInt64)
    (mem : PhysicalMemory) :
    (kernel.allocated np trapframe pagetable mem).proc np =
      { kernel.proc np with
        pid := kernel.nextpid
        state := .used
        trapframe := trapframe
        pagetable := pagetable } :=
  Function.update_self ..

theorem allocated_memory {Value : Type} {action : MemoryM Value} {value : Value}
    {trapframe pagetable : UInt64} {mem after : PhysicalMemory}
    (acts : action mem = .ok (value, after)) :
    onMemory action (kernel.allocated np trapframe pagetable mem) =
      .ok (value, kernel.allocated np trapframe pagetable after) :=
  onMemory_ok acts

theorem allocated_trapframe (kernel : Kernel) (np : Nat) (trapframe pagetable other : UInt64)
    (mem : PhysicalMemory) :
    setProc np (fun p => { p with trapframe := other })
        (kernel.allocated np trapframe pagetable mem) =
      .ok ((), kernel.allocated np other pagetable mem) := by
  rw [setProc, allocated_proc]
  simp only [Kernel.allocated, Kernel.setProc, Function.update_idem]

theorem allocated_pagetable (kernel : Kernel) (np : Nat) (trapframe pagetable other : UInt64)
    (mem : PhysicalMemory) :
    setProc np (fun p => { p with pagetable := other })
        (kernel.allocated np trapframe pagetable mem) =
      .ok ((), kernel.allocated np trapframe other mem) := by
  rw [setProc, allocated_proc]
  simp only [Kernel.allocated, Kernel.setProc, Function.update_idem]

/-- Whatever `allocproc` filled in, `freeproc` clears. -/
theorem noTrace_freed (found : kernel.unusedSlot = some np)
    (stocked : Stocked kernel.mem.freelist kernel.mem.ram 0 mem) :
    NoTrace kernel ((kernel.allocated np trapframe pagetable middle).freed np mem) := by
  have conserved := stocked.conserved
  rw [zero_add] at conserved
  refine ⟨Multiset.coe_eq_coe.mp conserved, ?_, rfl, rfl, rfl, .inr rfl, ?_, ?_⟩
  · intro address outside
    exact stocked.outside address (by simpa using outside)
  · intro i other
    have elsewhere : i ≠ np := by
      rintro rfl
      exact other found
    simp only [Kernel.freed, Kernel.allocated, Kernel.setProc, Function.update_of_ne elsewhere]
  · intro chosen same
    obtain rfl : np = chosen := Option.some.inj (found.symm.trans same)
    simp only [Kernel.freed, Kernel.allocated, Kernel.setProc, Function.update_self, Proc.cleared]

/-- The kernel when process `current` calls `fork`.  A slot that is not in use
has no memory. -/
structure Kernel.Ready (kernel : Kernel) (kend trampoline current : Nat)
    (trapframe : Nat) (table : PageTable) : Prop where
  space : AddressSpace kend trampoline trapframe
    { pagetable := (kernel.proc current).pagetable
      sz := (kernel.proc current).sz } kernel.mem table
  code : trampoline < 2 ^ 44
  running : (kernel.proc current).state ≠ .unused
  blank : ∀ i, (kernel.proc i).state = .unused →
    (kernel.proc i).trapframe = 0 ∧ (kernel.proc i).pagetable = 0 ∧ (kernel.proc i).sz = 0
  files : ∀ i f, (kernel.proc current).ofile i = some f → 0 < kernel.fileRef f
  cwd : (kernel.proc current).cwd ≠ none
  kq : kernel.kq.Valid

theorem Kernel.unusedSlot_unused (found : kernel.unusedSlot = some np) :
    (kernel.proc np).state = .unused := by
  have holds := List.find?_some found
  exact of_decide_eq_true holds

namespace Kernel.Ready

theorem allocprocFound_returns (ready : kernel.Ready kend trampoline current trapframe table)
    (found : kernel.unusedSlot = some np) :
    (∃ after, allocprocFound kend trampoline np kernel = .ok (none, after) ∧ NoTrace kernel after) ∨
    ∃ frame new mem, allocprocFound kend trampoline np kernel = .ok (some np,
        kernel.allocated np (UInt64.ofNat (frame * PGSIZE))
          (UInt64.ofNat (new.root * PGSIZE)) mem) ∧
      Owns kernel.mem.freelist kernel.mem.ram {frame} new mem ∧
      UserTable trampoline frame 0 new := by
  obtain ⟨_, bare, _⟩ := ready.blank np (Kernel.unusedSlot_unused found)
  have pages := ready.space.freePages
  have claimed : claim np kernel = .ok ((), kernel.allocated np
      (kernel.proc np).trapframe 0 kernel.mem) := by
    rw [← bare]
    rfl
  rw [allocprocFound, Action.bind_ok claimed]
  by_cases free : kernel.mem.freelist = []
  · left
    have emptied : freeproc kend np (kernel.allocated np 0 0 kernel.mem) =
        .ok ((), (kernel.allocated np 0 0 kernel.mem).freed np kernel.mem) :=
      freeproc_empty (by rw [allocated_proc]) (by rw [allocated_proc])
    refine ⟨(kernel.allocated np 0 0 kernel.mem).freed np kernel.mem, ?_,
      noTrace_freed found kernel.mem.stocked⟩
    rw [Action.bind_ok (allocated_memory (MemoryM.kalloc_nil free))]
    simp only
    rw [Action.bind_ok (allocated_trapframe ..), Action.bind_ok emptied]
    rfl
  · obtain ⟨frame, rest, free⟩ := List.exists_cons_of_ne_nil free
    have taken := kernel.mem.stocked.kalloc free
    have member := taken.mem_held (Multiset.mem_cons_self frame 0)
    obtain ⟨pagetable, mem, makes, made⟩ := taken.procPagetable_returns pages
      ready.code (pages.small member)
    rw [Action.bind_ok (allocated_memory (MemoryM.kalloc_cons free))]
    simp only
    rw [Action.bind_ok (allocated_trapframe ..), Action.bind_ok (allocated_memory makes),
      Action.bind_ok (allocated_pagetable ..)]
    rcases made with ⟨rfl, left⟩ | ⟨nonzero, new, rfl, owns, shape⟩
    · left
      obtain ⟨last, frees, final⟩ : ∃ last, freeproc kend np
          (kernel.allocated np (UInt64.ofNat (frame * PGSIZE)) 0 mem) = .ok ((), _) ∧ _ :=
        freeproc_trapframe pages left (by rw [allocated_proc]) (by rw [allocated_proc])
      refine ⟨(kernel.allocated np (UInt64.ofNat (frame * PGSIZE)) 0 mem).freed
        np last, ?_, noTrace_freed found final⟩
      rw [if_pos rfl, Action.bind_ok frees]
      rfl
    · right
      refine ⟨frame, new, mem, ?_, owns, shape⟩
      rw [if_neg nonzero]
      rfl

end Kernel.Ready

section Child

/-- What the end of `kfork` leaves alone. -/
structure Inheriting (current np : Nat) (kernel after : Kernel) : Prop where
  mem : after.mem = kernel.mem
  parent : after.proc current = kernel.proc current
  files : ∀ f, kernel.fileRef f ≤ after.fileRef f
  kq : after.kq = kernel.kq
  child : ∃ ofile, after.proc np = { kernel.proc np with ofile := ofile }

theorem Inheriting.refl (current np : Nat) (kernel : Kernel) :
    Inheriting current np kernel kernel :=
  ⟨rfl, rfl, fun _ => Nat.le_refl _, rfl, (kernel.proc np).ofile, rfl⟩

theorem Inheriting.dupFile (differs : current ≠ np)
    (counted : ∀ i f, (kernel.proc current).ofile i = some f → 0 < kernel.fileRef f)
    (inheriting : Inheriting current np kernel after) (i : Nat) :
    ∃ next, Fork.dupFile current np i after = .ok ((), next) ∧
      Inheriting current np kernel next := by
  rw [Fork.dupFile, Action.bind_ok rfl, inheriting.parent]
  cases opened : (kernel.proc current).ofile i with
  | none => exact ⟨after, rfl, inheriting⟩
  | some f =>
    have positive := (counted i f opened).trans_le (inheriting.files f)
    have dups : filedup f after = .ok ((), { after with
        fileRef := Function.update after.fileRef f (after.fileRef f + 1) }) := by
      rw [filedup, if_neg (by omega)]
    obtain ⟨ofile, child⟩ := inheriting.child
    refine ⟨_, Action.bind_ok dups, inheriting.mem, ?_, ?_, inheriting.kq,
      Function.update ofile i (some f), ?_⟩
    · exact (Function.update_of_ne differs _ _).trans inheriting.parent
    · intro other
      refine (inheriting.files other).trans ?_
      change after.fileRef other ≤ Function.update after.fileRef f _ other
      rw [Function.update_apply]
      split
      · rename_i same
        rw [same]
        exact Nat.le_succ _
      · exact le_rfl
    · simp only [Kernel.setProc, Function.update_self, child]

theorem Inheriting.dupFiles (differs : current ≠ np)
    (counted : ∀ i f, (kernel.proc current).ofile i = some f → 0 < kernel.fileRef f) (count : Nat) :
    ∃ next, perform (Fork.dupFile current np) count kernel = .ok ((), next) ∧
      Inheriting current np kernel next := by
  induction count with
  | zero => exact ⟨kernel, rfl, .refl current np kernel⟩
  | succ count induction =>
    obtain ⟨middle, first, inheriting⟩ := induction
    obtain ⟨next, second, kept⟩ := inheriting.dupFile differs counted count
    exact ⟨next, (Action.bind_ok first).trans second, kept⟩

/-- What `kfork` has done when it comes to the open files of the parent. -/
def Kernel.inherited (kernel : Kernel) (current np : Nat) : Kernel :=
  { kernel with
    mem := { kernel.mem with
      ram := (kernel.mem.ram.memmove (kernel.proc np).trapframe.toNat
        (fun index => kernel.mem.ram ((kernel.proc current).trapframe.toNat + index)) 288).store
        ((kernel.proc np).trapframe.toNat + 112) 0 } }.setProc np
    { kernel.proc np with sz := (kernel.proc current).sz }

theorem Inheriting.dupCwd (differs : current ≠ np) (cwd : (kernel.proc current).cwd ≠ none)
    (inheriting : Inheriting current np kernel after) :
    ∃ next, Fork.dupCwd current np after = .ok ((), next) ∧
      next.mem = kernel.mem ∧ next.proc current = kernel.proc current ∧
      next.kq = kernel.kq ∧
      ∃ ofile cwd, next.proc np = { kernel.proc np with ofile := ofile, cwd := cwd } := by
  obtain ⟨ip, found⟩ := Option.ne_none_iff_exists'.mp cwd
  obtain ⟨ofile, child⟩ := inheriting.child
  rw [Fork.dupCwd, inheriting.parent, found]
  refine ⟨_, rfl, inheriting.mem, ?_, inheriting.kq, ofile, some ip, ?_⟩
  · exact (Function.update_of_ne differs _ _).trans inheriting.parent
  · simp only [Kernel.setProc, Function.update_self, child]

theorem postFork_returns (kq : kernel.kq.Valid) (current : Nat) (time : UInt64) (pid : Int) :
    ∃ next, postFork current time pid kernel = .ok ((), next) ∧
      next.mem = kernel.mem ∧ next.proc current = kernel.proc current ∧
      ∀ i, (next.proc i).pid = (kernel.proc i).pid ∧
        (next.proc i).pagetable = (kernel.proc i).pagetable ∧
        (next.proc i).sz = (kernel.proc i).sz := by
  obtain ⟨posted, posts, _⟩ := kqueuePost_spec kq
    (fun offset => EventName.fork.bytes.getD offset 0) (Int32.ofInt pid) time
  rw [postFork, posts]
  refine ⟨_, rfl, rfl, ?_, ?_⟩
  · exact if_neg fun wakes => wakes.1 rfl
  · intro i
    simp only [Kernel.wakeup]
    split <;> exact ⟨rfl, rfl, rfl⟩

/-- The end of `kfork` writes to memory only the trapframe of the child. -/
theorem kforkChild_returns (differs : current ≠ np)
    (counted : ∀ i f, (kernel.proc current).ofile i = some f → 0 < kernel.fileRef f)
    (cwd : (kernel.proc current).cwd ≠ none) (kq : kernel.kq.Valid) (time : UInt64) :
    ∃ after, kforkChild time current np kernel = .ok ((kernel.proc np).pid, after) ∧
      after.mem = (kernel.inherited current np).mem ∧
      after.proc current = kernel.proc current ∧
      (after.proc np).pid = (kernel.proc np).pid ∧
      (after.proc np).pagetable = (kernel.proc np).pagetable ∧
      (after.proc np).sz = (kernel.proc current).sz := by
  have parent : (kernel.inherited current np).proc current = kernel.proc current :=
    Function.update_of_ne differs _ _
  have child : (kernel.inherited current np).proc np =
      { kernel.proc np with sz := (kernel.proc current).sz } :=
    Function.update_self ..
  obtain ⟨filed, first, inheriting⟩ : ∃ next, perform (dupFile current np)
      NOFILE (kernel.inherited current np) = .ok ((), next) ∧ _ :=
    Inheriting.dupFiles differs (by rw [parent]; exact counted) NOFILE
  obtain ⟨based, second, mem, same, queue, ofile, cwd, heir⟩ :=
    inheriting.dupCwd differs (by rwa [parent])
  let named := based.setProc np
    { based.proc np with
      name := safestrcpy (based.proc np).name (CString.byteAt (kernel.proc current).name) 16
      parent := some current
      state := .runnable }
  obtain ⟨after, third, unwritten, unwoken, kept⟩ :=
    postFork_returns (show named.kq.Valid by
      rw [show named.kq = based.kq from rfl, queue]; exact kq)
      current time (kernel.proc np).pid
  have renamed : named.proc np =
      { based.proc np with
        name := safestrcpy (based.proc np).name (CString.byteAt (kernel.proc current).name) 16
        parent := some current
        state := .runnable } :=
    Function.update_self ..
  refine ⟨after, ?_, unwritten.trans mem, ?_, ?_, ?_, ?_⟩
  · rw [kforkChild, Action.bind_ok rfl, Action.bind_ok rfl, Action.bind_ok rfl,
      Action.bind_ok rfl, Action.bind_ok rfl]
    refine (Action.bind_ok first).trans ?_
    rw [Action.bind_ok second, Action.bind_ok rfl]
    exact Action.bind_ok third
  · exact unwoken.trans ((Function.update_of_ne differs _ _).trans (same.trans parent))
  · rw [(kept np).1, renamed, heir, child]
  · rw [(kept np).2.1, renamed, heir, child]
  · rw [(kept np).2.2, renamed, heir, child]

end Child

/-- A call of `kfork` that has made process `np`, with its trapframe in page
`frame` and the page table `new`. -/
structure Forked (kend trampoline current : Nat) (kernel : Kernel)
    (table : PageTable) (np frame : Nat) (new : PageTable) (after : Kernel) : Prop where
  chosen : kernel.unusedSlot = some np
  differs : current ≠ np
  parent : after.proc current = kernel.proc current
  pid : (after.proc np).pid = kernel.nextpid
  pagetable : (after.proc np).pagetable = UInt64.ofNat (new.root * PGSIZE)
  sz : (after.proc np).sz = (kernel.proc current).sz
  owns : Owns kernel.mem.freelist kernel.mem.ram {frame} new after.mem
  shape : UserTable trampoline frame (npages (kernel.proc current).sz) new
  copied : PagesCopied kernel.mem.ram table new after.mem (npages (kernel.proc current).sz)

namespace Kernel.Ready

section

variable (ready : kernel.Ready kend trampoline current trapframe table)

include ready

theorem differs (found : kernel.unusedSlot = some np) : current ≠ np := by
  rintro rfl
  exact ready.running (Kernel.unusedSlot_unused found)

/-- The trapframe of the child is in no page of its memory. -/
theorem forked (found : kernel.unusedSlot = some np) {new : PageTable}
    {mem : PhysicalMemory} {after : Kernel}
    (owns : Owns kernel.mem.freelist kernel.mem.ram {frame} new mem)
    (shape : UserTable trampoline frame (npages (kernel.proc current).sz) new)
    (copied : PagesCopied kernel.mem.ram table new mem (npages (kernel.proc current).sz))
    (written : after.mem = ((kernel.allocated np
      (UInt64.ofNat (frame * PGSIZE)) (UInt64.ofNat (new.root * PGSIZE))
      mem).inherited current np).mem) (parent : after.proc current = kernel.proc current)
    (pid : (after.proc np).pid = kernel.nextpid)
    (pagetable : (after.proc np).pagetable = UInt64.ofNat (new.root * PGSIZE))
    (sz : (after.proc np).sz = (kernel.proc current).sz) :
    Forked kend trampoline current kernel table np frame new after := by
  have pages := ready.space.freePages
  have member := owns.stocked.mem_held (Multiset.mem_add.mpr
    (.inl (Multiset.mem_singleton_self frame)))
  have same (address : Nat) (apart : address / PGSIZE ≠ frame) :
      after.mem.ram address = mem.ram address := by
    rw [written, Kernel.inherited, allocated_proc]
    simp only [Kernel.setProc, pages.address member]
    refine (Ram.store_of_ne _ (show 14 < 512 by decide) 0 apart).trans (if_neg ?_)
    simp only [PGSIZE] at apart ⊢
    omega
  have unlisted : after.mem = { mem with ram := after.mem.ram } := by
    rw [written]
    rfl
  refine ⟨found, ready.differs found, parent, pid, pagetable, sz, ?_, shape,
    copied.keep shape.limit (fun _ _ => rfl) ?_⟩
  · rw [unlisted]
    exact owns.write pages (Multiset.mem_singleton_self frame) same
  · intro address inside
    apply same
    rintro rfl
    exact (owns.loose pages (Multiset.mem_singleton_self _)).1 (Multiset.mem_add.mpr (.inr inside))

theorem kfork_returns (time : UInt64) :
    (∃ after, kfork kend trampoline time current kernel = .ok (-1, after) ∧ NoTrace kernel after) ∨
    ∃ np frame new after, kfork kend trampoline time current kernel =
        .ok ((kernel.nextpid : Int), after) ∧
      Forked kend trampoline current kernel table np frame new after := by
  cases found : kernel.unusedSlot with
  | none =>
    refine .inl ⟨kernel, ?_, .refl _, fun _ _ => rfl, rfl, rfl, rfl, .inl rfl, fun _ _ => rfl, ?_⟩
    · have none : allocproc kend trampoline kernel = .ok (none, kernel) := by rw [allocproc, found]
      rw [kfork, Action.bind_ok none]
      rfl
    · intro np same
      rw [found] at same
      cases same
  | some np =>
    have differs := ready.differs found
    have pages := ready.space.freePages
    have finds : allocproc kend trampoline kernel = allocprocFound kend trampoline np kernel := by
      rw [allocproc, found]
    obtain ⟨_, _, empty⟩ := ready.blank np (Kernel.unusedSlot_unused found)
    rcases ready.allocprocFound_returns found with
      ⟨after, allocates, trace⟩ | ⟨frame, new, mem, allocates, owns, shape⟩
    · refine .inl ⟨after, ?_, trace⟩
      rw [kfork, Action.bind_ok (finds.trans allocates)]
      rfl
    · have parent : (kernel.allocated np (UInt64.ofNat (frame * PGSIZE))
          (UInt64.ofNat (new.root * PGSIZE)) mem).proc current = kernel.proc current :=
        Function.update_of_ne differs _ _
      obtain ⟨value, copy, result, copies, root, owned, ends⟩ :=
        ready.space.elsewhere.uvmcopy_returns pages ready.space.shape.limit owns shape
      rw [← ready.space.pagetable] at copies
      have reaches : kfork kend trampoline time current kernel = (if value < 0 then do
            freeproc kend np
            pure (-1)
          else kforkChild time current np) (kernel.allocated np
            (UInt64.ofNat (frame * PGSIZE)) (UInt64.ofNat (copy.root * PGSIZE))
            result) := by
        rw [kfork, Action.bind_ok (finds.trans allocates)]
        simp only
        rw [Action.bind_ok rfl, Action.bind_ok rfl, parent, allocated_proc,
          Action.bind_ok (allocated_memory copies), root]
      obtain ⟨made, made_eq⟩ : ∃ made, made = kernel.allocated np
        (UInt64.ofNat (frame * PGSIZE)) (UInt64.ofNat (copy.root * PGSIZE))
        result := ⟨_, rfl⟩
      rw [← made_eq] at reaches
      have child : made.proc np =
          { kernel.proc np with
            pid := kernel.nextpid
            state := .used
            trapframe := UInt64.ofNat (frame * PGSIZE)
            pagetable := UInt64.ofNat (copy.root * PGSIZE) } := by
        rw [made_eq, allocated_proc]
      have elder : made.proc current = kernel.proc current := by
        rw [made_eq]
        exact Function.update_of_ne differs _ _
      have counted : made.fileRef = kernel.fileRef := by
        rw [made_eq]
        rfl
      have queued : made.kq = kernel.kq := by
        rw [made_eq]
        rfl
      have memory : made.mem = result := by
        rw [made_eq]
        rfl
      rw [← memory] at owned
      rcases ends with ⟨rfl, kept⟩ | ⟨rfl, kept, copied⟩
      · left
        have small : UserTable trampoline frame (npages (made.proc np).sz)
            copy := by
          rw [child, empty]
          exact kept
        obtain ⟨last, frees, final⟩ : ∃ last, freeproc kend np made =
            .ok ((), made.freed np last) ∧ _ :=
          freeproc_table pages owned small (by rw [child]) (by rw [child])
        rw [made_eq] at frees
        refine ⟨(kernel.allocated np (UInt64.ofNat (frame * PGSIZE))
          (UInt64.ofNat (copy.root * PGSIZE)) result).freed np last, ?_,
          noTrace_freed found final⟩
        rw [reaches, if_pos (by decide), made_eq, Action.bind_ok frees]
        rfl
      · right
        obtain ⟨after, finishes, written, same, pid, pagetable, sz⟩ :
            ∃ after, kforkChild time current np made = _ ∧ _ :=
          kforkChild_returns differs (by rw [elder, counted]; exact ready.files)
            (by rw [elder]; exact ready.cwd) (by rw [queued]; exact ready.kq)
            time
        rw [made_eq] at written
        rw [memory] at owned
        refine ⟨np, frame, copy, after, ?_, ready.forked found owned kept copied
          written (same.trans elder) ?_ ?_ ?_⟩
        · rw [reaches, if_neg (by decide)]
          refine finishes.trans ?_
          rw [child]
        · rw [pid, child]
        · rw [pagetable, child]
        · rw [sz, elder]

end

end Kernel.Ready

end Returns

end Xv6KernelEvent.Fork
