import Xv6KernelEvent.Memory.Isolation
import Xv6KernelEvent.Memory.KernelFork

/-!
# What `fork` does to the memory of processes

A `fork` that fails leaves no trace.  One that succeeds makes a copy of the
memory of its caller, and from then on parent and child do not see what the
other one does.
-/

namespace Xv6KernelEvent.Fork

open Custody Process

/-- What the functions of `kernel/vm.c` know of a process. -/
def Kernel.process (kernel : Kernel) (i : Nat) : CurrentProcess :=
  { pagetable := (kernel.proc i).pagetable
    sz := (kernel.proc i).sz }

/-- A parent and, at `true`, its child. -/
def Kernel.family (kernel : Kernel) (parent child : Nat) : UserMachine Bool :=
  { mem := kernel.mem
    proc := fun who => kernel.process (if who then child else parent) }

section Forked

variable {table new : PageTable} {kernel after : Kernel}

/-- The pages of the child were free, and so are those that are free now. -/
theorem Forked.taken (forked : Forked kend trampoline current kernel table np frame new after) :
    new.space + (after.mem.freelist : Multiset Nat) ≤ kernel.mem.freelist := by
  rw [← forked.owns.stocked.conserved, add_assoc]
  exact Multiset.le_add_left _ _

section

variable (ready : kernel.Ready kend trampoline current trapframe table)

include ready

section

variable (forked : Forked kend trampoline current kernel table np frame new after)

include forked

theorem Forked.childSpace :
    AddressSpace kend trampoline frame (after.process np) after.mem new where
  represents := forked.owns.represents
  pagetable := forked.pagetable
  shape := by
    rw [Kernel.process, forked.sz]
    exact forked.shape
  apart := Multiset.nodup_of_le forked.taken ready.space.freePages.distinct
  above page member := ready.space.freePages.above page (Multiset.mem_of_le forked.taken member)

theorem Forked.parentSpace :
    AddressSpace kend trampoline trapframe (after.process current) after.mem
      table := by
  have free : table.space + (after.mem.freelist : Multiset Nat) ≤
      table.space + kernel.mem.freelist :=
    add_le_add_right ((Multiset.le_add_left _ _).trans forked.taken) _
  refine ⟨ready.space.elsewhere.stays ready.space.freePages forked.owns.stocked, ?_, ?_,
    Multiset.nodup_of_le free ready.space.apart,
    fun page member => ready.space.above page (Multiset.mem_of_le free member)⟩
  · rw [Kernel.process, forked.parent]
    exact ready.space.pagetable
  · rw [Kernel.process, forked.parent]
    exact ready.space.shape

theorem Forked.isolated : (after.family current np).Isolated kend trampoline := by
  have apart : Disjoint table.space new.space := by
    refine Multiset.disjoint_left.mpr fun member taken => ?_
    exact Multiset.disjoint_left.mp (Multiset.nodup_add.mp ready.space.apart).2.2 member
      (Multiset.mem_of_le forked.taken (Multiset.mem_add.mpr (.inl taken)))
  refine ⟨fun who => if who then frame else trapframe,
    fun who => if who then new else table, ?_, ?_⟩
  · intro who
    cases who with
    | false => exact forked.parentSpace ready
    | true => exact forked.childSpace ready
  · intro who other differs
    cases who with
    | false =>
      cases other with
      | false => exact absurd rfl differs
      | true => exact apart
    | true =>
      cases other with
      | false => exact apart.symm
      | true => exact absurd rfl differs

/-- The child has leaves where the parent has them, with the same flags and,
for the user, the same bytes. -/
theorem Forked.leaf (page : Nat) :
    match table.leaf page with
    | none => new.leaf page = none
    | some leaf => ∃ copy, new.leaf page = some { frame := copy, flags := leaf.flags } ∧
          (leaf.flags &&& PTE_U ≠ 0 → ∀ offset < PGSIZE, after.mem.ram (copy * PGSIZE + offset) =
              kernel.mem.ram (leaf.frame * PGSIZE + offset)) := by
  rcases Nat.lt_or_ge page (npages (kernel.proc current).sz) with below | above
  · have copied := forked.copied page below
    cases mapped : table.leaf page with
    | none =>
      rw [mapped] at copied
      exact copied
    | some leaf =>
      rw [mapped] at copied
      obtain ⟨copy, present, bytes⟩ := copied
      exact ⟨copy, present, fun _ => bytes⟩
  · by_cases top : page = TRAMPOLINE
    · subst page
      rw [ready.space.shape.trampoline]
      exact ⟨trampoline, forked.shape.trampoline, absurd
        (show (PTE_R ||| PTE_X ||| PTE_V) &&& PTE_U = 0 by decide)⟩
    · by_cases next : page = TRAPFRAME
      · subst page
        rw [ready.space.shape.trapframe]
        exact ⟨frame, forked.shape.trapframe, absurd
          (show (PTE_R ||| PTE_W ||| PTE_V) &&& PTE_U = 0 by decide)⟩
      · have bare {other : PageTable} {registers : Nat} (shape : UserTable trampoline registers
              (npages (kernel.proc current).sz) other) :
            other.leaf page = none := by
          by_contra mapped
          rcases shape.bounded page mapped with found | found | found
          · exact top found
          · exact next found
          · exact absurd found (Nat.not_lt.mpr above)
        rw [bare ready.space.shape]
        exact bare forked.shape

theorem Forked.view (va : Nat) :
    view after.mem.ram new (after.process np).sz va =
      view kernel.mem.ram table (kernel.process current).sz va := by
  have same : (after.process np).sz = (kernel.process current).sz := forked.sz
  have leaf := forked.leaf ready (va / PGSIZE)
  rw [Xv6KernelEvent.view, Xv6KernelEvent.view, same]
  cases mapped : table.leaf (va / PGSIZE) with
  | none =>
    simp only [mapped] at leaf
    rw [leaf]
  | some found =>
    simp only [mapped] at leaf
    obtain ⟨copy, present, bytes⟩ := leaf
    rw [present]
    simp only
    by_cases user : found.flags &&& PTE_U = 0
    · rw [if_neg (not_not.mpr user), if_neg (not_not.mpr user)]
    · rw [if_pos user, if_pos user, bytes user _ (Nat.mod_lt _ PGSIZE_pos)]

theorem Forked.userByte (va : UInt64) :
    after.mem.userByte (after.process np) va = kernel.mem.userByte (kernel.process current) va := by
  rw [(forked.childSpace ready).userByte, forked.view ready]
  exact (ready.space.userByte va).symm

theorem Forked.flags (va : UInt64) :
    (after.mem.translate (after.process np).pagetable va).map Prod.snd =
      (kernel.mem.translate (kernel.process current).pagetable va).map
        Prod.snd := by
  have parent : kernel.mem.translate (kernel.process current).pagetable va = _ :=
    ready.space.translate va
  have leaf := forked.leaf ready (va.toNat / PGSIZE)
  rw [(forked.childSpace ready).translate, parent, Option.map_map, Option.map_map]
  cases mapped : table.leaf (va.toNat / PGSIZE) with
  | none =>
    simp only [mapped] at leaf
    rw [leaf]
  | some found =>
    simp only [mapped] at leaf
    obtain ⟨copy, present, _⟩ := leaf
    simp only [present, Option.map_some, Function.comp_apply]

/-- A `copyin` of the child finds what one of the parent would have found. -/
theorem Forked.copyin (va len : UInt64) :
    ∃ value data mem other copy last, kernel.mem.copyin kend (kernel.process current)
          (kernel.process current).pagetable va len = .ok (value, data, mem) ∧
        after.mem.copyin kend (after.process np) (after.process np).pagetable va
          len = .ok (other, copy, last) ∧
        (∀ index < data.length, index < copy.length → data[index]? = copy[index]?) ∧
        (value = 0 → other = 0 → data = copy) := by
  obtain ⟨value, data, mem, _, reads, elder⟩ :=
    ready.space.copyinLoop [] (Nat.le_refl len.toNat) va.toNat_lt
  obtain ⟨other, copy, last, _, copies, younger⟩ :=
    (forked.childSpace ready).copyinLoop [] (Nat.le_refl len.toNat) va.toNat_lt
  have agree (index : Nat) (left : index < data.length)
      (right : index < copy.length) : data[index]? = copy[index]? := by
    rw [← elder.bytes index left, ← younger.bytes index right, forked.view ready]
    rfl
  refine ⟨value, data, mem, other, copy, last, reads, copies, agree, ?_⟩
  rintro rfl rfl
  have first : data.length = len.toNat := by
    rcases elder.ended with ⟨_, all⟩ | ⟨failed, _⟩
    · exact all
    · cases failed
  have second : copy.length = len.toNat := by
    rcases younger.ended with ⟨_, all⟩ | ⟨failed, _⟩
    · exact all
    · cases failed
  apply List.ext_getElem?
  intro index
  rcases Nat.lt_or_ge index len.toNat with inside | outside
  · exact agree index (first ▸ inside) (second ▸ inside)
  · rw [List.getElem?_eq_none (first ▸ outside), List.getElem?_eq_none (second ▸ outside)]

end

end

end Forked

def freePages (count : Nat) : PhysicalMemory :=
  { ram := fun _ => 0
    freelist := (List.range count).map fun i => 0x87FFF - i }

/-- A process of one page that has been sent a byte, on a machine with so many
free pages. -/
def firstProcess (count : Nat) : Option (UInt64 × PhysicalMemory) :=
  match MemoryM.procPagetable KERNBASE 0x80007
    (UInt64.ofNat (0x87000 * PGSIZE)) (freePages count) with
  | .error _ => none
  | .ok (pagetable, mem) =>
    if pagetable = 0 then none
    else
      match mem.copyout KERNBASE { pagetable := pagetable, sz := 4096 }
        pagetable 0 (fun _ => 7) 1 with
      | .error _ => none
      | .ok (_, mem) => some (pagetable, mem)

theorem firstProcess_space (pages : Pages KERNBASE ((freePages count).freelist : Multiset Nat))
    (made : firstProcess count = some (pagetable, mem)) :
    ∃ table, AddressSpace KERNBASE 0x80007 0x87000
        { pagetable := pagetable, sz := 4096 } mem table ∧
      ∀ frame ∈ table.space + (mem.freelist : Multiset Nat),
        frame ∈ (freePages count).freelist := by
  obtain ⟨value, middle, makes, ends⟩ :=
    (freePages count).stocked.procPagetable_returns pages
    (show 0x80007 < 2 ^ 44 by decide) (show 0x87000 < 2 ^ 44 by decide)
  rw [firstProcess, makes] at made
  simp only at made
  split at made
  · cases made
  · rename_i nonzero
    rcases ends with ⟨zero, _⟩ | ⟨_, table, place, owns, shape⟩
    · exact absurd zero nonzero
    · have space : AddressSpace KERNBASE 0x80007 0x87000
          { pagetable := value, sz := 4096 } middle table := by
        rw [place]
        exact owns.addressSpace pages (shape.widen (Nat.zero_le _)
          (show npages 4096 ≤ TRAPFRAME by decide))
      obtain ⟨_, result, after, copies, acted⟩ := space.copyout 0 (fun _ => 7) 1
      rw [show middle.copyout KERNBASE { pagetable := value, sz := 4096 } value 0
        (fun _ => 7) 1 = _ from copies] at made
      cases made
      refine ⟨after, acted.space, fun frame member => ?_⟩
      have conserved := owns.stocked.conserved
      rw [zero_add] at conserved
      have listed := acted.pool frame member
      rw [conserved] at listed
      exact listed

def parentKernel (pagetable : UInt64) (mem : PhysicalMemory) : Kernel :=
  { mem := mem
    proc := fun i =>
      { state := if i = 0 then .running else .unused
        chan := none
        killed := 0
        xstate := 0
        pid := if i = 0 then 1 else 0
        parent := none
        sz := if i = 0 then 4096 else 0
        pagetable := if i = 0 then pagetable else 0
        trapframe := if i = 0 then UInt64.ofNat (0x87000 * PGSIZE) else 0
        ofile := fun _ => none
        cwd := some 1
        name := Vector.replicate 16 0 }
    nextpid := 2
    fileRef := fun _ => 0
    inodeRef := fun _ => 1
    kq := kqueueinit }

theorem parentKernel_ready (pages : Pages KERNBASE ((freePages count).freelist : Multiset Nat))
    (made : firstProcess count = some (pagetable, mem)) :
    ∃ table, (parentKernel pagetable mem).Ready KERNBASE 0x80007 0 0x87000
      table := by
  obtain ⟨table, space, _⟩ := firstProcess_space pages made
  refine ⟨table, space, by decide, nofun, ?_, nofun, nofun, kqueueinit_valid⟩
  intro i unused
  have other : i ≠ 0 := by
    rintro rfl
    cases unused
  exact ⟨if_neg other, if_neg other, if_neg other⟩

/-- `kfork` returns, and if it returns `-1`, nothing is left of it but perhaps
a process number that has been used up. -/
theorem failed_fork_leaves_no_trace {kend trampoline current trapframe : Nat} {table : PageTable}
    {kernel : Kernel} (ready : kernel.Ready kend trampoline current trapframe table)
    (time : UInt64) :
    ∃ value after, kfork kend trampoline time current kernel = .ok (value, after) ∧
      (value = -1 → after.mem.freelist.Perm kernel.mem.freelist ∧
        (∀ address, address / PGSIZE ∉ kernel.mem.freelist →
          after.mem.ram address = kernel.mem.ram address) ∧
        after.fileRef = kernel.fileRef ∧ after.inodeRef = kernel.inodeRef ∧
        after.kq = kernel.kq ∧
        (after.nextpid = kernel.nextpid ∨ after.nextpid = kernel.nextpid + 1) ∧
        after.proc current = kernel.proc current ∧
        (∀ i, kernel.unusedSlot ≠ some i → after.proc i = kernel.proc i) ∧
        ∀ np, kernel.unusedSlot = some np →
          (after.proc np).state = .unused ∧ (after.proc np).pid = 0 ∧
          (after.proc np).parent = none ∧ (after.proc np).pagetable = 0 ∧
          (after.proc np).trapframe = 0 ∧ (after.proc np).sz = 0 ∧
          (after.proc np).killed = 0) := by
  rcases ready.kfork_returns time with
    ⟨after, returns, trace⟩ | ⟨np, frame, new, after, returns, _⟩
  · refine ⟨-1, after, returns, fun _ => ⟨trace.pages, trace.bytes,
      trace.fileRef, trace.inodeRef, trace.kq, trace.nextpid,
      trace.others current fun found => ready.differs found rfl, trace.others,
      ?_⟩⟩
    intro np found
    rw [trace.slot np found]
    exact ⟨rfl, rfl, rfl, rfl, rfl, rfl, rfl⟩
  · exact ⟨_, after, returns, fun failed => by omega⟩

/-- Eight pages are not enough for a process and its child. -/
theorem failed_fork_leaves_no_trace_eight : ∃ kernel table after,
      kernel.Ready KERNBASE 0x80007 0 0x87000 table ∧
      kfork KERNBASE 0x80007 0 0 kernel = .ok (-1, after) ∧
      after.mem.freelist.Perm kernel.mem.freelist ∧
      (after.proc 1).state = .unused ∧ (after.proc 1).pid = 0 := by
  have facts : (firstProcess 8).any (fun made =>
      match kfork KERNBASE 0x80007 0 0 (parentKernel made.1 made.2) with
      | .ok (value, _) => decide (value = -1)
      | .error _ => false) = true := by
    decide +kernel
  rw [Option.any_eq_true] at facts
  obtain ⟨⟨pagetable, mem⟩, made, fails⟩ := facts
  obtain ⟨table, ready⟩ := parentKernel_ready ⟨Multiset.coe_nodup.mpr (by decide), by decide⟩ made
  obtain ⟨value, after, returns, trace⟩ := failed_fork_leaves_no_trace ready 0
  simp only [returns] at fails
  obtain rfl := of_decide_eq_true fails
  obtain ⟨pages, _, _, _, _, _, _, _, slot⟩ := trace rfl
  obtain ⟨state, pid, _⟩ := slot 1 rfl
  exact ⟨_, table, after, ready, returns, pages, state, pid⟩

/-- A child starts with the memory of its parent, and neither sees what the
other one does later. -/
theorem fork_copies_and_isolates {kend trampoline current trapframe : Nat} {table : PageTable}
    {kernel : Kernel} (ready : kernel.Ready kend trampoline current trapframe table)
    (time : UInt64) :
    ∃ value after, kfork kend trampoline time current kernel = .ok (value, after) ∧
      (value ≠ -1 → ∃ np, np ≠ current ∧ (after.proc np).pid = value ∧
        (after.proc np).sz = (kernel.proc current).sz ∧
        (∀ va, after.mem.userByte (after.process np) va =
          kernel.mem.userByte (kernel.process current) va) ∧
        (∀ va : UInt64, va.toNat < (kernel.proc current).sz →
          kernel.mem.translate (kernel.proc current).pagetable va = none →
            after.mem.userByte (after.process np) va = some 0) ∧
        (∀ va, (after.mem.translate (after.proc np).pagetable va).map Prod.snd =
          (kernel.mem.translate (kernel.proc current).pagetable va).map Prod.snd) ∧
        (∀ va len, ∃ value data mem other copy last, kernel.mem.copyin kend (kernel.process current)
            (kernel.proc current).pagetable va len = .ok (value, data, mem) ∧
          after.mem.copyin kend (after.process np) (after.proc np).pagetable va
            len = .ok (other, copy, last) ∧
          (∀ index < data.length, index < copy.length → data[index]? = copy[index]?) ∧
          (value = 0 → other = 0 → data = copy)) ∧
        ∀ turns, ∃ machine, Runs.run (UserMachine.next kend) (after.family current np) turns =
            some machine ∧
          ∀ who (steps : List UserStep), ∃ last, Runs.run (UserMachine.next kend) machine
              (steps.map fun step => (who, step)) = some last ∧
            ∀ va, last.userByte (!who) va = machine.userByte (!who) va) := by
  rcases ready.kfork_returns time with
    ⟨after, returns, _⟩ | ⟨np, frame, new, after, returns, forked⟩
  · exact ⟨-1, after, returns, absurd rfl⟩
  · refine ⟨_, after, returns, fun _ => ⟨np, forked.differs.symm, forked.pid,
      forked.sz, forked.userByte ready, ?_, forked.flags ready,
      forked.copyin ready, ?_⟩⟩
    · intro va inside hole
      rw [forked.userByte ready, PhysicalMemory.userByte, Kernel.process, hole]
      have rounded := pgrounddown_le va.toNat
      exact if_pos (rounded.trans_lt inside)
    · intro turns
      obtain ⟨machine, runs, isolated, _⟩ := (forked.isolated ready).run turns
      refine ⟨machine, runs, ?_⟩
      intro who steps
      obtain ⟨last, later, _, same⟩ := isolated.run (steps.map fun step => (who, step))
      refine ⟨last, later, same (!who) ?_⟩
      intro turn member
      obtain ⟨step, _, rfl⟩ := List.mem_map.mp member
      exact (Bool.not_ne_self who).symm

theorem fork_copies_and_isolates_sixteen : ∃ kernel table after np,
      kernel.Ready KERNBASE 0x80007 0 0x87000 table ∧
      kfork KERNBASE 0x80007 0 0 kernel = .ok (2, after) ∧
      after.mem.userByte (after.process np) 0 = some 7 := by
  have facts : (firstProcess 16).any (fun made : UInt64 × PhysicalMemory =>
      match kfork KERNBASE 0x80007 0 0 (parentKernel made.1 made.2) with
      | .ok (value, _) => decide (value = 2 ∧ made.2.userByte
          ((parentKernel made.1 made.2).process 0) 0 = some 7)
      | .error _ => false) = true := by
    decide +kernel
  rw [Option.any_eq_true] at facts
  obtain ⟨⟨pagetable, mem⟩, made, succeeds⟩ := facts
  obtain ⟨table, ready⟩ := parentKernel_ready ⟨Multiset.coe_nodup.mpr (by decide), by decide⟩ made
  obtain ⟨value, after, returns, forks⟩ := fork_copies_and_isolates ready 0
  simp only [returns] at succeeds
  obtain ⟨rfl, seven⟩ := of_decide_eq_true succeeds
  obtain ⟨np, _, _, _, bytes, _⟩ := forks (by decide)
  refine ⟨_, table, after, np, ready, returns, ?_⟩
  rw [bytes 0]
  exact seven

end Xv6KernelEvent.Fork
