import Xv6KernelEvent.Memory.UserTables
import Xv6KernelEvent.Memory.ExactCopies

/-!
# Processes that share physical memory

Processes with address spaces of their own take turns: a process stores a byte,
takes a page fault, lets a system call write to its memory, or calls `sbrk`.
They have the free list in common, but a page is in the hands of one process
at most, so that what one of them does is not seen by the others.
-/

namespace Xv6KernelEvent

open Custody

namespace CurrentProcess

/-- `growproc`, on 64 bits. -/
def growproc (kend : Nat) (n : Int) (p : CurrentProcess) : MemoryM (Int × CurrentProcess) :=
  let newsz := ((p.sz + n) % 2 ^ 64).toNat
  if n > 0 then
    if newsz > TRAPFRAME * PGSIZE then pure (-1, p)
    else do
      let sz ← MemoryM.uvmalloc kend p.pagetable p.sz newsz PTE_W
      if sz = 0 then pure (-1, p) else pure (0, { p with sz := sz })
  else if n < 0 then do
    let sz ← MemoryM.uvmdealloc kend p.pagetable p.sz newsz
    pure (0, { p with sz := sz })
  else pure (0, p)

/-- `sys_sbrk(n, t)`. -/
def sysSbrk (kend : Nat) (n t : Int) (p : CurrentProcess) : MemoryM (Int × CurrentProcess) :=
  let addr := p.sz
  if t = ProcessMemory.SBRK_EAGER ∨ n < 0 then do
    let (value, p) ← p.growproc kend n
    if value < 0 then pure (-1, p) else pure ((addr : Int), p)
  else
    let newsz := ((p.sz + n) % 2 ^ 64).toNat
    if newsz < addr then pure (-1, p)
    else if newsz > TRAPFRAME * PGSIZE then pure (-1, p)
    else pure ((addr : Int), { p with sz := newsz })

end CurrentProcess

/-- A store instruction in user mode.  Without the permission it traps and
stores nothing. -/
def PhysicalMemory.userStore (mem : PhysicalMemory) (pagetable va : UInt64)
    (byte : UInt8) : PhysicalMemory :=
  match mem.translate pagetable va with
  | some (pa, flags) =>
    if flags &&& PTE_U ≠ 0 ∧ flags &&& PTE_W ≠ 0 then
      { mem with
        ram := mem.ram.memmove (pa.toNat + va.toNat % PGSIZE) (fun _ => byte) 1 }
    else mem
  | none => mem

/-- What a process does to its memory.  `copyout` stands for the system calls
that write there. -/
inductive UserStep where
  | store (va : UInt64) (byte : UInt8)
  | fault (va : UInt64)
  | copyout (dstva : UInt64) (src : Nat → UInt8) (len : UInt64)
  | sbrk (n t : Int32)

def UserStep.act (kend : Nat) (p : CurrentProcess) : UserStep → MemoryM CurrentProcess
  | .store va byte => fun mem => .ok (p, mem.userStore p.pagetable va byte)
  | .fault va => fun mem =>
    match mem.vmfault kend p p.pagetable va with
    | .error reason => .error reason
    | .ok (_, mem) => .ok (p, mem)
  | .copyout dstva src len => fun mem =>
    match mem.copyout kend p p.pagetable dstva src len with
    | .error reason => .error reason
    | .ok (_, mem) => .ok (p, mem)
  | .sbrk n t => do
    let (_, p) ← p.sysSbrk kend n.toInt t.toInt
    pure p

section Act

/-- A process has acted: it has an address space in the pages that were its own
or free, and other memory is unchanged. -/
structure Acted (kend trampoline trapframe : Nat) (mem : PhysicalMemory)
    (table : PageTable) (p : CurrentProcess) (result : PhysicalMemory)
    (after : PageTable) : Prop where
  space : AddressSpace kend trampoline trapframe p result after
  pool : ∀ frame ∈ after.space + (result.freelist : Multiset Nat),
    frame ∈ table.space + (mem.freelist : Multiset Nat)
  outside : ∀ address, address / PGSIZE ∉ table.space + (mem.freelist : Multiset Nat) →
      result.ram address = mem.ram address

theorem Acted.refl (space : AddressSpace kend trampoline trapframe p mem table) :
    Acted kend trampoline trapframe mem table p mem table :=
  ⟨space, fun _ member => member, fun _ _ => rfl⟩

namespace AddressSpace

section

variable (space : AddressSpace kend trampoline trapframe p mem table)

include space

theorem pages : Pages kend (table.space + (mem.freelist : Multiset Nat)) :=
  ⟨space.apart, space.above⟩

theorem owns : Owns (table.space + (mem.freelist : Multiset Nat)) mem.ram 0 table mem :=
  ⟨space.represents, by rw [zero_add], fun _ _ => rfl⟩

theorem acted (leaves : Owns.Leaves (table.space + (mem.freelist : Multiset Nat)) mem.ram 0
      table.root after result) (shape : UserTable trampoline trapframe (npages sz) after) :
    Acted kend trampoline trapframe mem table { p with sz := sz } result
      after := by
  obtain ⟨root, owns⟩ := leaves
  have conserved := owns.stocked.conserved
  rw [zero_add] at conserved
  refine ⟨⟨owns.represents, ?_, shape, ?_, ?_⟩, ?_, owns.stocked.outside⟩
  · rw [root]
    exact space.pagetable
  · rw [conserved]
    exact space.apart
  · rw [conserved]
    exact space.above
  · rw [conserved]
    exact fun _ member => member

/-- A byte in a user page is stored. -/
theorem userStore (va : UInt64) (byte : UInt8) :
    Acted kend trampoline trapframe mem table p (mem.userStore p.pagetable va byte) table := by
  rw [PhysicalMemory.userStore, space.translate]
  cases mapped : table.leaf (va.toNat / PGSIZE) with
  | none => exact .refl space
  | some leaf =>
    simp only [Option.map_some]
    split
    · rename_i allowed
      have small := Nat.mod_lt va.toNat PGSIZE_pos
      obtain ⟨_, member, _⟩ := space.user_frame mapped allowed.1
      rw [frame_address (space.represents.leaves mapped).1]
      refine ⟨space.memmove _ mapped allowed.1 small, fun _ same => same, ?_⟩
      intro address outside
      apply if_neg
      rintro ⟨low, high⟩
      have here : address / PGSIZE = leaf.frame := by
        simp only [PGSIZE] at low high small ⊢
        omega
      rw [here] at outside
      exact outside (Multiset.mem_add.mpr (.inl (Multiset.mem_add.mpr (.inr member))))
    · exact .refl space

end

theorem acted_of_resolved (resolved : Resolved kend trampoline trapframe p mem table page pa result
      after) : Acted kend trampoline trapframe mem table p result after := by
  refine ⟨resolved.space, resolved.pool_space, ?_⟩
  intro address outside
  rw [Multiset.mem_add, not_or] at outside
  refine resolved.spares address (Owns.not_node outside.1) ?_
  exact fun free => outside.2 free

section

variable (space : AddressSpace kend trampoline trapframe p mem table)

include space

/-- A page fault at any address. -/
theorem fault (va : UInt64) :
    ∃ pa result after, mem.vmfault kend p p.pagetable va = .ok (pa, result) ∧
      Acted kend trampoline trapframe mem table p result after := by
  by_cases beyond : va.toNat ≥ p.sz
  · refine ⟨0, mem, table, ?_, .refl space⟩
    rw [PhysicalMemory.vmfault, if_pos beyond]
  · have limit := npages_le_iff.mp space.shape.limit
    have last : TRAPFRAME * PGSIZE ≤ MAXVA := by decide
    have below : va.toNat / PGSIZE < VPAGES := by
      refine (Nat.div_lt_iff_lt_mul PGSIZE_pos).mpr ?_
      have pages : VPAGES * PGSIZE = MAXVA := by decide
      omega
    obtain ⟨value, _, _⟩ := page_address below
    have rounded := pgrounddown_le va.toNat
    have again : mem.vmfault kend p p.pagetable va = mem.vmfault kend p p.pagetable
          (UInt64.ofNat (va.toNat / PGSIZE * PGSIZE)) := by
      have aligned : pgrounddown (va.toNat / PGSIZE * PGSIZE) = va.toNat / PGSIZE * PGSIZE := by
        rw [pgrounddown, Nat.mul_div_cancel _ PGSIZE_pos]
      rw [pgrounddown] at rounded
      rw [PhysicalMemory.vmfault, PhysicalMemory.vmfault, value, aligned,
        if_neg beyond, if_neg (by omega)]
      rfl
    cases mapped : table.leaf (va.toNat / PGSIZE) with
    | some leaf =>
      refine ⟨0, mem, table, ?_, .refl space⟩
      rw [PhysicalMemory.vmfault, if_neg beyond]
      simp only
      rw [pgrounddown, space.ismapped below, mapped]
      rfl
    | none =>
      obtain ⟨pa, result, after, faults, resolved⟩ := space.vmfault below (by simp [mapped])
      exact ⟨pa, result, after, again.trans faults, acted_of_resolved resolved⟩

theorem copyout (dstva : UInt64) (src : Nat → UInt8) (len : UInt64) :
    ∃ value result after, mem.copyout kend p p.pagetable dstva src len = .ok (value, result) ∧
      Acted kend trampoline trapframe mem table p result after := by
  obtain ⟨value, _, result, after, copies, _, _, _, copied⟩ :=
    space.copyoutLoop src le_rfl dstva.toNat_lt
  refine ⟨value, result, after, copies, copied.space, copied.pool, ?_⟩
  intro address outside
  by_contra changed
  rw [Multiset.mem_add, not_or] at outside
  rcases copied.confined address changed with
    node | free | ⟨page, leaf, mapped, same, user, _⟩
  · exact Owns.not_node outside.1 node
  · exact outside.2 free
  · obtain ⟨_, member, _⟩ := space.user_frame mapped user
    rw [same] at member
    exact outside.1 (Multiset.mem_add.mpr (.inr member))

theorem uvmalloc (newsz : Nat) :
    Realizes PhysicalMemory.freelist (fun (sz, after) value result => value = sz ∧
        Owns.Leaves (table.space + mem.freelist) mem.ram 0 table.root after result)
      (table.uvmalloc p.sz newsz PTE_W)
      (MemoryM.uvmalloc kend p.pagetable p.sz newsz PTE_W) mem := by
  rw [space.pagetable]
  refine space.owns.uvmalloc space.pages (by decide) rfl (npages_le_iff.mp space.shape.limit) ?_
  rw [space.shape.trapframe]
  exact nofun

theorem uvmdealloc (newsz : Nat) :
    Realizes PhysicalMemory.freelist (fun (sz, after) value result => value = sz ∧
        Owns.Leaves (table.space + mem.freelist) mem.ram 0 table.root after result)
      (table.uvmdealloc p.sz newsz)
      (MemoryM.uvmdealloc kend p.pagetable p.sz newsz) mem := by
  rw [space.pagetable]
  exact space.owns.uvmdealloc space.pages rfl (npages_le_iff.mp space.shape.limit)

end

/-- What `growproc` does to memory and to the size, by what it does to the
tree. -/
def Resized (stock : Multiset Nat) (ram : Ram) (root : Nat)
    (p : CurrentProcess) (grown : Bool) (q : ProcessMemory)
    (outcome : Int × CurrentProcess) (result : PhysicalMemory) : Prop :=
  outcome = (if grown then 0 else -1, { p with sz := q.sz }) ∧
    Owns.Leaves stock ram 0 root q.table result

section

variable (space : AddressSpace kend trampoline trapframe p mem table)

include space

theorem growproc_realizes (n : Int) :
    Realizes PhysicalMemory.freelist (fun (grown, q) outcome result =>
        q.trapframe = trapframe ∧ Resized (table.space + mem.freelist) mem.ram
          table.root p grown q outcome result)
      (ProcessMemory.growproc { trapframe := trapframe, table := table, sz := p.sz } n)
      (p.growproc kend n) mem := by
  rw [ProcessMemory.growproc, CurrentProcess.growproc]
  simp only
  split
  · split
    · exact .pure ⟨rfl, rfl, rfl, space.owns⟩
    · refine (space.uvmalloc _).seq ?_
      rintro ⟨sz, after⟩ - result ⟨rfl, left⟩
      simp only
      split
      · exact .pure ⟨rfl, rfl, left⟩
      · exact .pure ⟨rfl, rfl, left⟩
  · split
    · refine (space.uvmdealloc _).seq ?_
      rintro ⟨sz, after⟩ - result ⟨rfl, left⟩
      exact .pure ⟨rfl, rfl, left⟩
    · exact .pure ⟨rfl, rfl, rfl, space.owns⟩

theorem growproc (low : -2 ^ 31 ≤ n) (high : n < 2 ^ 31) :
    ∃ value q result after, p.growproc kend n mem = .ok ((value, q), result) ∧
      Acted kend trampoline trapframe mem table q result after := by
  have sound : ProcessMemory.Sound trampoline
      { trapframe := trapframe, table := table, sz := p.sz } := space.shape
  obtain ⟨⟨grown, q⟩, _, outcome, result, grows, ⟨place, same, left⟩,
    ⟨_, kept, _⟩, _⟩ := (space.growproc_realizes n).execute
      (growproc_accounts sound low high) (le_refl _)
  obtain rfl := same
  rw [ProcessMemory.Sound, place] at kept
  exact ⟨_, _, result, q.table, grows, space.acted left kept⟩

theorem sysSbrk (low : -2 ^ 31 ≤ n) (high : n < 2 ^ 31) (t : Int) :
    ∃ value q result after, p.sysSbrk kend n t mem = .ok ((value, q), result) ∧
      Acted kend trampoline trapframe mem table q result after := by
  have limit := npages_le_iff.mp space.shape.limit
  rw [CurrentProcess.sysSbrk]
  simp only
  split
  · obtain ⟨value, q, result, after, grows, acted⟩ := space.growproc low high
    rw [Action.bind_ok grows]
    simp only
    split
    · exact ⟨-1, q, result, after, rfl, acted⟩
    · exact ⟨p.sz, q, result, after, rfl, acted⟩
  · split
    · exact ⟨-1, p, mem, table, rfl, .refl space⟩
    · rename_i grows
      split
      · exact ⟨-1, p, mem, table, rfl, .refl space⟩
      · rename_i fits
        refine ⟨p.sz, _, mem, table, rfl, space.acted ⟨rfl, space.owns⟩ ?_⟩
        exact space.shape.widen (npages_mono (not_lt.mp grows))
          (npages_le_iff.mpr (not_lt.mp fits))

theorem act (step : UserStep) :
    ∃ q result after, step.act kend p mem = .ok (q, result) ∧
      Acted kend trampoline trapframe mem table q result after := by
  cases step with
  | store va byte => exact ⟨p, _, table, rfl, space.userStore va byte⟩
  | fault va =>
    obtain ⟨pa, result, after, faults, acted⟩ := space.fault va
    refine ⟨p, result, after, ?_, acted⟩
    simp only [UserStep.act, faults]
  | copyout dstva src len =>
    obtain ⟨value, result, after, copies, acted⟩ := space.copyout dstva src len
    refine ⟨p, result, after, ?_, acted⟩
    simp only [UserStep.act, copies]
  | sbrk n t =>
    obtain ⟨value, q, result, after, returns, acted⟩ := space.sysSbrk n.le_toInt n.toInt_lt t.toInt
    exact ⟨q, result, after, Action.bind_ok returns, acted⟩

end

end AddressSpace

/-- A process does not notice what another one does. -/
theorem Acted.frame {frame : Nat} (acted : Acted kend trampoline trapframe mem table q result after)
    (space : AddressSpace kend trampoline frame other mem elsewhere)
    (apart : Disjoint elsewhere.space table.space) :
    AddressSpace kend trampoline frame other result elsewhere ∧
      Disjoint elsewhere.space after.space ∧
      ∀ va, result.userByte other va = mem.userByte other va := by
  have outside {page : Nat} (member : page ∈ elsewhere.space) :
      page ∉ table.space + (mem.freelist : Multiset Nat) := by
    rw [Multiset.mem_add, not_or]
    exact ⟨Multiset.disjoint_left.mp apart member, Multiset.disjoint_left.mp
      (Multiset.nodup_add.mp space.apart).2.2 member⟩
  have unfree {page : Nat} (free : page ∈ (result.freelist : Multiset Nat)) :
      page ∈ table.space + (mem.freelist : Multiset Nat) :=
    acted.pool page (Multiset.mem_add.mpr (.inr free))
  have distinct : (elsewhere.space + (result.freelist : Multiset Nat)).Nodup := by
    refine Multiset.nodup_add.mpr ⟨(Multiset.nodup_add.mp space.apart).1,
      (Multiset.nodup_add.mp acted.space.apart).2.1,
      Multiset.disjoint_left.mpr ?_⟩
    intro page member free
    exact outside member (unfree free)
  have same (address : Nat) (member : address / PGSIZE ∈ elsewhere.space) :
      result.ram address = mem.ram address :=
    acted.outside address (outside member)
  have represents : Represents result elsewhere := by
    refine space.represents.agree ?_ ?_ ?_
    · intro address node
      exact same address (Multiset.mem_add.mpr (.inl node))
    · refine Multiset.nodup_of_le ?_ distinct
      exact add_le_add_left (Multiset.le_add_right _ _) _
    · intro page free
      exact acted.space.represents.small page
        (Multiset.mem_add.mpr (.inr free))
  have kept : AddressSpace kend trampoline frame other result elsewhere := by
    refine ⟨represents, space.pagetable, space.shape, distinct, ?_⟩
    intro page member
    rcases Multiset.mem_add.mp member with owned | free
    · exact space.above page (Multiset.mem_add.mpr (.inl owned))
    · exact acted.space.above page (Multiset.mem_add.mpr (.inr free))
  refine ⟨kept, Multiset.disjoint_left.mpr ?_, space.userByte_congr kept same⟩
  intro page member taken
  exact outside member (acted.pool page (Multiset.mem_add.mpr (.inl taken)))

end Act

section UserMachine

variable {ι : Type} [DecidableEq ι]

/-- Processes on one physical memory. -/
structure UserMachine (ι : Type) where
  mem : PhysicalMemory
  proc : ι → CurrentProcess

/-- A process takes a step.  There is no next state if the kernel panics. -/
def UserMachine.next (kend : Nat) (machine : UserMachine ι) (turn : ι × UserStep) :
    Option (UserMachine ι) :=
  match turn.2.act kend (machine.proc turn.1) machine.mem with
  | .error _ => none
  | .ok (p, mem) => some { mem := mem, proc := Function.update machine.proc turn.1 p }

/-- Every process has an address space, and no page is in two of them. -/
def UserMachine.Isolated (kend trampoline : Nat) (machine : UserMachine ι) : Prop :=
  ∃ (trapframe : ι → Nat) (table : ι → PageTable),
    (∀ i, AddressSpace kend trampoline (trapframe i) (machine.proc i) machine.mem (table i)) ∧
    ∀ i j, i ≠ j → Disjoint (table i).space (table j).space

/-- What process `i` finds at an address. -/
def UserMachine.userByte (machine : UserMachine ι) (i : ι) (va : UInt64) : Option UInt8 :=
  machine.mem.userByte (machine.proc i) va

variable {machine : UserMachine ι}

theorem UserMachine.Isolated.next
    (isolated : machine.Isolated kend trampoline) (i : ι) (step : UserStep) :
    ∃ after, machine.next kend (i, step) = some after ∧ after.Isolated kend trampoline ∧
      ∀ j ≠ i, ∀ va, after.userByte j va = machine.userByte j va := by
  obtain ⟨trapframe, table, spaces, apart⟩ := isolated
  obtain ⟨p, result, after, acts, acted⟩ := (spaces i).act step
  refine ⟨{ mem := result, proc := Function.update machine.proc i p }, ?_,
    ⟨trapframe, Function.update table i after, ?_, ?_⟩, ?_⟩
  · rw [UserMachine.next, acts]
  · intro j
    by_cases same : j = i
    · subst j
      simp only [Function.update_self]
      exact acted.space
    · simp only [Function.update_of_ne same]
      exact (acted.frame (spaces j) (apart j i same)).1
  · intro j k differs
    by_cases first : j = i
    · subst j
      rw [Function.update_self, Function.update_of_ne differs.symm]
      exact (acted.frame (spaces k) (apart k i differs.symm)).2.1.symm
    · by_cases second : k = i
      · subst k
        rw [Function.update_self, Function.update_of_ne first]
        exact (acted.frame (spaces j) (apart j i first)).2.1
      · rw [Function.update_of_ne first, Function.update_of_ne second]
        exact apart j k differs
  · intro j differs va
    simp only [UserMachine.userByte, Function.update_of_ne differs]
    exact (acted.frame (spaces j) (apart j i differs)).2.2 va

/-- In every run, a step changes what its own process sees and nothing else. -/
theorem UserMachine.Isolated.run
    (isolated : machine.Isolated kend trampoline) (turns : List (ι × UserStep)) :
    ∃ last, Runs.run (UserMachine.next kend) machine turns = some last ∧
      last.Isolated kend trampoline ∧
      ∀ j, (∀ turn ∈ turns, turn.1 ≠ j) → ∀ va, last.userByte j va = machine.userByte j va := by
  induction turns generalizing machine with
  | nil => exact ⟨machine, rfl, isolated, fun _ _ _ => rfl⟩
  | cons turn turns induction =>
    obtain ⟨i, step⟩ := turn
    obtain ⟨after, taken, kept, same⟩ := isolated.next i step
    obtain ⟨last, runs, final, later⟩ := induction kept
    refine ⟨last, ?_, final, ?_⟩
    · rw [Runs.run, taken]
      exact runs
    · intro j others va
      rw [later j (fun turn member => others turn (List.mem_cons_of_mem _ member)) va]
      exact same j (others (i, step) List.mem_cons_self).symm va

end UserMachine

end Xv6KernelEvent
