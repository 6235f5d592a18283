import Xv6KernelEvent.Memory.Custodian
import Xv6KernelEvent.Memory.Translation

/-!
# Copying to and from user memory

`walkaddr`, `vmfault`, `copyout` and `copyin` (`kernel/vm.c`) on the bytes of
physical memory.  Addresses and lengths of a copy are natural numbers: each
round that goes on has found its page below `MAXVA`, so that the next address
does not wrap.
-/

namespace Xv6KernelEvent

open Custody

/-- `memmove` from kernel memory. -/
def Ram.memmove (ram : Ram) (pa : Nat) (source : Nat → UInt8) (n : Nat) : Ram :=
  fun address =>
    if pa ≤ address ∧ address < pa + n then source (address - pa)
    else ram address

/-- What `myproc()` says about memory. -/
structure CurrentProcess where
  pagetable : UInt64
  sz : Nat

namespace PhysicalMemory

def walkaddr (pagetable va : UInt64) (mem : PhysicalMemory) : Except String UInt64 :=
  if va.toNat ≥ MAXVA then .ok 0
  else
    match mem.walk pagetable va false with
    | .error reason => .error reason
    | .ok (none, _) => .ok 0
    | .ok (some pte, mem) =>
      if mem.ram.load pte &&& PTE_V = 0 then .ok 0
      else if mem.ram.load pte &&& PTE_U = 0 then .ok 0
      else .ok (pte2pa (mem.ram.load pte))

def ismapped (pagetable va : UInt64) (mem : PhysicalMemory) : Except String Bool :=
  match mem.walk pagetable va false with
  | .error reason => .error reason
  | .ok (none, _) => .ok false
  | .ok (some pte, mem) => .ok (mem.ram.load pte &&& PTE_V != 0)

/-- `vmfault`, for a kernel that ends at `kend`. -/
def vmfault (kend : Nat) (p : CurrentProcess) (pagetable va : UInt64)
    (mem : PhysicalMemory) : Except String (UInt64 × PhysicalMemory) :=
  if va.toNat ≥ p.sz then .ok (0, mem)
  else
    let va := UInt64.ofNat (pgrounddown va.toNat)
    match mem.ismapped pagetable va with
    | .error reason => .error reason
    | .ok true => .ok (0, mem)
    | .ok false =>
      match mem.kalloc with
      | (none, mem) => .ok (0, mem)
      | (some frame, mem) =>
        let cleared : PhysicalMemory := { mem with ram := mem.ram.memset (frame * PGSIZE) 0 PGSIZE }
        match cleared.mappages p.pagetable va 4096
          (UInt64.ofNat (frame * PGSIZE)) (PTE_W ||| PTE_U ||| PTE_R) with
        | .error reason => .error reason
        | .ok (mapped, mem) =>
          if mapped ≠ 0 then
            match mem.kfree kend (frame * PGSIZE) with
            | .error reason => .error reason
            | .ok mem => .ok (0, mem)
          else .ok (UInt64.ofNat (frame * PGSIZE), mem)

/-- How the copies find the page at `va0`. -/
def resolve (kend : Nat) (p : CurrentProcess) (pagetable va0 : UInt64)
    (mem : PhysicalMemory) : Except String (UInt64 × PhysicalMemory) :=
  match mem.walkaddr pagetable va0 with
  | .error reason => .error reason
  | .ok pa0 => if pa0 = 0 then mem.vmfault kend p pagetable va0 else .ok (pa0, mem)

/-- The loop of `copyout`; a round copies at least one byte. -/
def copyoutLoop (kend : Nat) (p : CurrentProcess) (pagetable : UInt64) :
    (fuel : Nat) → (dstva : Nat) → (src : Nat → UInt8) → (len : Nat) →
      PhysicalMemory → Except String (Int × PhysicalMemory)
  | 0, _, _, _, mem => .ok (0, mem)
  | fuel + 1, dstva, src, len, mem =>
    if len = 0 then .ok (0, mem)
    else
      let va0 := pgrounddown dstva
      if va0 ≥ MAXVA then .ok (-1, mem)
      else
        match mem.resolve kend p pagetable (UInt64.ofNat va0) with
        | .error reason => .error reason
        | .ok (pa0, mem) =>
          if pa0 = 0 then .ok (-1, mem)
          else
            match mem.walk pagetable (UInt64.ofNat va0) false with
            | .error reason => .error reason
            | .ok (none, _) => .error "copyout through a null entry"
            | .ok (some pte, mem) =>
              if mem.ram.load pte &&& PTE_W = 0 then .ok (-1, mem)
              else
                let n := min (PGSIZE - (dstva - va0)) len
                copyoutLoop kend p pagetable fuel (va0 + PGSIZE)
                  (fun index => src (index + n)) (len - n)
                  { mem with
                    ram := mem.ram.memmove (pa0.toNat + (dstva - va0)) src n }

def copyout (kend : Nat) (p : CurrentProcess) (pagetable dstva : UInt64)
    (src : Nat → UInt8) (len : UInt64) (mem : PhysicalMemory) :
    Except String (Int × PhysicalMemory) :=
  mem.copyoutLoop kend p pagetable len.toNat dstva.toNat src len.toNat

/-- The loop of `copyin`, with the bytes it has stored at `dst`. -/
def copyinLoop (kend : Nat) (p : CurrentProcess) (pagetable : UInt64) :
    (fuel : Nat) → (dst : List UInt8) → (srcva len : Nat) → PhysicalMemory →
      Except String (Int × List UInt8 × PhysicalMemory)
  | 0, dst, _, _, mem => .ok (0, dst, mem)
  | fuel + 1, dst, srcva, len, mem =>
    if len = 0 then .ok (0, dst, mem)
    else
      let va0 := pgrounddown srcva
      match mem.resolve kend p pagetable (UInt64.ofNat va0) with
      | .error reason => .error reason
      | .ok (pa0, mem) =>
        if pa0 = 0 then .ok (-1, dst, mem)
        else
          let n := min (PGSIZE - (srcva - va0)) len
          copyinLoop kend p pagetable fuel (dst ++ (List.range n).map fun index =>
              mem.ram (pa0.toNat + (srcva - va0) + index))
            (va0 + PGSIZE) (len - n) mem

def copyin (kend : Nat) (p : CurrentProcess) (pagetable srcva len : UInt64)
    (mem : PhysicalMemory) : Except String (Int × List UInt8 × PhysicalMemory) :=
  mem.copyinLoop kend p pagetable len.toNat [] srcva.toNat len.toNat

end PhysicalMemory

namespace Represents

/-- The table is where it was if its nodes are as before. -/
theorem agree (represents : Represents mem table)
    (same : ∀ address, address / PGSIZE ∈ table.nodes → other.ram address = mem.ram address)
    (distinct : (table.nodes + other.freelist).Nodup)
    (small : ∀ frame ∈ other.freelist, frame < 2 ^ 44) : Represents other table := by
  refine ⟨represents.wellFormed, ?_, distinct, ?_, represents.leaves⟩
  · intro node frame present index bound
    rw [← represents.entries node present index bound]
    apply Ram.load_congr
    intro address above below
    apply same
    have inside : address / PGSIZE = frame := by
      simp only [PGSIZE] at above below ⊢
      omega
    rw [inside]
    exact PageTable.mem_nodes represents.wellFormed present
  · intro frame member
    rcases Multiset.mem_add.mp member with node | free
    · exact represents.small frame (Multiset.mem_add.mpr (.inl node))
    · exact small frame free

/-- `mappages` of one page. -/
theorem mapPage (represents : Represents mem table) (below : page < VPAGES) (small : frame < 2 ^ 44)
    (flags : perm.toNat < 1024) (unmapped : table.leaf page = none) :
    ∃ (mapped : Bool) (after : PageTable) (result : PhysicalMemory),
      mem.mappages (UInt64.ofNat (table.root * PGSIZE))
          (UInt64.ofNat (page * PGSIZE)) 4096 (UInt64.ofNat (frame * PGSIZE))
          perm = .ok (if mapped then 0 else -1, result) ∧
        (table.mapPage page frame perm).execute mem.freelist =
          .ok ((mapped, after), result.freelist) ∧
        Represents result after ∧ Spares mem table result.ram ∧
        after.root = table.root ∧
        after.leaf = (if mapped then Function.update table.leaf page
          (some { frame := frame, flags := perm ||| PTE_V }) else table.leaf) ∧
        after.nodes + (result.freelist : Multiset Nat) = table.nodes + mem.freelist := by
  obtain ⟨value, low, number⟩ := page_address below
  obtain ⟨found, after, result, executes, walks, kept, spared⟩ := represents.walk low true
  rw [number] at executes walks
  obtain ⟨leaf, root, hangs⟩ := (table.walk_always page true).execute executes
  obtain ⟨wellFormed, conserved⟩ := PageTable.walk_conserves represents.wellFormed executes
  have aligned : (UInt64.ofNat (page * PGSIZE)).toNat % PGSIZE = 0 := by
    rw [value, Nat.mul_mod_left]
  have unfolded : mem.mappages (UInt64.ofNat (table.root * PGSIZE))
      (UInt64.ofNat (page * PGSIZE)) 4096 (UInt64.ofNat (frame * PGSIZE))
      perm = mem.mappagesLoop (UInt64.ofNat (table.root * PGSIZE)) perm 1
        (UInt64.ofNat (page * PGSIZE)) (UInt64.ofNat (frame * PGSIZE)) := by
    rw [PhysicalMemory.mappages, if_neg (not_not.mpr aligned),
      if_neg (by decide), if_neg (by decide)]
    rfl
  rw [unfolded, PhysicalMemory.mappagesLoop, walks, PageTable.mapPage,
    Program.execute_bind, executes]
  cases found with
  | false => exact ⟨false, after, result, rfl, rfl, kept, spared, root, leaf, conserved⟩
  | true =>
    obtain ⟨node, lower⟩ := Option.ne_none_iff_exists'.mp (hangs rfl)
    have slot : after.slot page = some (node * PGSIZE + 8 * (page % 512)) := by
      rw [PageTable.slot, lower]
      rfl
    have empty : after.leaf page = none := by rw [leaf, unmapped]
    simp only [if_true, slot, kept.load_slot slot, empty]
    rw [if_neg (not_not.mpr leafEntry_none_invalid), UInt64.or_assoc]
    have written := kept.setLeaf slot (some { frame := frame, flags := perm ||| PTE_V }) (by
        rintro - ⟨⟩
        exact ⟨small, flags_or_valid_lt flags, or_valid_odd perm⟩)
    refine ⟨true, _, _, rfl, ?_, written, ?_, root, ?_, ?_⟩
    · simp only [Option.isSome_none, Bool.false_eq_true, if_false]
      rfl
    · intro address outside busy
      rw [← spared address outside busy]
      apply Ram.store_of_ne _ (Nat.mod_lt _ (by decide))
      intro same
      have member := PageTable.mem_nodes wellFormed
        (show after.frameAt (.lower (page / 512)) = some node from lower)
      rw [← same] at member
      have moved : address / PGSIZE ∈ table.nodes + mem.freelist := by
        rw [← conserved]
        exact Multiset.mem_add.mpr (.inl member)
      rcases Multiset.mem_add.mp moved with inside | free
      · exact outside inside
      · exact busy free
    · simp only [PageTable.setLeaf, if_true, leaf]
    · rw [PageTable.nodes_setLeaf]
      exact conserved

end Represents

/-- The memory of the running process.  Its nodes, its pages and the free list
are different pages above the kernel. -/
structure AddressSpace (kend trampoline trapframe : Nat) (p : CurrentProcess)
    (mem : PhysicalMemory) (table : PageTable) : Prop where
  represents : Represents mem table
  pagetable : p.pagetable = UInt64.ofNat (table.root * PGSIZE)
  shape : UserTable trampoline trapframe (npages p.sz) table
  apart : (table.space + mem.freelist).Nodup
  above : ∀ frame ∈ table.space + mem.freelist,
    0 < frame ∧ kend ≤ frame * PGSIZE ∧ frame * PGSIZE < PHYSTOP

/-- What a process finds at an address.  A page below `sz` without an entry is
one that has not been allocated yet. -/
def view (ram : Ram) (table : PageTable) (sz va : Nat) : Option UInt8 :=
  match table.leaf (va / PGSIZE) with
  | some leaf =>
    if leaf.flags &&& PTE_U ≠ 0 then some (ram (leaf.frame * PGSIZE + va % PGSIZE))
    else none
  | none => if pgrounddown va < sz then some 0 else none

theorem and_pteFlags (pte : UInt64) (low : 0x3FF &&& bit = bit) :
    pteFlags pte &&& bit = pte &&& bit := by
  rw [pteFlags, UInt64.and_assoc, low]

theorem Represents.leafEntry_and (represents : Represents mem table)
    (mapped : table.leaf page = some leaf) (low : 0x3FF &&& bit = bit) :
    leafEntry (some leaf) &&& bit = leaf.flags &&& bit := by
  rw [← and_pteFlags _ low, (pte2pa_leafEntry represents mapped).2]

namespace AddressSpace

section

variable (space : AddressSpace kend trampoline trapframe p mem table)

include space

/-- A page that the user may use is the process's own. -/
theorem user_frame (mapped : table.leaf page = some leaf) (user : leaf.flags &&& PTE_U ≠ 0) :
    page < npages p.sz ∧ leaf.frame ∈ table.leafFrames TRAPFRAME ∧
      leaf.frame ∉ table.nodes ∧ leaf.frame ∉ mem.freelist := by
  have limit := space.shape.limit
  have below : page < npages p.sz := by
    rcases space.shape.bounded page (by simp [mapped]) with rfl | rfl | below
    · rw [space.shape.trampoline] at mapped
      cases mapped
      exact absurd (show (PTE_R ||| PTE_X ||| PTE_V) &&& PTE_U = 0 by decide) user
    · rw [space.shape.trapframe] at mapped
      cases mapped
      exact absurd (show (PTE_R ||| PTE_W ||| PTE_V) &&& PTE_U = 0 by decide) user
    · exact below
  have member : leaf.frame ∈ table.leafFrames TRAPFRAME :=
    mem_contents.mpr ⟨page, by omega, by rw [mapped]; rfl⟩
  have distinct := space.apart
  rw [PageTable.space, add_assoc, Multiset.nodup_add, Multiset.nodup_add,
    Multiset.disjoint_left, Multiset.disjoint_left] at distinct
  obtain ⟨_, ⟨_, _, leavesFree⟩, nodesRest⟩ := distinct
  refine ⟨below, member, ?_, ?_⟩
  · intro node
    exact nodesRest node (Multiset.mem_add.mpr (.inl member))
  · intro free
    exact leavesFree member free

theorem walkaddr (below : page < VPAGES) :
    mem.walkaddr p.pagetable (UInt64.ofNat (page * PGSIZE)) = .ok (match table.leaf page with
        | some leaf =>
          if leaf.flags &&& PTE_U = 0 then 0
          else UInt64.ofNat (leaf.frame * PGSIZE)
        | none => 0) := by
  obtain ⟨_, low, number⟩ := page_address below
  rw [PhysicalMemory.walkaddr, if_neg (Nat.not_le.mpr low), space.pagetable,
    space.represents.walk_false low, number]
  cases mapped : table.leaf page with
  | none =>
    cases slot : table.slot page with
    | none => rfl
    | some address =>
      simp only [space.represents.load_slot slot, mapped, leafEntry_none_invalid, if_true]
  | some leaf =>
    obtain ⟨address, slot⟩ :=
      space.represents.slot_of_leaf (show table.leaf page ≠ none by simp [mapped])
    obtain ⟨pa, _⟩ := pte2pa_leafEntry space.represents mapped
    simp only [slot, space.represents.load_slot slot, mapped, pa,
      space.represents.leafEntry_valid mapped, if_false,
      space.represents.leafEntry_and mapped (show 0x3FF &&& PTE_U = PTE_U by decide)]
    split <;> rfl

theorem ismapped (below : page < VPAGES) :
    mem.ismapped p.pagetable (UInt64.ofNat (page * PGSIZE)) = .ok (table.leaf page).isSome := by
  obtain ⟨_, low, number⟩ := page_address below
  rw [PhysicalMemory.ismapped, space.pagetable, space.represents.walk_false low, number]
  cases mapped : table.leaf page with
  | none =>
    cases slot : table.slot page with
    | none => rfl
    | some address =>
      simp only [space.represents.load_slot slot, mapped, leafEntry_none_invalid]
      rfl
  | some leaf =>
    obtain ⟨address, slot⟩ :=
      space.represents.slot_of_leaf (show table.leaf page ≠ none by simp [mapped])
    have valid := space.represents.leafEntry_valid mapped
    simp only [slot, space.represents.load_slot slot, mapped]
    simpa using valid

/-- `walk` finds the entry of a mapped page. -/
theorem walk_entry (below : page < VPAGES) (mapped : table.leaf page = some leaf) :
    ∃ pte, mem.walk p.pagetable (UInt64.ofNat (page * PGSIZE)) false = .ok (some pte, mem) ∧
      mem.ram.load pte &&& PTE_W = leaf.flags &&& PTE_W := by
  obtain ⟨_, low, number⟩ := page_address below
  obtain ⟨address, slot⟩ :=
    space.represents.slot_of_leaf (show table.leaf page ≠ none by simp [mapped])
  refine ⟨address, ?_, ?_⟩
  · rw [space.pagetable, space.represents.walk_false low, number, slot]
  · rw [space.represents.load_slot slot, mapped]
    exact space.represents.leafEntry_and mapped (by decide)

theorem move (represents : Represents result after) (root : after.root = table.root)
    (shape : UserTable trampoline trapframe (npages p.sz) after)
    (conserved : after.space + (result.freelist : Multiset Nat) = table.space + mem.freelist) :
    AddressSpace kend trampoline trapframe p result after where
  represents := represents
  pagetable := by rw [root, space.pagetable]
  shape := shape
  apart := by rw [conserved]; exact space.apart
  above := by rw [conserved]; exact space.above

end

end AddressSpace

/-- What the search for a page leads to: `pa` is the page of a user leaf, or
there is none.  At most, a page that had no entry has got a page of zeros from
the free list. -/
structure Resolved (kend trampoline trapframe : Nat) (p : CurrentProcess)
    (mem : PhysicalMemory) (table : PageTable) (page : Nat) (pa : UInt64)
    (result : PhysicalMemory) (after : PageTable) : Prop where
  space : AddressSpace kend trampoline trapframe p result after
  spares : Represents.Spares mem table result.ram
  pool : ∀ frame, frame ∈ after.nodes ∨ frame ∈ result.freelist →
    frame ∈ table.nodes ∨ frame ∈ mem.freelist
  leaves : ∀ other, after.leaf other = table.leaf other ∨
    table.leaf other = none ∧ other * PGSIZE < p.sz ∧ ∃ frame ∈ mem.freelist,
        after.leaf other = some { frame := frame, flags := PTE_W ||| PTE_U ||| PTE_R ||| PTE_V } ∧
        ∀ offset < PGSIZE, result.ram (frame * PGSIZE + offset) = 0
  found : pa ≠ 0 → ∃ leaf, after.leaf page = some leaf ∧
    leaf.flags &&& PTE_U ≠ 0 ∧ pa.toNat = leaf.frame * PGSIZE
  missing : pa = 0 → ∀ leaf, table.leaf page = some leaf → leaf.flags &&& PTE_U = 0
  others : ∀ other, other ≠ page ∨ pa = 0 → after.leaf other = table.leaf other

section Resolve

theorem Resolved.unchanged (space : AddressSpace kend trampoline trapframe p mem table)
    (found : pa ≠ 0 → ∃ leaf, table.leaf page = some leaf ∧
      leaf.flags &&& PTE_U ≠ 0 ∧ pa.toNat = leaf.frame * PGSIZE)
    (missing : pa = 0 → ∀ leaf, table.leaf page = some leaf → leaf.flags &&& PTE_U = 0) :
    Resolved kend trampoline trapframe p mem table page pa mem table :=
  ⟨space, fun _ _ _ => rfl, fun _ member => member, fun _ => .inl rfl, found, missing,
    fun _ _ => rfl⟩

/-- The page that `kalloc` returns, cleared. -/
abbrev PhysicalMemory.cleared (mem : PhysicalMemory) (frame : Nat) (rest : List Nat) :
    PhysicalMemory where
  ram := (mem.ram.memset (frame * PGSIZE) 5 PGSIZE).memset (frame * PGSIZE) 0 PGSIZE
  freelist := rest

section Fault

variable {frame : Nat} {rest : List Nat}
  (space : AddressSpace kend trampoline trapframe p mem table)
  (free : mem.freelist = frame :: rest)

include space free

theorem AddressSpace.cleared : Represents (mem.cleared frame rest) table := by
  have distinct := space.represents.distinct
  rw [free, ← Multiset.cons_coe, Multiset.add_cons, Multiset.nodup_cons]
    at distinct
  refine space.represents.agree ?_ distinct.2 ?_
  · intro address node
    have apart : address / PGSIZE ≠ frame := by
      rintro same
      rw [same] at node
      exact distinct.1 (Multiset.mem_add.mpr (.inl node))
    simp only
    rw [Ram.memset_of_ne _ _ apart, Ram.memset_of_ne _ _ apart]
  · intro other member
    refine space.represents.small other (Multiset.mem_add.mpr (.inr ?_))
    rw [free]
    exact List.mem_cons_of_mem _ member

theorem AddressSpace.first_free : frame ∈ mem.freelist ∧
    frame ∈ table.space + mem.freelist ∧ frame < 2 ^ 44 := by
  have member : frame ∈ mem.freelist := by
    rw [free]
    exact List.mem_cons_self
  exact ⟨member, Multiset.mem_add.mpr (.inr member),
    space.represents.small frame (Multiset.mem_add.mpr (.inr member))⟩

variable {result : PhysicalMemory} {after : PageTable}
  (spared : Represents.Spares (mem.cleared frame rest) table result.ram)

include spared

/-- Nothing but nodes and free pages changes while a fresh page is mapped. -/
theorem AddressSpace.fresh_spares :
    Represents.Spares mem table result.ram ∧
      ∀ offset < PGSIZE, result.ram (frame * PGSIZE + offset) = 0 := by
  have distinct := space.represents.distinct
  rw [free, ← Multiset.cons_coe, Multiset.add_cons, Multiset.nodup_cons,
    Multiset.mem_add, not_or] at distinct
  constructor
  · intro address outside busy
    rw [free, List.mem_cons, not_or] at busy
    rw [spared address outside busy.2]
    simp only
    rw [Ram.memset_of_ne _ _ busy.1, Ram.memset_of_ne _ _ busy.1]
  · intro offset small
    have inside := page_of_address frame small
    rw [spared _ (by rw [inside]; exact distinct.1.1) (by
      rw [inside]
      exact fun member => distinct.1.2 member)]
    exact if_pos ⟨Nat.le_add_right _ _, by omega⟩

variable (represents : Represents result after) (root : after.root = table.root)
  (conserved : after.nodes + (result.freelist : Multiset Nat) = table.nodes + rest)

include represents root conserved

/-- `vmfault` has mapped the page it took. -/
theorem AddressSpace.mapped (inside : page * PGSIZE < p.sz) (unmapped : table.leaf page = none)
    (leaf : after.leaf = Function.update table.leaf page (some
      { frame := frame, flags := PTE_W ||| PTE_U ||| PTE_R ||| PTE_V })) :
    Resolved kend trampoline trapframe p mem table page
      (UInt64.ofNat (frame * PGSIZE)) result after := by
  obtain ⟨spares, zeros⟩ := space.fresh_spares free spared
  have below : page < npages p.sz := by
    simp only [npages, PGSIZE] at inside ⊢
    omega
  have limit := space.shape.limit
  have moved : after.space + (result.freelist : Multiset Nat) = table.space + mem.freelist := by
    rw [PageTable.space, PageTable.space, PageTable.leafFrames_map
      (below.trans_le limit) unmapped leaf, free,
      ← Multiset.cons_coe, add_right_comm, conserved, Multiset.add_cons,
      Multiset.add_cons, add_right_comm]
  obtain ⟨member, within, small⟩ := space.first_free free
  have value := frame_address small
  have nonzero := frame_ne_zero value (space.above frame within).1
  refine ⟨space.move represents root (space.shape.map represents.wellFormed
    below leaf) moved, spares, ?_, ?_, ?_, fun zero => absurd zero nonzero, ?_⟩
  · intro other found
    have moved : other ∈ table.nodes + rest := by
      rw [← conserved]
      exact Multiset.mem_add.mpr (found.imp_right Multiset.mem_coe.mpr)
    refine (Multiset.mem_add.mp moved).imp_right fun later => ?_
    rw [free]
    exact List.mem_cons_of_mem _ later
  · intro other
    by_cases same : other = page
    · subst other
      refine .inr ⟨unmapped, inside, frame, member, ?_, zeros⟩
      rw [leaf, Function.update_self]
    · rw [leaf, Function.update_of_ne same]
      exact .inl rfl
  · intro _
    have user : (PTE_W ||| PTE_U ||| PTE_R ||| PTE_V) &&& PTE_U ≠ 0 := by decide
    have present : after.leaf page = some
        { frame := frame, flags := PTE_W ||| PTE_U ||| PTE_R ||| PTE_V } := by
      rw [leaf, Function.update_self]
    exact ⟨_, present, user, value⟩
  · intro other apart
    rw [leaf, Function.update_of_ne (apart.resolve_right nonzero)]

/-- `vmfault` has given the page back that it could not map. -/
theorem AddressSpace.unmapped
    (hidden : ∀ leaf, table.leaf page = some leaf → leaf.flags &&& PTE_U = 0)
    (leaf : after.leaf = table.leaf) :
    Resolved kend trampoline trapframe p mem table page 0
      { ram := result.ram.memset (frame * PGSIZE) 1 PGSIZE
        freelist := frame :: result.freelist } after := by
  have member := (space.first_free free).1
  have restored : after.nodes + ((frame :: result.freelist : List Nat) :
      Multiset Nat) = table.nodes + mem.freelist := by
    rw [← Multiset.cons_coe, Multiset.add_cons, conserved, free,
      ← Multiset.cons_coe, Multiset.add_cons]
  have distinct := space.represents.distinct
  rw [← restored, ← Multiset.cons_coe, Multiset.add_cons, Multiset.nodup_cons,
    Multiset.mem_add, not_or] at distinct
  have moved : after.space + ((frame :: result.freelist : List Nat) :
      Multiset Nat) = table.space + mem.freelist := by
    rw [PageTable.space, PageTable.space, PageTable.leafFrames_congr
      fun other _ => congrFun leaf other, add_right_comm, restored,
      add_right_comm]
  refine ⟨space.move ?_ root (space.shape.of_leaf_eq represents.wellFormed leaf)
    moved, ?_, ?_, ?_, fun none => absurd rfl none, fun _ => hidden,
    fun other _ => congrFun leaf other⟩
  · refine represents.agree ?_ ?_ ?_
    · intro address node
      apply Ram.memset_of_ne
      rintro same
      rw [same] at node
      exact distinct.1.1 node
    · rw [restored]
      exact space.represents.distinct
    · intro other found
      refine space.represents.small other ?_
      rw [← restored]
      exact Multiset.mem_add.mpr (.inr found)
  · intro address outside busy
    have apart : address / PGSIZE ≠ frame := by
      rintro same
      rw [same] at busy
      exact busy member
    simp only
    rw [Ram.memset_of_ne _ _ apart]
    exact (space.fresh_spares free spared).1 address outside busy
  · intro other found
    have moved : other ∈ table.nodes + mem.freelist := by
      rw [← restored]
      exact Multiset.mem_add.mpr (found.imp_right Multiset.mem_coe.mpr)
    exact (Multiset.mem_add.mp moved).imp_right Multiset.mem_coe.mp
  · intro other
    rw [leaf]
    exact .inl rfl

end Fault

section

variable (space : AddressSpace kend trampoline trapframe p mem table)

include space

theorem AddressSpace.vmfault (below : page < VPAGES)
    (hidden : ∀ leaf, table.leaf page = some leaf → leaf.flags &&& PTE_U = 0) :
    ∃ pa result after, mem.vmfault kend p p.pagetable (UInt64.ofNat (page * PGSIZE)) =
          .ok (pa, result) ∧
        Resolved kend trampoline trapframe p mem table page pa result after := by
  obtain ⟨value, _, _⟩ := page_address below
  have same : Resolved kend trampoline trapframe p mem table page 0 mem table :=
    .unchanged space (fun none => absurd rfl none) fun _ => hidden
  have aligned : pgrounddown (page * PGSIZE) = page * PGSIZE := by
    rw [pgrounddown, Nat.mul_div_cancel _ PGSIZE_pos]
  rw [PhysicalMemory.vmfault, value]
  split
  · exact ⟨0, mem, table, rfl, same⟩
  · rename_i inside
    simp only [aligned, space.ismapped below]
    cases mapped : table.leaf page with
    | some leaf => exact ⟨0, mem, table, rfl, same⟩
    | none =>
      simp only [Option.isSome_none]
      cases free : mem.freelist with
      | nil =>
        refine ⟨0, mem, table, ?_, same⟩
        simp only [PhysicalMemory.kalloc, free]
      | cons frame rest =>
        obtain ⟨_, within, small⟩ := space.first_free free
        obtain ⟨done, after, result, maps, _, represents, spared, root,
          leaf, conserved⟩ := (space.cleared free).mapPage
            below small (show (PTE_W ||| PTE_U ||| PTE_R).toNat < 1024 by decide) mapped
        simp only [PhysicalMemory.kalloc, free]
        rw [space.pagetable, maps]
        cases done with
        | true =>
          exact ⟨_, result, after, rfl, space.mapped free spared represents root conserved
            (Nat.lt_of_not_le inside) mapped leaf⟩
        | false =>
          have frees : result.kfree kend (frame * PGSIZE) = .ok
              { ram := result.ram.memset (frame * PGSIZE) 1 PGSIZE
                freelist := frame :: result.freelist } := by
            obtain ⟨_, low, high⟩ := space.above frame within
            rw [PhysicalMemory.kfree, Nat.mul_mod_left,
              Nat.mul_div_cancel _ PGSIZE_pos, if_neg (by omega)]
          refine ⟨0, _, after, ?_, space.unmapped free spared represents root conserved hidden leaf⟩
          simp [frees]

/-- The entries of a process lie below `MAXVA`. -/
theorem AddressSpace.leaf_none (above : VPAGES ≤ page) : table.leaf page = none := by
  by_contra mapped
  have limit := space.shape.limit
  have first : TRAMPOLINE < VPAGES := by decide
  have second : TRAPFRAME < VPAGES := by decide
  rcases space.shape.bounded page mapped with rfl | rfl | below <;> omega

theorem AddressSpace.page_lt (mapped : table.leaf page = some leaf) : page < VPAGES := by
  by_contra high
  rw [space.leaf_none (not_lt.mp high)] at mapped
  cases mapped

theorem AddressSpace.resolve (fits : page * PGSIZE < 2 ^ 64) :
    ∃ pa result after, mem.resolve kend p p.pagetable (UInt64.ofNat (page * PGSIZE)) =
          .ok (pa, result) ∧
        Resolved kend trampoline trapframe p mem table page pa result after := by
  rw [PhysicalMemory.resolve]
  rcases Nat.lt_or_ge page VPAGES with below | beyond
  · rw [space.walkaddr below]
    simp only
    cases mapped : table.leaf page with
    | none => exact space.vmfault below (by simp [mapped])
    | some leaf =>
      simp only
      by_cases user : leaf.flags &&& PTE_U = 0
      · rw [if_pos user, if_pos rfl]
        exact space.vmfault below (by simp [mapped, user])
      · rw [if_neg user]
        have member : leaf.frame ∈ table.space + mem.freelist :=
          Multiset.mem_add.mpr (.inl (Multiset.mem_add.mpr
            (.inr (space.user_frame mapped user).2.1)))
        have value := frame_address (space.represents.leaves mapped).1
        have nonzero := frame_ne_zero value (space.above _ member).1
        rw [if_neg nonzero]
        exact ⟨_, mem, table, rfl, .unchanged space (fun _ => ⟨leaf, mapped, user, value⟩)
          fun zero => absurd zero nonzero⟩
  · have value : (UInt64.ofNat (page * PGSIZE)).toNat = page * PGSIZE := by
      rw [UInt64.toNat_ofNat']
      exact Nat.mod_eq_of_lt fits
    have high : MAXVA ≤ page * PGSIZE := by
      have pages : VPAGES * PGSIZE = MAXVA := by decide
      rw [← pages]
      exact Nat.mul_le_mul_right _ beyond
    have size : p.sz ≤ page * PGSIZE := by
      have limit := npages_le_iff.mp space.shape.limit
      have less : TRAPFRAME * PGSIZE ≤ MAXVA := by decide
      omega
    refine ⟨0, mem, table, ?_, .unchanged space (fun none => absurd rfl none)
      fun _ leaf mapped => ?_⟩
    · rw [PhysicalMemory.walkaddr, value, if_pos high]
      simp only [if_true]
      rw [PhysicalMemory.vmfault, value, if_pos size]
    · rw [space.leaf_none beyond] at mapped
      cases mapped

/-- Looking for a page does not change what the process sees. -/
theorem Resolved.view
    (resolved : Resolved kend trampoline trapframe p mem table page pa result after) (va : Nat) :
    Xv6KernelEvent.view result.ram after p.sz va = Xv6KernelEvent.view mem.ram table p.sz va := by
  have small := Nat.mod_lt va PGSIZE_pos
  rw [Xv6KernelEvent.view, Xv6KernelEvent.view]
  rcases resolved.leaves (va / PGSIZE) with same | ⟨unmapped, inside, frame, _, mapped, zeros⟩
  · rw [same]
    cases mapped : table.leaf (va / PGSIZE) with
    | none => rfl
    | some leaf =>
      simp only
      by_cases user : leaf.flags &&& PTE_U = 0
      · rw [if_neg (not_not.mpr user), if_neg (not_not.mpr user)]
      · obtain ⟨_, _, notNode, notFree⟩ := space.user_frame mapped user
        have page_eq := page_of_address leaf.frame small
        rw [resolved.spares _ (by rwa [page_eq]) (by rwa [page_eq])]
  · rw [unmapped, mapped]
    have user : (PTE_W ||| PTE_U ||| PTE_R ||| PTE_V) &&& PTE_U ≠ 0 := by decide
    simp only
    rw [if_pos user, zeros _ small, pgrounddown, if_pos inside]

end

theorem Resolved.kept (resolved : Resolved kend trampoline trapframe p mem table page pa result
      after) (mapped : table.leaf other = some leaf) : after.leaf other = some leaf := by
  rcases resolved.leaves other with same | ⟨unmapped, _⟩
  · rw [same, mapped]
  · rw [unmapped] at mapped
    cases mapped

end Resolve

section Store

variable (src : Nat → UInt8)

section

variable (space : AddressSpace kend trampoline trapframe p mem table)

include space

section

variable (mapped : table.leaf page = some leaf)

include mapped

/-- Bytes stored in a user page. -/
theorem AddressSpace.memmove (user : leaf.flags &&& PTE_U ≠ 0) (fits : start + n ≤ PGSIZE) :
    AddressSpace kend trampoline trapframe p
      { mem with
        ram := mem.ram.memmove (leaf.frame * PGSIZE + start) src n } table := by
  refine space.move ?_ rfl space.shape rfl
  refine space.represents.agree ?_ space.represents.distinct ?_
  · intro address node
    apply if_neg
    rintro ⟨low, high⟩
    have inside : address / PGSIZE = leaf.frame := by
      simp only [PGSIZE] at low high fits ⊢
      omega
    rw [inside] at node
    exact (space.user_frame mapped user).2.2.1 node
  · intro frame free
    exact space.represents.small frame (Multiset.mem_add.mpr (.inr free))

/-- Two pages of the process are different pages. -/
theorem AddressSpace.frame_injective (mapped' : table.leaf other = some leaf')
    (user : leaf.flags &&& PTE_U ≠ 0) (user' : leaf'.flags &&& PTE_U ≠ 0)
    (same : leaf.frame = leaf'.frame) : page = other := by
  have limit := space.shape.limit
  have first := (space.user_frame mapped user).1
  have second := (space.user_frame mapped' user').1
  have distinct := (Multiset.nodup_add.mp (Multiset.nodup_add.mp space.apart).1).2.1
  rw [PageTable.leafFrames] at distinct
  refine contents_injective distinct (by omega) (by omega)
    (show (table.leaf page).map Leaf.frame = some leaf.frame by rw [mapped]; rfl)
    ?_
  rw [mapped', same]
  rfl

theorem AddressSpace.view_memmove
    (user : leaf.flags &&& PTE_U ≠ 0) (fits : start + n ≤ PGSIZE) (va : Nat) :
    view (mem.ram.memmove (leaf.frame * PGSIZE + start) src n) table p.sz va =
      if page * PGSIZE + start ≤ va ∧ va < page * PGSIZE + start + n then
        some (src (va - (page * PGSIZE + start)))
      else view mem.ram table p.sz va := by
  have small := Nat.mod_lt va PGSIZE_pos
  have division := Nat.div_add_mod va PGSIZE
  by_cases here : va / PGSIZE = page
  · rw [view, view, here, mapped]
    simp only
    rw [if_pos user, if_pos user, Ram.memmove]
    have offset : va = page * PGSIZE + va % PGSIZE := by
      rw [← here, Nat.mul_comm]
      exact division.symm
    by_cases inside : start ≤ va % PGSIZE ∧ va % PGSIZE < start + n
    · rw [if_pos (by omega), if_pos (by omega)]
      congr 2
      omega
    · rw [if_neg (by omega), if_neg (by omega)]
  · have outside : ¬(page * PGSIZE + start ≤ va ∧ va < page * PGSIZE + start + n) := by
      rintro ⟨low, high⟩
      apply here
      simp only [PGSIZE] at low high fits ⊢
      omega
    rw [if_neg outside, view, view]
    cases found : table.leaf (va / PGSIZE) with
    | none => rfl
    | some other =>
      simp only
      by_cases usable : other.flags &&& PTE_U = 0
      · rw [if_neg (not_not.mpr usable), if_neg (not_not.mpr usable)]
      · have differs : other.frame ≠ leaf.frame := by
          intro same
          exact here (space.frame_injective found mapped usable user same)
        rw [if_pos usable, if_pos usable, Ram.memmove, if_neg]
        rintro ⟨low, high⟩
        apply differs
        simp only [PGSIZE] at low high fits small ⊢
        omega

end

end

end Store

end Xv6KernelEvent
