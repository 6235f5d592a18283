import Xv6KernelEvent.Memory.PagedSpace

/-!
# Copies are exact and confined

What `copyout` and `copyin` do to what a process sees, and which physical pages
they change.
-/

namespace Xv6KernelEvent

open Custody

variable {mem result : PhysicalMemory}

theorem next_page_small (below : page < VPAGES) : page * PGSIZE + PGSIZE < 2 ^ 64 := by
  have page_bound : VPAGES * PGSIZE = MAXVA := by decide
  have bytes := Nat.mul_le_mul_right PGSIZE below
  rw [page_bound, Nat.succ_mul] at bytes
  simp only [MAXVA] at bytes
  omega

/-- The pages that `copyout` may change: nodes of the table, free pages, and
pages that the user may write. -/
def Changeable (mem : PhysicalMemory) (table : PageTable) (frame : Nat) : Prop :=
  frame ∈ table.nodes ∨ frame ∈ mem.freelist ∨
    ∃ page leaf, table.leaf page = some leaf ∧ leaf.frame = frame ∧
      leaf.flags &&& PTE_U ≠ 0 ∧ leaf.flags &&& PTE_W ≠ 0

/-- The first `count` bytes have been copied. -/
structure CopiedOut (kend trampoline trapframe : Nat) (p : CurrentProcess)
    (mem : PhysicalMemory) (table : PageTable) (dstva : Nat)
    (src : Nat → UInt8) (count : Nat) (result : PhysicalMemory) (after : PageTable) : Prop where
  space : AddressSpace kend trampoline trapframe p result after
  kept : ∀ page leaf, table.leaf page = some leaf → after.leaf page = some leaf
  mapped : ∀ index < count, ∃ leaf, after.leaf ((dstva + index) / PGSIZE) = some leaf ∧
      leaf.flags &&& PTE_U ≠ 0
  viewed : ∀ va, view result.ram after p.sz va =
    if dstva ≤ va ∧ va < dstva + count then some (src (va - dstva))
    else view mem.ram table p.sz va
  confined : ∀ address, result.ram address ≠ mem.ram address →
    Changeable mem table (address / PGSIZE)
  pool : ∀ frame ∈ after.space + (result.freelist : Multiset Nat),
    frame ∈ table.space + (mem.freelist : Multiset Nat)

/-- A search takes pages only from the free list. -/
theorem Resolved.pool_space
    (resolved : Resolved kend trampoline trapframe p mem table page pa result after) (frame : Nat)
    (member : frame ∈ after.space + (result.freelist : Multiset Nat)) :
    frame ∈ table.space + (mem.freelist : Multiset Nat) := by
  have moved (found : frame ∈ after.nodes ∨ frame ∈ result.freelist) :
      frame ∈ table.space + (mem.freelist : Multiset Nat) := by
    refine Multiset.mem_add.mpr ((resolved.pool frame found).imp ?_ Multiset.mem_coe.mpr)
    exact fun node => Multiset.mem_add.mpr (.inl node)
  rcases Multiset.mem_add.mp member with owned | free
  · rcases Multiset.mem_add.mp owned with node | user
    · exact moved (.inl node)
    · obtain ⟨other, low, present⟩ := mem_contents.mp user
      rcases resolved.leaves other with same | ⟨_, _, fresh, free, granted, _⟩
      · rw [same] at present
        exact Multiset.mem_add.mpr (.inl (Multiset.mem_add.mpr
          (.inr (mem_contents.mpr ⟨other, low, present⟩))))
      · rw [granted] at present
        cases present
        exact Multiset.mem_add.mpr (.inr free)
  · exact moved (.inr free)

theorem Resolved.changeable
    (resolved : Resolved kend trampoline trapframe p mem table page pa result
      after) (changeable : Changeable result after frame) : Changeable mem table frame := by
  rcases changeable with node | free | ⟨other, leaf, mapped, rfl, user, write⟩
  · exact (resolved.pool frame (.inl node)).imp_right .inl
  · exact (resolved.pool frame (.inr free)).imp_right .inl
  · rcases resolved.leaves other with same | ⟨_, _, fresh, free, granted, _⟩
    · exact .inr (.inr ⟨other, leaf, same ▸ mapped, rfl, user, write⟩)
    · rw [granted] at mapped
      cases mapped
      exact .inr (.inl free)

section

variable (space : AddressSpace kend trampoline trapframe p mem table)

include space

/-- Only looking for a page copies nothing. -/
theorem Resolved.copiedOut
    (resolved : Resolved kend trampoline trapframe p mem table page pa result after) :
    CopiedOut kend trampoline trapframe p mem table dstva src 0 result after where
  space := resolved.space
  kept := fun _ _ => resolved.kept
  mapped := by simp
  viewed := by
    intro va
    rw [resolved.view space va, if_neg (by omega)]
  confined := by
    intro address changed
    by_contra outside
    rw [Changeable, not_or, not_or] at outside
    exact changed (resolved.spares address outside.1 outside.2.1)
  pool := resolved.pool_space

/-- A round of `copyout` and the rounds after it. -/
theorem CopiedOut.round
    (resolved : Resolved kend trampoline trapframe p mem table page pa middle between)
    (mapped : between.leaf page = some leaf)
    (user : leaf.flags &&& PTE_U ≠ 0) (write : leaf.flags &&& PTE_W ≠ 0)
    (low : page * PGSIZE ≤ dstva) (fits : dstva + n ≤ (page + 1) * PGSIZE)
    (continues : rest = 0 ∨ next = dstva + n) (copied : CopiedOut kend trampoline trapframe p
      { middle with
        ram := middle.ram.memmove (leaf.frame * PGSIZE + (dstva - page * PGSIZE)) src n }
      between next (fun index => src (index + n)) rest result after) :
    CopiedOut kend trampoline trapframe p mem table dstva src (n + rest) result
      after := by
  rw [Nat.succ_mul] at fits
  have inside : dstva - page * PGSIZE + n ≤ PGSIZE := by omega
  have stored (va : Nat) : view (middle.ram.memmove (leaf.frame * PGSIZE +
      (dstva - page * PGSIZE)) src n) between p.sz va = _ :=
    resolved.space.view_memmove src mapped user inside va
  refine ⟨copied.space, ?_, ?_, ?_, ?_, fun frame member =>
    resolved.pool_space frame (copied.pool frame member)⟩
  · intro other found present
    exact copied.kept other found (resolved.kept present)
  · intro index below
    rcases Nat.lt_or_ge index n with first | later
    · have here : (dstva + index) / PGSIZE = page := by
        simp only [PGSIZE] at low fits ⊢
        omega
      rw [here]
      exact ⟨leaf, copied.kept page leaf mapped, user⟩
    · obtain none | rfl := continues
      · omega
      · have mapped := copied.mapped (index - n) (by omega)
        rwa [show dstva + n + (index - n) = dstva + index by omega] at mapped
  · intro va
    rw [copied.viewed va, stored va, ← resolved.view space va]
    rw [show page * PGSIZE + (dstva - page * PGSIZE) = dstva by omega]
    by_cases later : next ≤ va ∧ va < next + rest
    · obtain none | rfl := continues
      · omega
      · rw [if_pos later, if_pos (by omega)]
        congr 2
        omega
    · rw [if_neg later]
      by_cases first : dstva ≤ va ∧ va < dstva + n
      · rw [if_pos first, if_pos (by omega)]
      · rw [if_neg first, if_neg]
        obtain none | rfl := continues
        · omega
        · omega
  · intro address changed
    by_cases again : result.ram address = middle.ram.memmove
        (leaf.frame * PGSIZE + (dstva - page * PGSIZE)) src n address
    · by_cases moved : leaf.frame * PGSIZE + (dstva - page * PGSIZE) ≤ address ∧ address <
            leaf.frame * PGSIZE + (dstva - page * PGSIZE) + n
      · refine resolved.changeable (.inr (.inr ⟨page, leaf, mapped, ?_, user, write⟩))
        simp only [PGSIZE] at moved inside ⊢
        omega
      · rw [Ram.memmove, if_neg moved] at again
        rw [again] at changed
        have looked : CopiedOut kend trampoline trapframe p mem table dstva src
            0 middle between := resolved.copiedOut space
        exact looked.confined address changed
    · exact resolved.changeable (copied.confined address again)

theorem AddressSpace.copiedOut_zero (dstva : Nat) (src : Nat → UInt8) :
    CopiedOut kend trampoline trapframe p mem table dstva src 0 mem table where
  space := space
  kept := fun _ _ mapped => mapped
  mapped := by simp
  viewed := fun va => by rw [if_neg (by omega)]
  confined := fun _ changed => absurd rfl changed
  pool := fun _ member => member

theorem AddressSpace.copyoutLoop
    (src : Nat → UInt8) (enough : len ≤ fuel) (small : dstva < 2 ^ 64) :
    ∃ value count result after, mem.copyoutLoop kend p p.pagetable fuel dstva src len =
          .ok (value, result) ∧
        count ≤ len ∧ (value = 0 ∧ count = len ∨ value = -1) ∧
        UserSpace.copyoutLoop (fun page => (after.leaf page).isSome) fuel
          (mem.userSpace table p.sz) dstva src len = (value, result.userSpace after p.sz) ∧
        CopiedOut kend trampoline trapframe p mem table dstva src count result
          after := by
  induction fuel generalizing mem table dstva src len with
  | zero =>
    exact ⟨0, 0, mem, table, rfl, Nat.zero_le len, .inl ⟨rfl, by omega⟩, rfl,
      space.copiedOut_zero dstva src⟩
  | succ fuel induction =>
    have rounded : dstva / PGSIZE * PGSIZE ≤ dstva := pgrounddown_le dstva
    have within : dstva < dstva / PGSIZE * PGSIZE + PGSIZE := lt_pgrounddown_add dstva
    simp only [PhysicalMemory.copyoutLoop, UserSpace.copyoutLoop]
    by_cases empty : len = 0
    · exact ⟨0, 0, mem, table, if_pos empty, Nat.zero_le len, .inl ⟨rfl, empty.symm⟩,
        if_neg (by omega), space.copiedOut_zero dstva src⟩
    simp only [if_neg empty, if_pos (Nat.pos_of_ne_zero empty)]
    by_cases high : pgrounddown dstva ≥ MAXVA
    · exact ⟨-1, 0, mem, table, if_pos high, Nat.zero_le len, .inr rfl, if_pos high,
        space.copiedOut_zero dstva src⟩
    simp only [if_neg high]
    obtain ⟨pa, middle, between, resolves, resolved⟩ :=
      space.resolve (show dstva / PGSIZE * PGSIZE < 2 ^ 64 by omega)
    rw [show pgrounddown dstva = dstva / PGSIZE * PGSIZE from rfl, resolves]
    by_cases zero : pa = 0
    · refine ⟨-1, 0, middle, between, if_pos zero, Nat.zero_le len, .inr rfl, ?_,
        resolved.copiedOut space⟩
      rw [resolved.refines space rfl, if_pos zero,
        resolved.userSpace_eq space (resolved.others _ (.inr zero))]
    obtain ⟨leaf, mapped, user, pa_eq⟩ := resolved.found zero
    have below := resolved.space.page_lt mapped
    obtain ⟨pte, walks, entry⟩ := resolved.space.walk_entry below mapped
    have shown := middle.userSpace_page p.sz mapped
    simp only [if_neg zero, walks, entry]
    by_cases write : leaf.flags &&& PTE_W = 0
    · refine ⟨-1, 0, middle, between, if_pos write, Nat.zero_le len, .inr rfl, ?_,
        resolved.copiedOut space⟩
      rw [resolved.refines space rfl, if_neg zero, shown]
      simp [Leaf.page, write]
    simp only [if_neg write]
    rw [pa_eq]
    generalize n_eq : min (PGSIZE - (dstva - dstva / PGSIZE * PGSIZE)) len = n
    have inside : dstva - dstva / PGSIZE * PGSIZE + n ≤ PGSIZE := by omega
    obtain ⟨value, count, result, after, copies, count_le, values, refines, copied⟩ := induction
      (resolved.space.memmove src mapped user inside) (fun index => src (index + n))
      (show len - n ≤ fuel by omega) (next_page_small below)
    refine ⟨value, n + count, result, after, copies, by omega, ?_, ?_,
      copied.round space resolved mapped user write rounded ?_ ?_⟩
    · rcases values with ⟨zero, all⟩ | failed
      · exact .inl ⟨zero, by omega⟩
      · exact .inr failed
    · have isWritable : (leaf.page middle.ram).writable = true := decide_eq_true write
      rw [resolved.refines space (by rw [copied.kept _ leaf mapped, mapped]), if_neg zero, shown]
      simp only [Option.map_some, isWritable, if_true, Nat.mul_div_cancel _ PGSIZE_pos]
      rw [resolved.space.userSpace_memmove src mapped user inside]
      exact refines
    · rw [Nat.succ_mul]
      omega
    · rcases Nat.eq_zero_or_pos count with none | some
      · exact .inl none
      · exact .inr (by omega)

/-- `copyout` on the pages of the process is `copyout` on physical memory. -/
theorem AddressSpace.copyout_refines (dstva len : UInt64) (src : Nat → UInt8) :
    ∃ value result after, mem.copyout kend p p.pagetable dstva src len = .ok (value, result) ∧
      AddressSpace kend trampoline trapframe p result after ∧
      (mem.userSpace table p.sz).copyout (fun page => (after.leaf page).isSome) dstva.toNat src
        len.toNat = (value, result.userSpace after p.sz) := by
  obtain ⟨value, _, result, after, copies, _, _, refines, copied⟩ :=
    space.copyoutLoop src le_rfl dstva.toNat_lt
  exact ⟨value, result, after, copies, copied.space, refines⟩

end

/-- The bytes that have been fetched, and where the copy stopped. -/
structure CopiedIn (kend trampoline trapframe : Nat) (p : CurrentProcess)
    (mem : PhysicalMemory) (table : PageTable) (srcva len : Nat) (value : Int)
    (data : List UInt8) (result : PhysicalMemory) (after : PageTable) : Prop where
  space : AddressSpace kend trampoline trapframe p result after
  length_le : data.length ≤ len
  bytes : ∀ index < data.length, view mem.ram table p.sz (srcva + index) = data[index]?
  viewed : ∀ va, view result.ram after p.sz va = view mem.ram table p.sz va
  confined : ∀ address, result.ram address ≠ mem.ram address →
    address / PGSIZE ∈ table.nodes ∨ address / PGSIZE ∈ mem.freelist
  ended : value = 0 ∧ data.length = len ∨ value = -1 ∧ data.length < len ∧
      (data = [] ∨ (srcva + data.length) % PGSIZE = 0) ∧
      ∀ leaf, table.leaf ((srcva + data.length) / PGSIZE) = some leaf → leaf.flags &&& PTE_U = 0

theorem Resolved.spared (resolved : Resolved kend trampoline trapframe p mem table page pa result
      after) (changed : result.ram address ≠ mem.ram address) :
    address / PGSIZE ∈ table.nodes ∨ address / PGSIZE ∈ mem.freelist := by
  by_contra outside
  rw [not_or] at outside
  exact changed (resolved.spares address outside.1 outside.2)

section

variable (space : AddressSpace kend trampoline trapframe p mem table)

include space

theorem AddressSpace.copiedIn_zero (srcva : Nat) :
    CopiedIn kend trampoline trapframe p mem table srcva 0 0 [] mem table where
  space := space
  length_le := Nat.le_refl 0
  bytes := by simp
  viewed := fun _ => rfl
  confined := fun _ changed => absurd rfl changed
  ended := .inl ⟨rfl, rfl⟩

/-- A round of `copyin` and the rounds after it. -/
theorem CopiedIn.round
    (resolved : Resolved kend trampoline trapframe p mem table page pa middle between)
    (mapped : between.leaf page = some leaf) (user : leaf.flags &&& PTE_U ≠ 0)
    (low : page * PGSIZE ≤ srcva) (fits : srcva + n ≤ (page + 1) * PGSIZE)
    (short : n ≤ len) (continues : len = n ∨ next = srcva + n ∧ next % PGSIZE = 0)
    (copied : CopiedIn kend trampoline trapframe p middle between next (len - n)
      value data result after) :
    CopiedIn kend trampoline trapframe p mem table srcva len value
      ((List.range n).map (fun index => middle.ram
        (leaf.frame * PGSIZE + (srcva - page * PGSIZE) + index)) ++ data)
      result after := by
  have length_le := copied.length_le
  have length : ((List.range n).map (fun index => middle.ram
      (leaf.frame * PGSIZE + (srcva - page * PGSIZE) + index)) ++
        data).length = n + data.length := by
    simp
  refine ⟨copied.space, by omega, ?_, ?_, ?_, ?_⟩
  · intro index below
    rw [length] at below
    rw [← resolved.view space]
    rcases Nat.lt_or_ge index n with first | later
    · have here : (srcva + index) / PGSIZE = page := by
        simp only [PGSIZE] at low fits ⊢
        omega
      have offset : (srcva + index) % PGSIZE = srcva - page * PGSIZE + index := by
        simp only [PGSIZE] at low fits ⊢
        omega
      rw [view, here, mapped]
      simp only
      rw [if_pos user, offset, List.getElem?_append_left (by simpa using first)]
      simp [first, Nat.add_assoc]
    · obtain all | ⟨rfl, _⟩ := continues
      · omega
      · have fetched := copied.bytes (index - n) (by omega)
        rw [show srcva + n + (index - n) = srcva + index by omega] at fetched
        rw [fetched, List.getElem?_append_right (by simpa using later)]
        simp
  · intro va
    rw [copied.viewed va, resolved.view space va]
  · intro address changed
    by_cases again : result.ram address = middle.ram address
    · rw [again] at changed
      exact resolved.spared changed
    · exact (copied.confined address again).elim (fun node => resolved.pool _ (.inl node))
        fun free => resolved.pool _ (.inr free)
  · rw [length]
    rcases copied.ended with ⟨zero, all⟩ | ⟨failed, less, boundary, missing⟩
    · exact .inl ⟨zero, by omega⟩
    · obtain all | ⟨rfl, start⟩ := continues
      · omega
      refine .inr ⟨failed, by omega, .inr ?_, ?_⟩
      · rw [← Nat.add_assoc]
        rcases boundary with rfl | boundary
        · exact start
        · exact boundary
      · intro found present
        apply missing found
        rw [Nat.add_assoc]
        exact resolved.kept present

theorem AddressSpace.copyinLoop (dst : List UInt8) (enough : len ≤ fuel) (small : srcva < 2 ^ 64) :
    ∃ value data result after, mem.copyinLoop kend p p.pagetable fuel dst srcva len =
          .ok (value, dst ++ data, result) ∧
        CopiedIn kend trampoline trapframe p mem table srcva len value data result after := by
  induction fuel generalizing mem table srcva len dst with
  | zero =>
    obtain rfl : len = 0 := by omega
    refine ⟨0, [], mem, table, ?_, space.copiedIn_zero srcva⟩
    rw [List.append_nil]
    rfl
  | succ fuel induction =>
    have rounded : srcva / PGSIZE * PGSIZE ≤ srcva := pgrounddown_le srcva
    have within : srcva < srcva / PGSIZE * PGSIZE + PGSIZE := lt_pgrounddown_add srcva
    rw [PhysicalMemory.copyinLoop]
    split
    · rename_i empty
      subst len
      refine ⟨0, [], mem, table, ?_, space.copiedIn_zero srcva⟩
      rw [List.append_nil]
    · rename_i positive
      obtain ⟨pa, middle, between, resolves, resolved⟩ :=
        space.resolve (show srcva / PGSIZE * PGSIZE < 2 ^ 64 by omega)
      simp only
      rw [show pgrounddown srcva = srcva / PGSIZE * PGSIZE from rfl, resolves]
      simp only
      split
      · rename_i zero
        refine ⟨-1, [], middle, between, by rw [List.append_nil], ?_⟩
        refine ⟨resolved.space, Nat.zero_le len, by simp, resolved.view space,
          fun _ => resolved.spared, .inr ⟨rfl, Nat.pos_of_ne_zero positive, .inl rfl, ?_⟩⟩
        exact resolved.missing zero
      · rename_i nonzero
        obtain ⟨leaf, mapped, user, pa_eq⟩ := resolved.found nonzero
        rw [pa_eq]
        generalize n_eq : min (PGSIZE - (srcva - srcva / PGSIZE * PGSIZE)) len = n
        have next_small := next_page_small (resolved.space.page_lt mapped)
        obtain ⟨value, data, result, after, copies, copied⟩ :=
          induction resolved.space (dst ++ (List.range n).map fun index =>
            middle.ram (leaf.frame * PGSIZE + (srcva - srcva / PGSIZE * PGSIZE) + index))
            (show len - n ≤ fuel by omega) next_small
        rw [List.append_assoc] at copies
        refine ⟨value, _, result, after, copies,
          copied.round space resolved mapped user rounded ?_ (by omega) ?_⟩
        · rw [Nat.succ_mul]
          omega
        · simp only [PGSIZE] at *
          omega

end

/-- What a process finds at an address, in the memory of the machine. -/
def PhysicalMemory.userByte (mem : PhysicalMemory) (p : CurrentProcess)
    (va : UInt64) : Option UInt8 :=
  match mem.translate p.pagetable va with
  | some (pa, flags) =>
    if flags &&& PTE_U ≠ 0 then some (mem.ram (pa.toNat + va.toNat % PGSIZE))
    else none
  | none => if pgrounddown va.toNat < p.sz then some 0 else none

namespace AddressSpace

section

variable (space : AddressSpace kend trampoline trapframe p mem table)

include space

theorem translate (va : UInt64) :
    mem.translate p.pagetable va = (table.leaf (va.toNat / PGSIZE)).map fun leaf =>
        (UInt64.ofNat (leaf.frame * PGSIZE), leaf.flags) := by
  rcases Nat.lt_or_ge va.toNat MAXVA with below | above
  · rw [space.pagetable, space.represents.translate below]
  · have beyond : VPAGES ≤ va.toNat / PGSIZE := Nat.div_le_div_right above
    rw [space.leaf_none beyond, PhysicalMemory.translate, PhysicalMemory.walk, if_pos above]
    rfl

theorem userByte (va : UInt64) : mem.userByte p va = view mem.ram table p.sz va.toNat := by
  rw [PhysicalMemory.userByte, space.translate, view]
  cases mapped : table.leaf (va.toNat / PGSIZE) with
  | none => rfl
  | some leaf =>
    simp only [Option.map_some]
    rw [frame_address (space.represents.leaves mapped).1]

/-- A process finds the same bytes as long as its own pages are unchanged. -/
theorem userByte_congr (kept : AddressSpace kend trampoline trapframe p result table)
    (same : ∀ address, address / PGSIZE ∈ table.space →
      result.ram address = mem.ram address) (va : UInt64) :
    result.userByte p va = mem.userByte p va := by
  rw [kept.userByte, space.userByte, view, view]
  cases mapped : table.leaf (va.toNat / PGSIZE) with
  | none => rfl
  | some leaf =>
    simp only
    by_cases user : leaf.flags &&& PTE_U = 0
    · rw [if_neg (not_not.mpr user), if_neg (not_not.mpr user)]
    · obtain ⟨_, member, _⟩ := space.user_frame mapped user
      rw [same]
      rw [page_of_address _ (Nat.mod_lt _ PGSIZE_pos)]
      exact Multiset.mem_add.mpr (.inr member)

/-- The process sees nothing from `MAXVA` on. -/
theorem lt_MAXVA (seen : view mem.ram table p.sz va ≠ none) : va < MAXVA := by
  by_contra above
  have beyond : VPAGES ≤ va / PGSIZE := Nat.div_le_div_right (not_lt.mp above)
  apply seen
  rw [view, space.leaf_none beyond]
  have limit := npages_le_iff.mp space.shape.limit
  have bytes : TRAPFRAME * PGSIZE ≤ MAXVA - PGSIZE := by decide
  have near := lt_pgrounddown_add va
  have size : PGSIZE ≤ MAXVA := by decide
  exact if_neg (by omega)

/-- A copy that succeeded can be read back. -/
theorem copyin_of_mapped (small : dstva < 2 ^ 64)
    (mapped : ∀ index < len, ∃ leaf, table.leaf ((dstva + index) / PGSIZE) = some leaf ∧
        leaf.flags &&& PTE_U ≠ 0) :
    ∃ data last, mem.copyinLoop kend p p.pagetable len [] dstva len =
        .ok (0, data, last) ∧ data.length = len ∧
      ∀ index < len, view mem.ram table p.sz (dstva + index) = data[index]? := by
  obtain ⟨value, data, last, between, copies, copied⟩ := space.copyinLoop [] le_rfl small
  rcases copied.ended with ⟨rfl, all⟩ | ⟨_, less, _, missing⟩
  · refine ⟨data, last, copies, all, ?_⟩
    rw [← all]
    exact copied.bytes
  · obtain ⟨leaf, present, user⟩ := mapped data.length less
    exact absurd (missing leaf present) user

end

end AddressSpace

/-- `mappages` of one page that succeeds. -/
theorem Represents.mapPage_zero (represents : Represents mem table)
    (below : page < VPAGES) (small : frame < 2 ^ 44)
    (flags : perm.toNat < 1024) (unmapped : table.leaf page = none)
    (maps : mem.mappages (UInt64.ofNat (table.root * PGSIZE))
      (UInt64.ofNat (page * PGSIZE)) 4096 (UInt64.ofNat (frame * PGSIZE)) perm = .ok (0, result)) :
    ∃ after, Represents result after ∧ after.root = table.root ∧
      after.leaf = Function.update table.leaf page
        (some { frame := frame, flags := perm ||| PTE_V }) ∧
      after.nodes + (result.freelist : Multiset Nat) = table.nodes + mem.freelist := by
  obtain ⟨mapped, after, last, same, _, kept, _, root, leaf, conserved⟩ :=
    represents.mapPage below small flags unmapped
  rw [maps] at same
  cases mapped with
  | false => cases same
  | true =>
    cases same
    exact ⟨after, kept, root, leaf, conserved⟩

/-- The address space that `proc_pagetable` makes, once `sbrk` has raised the
size without allocating. -/
theorem AddressSpace.create {pagetable : UInt64} (distinct : mem.freelist.Nodup)
    (above : ∀ frame ∈ mem.freelist, 0 < frame ∧ kend ≤ frame * PGSIZE ∧ frame * PGSIZE < PHYSTOP)
    (creates : mem.uvmcreate = (some pagetable, first)) (trampoline_small : trampoline < 2 ^ 44)
    (trapframe_small : trapframe < 2 ^ 44)
    (code : first.mappages pagetable (UInt64.ofNat (TRAMPOLINE * PGSIZE)) 4096
      (UInt64.ofNat (trampoline * PGSIZE)) (PTE_R ||| PTE_X) = .ok (0, second))
    (frame : second.mappages pagetable (UInt64.ofNat (TRAPFRAME * PGSIZE)) 4096
      (UInt64.ofNat (trapframe * PGSIZE)) (PTE_R ||| PTE_W) = .ok (0, third))
    (limit : sz ≤ TRAPFRAME * PGSIZE) :
    ∃ table, AddressSpace kend trampoline trapframe
      { pagetable := pagetable, sz := sz } third table := by
  have less : TRAPFRAME < TRAMPOLINE := by decide
  have small (frame : Nat) (member : frame ∈ mem.freelist) : frame < 2 ^ 44 := by
    obtain ⟨_, _, bound⟩ := above frame member
    have stop : PHYSTOP < 2 ^ 44 := by decide
    have page : frame ≤ frame * PGSIZE := Nat.le_mul_of_pos_right _ PGSIZE_pos
    exact (page.trans_lt bound).trans stop
  cases free : mem.freelist with
  | nil => simp [PhysicalMemory.uvmcreate, PhysicalMemory.kalloc, free] at creates
  | cons root rest =>
    simp only [PhysicalMemory.uvmcreate, PhysicalMemory.kalloc, free,
      Prod.mk.injEq, Option.some.injEq] at creates
    obtain ⟨rfl, rfl⟩ := creates
    have empty := Represents.uvmcreate distinct small free
    obtain ⟨one, represents, root_one, leaf_one, conserved⟩ :=
      empty.mapPage_zero TRAMPOLINE_lt trampoline_small (by decide) rfl code
    have unmapped : one.leaf TRAPFRAME = none := by
      rw [leaf_one, Function.update_of_ne (Nat.ne_of_lt less)]
      rfl
    have base : one.root = root := root_one
    rw [← base] at frame
    obtain ⟨two, represents, root_two, leaf_two, conserved'⟩ :=
      represents.mapPage_zero TRAPFRAME_lt trapframe_small (by decide) unmapped frame
    have bare (page : Nat) (low : page < TRAPFRAME) : two.leaf page = none := by
      rw [leaf_two, Function.update_of_ne (Nat.ne_of_lt low), leaf_one,
        Function.update_of_ne (Nat.ne_of_lt (low.trans less))]
      rfl
    have all : two.space + (third.freelist : Multiset Nat) =
        mem.freelist := by
      rw [PageTable.space, PageTable.leafFrames_none bare, add_zero,
        conserved', conserved, PageTable.nodes_empty, free,
        Multiset.singleton_add, Multiset.cons_coe]
    refine ⟨two, represents, ?_, ?_, ?_, ?_⟩
    · rw [root_two, base]
    · refine ⟨represents.wellFormed, ?_, ?_, ?_, npages_le_iff.mpr limit⟩
      · rw [leaf_two, Function.update_of_ne (Nat.ne_of_gt less), leaf_one, Function.update_self]
      · rw [leaf_two, Function.update_self]
      · intro page mapped
        by_cases top : page = TRAMPOLINE
        · exact .inl top
        · by_cases next : page = TRAPFRAME
          · exact .inr (.inl next)
          · apply absurd _ mapped
            rw [leaf_two, Function.update_of_ne next, leaf_one, Function.update_of_ne top]
            rfl
    · rw [all]
      exact Multiset.coe_nodup.mpr distinct
    · rw [all]
      exact fun frame member => above frame member

/-- The root of the page table is not for the user. -/
theorem AddressSpace.root_hidden (space : AddressSpace kend trampoline trapframe p mem table)
    (found : mem.translate p.pagetable target = some (pa, flags))
    (user : flags &&& PTE_U ≠ 0) : pa.toNat ≠ p.pagetable.toNat := by
  rw [space.translate, Option.map_eq_some_iff] at found
  obtain ⟨leaf, mapped, same⟩ := found
  cases same
  have node : table.root ∈ table.nodes :=
    PageTable.mem_nodes space.represents.wellFormed
      (show table.frameAt .root = some table.root from rfl)
  rw [space.pagetable, frame_address (space.represents.leaves mapped).1,
    frame_address (space.represents.frame_lt .root rfl)]
  intro equal
  rw [Nat.eq_of_mul_eq_mul_right PGSIZE_pos equal.symm] at node
  exact (space.user_frame mapped user).2.2.1 node

def eightPages : PhysicalMemory :=
  { ram := fun _ => 0
    freelist := [0x87FFF, 0x87FFE, 0x87FFD, 0x87FFC, 0x87FFB, 0x87FFA, 0x87FF9, 0x87FF8] }

/-- The page table of a new process on a machine with eight free pages. -/
def newTable : Option (UInt64 × PhysicalMemory) :=
  match eightPages.uvmcreate with
  | (none, _) => none
  | (some pagetable, mem) =>
    match mem.mappages pagetable (UInt64.ofNat (TRAMPOLINE * PGSIZE)) 4096
      (UInt64.ofNat (0x80007 * PGSIZE)) (PTE_R ||| PTE_X) with
    | .ok (0, mem) =>
      match mem.mappages pagetable (UInt64.ofNat (TRAPFRAME * PGSIZE)) 4096
        (UInt64.ofNat (0x87000 * PGSIZE)) (PTE_R ||| PTE_W) with
      | .ok (0, mem) => some (pagetable, mem)
      | _ => none
    | _ => none

theorem newTable_space (made : newTable = some (pagetable, mem)) :
    ∃ table, AddressSpace KERNBASE 0x80007 0x87000
      { pagetable := pagetable, sz := 4096 } mem table := by
  rw [newTable] at made
  split at made
  · cases made
  · rename_i creates
    split at made
    · rename_i code
      split at made
      · rename_i frame
        cases made
        exact AddressSpace.create (by decide) (by decide) creates (by decide)
          (by decide) code frame (by decide)
      · cases made
    · cases made

/-- A process of one page that has not been allocated yet is sent a byte. -/
theorem copyout_newTable : newTable.any (fun (pagetable, mem) =>
      match mem.copyout KERNBASE { pagetable := pagetable, sz := 4096 }
        pagetable 0 (fun _ => 7) 1 with
      | .ok (value, after) => decide (value = 0 ∧
          after.ram pagetable.toNat ≠ mem.ram pagetable.toNat)
      | .error _ => false) = true := by
  decide +kernel

theorem copyout_newTable_returns : ∃ pagetable mem after table,
      AddressSpace KERNBASE 0x80007 0x87000 { pagetable := pagetable, sz := 4096 } mem table ∧
      mem.copyout KERNBASE { pagetable := pagetable, sz := 4096 } pagetable 0
        (fun _ => 7) 1 = .ok (0, after) ∧
      after.ram pagetable.toNat ≠ mem.ram pagetable.toNat := by
  have facts := copyout_newTable
  rw [Option.any_eq_true] at facts
  obtain ⟨⟨pagetable, mem⟩, made, facts⟩ := facts
  obtain ⟨table, space⟩ := newTable_space made
  simp only at facts
  split at facts
  · rename_i value after returns
    obtain ⟨rfl, changed⟩ := of_decide_eq_true facts
    exact ⟨pagetable, mem, after, table, space, returns, changed⟩
  · cases facts

/-- Copies do to the bytes that the process sees what they say, and `copyout`
changes no page but user pages with `PTE_W`, free pages and the nodes of the
page table. -/
theorem user_copies_are_exact {table : PageTable}
    (space : AddressSpace kend trampoline trapframe p mem table)
    (va len : UInt64) (src : Nat → UInt8) :
    (∃ value count after, mem.copyout kend p p.pagetable va src len = .ok (value, after) ∧
      (value = 0 ∧ count = len.toNat ∨ value = -1 ∧ count ≤ len.toNat) ∧
      (count = 0 ∨ va.toNat + count ≤ MAXVA) ∧
      (∀ other : UInt64, after.userByte p other =
        if va.toNat ≤ other.toNat ∧ other.toNat < va.toNat + count then
          some (src (other.toNat - va.toNat))
        else mem.userByte p other) ∧
      (∀ address, after.ram address ≠ mem.ram address →
        address / PGSIZE ∈ table.nodes ∨ address / PGSIZE ∈ mem.freelist ∨ ∃ target pa flags,
            mem.translate p.pagetable target = some (pa, flags) ∧
            pa.toNat = address / PGSIZE * PGSIZE ∧ flags &&& PTE_V ≠ 0 ∧
            flags &&& PTE_U ≠ 0 ∧ flags &&& PTE_W ≠ 0) ∧
      (value = 0 → ∃ last, after.copyin kend p p.pagetable va len =
        .ok (0, (List.range len.toNat).map src, last))) ∧
    (∃ value data after, mem.copyin kend p p.pagetable va len = .ok (value, data, after) ∧
      (value = 0 ∧ data.length = len.toNat ∨ value = -1 ∧ data.length < len.toNat) ∧
      (data = [] ∨ va.toNat + data.length ≤ MAXVA) ∧
      (∀ other : UInt64, va.toNat ≤ other.toNat → other.toNat < va.toNat + data.length →
          mem.userByte p other = data[other.toNat - va.toNat]?) ∧
      (∀ other, after.userByte p other = mem.userByte p other) ∧
      ∀ address, after.ram address ≠ mem.ram address → address / PGSIZE ∈ table.nodes ∨
          address / PGSIZE ∈ mem.freelist) := by
  constructor
  · obtain ⟨value, count, after, last, copies, count_le, values, _, copied⟩ :=
      space.copyoutLoop src le_rfl va.toNat_lt
    refine ⟨value, count, after, copies, ?_, ?_, ?_, ?_, ?_⟩
    · exact values.imp_right fun failed => ⟨failed, count_le⟩
    · rcases Nat.eq_zero_or_pos count with none | some
      · exact .inl none
      · have seen : view after.ram last p.sz (va.toNat + (count - 1)) ≠ none := by
          rw [copied.viewed, if_pos (by omega)]
          simp
        have below := copied.space.lt_MAXVA seen
        omega
    · intro other
      rw [copied.space.userByte, space.userByte, copied.viewed]
    · intro address changed
      refine (copied.confined address changed).imp_right fun rest => rest.imp_right ?_
      rintro ⟨page, leaf, mapped, same, user, write⟩
      obtain ⟨_, _, number⟩ := page_address (space.page_lt mapped)
      obtain ⟨small, _, odd⟩ := space.represents.leaves mapped
      refine ⟨UInt64.ofNat (page * PGSIZE), UInt64.ofNat (leaf.frame * PGSIZE),
        leaf.flags, ?_, ?_, ?_, user, write⟩
      · rw [space.translate, number, mapped]
        rfl
      · rw [frame_address small, same]
      · rw [Ne, and_valid_eq_zero_iff]
        omega
    · rintro rfl
      have all : count = len.toNat := by
        rcases values with ⟨_, all⟩ | failed
        · exact all
        · cases failed
      subst all
      obtain ⟨data, final, reads, length, bytes⟩ :=
        copied.space.copyin_of_mapped va.toNat_lt copied.mapped
      refine ⟨final, ?_⟩
      rw [PhysicalMemory.copyin, reads]
      congr 3
      apply List.ext_getElem?
      intro index
      rcases Nat.lt_or_ge index len.toNat with inside | outside
      · rw [← bytes index inside, copied.viewed, if_pos (by omega), Nat.add_sub_cancel_left]
        simp [inside]
      · rw [List.getElem?_eq_none (by omega), List.getElem?_eq_none (by simpa)]
  · obtain ⟨value, data, after, last, copies, copied⟩ :=
      space.copyinLoop [] le_rfl va.toNat_lt
    refine ⟨value, data, after, copies, ?_, ?_, ?_, ?_, copied.confined⟩
    · exact copied.ended.imp_right fun failed => ⟨failed.1, failed.2.1⟩
    · rcases List.eq_nil_or_concat' data with none | ⟨front, byte, rfl⟩
      · exact .inl none
      · have seen := copied.bytes front.length (by simp)
        have below := space.lt_MAXVA (show view mem.ram table p.sz
          (va.toNat + front.length) ≠ none by rw [seen]; simp)
        right
        simp only [List.length_append, List.length_singleton]
        omega
    · intro other low high
      rw [space.userByte, ← copied.bytes _ (by omega), Nat.add_sub_cancel' low]
    · intro other
      rw [copied.space.userByte, space.userByte, copied.viewed]

theorem user_copies_are_exact_newTable : ∃ p mem after table,
      AddressSpace KERNBASE 0x80007 0x87000 p mem table ∧
      mem.copyout KERNBASE p p.pagetable 0 (fun _ => 7) 1 = .ok (0, after) ∧
      after.userByte p 0 = some 7 ∧ after.userByte p 1 = mem.userByte p 1 := by
  obtain ⟨pagetable, mem, after, table, space, returns, _⟩ := copyout_newTable_returns
  obtain ⟨⟨value, count, result, copies, values, _, bytes, _⟩, _⟩ :=
    user_copies_are_exact space 0 1 fun _ => 7
  have same := returns.symm.trans copies
  cases same
  obtain rfl : count = 1 := by
    rcases values with ⟨_, all⟩ | ⟨failed, _⟩
    · exact all
    · cases failed
  refine ⟨_, mem, after, table, space, returns, ?_, ?_⟩
  · rw [bytes 0]
    rfl
  · rw [bytes 1]
    exact if_neg (by decide)

/-- `vmfault` writes into the page table, which is no page for the user and
was not free. -/
theorem copyout_changes_the_page_table : ∃ p mem after table address,
      AddressSpace KERNBASE 0x80007 0x87000 p mem table ∧
      mem.copyout KERNBASE p p.pagetable 0 (fun _ => 7) 1 = .ok (0, after) ∧
      after.ram address ≠ mem.ram address ∧
      address / PGSIZE ∉ mem.freelist ∧
      ∀ target pa flags, mem.translate p.pagetable target = some (pa, flags) ∨
            after.translate p.pagetable target = some (pa, flags) →
          flags &&& PTE_U ≠ 0 → pa.toNat ≠ address / PGSIZE * PGSIZE := by
  obtain ⟨pagetable, mem, after, table, space, returns, changed⟩ := copyout_newTable_returns
  obtain ⟨value, count, result, last, copies, _, _, _, copied⟩ :=
    space.copyoutLoop (fun _ => 7) le_rfl (show 0 < 2 ^ 64 by decide)
  obtain rfl : after = result := by
    have same := returns.symm.trans copies
    cases same
    rfl
  have root : pagetable.toNat = table.root * PGSIZE := by
    have pagetable_eq : pagetable = _ := space.pagetable
    rw [pagetable_eq, frame_address (space.represents.frame_lt .root rfl)]
  have page : pagetable.toNat / PGSIZE = table.root := by rw [root, Nat.mul_div_cancel _ PGSIZE_pos]
  refine ⟨_, mem, after, table, pagetable.toNat, space, returns, changed, ?_, ?_⟩
  · rw [page]
    exact space.represents.not_free (show table.frameAt .root = some table.root from rfl)
  · intro target pa flags found user
    rw [page, ← root]
    rcases found with before | later
    · exact space.root_hidden before user
    · exact copied.space.root_hidden later user

end Xv6KernelEvent
