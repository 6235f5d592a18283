import Xv6KernelEvent.Memory.UserCopy

/-!
# The pages of a process in physical memory

A page table and the pages behind its leaf entries make a `UserSpace`.  What a
copy does to physical memory it does to that, with `alloc` for the pages that
are mapped in the end.
-/

namespace Xv6KernelEvent

/-- The page behind a leaf entry, without the bytes that the user cannot reach. -/
def Leaf.page (leaf : Leaf) (ram : Ram) : Page where
  user := leaf.flags &&& PTE_U ≠ 0
  writable := leaf.flags &&& PTE_W ≠ 0
  data := fun offset =>
    if leaf.flags &&& PTE_U ≠ 0 ∧ offset < PGSIZE then ram (leaf.frame * PGSIZE + offset) else 0

def PhysicalMemory.userSpace (mem : PhysicalMemory) (table : PageTable) (sz : Nat) : UserSpace where
  sz := sz
  page := fun number => (table.leaf number).map (·.page mem.ram)

theorem PhysicalMemory.userSpace_page (mem : PhysicalMemory) (sz : Nat) {table : PageTable}
    (mapped : table.leaf page = leaf?) :
    (mem.userSpace table sz).page page = leaf?.map (·.page mem.ram) :=
  congrArg (Option.map _) mapped

theorem Leaf.page_congr {leaf : Leaf} {ram other : Ram}
    (same : leaf.flags &&& PTE_U ≠ 0 → ∀ offset < PGSIZE,
      other (leaf.frame * PGSIZE + offset) = ram (leaf.frame * PGSIZE + offset)) :
    leaf.page other = leaf.page ram := by
  simp only [Leaf.page, Page.mk.injEq, true_and]
  funext offset
  split
  · rename_i inside
    exact same inside.1 offset inside.2
  · rfl

section

variable {mem result : PhysicalMemory} {table after : PageTable}
  (space : AddressSpace kend trampoline trapframe p mem table)

include space

section

variable (resolved : Resolved kend trampoline trapframe p mem table page pa result after)

include resolved

/-- Looking for a page changes no page that is mapped. -/
theorem Resolved.page_kept (same : after.leaf number = table.leaf number) :
    (result.userSpace after p.sz).page number = (mem.userSpace table p.sz).page number := by
  rw [result.userSpace_page p.sz same]
  refine Option.map_congr fun leaf mapped => Leaf.page_congr ?_
  intro user offset small
  obtain ⟨_, _, notNode, notFree⟩ := space.user_frame mapped user
  have frame := page_of_address leaf.frame small
  exact resolved.spares _ (by rwa [frame]) (by rwa [frame])

theorem Resolved.userSpace_eq (same : after.leaf page = table.leaf page) :
    result.userSpace after p.sz = mem.userSpace table p.sz := by
  refine congrArg (UserSpace.mk p.sz) (funext fun other => resolved.page_kept space ?_)
  by_cases here : other = page
  · rw [here, same]
  · exact resolved.others other (.inl here)

/-- The page that has just been mapped. -/
theorem Resolved.fresh (changed : after.leaf page ≠ table.leaf page) :
    let fresh : Page := { user := true, writable := true, data := fun _ => 0 }
    table.leaf page = none ∧ page * PGSIZE < p.sz ∧
      (result.userSpace after p.sz).page page = some fresh ∧
      (mem.userSpace table p.sz).setPage page fresh = result.userSpace after p.sz := by
  rcases resolved.leaves page with kept | ⟨unmapped, inside, frame, _, mapped, zeros⟩
  · exact absurd kept changed
  have fresh : (result.userSpace after p.sz).page page =
      some { user := true, writable := true, data := fun _ => 0 } := by
    rw [result.userSpace_page p.sz mapped, Option.map_some, Leaf.page]
    simp only [Option.some.injEq, Page.mk.injEq, decide_eq_true_eq]
    refine ⟨by decide, by decide, funext fun offset => ?_⟩
    exact ite_eq_right_iff.mpr fun small => zeros offset small.2
  refine ⟨unmapped, inside, fresh, congrArg (UserSpace.mk p.sz) (funext fun other => ?_)⟩
  by_cases here : other = page
  · rw [here, Function.update_self, ← fresh]
    rfl
  · rw [Function.update_of_ne here]
    exact (resolved.page_kept space (resolved.others other (.inl here))).symm

/-- `resolve` finds the page that physical memory has in the end. -/
theorem Resolved.refines (allowed : alloc page = (after.leaf page).isSome) :
    (mem.userSpace table p.sz).resolve alloc (page * PGSIZE) =
      if pa = 0 then none
      else ((result.userSpace after p.sz).page page).map (·, result.userSpace after p.sz) := by
  have number : page * PGSIZE / PGSIZE = page := Nat.mul_div_cancel _ PGSIZE_pos
  by_cases same : after.leaf page = table.leaf page
  · rw [resolved.userSpace_eq space same]
    rw [same] at allowed
    cases mapped : table.leaf page with
    | none =>
      have missing : pa = 0 := by
        by_contra nonzero
        obtain ⟨leaf, found, _⟩ := resolved.found nonzero
        cases (same.trans mapped).symm.trans found
      have shown := mem.userSpace_page p.sz mapped
      rw [UserSpace.resolve_unmapped (by rwa [number]), if_pos missing, number]
      rw [mapped] at allowed
      exact if_neg fun grants => Bool.false_ne_true (allowed.symm.trans grants.2)
    | some leaf =>
      have shown := mem.userSpace_page p.sz mapped
      have low : page * PGSIZE < MAXVA :=
        Nat.mul_lt_mul_of_pos_right (space.page_lt mapped) PGSIZE_pos
      rw [UserSpace.resolve_mapped (by rwa [number]), shown]
      by_cases missing : pa = 0
      · simp [missing, Leaf.page, resolved.missing missing leaf mapped]
      · obtain ⟨_, found, user, _⟩ := resolved.found missing
        cases (same.trans mapped).symm.trans found
        simp [missing, low, Leaf.page, user]
  · obtain ⟨unmapped, inside, fresh, next⟩ := resolved.fresh space same
    have nonzero : ¬pa = 0 := fun zero => same (resolved.others page (.inr zero))
    have grants : alloc page = true := by
      rw [allowed, Option.isSome_iff_ne_none, ← unmapped]
      exact same
    rw [UserSpace.resolve_unmapped (by rw [number]; exact mem.userSpace_page p.sz unmapped), number,
      if_pos ⟨inside, grants⟩, if_neg nonzero, fresh, ← next]
    rfl

end

/-- Bytes stored in a page of the process. -/
theorem AddressSpace.userSpace_memmove (src : Nat → UInt8) (mapped : table.leaf page = some leaf)
    (user : leaf.flags &&& PTE_U ≠ 0) (fits : start + n ≤ PGSIZE) :
    (mem.userSpace table sz).setPage page ((leaf.page mem.ram).store start n src) =
      PhysicalMemory.userSpace { mem with
        ram := mem.ram.memmove (leaf.frame * PGSIZE + start) src n } table sz := by
  refine congrArg (UserSpace.mk sz) (funext fun other => ?_)
  by_cases here : other = page
  · subst other
    simp only [Function.update_self, mapped, Option.map_some]
    simp only [Leaf.page, Page.store, Option.some.injEq, Page.mk.injEq, true_and]
    funext offset
    by_cases inside : start ≤ offset ∧ offset < start + n
    · rw [if_pos inside, if_pos ⟨user, by omega⟩, Ram.memmove, if_pos (by omega)]
      congr 1
      omega
    · have stays : mem.ram.memmove (leaf.frame * PGSIZE + start) src n
            (leaf.frame * PGSIZE + offset) =
          mem.ram (leaf.frame * PGSIZE + offset) := if_neg (by omega)
      rw [if_neg inside, stays]
  · rw [Function.update_of_ne here]
    refine Option.map_congr fun leaf' mapped' => Leaf.page_congr ?_
    intro user' offset small
    refine (if_neg ?_).symm
    rintro ⟨low, high⟩
    refine here (space.frame_injective mapped' mapped user' user ?_)
    simp only [PGSIZE] at low high fits small
    omega

end

end Xv6KernelEvent
