import Xv6KernelEvent.Memory.Process

/-!
# Accounts of user memory

What the functions that grow, shrink, copy and free the memory of a process
hold.  A process holds the nodes of its page table and the pages behind the
leaves below the trapframe.
-/

namespace Xv6KernelEvent

open Custody

theorem TRAPFRAME_lt : TRAPFRAME < VPAGES := by decide

theorem TRAMPOLINE_lt : TRAMPOLINE < VPAGES := by decide

theorem pgroundup_eq (small : sz ≤ TRAPFRAME * PGSIZE) : pgroundup sz = npages sz * PGSIZE := by
  have limit : TRAPFRAME * PGSIZE = 274877898752 := by decide
  have wraps : (sz + PGSIZE - 1) % 2 ^ 64 = sz + PGSIZE - 1 := by
    simp only [PGSIZE]
    omega
  rw [pgroundup, npages, wraps]

theorem pgroundup_div (small : sz ≤ TRAPFRAME * PGSIZE) : pgroundup sz / PGSIZE = npages sz := by
  rw [pgroundup_eq small, Nat.mul_div_cancel _ PGSIZE_pos]

theorem npages_mono (le : sz ≤ other) : npages sz ≤ npages other := Nat.div_le_div_right (by omega)

theorem npages_mul (count : Nat) : npages (count * PGSIZE) = count := by
  simp only [npages, PGSIZE]
  omega

theorem npages_le_iff : npages sz ≤ limit ↔ sz ≤ limit * PGSIZE := by
  simp only [npages, PGSIZE]
  omega

namespace PageTable

variable {table : PageTable} {stock : Multiset Nat} {page : Nat}

/-- The pages that belong to a user page table. -/
def space (table : PageTable) : Multiset Nat := table.nodes + table.leafFrames TRAPFRAME

theorem leafFrames_congr {other : PageTable} {limit : Nat}
    (same : ∀ page < limit, other.leaf page = table.leaf page) :
    other.leafFrames limit = table.leafFrames limit := by
  rw [leafFrames, leafFrames, contents, contents]
  apply Finset.sum_congr rfl
  intro page member
  rw [same page (Finset.mem_range.mp member)]

theorem leafFrames_map {after : PageTable} {limit : Nat} (below : page < limit)
    (unmapped : table.leaf page = none) {leaf : Leaf}
    (mapped : after.leaf = Function.update table.leaf page (some leaf)) :
    after.leafFrames limit = leaf.frame ::ₘ table.leafFrames limit := by
  have bare : table.leafFrames limit = (after.setLeaf page none).leafFrames limit := by
    apply leafFrames_congr
    intro other _
    by_cases same : other = page
    · subst other
      simp [setLeaf, unmapped]
    · simp [setLeaf, mapped, same]
  rw [bare]
  exact leafFrames_setLeaf below (by rw [mapped, Function.update_self])

/-- A page of the process is mapped below the trapframe. -/
theorem mappages_user (wellFormed : table.WellFormed) (below : page < TRAPFRAME)
    (unmapped : table.leaf page = none) (mem : Nat) (perm : UInt64) :
    Accounts stock (fun (mapped, after) held => after.WellFormed ∧
        after.leaf = (if mapped then Function.update table.leaf page
            (some { frame := mem, flags := perm ||| PTE_V })
          else table.leaf) ∧
        held = after.space + if mapped then 0 else {mem})
      (mem ::ₘ table.space) (table.mappages page 1 mem perm) := by
  rw [mappages_one]
  have maps : Accounts stock _ _ _ := mapPage_accounts wellFormed
    (below.trans TRAPFRAME_lt) unmapped mem perm
  have framed := maps.frame (mem ::ₘ table.leafFrames TRAPFRAME)
  rw [Multiset.add_cons] at framed
  refine framed.mono ?_
  rintro ⟨mapped, after⟩ held ⟨rest, rfl, rfl, kept, _, leaf⟩
  refine ⟨kept, leaf, ?_⟩
  cases mapped with
  | false =>
    rw [space, leafFrames_congr fun other _ => congrFun leaf other]
    simp only [Bool.false_eq_true, if_false]
    rw [add_assoc, add_comm (table.leafFrames _), Multiset.singleton_add]
  | true =>
    rw [space, leafFrames_map below unmapped leaf]
    exact (add_zero _).symm

theorem uvmdealloc_accounts (wellFormed : table.WellFormed) (small : oldsz ≤ TRAPFRAME * PGSIZE) :
    Accounts stock (fun (sz, after) held =>
        sz = (if newsz ≥ oldsz then oldsz else newsz) ∧
          after = table.erase (npages newsz) (npages oldsz - npages newsz) ∧
          held = after.space)
      table.space (table.uvmdealloc oldsz newsz) := by
  rw [uvmdealloc]
  by_cases larger : newsz ≥ oldsz
  · have none_freed : npages oldsz - npages newsz = 0 := Nat.sub_eq_zero_of_le (npages_mono larger)
    rw [if_pos larger, if_pos larger, none_freed, erase_zero]
    exact ⟨rfl, rfl, rfl⟩
  · have less : newsz ≤ TRAPFRAME * PGSIZE := by omega
    rw [if_neg larger, if_neg larger, pgroundup_eq small, pgroundup_eq less]
    split
    · rw [← Nat.sub_mul, Nat.mul_div_cancel _ PGSIZE_pos, Nat.mul_div_cancel _ PGSIZE_pos]
      have inside : npages newsz + (npages oldsz - npages newsz) ≤
          TRAPFRAME := by
        have := npages_le_iff.mpr small
        have := npages_mono (Nat.le_of_not_le larger)
        omega
      refine (uvmunmap_freeing wellFormed inside (Nat.le_of_lt TRAPFRAME_lt)).seq ?_
      rintro after held ⟨rfl, rfl⟩
      exact ⟨rfl, rfl, rfl⟩
    · rename_i rounded
      have none_freed : npages oldsz - npages newsz = 0 := by
        have := Nat.le_of_mul_le_mul_right (not_lt.mp rounded) PGSIZE_pos
        omega
      rw [none_freed, erase_zero]
      exact ⟨rfl, rfl, rfl⟩

/-- Pages `start` up to `stop` are mapped on top of a table. -/
structure Extends (before : PageTable) (start stop : Nat) (flags : UInt64)
    (after : PageTable) : Prop where
  wellFormed : after.WellFormed
  outside : ∀ page, ¬(start ≤ page ∧ page < stop) → after.leaf page = before.leaf page
  inside : ∀ page, start ≤ page → page < stop →
    ∃ frame, after.leaf page = some { frame := frame, flags := flags }

theorem Extends.erase (extension : Extends before start stop flags table)
    (bare : ∀ page, start ≤ page → page < stop → before.leaf page = none) :
    (table.erase start (stop - start)).leaf = before.leaf := by
  funext page
  simp only [PageTable.erase]
  split
  · rename_i between
    exact (bare page between.1 (by omega)).symm
  · rename_i outside
    exact extension.outside page (by omega)

theorem Extends.snoc (extension : Extends before start stop flags table) (ordered : start ≤ stop)
    (wellFormed : after.WellFormed) (mapped : after.leaf = Function.update table.leaf stop
      (some { frame := mem, flags := flags })) :
    Extends before start (stop + 1) flags after := by
  refine ⟨wellFormed, ?_, ?_⟩
  · intro page outside
    have elsewhere : page ≠ stop := by omega
    rw [mapped, Function.update_of_ne elsewhere]
    exact extension.outside page (by omega)
  · intro page above below
    by_cases last : page = stop
    · subst page
      exact ⟨mem, by rw [mapped, Function.update_self]⟩
    · rw [mapped, Function.update_of_ne last]
      exact extension.inside page above (by omega)

/-- A table whose first pages are all mapped cannot outgrow the stock. -/
theorem lt_of_full (full : ∀ page < a, table.leaf page ≠ none)
    (reached : a ≤ TRAPFRAME) (bound : stock.card ≤ TRAPFRAME)
    (available : mem ::ₘ table.space ≤ stock) : a < TRAPFRAME := by
  have mapped : a ≤ (table.leafFrames TRAPFRAME).card := by
    apply le_card_contents reached
    intro page below
    rw [Ne, Option.map_eq_none_iff]
    exact full page below
  have held := Multiset.card_le_card available
  rw [Multiset.card_cons, space, Multiset.card_add] at held
  omega

/-- What `uvmalloc` does when it has no page for page `a`. -/
theorem uvmalloc_undone (bare : ∀ page, start ≤ page → page < TRAPFRAME → before.leaf page = none)
    (extension : Extends before start a flags table) (reached : a ≤ TRAPFRAME) :
    Accounts stock (fun (sz, after) held => held = after.space ∧ sz = 0 ∧
        after.WellFormed ∧ after.leaf = before.leaf)
      table.space (do
        let (_, table) ← table.uvmdealloc (a * PGSIZE) (start * PGSIZE)
        pure (0, table)) := by
  refine (uvmdealloc_accounts extension.wellFormed (Nat.mul_le_mul_right PGSIZE reached)).seq ?_
  rintro ⟨sz, after⟩ held ⟨_, rfl, rfl⟩
  refine ⟨rfl, rfl, extension.wellFormed.erase _, ?_⟩
  rw [npages_mul, npages_mul]
  exact extension.erase fun page above below => bare page above (below.trans_le reached)

theorem uvmallocLoop_accounts
    (bare : ∀ page, start ≤ page → page < TRAPFRAME → before.leaf page = none)
    (remaining a : Nat) (table : PageTable)
    (extension : Extends before start a (PTE_R ||| PTE_U ||| xperm ||| PTE_V) table)
    (ordered : start ≤ a) (reached : a ≤ TRAPFRAME) (room : a + remaining ≤ TRAPFRAME ∨
      (∀ page < a, table.leaf page ≠ none) ∧ stock.card ≤ TRAPFRAME) :
    Accounts stock (fun (sz, after) held => held = after.space ∧
        (sz = newsz ∧ a + remaining ≤ TRAPFRAME ∧ Extends before start (a + remaining)
              (PTE_R ||| PTE_U ||| xperm ||| PTE_V) after ∨
          sz = 0 ∧ after.WellFormed ∧ after.leaf = before.leaf))
      table.space (uvmallocLoop start newsz xperm remaining a table) := by
  induction remaining generalizing a table with
  | zero => exact ⟨rfl, .inl ⟨rfl, reached, extension⟩⟩
  | succ remaining induction =>
    refine Accounts.acquire_seq ?_ ?_
    · refine (uvmalloc_undone bare extension reached).mono ?_
      rintro ⟨sz, after⟩ held ⟨rfl, undone⟩
      exact ⟨rfl, .inr undone⟩
    intro mem available
    have below : a < TRAPFRAME := by
      rcases room with enough | ⟨full, bound⟩
      · omega
      · exact lt_of_full full reached bound available
    have unmapped : table.leaf a = none := by
      rw [extension.outside a (by omega)]
      exact bare a ordered below
    refine (mappages_user extension.wellFormed below unmapped mem _).seq ?_
    rintro ⟨mapped, after⟩ held ⟨wellFormed, leaf, rfl⟩
    cases mapped with
    | true =>
      have extended := extension.snoc ordered wellFormed leaf
      have later : a + 1 + remaining ≤ TRAPFRAME ∨ (∀ page < a + 1, after.leaf page ≠ none) ∧
            stock.card ≤ TRAPFRAME := by
        refine room.imp (by omega) ?_
        rintro ⟨full, bound⟩
        refine ⟨?_, bound⟩
        intro page less
        rw [leaf]
        by_cases last : page = a
        · simp [last]
        · simpa [last] using full page (by omega)
      have rest := induction (a + 1) after extended (by omega) below later
      rw [show a + 1 + remaining = a + (remaining + 1) by omega] at rest
      simpa using rest
    | false =>
      have same : Extends before start a (PTE_R ||| PTE_U ||| xperm ||| PTE_V) after := by
        have kept : after.leaf = table.leaf := leaf
        exact ⟨wellFormed, fun page out => kept ▸ extension.outside page out,
          fun page above low => kept ▸ extension.inside page above low⟩
      refine Accounts.release_seq (show _ = mem ::ₘ after.space from ?_) ?_
      · rw [add_comm]
        rfl
      · refine (uvmalloc_undone bare same reached).mono ?_
        rintro ⟨sz, last⟩ held ⟨rfl, undone⟩
        exact ⟨rfl, .inr undone⟩

theorem Extends.refl (wellFormed : table.WellFormed) (start : Nat) (flags : UInt64) :
    Extends table start start flags table :=
  ⟨wellFormed, fun _ _ => rfl, fun _ above below => absurd below (Nat.not_lt.mpr above)⟩

/-- `uvmalloc` maps all the pages up to the new size, or nothing. -/
theorem uvmalloc_accounts (wellFormed : table.WellFormed) (small : oldsz ≤ TRAPFRAME * PGSIZE)
    (bare : ∀ page, npages oldsz ≤ page → page < TRAPFRAME → table.leaf page = none)
    (room : newsz ≤ TRAPFRAME * PGSIZE ∨ (∀ page < npages oldsz, table.leaf page ≠ none) ∧
        stock.card ≤ TRAPFRAME) :
    Accounts stock (fun (sz, after) held => held = after.space ∧
        (sz = max oldsz newsz ∧ sz ≤ TRAPFRAME * PGSIZE ∧ Extends table (npages oldsz) (npages sz)
              (PTE_R ||| PTE_U ||| xperm ||| PTE_V) after ∨
          sz = 0 ∧ after.WellFormed ∧ after.leaf = table.leaf))
      table.space (table.uvmalloc oldsz newsz xperm) := by
  rw [uvmalloc]
  split
  · rename_i less
    refine ⟨rfl, .inl ⟨(Nat.max_eq_left (Nat.le_of_lt less)).symm, small, ?_⟩⟩
    exact Extends.refl wellFormed _ _
  · rename_i larger
    have ordered := npages_mono (not_lt.mp larger)
    have reached := npages_le_iff.mpr small
    have total : npages oldsz + rounds (npages oldsz) newsz = npages newsz := by
      rw [rounds]
      omega
    rw [pgroundup_div small]
    refine (uvmallocLoop_accounts bare _ (npages oldsz) table
      (Extends.refl wellFormed _ _) le_rfl reached ?_).mono ?_
    · rw [total]
      exact room.imp npages_le_iff.mpr id
    · rintro ⟨sz, after⟩ held ⟨rfl, outcome⟩
      refine ⟨rfl, outcome.imp_left ?_⟩
      rintro ⟨rfl, fits, extension⟩
      rw [total] at fits extension
      exact ⟨(Nat.max_eq_right (not_lt.mp larger)).symm, npages_le_iff.mp fits, extension⟩

theorem leafFrames_none (bare : ∀ page < limit, table.leaf page = none) :
    table.leafFrames limit = 0 := by
  rw [leafFrames, contents]
  apply Finset.sum_eq_zero
  intro page member
  rw [bare page (Finset.mem_range.mp member)]
  rfl

/-- `uvmfree` gives back a table whose leaves lie below its size. -/
theorem uvmfree_accounts (wellFormed : table.WellFormed) (small : sz ≤ TRAPFRAME * PGSIZE)
    (bounded : ∀ page, table.leaf page ≠ none → page < npages sz) :
    Accounts stock (fun _ held => held = 0) table.space (table.uvmfree sz) := by
  have erased (page : Nat) : (table.erase 0 (npages sz)).leaf page = none := by
    simp only [erase]
    split
    · rfl
    · rename_i outside
      by_contra mapped
      exact outside ⟨Nat.zero_le _, by
        rw [Nat.zero_add]
        exact bounded page mapped⟩
  have unmapped : Accounts stock (fun after held => after = table.erase 0 (npages sz) ∧
        held = after.space) table.space (table.unmapAll sz) := by
    rw [unmapAll]
    split
    · rw [pgroundup_div small]
      refine (uvmunmap_freeing wellFormed ?_ (Nat.le_of_lt TRAPFRAME_lt)).mono ?_
      · rw [Nat.zero_add]
        exact npages_le_iff.mpr small
      · rintro after held ⟨rfl, rfl⟩
        exact ⟨rfl, rfl⟩
    · rename_i zero
      obtain rfl : sz = 0 := by omega
      exact ⟨(erase_zero table 0).symm, rfl⟩
  refine unmapped.seq ?_
  rintro after held ⟨rfl, rfl⟩
  rw [space, leafFrames_none fun page _ => erased page, add_zero]
  exact freewalk_accounts (wellFormed.erase _) erased

theorem leaf_of_walk (wellFormed : table.WellFormed) (page : Nat) :
    (if (table.lower (page / 512)).isSome then table.leaf page else none) = table.leaf page := by
  split
  · rfl
  · rename_i bare
    by_contra mapped
    exact bare (Option.isSome_iff_ne_none.mpr (wellFormed.lower_of_leaf (Ne.symm mapped)))

/-- What `uvmcopy` does when it has no page for page `i`. -/
theorem uvmcopy_undone {before : PageTable}
    (bare : ∀ page < TRAPFRAME, before.leaf page = none) {i : Nat} (wellFormed : table.WellFormed)
    (same : ∀ page, i ≤ page → table.leaf page = before.leaf page) (inside : i ≤ TRAPFRAME) :
    Accounts stock (fun (copied, after) held => copied = false ∧ held = after.space ∧
        after.WellFormed ∧ after.leaf = before.leaf)
      table.space (do
        let new ← table.uvmunmap 0 i true
        pure (false, new)) := by
  refine (uvmunmap_freeing wellFormed (show 0 + i ≤ TRAPFRAME by rwa [Nat.zero_add])
    (Nat.le_of_lt TRAPFRAME_lt)).seq ?_
  rintro after held ⟨rfl, rfl⟩
  refine ⟨rfl, rfl, wellFormed.erase _, ?_⟩
  funext page
  simp only [erase, Nat.zero_add, Nat.zero_le, true_and]
  split
  · rename_i below
    exact (bare page (below.trans_le inside)).symm
  · rename_i above
    exact same page (not_lt.mp above)

/-- `uvmcopy` maps a copy of every page of the old table below the size, or
nothing. -/
theorem uvmcopyLoop_accounts {old before : PageTable} (wellFormed : old.WellFormed)
    (bare : ∀ page < TRAPFRAME, before.leaf page = none)
    (remaining i : Nat) (new : PageTable) (kept : new.WellFormed)
    (same : ∀ page, i ≤ page → new.leaf page = before.leaf page)
    (inside : i + remaining ≤ TRAPFRAME) :
    Accounts stock (fun (copied, after) held => held = after.space ∧ after.WellFormed ∧
        if copied then ∀ page, i + remaining ≤ page → after.leaf page = before.leaf page
        else after.leaf = before.leaf)
      new.space (uvmcopyLoop old remaining i new) := by
  induction remaining generalizing i new with
  | zero => exact ⟨rfl, kept, same⟩
  | succ remaining induction =>
    have next (new : PageTable) (kept : new.WellFormed) (same : ∀ page, i + 1 ≤ page →
          new.leaf page = before.leaf page) := by
      have rest := induction (i + 1) new kept same (by omega)
      rwa [show i + 1 + remaining = i + (remaining + 1) by omega] at rest
    have undone {new : PageTable} (kept : new.WellFormed)
        (same : ∀ page, i ≤ page → new.leaf page = before.leaf page) :
        Accounts stock (fun (copied, after) held => held = after.space ∧ after.WellFormed ∧
            if copied then ∀ page, i + (remaining + 1) ≤ page → after.leaf page = before.leaf page
            else after.leaf = before.leaf)
          new.space (do
            let new ← new.uvmunmap 0 i true
            pure (false, new)) := by
      refine (uvmcopy_undone bare kept same (by omega)).mono ?_
      rintro ⟨copied, after⟩ held ⟨rfl, undone⟩
      exact undone
    rw [uvmcopyLoop, walk_false wellFormed (by
      have := TRAPFRAME_lt
      omega)]
    simp only [Program.pure_bind, leaf_of_walk wellFormed]
    cases old.leaf i with
    | none => exact next new kept fun page above => same page (by omega)
    | some leaf =>
      refine Accounts.acquire_seq (undone kept same) ?_
      intro mem available
      have unmapped : new.leaf i = none := by
        rw [same i le_rfl]
        exact bare i (by omega)
      refine (mappages_user kept (by omega) unmapped mem _).seq ?_
      rintro ⟨mapped, after⟩ held ⟨wellFormed, leaves, rfl⟩
      cases mapped with
      | true =>
        have more (page : Nat) (above : i + 1 ≤ page) : after.leaf page = before.leaf page := by
          have elsewhere : page ≠ i := by omega
          rw [leaves]
          simp only [if_true, Function.update_of_ne elsewhere]
          exact same page (by omega)
        have rest := next after wellFormed more
        simpa using rest
      | false =>
        refine Accounts.release_seq (show _ = mem ::ₘ after.space from ?_) ?_
        · rw [add_comm]
          rfl
        · refine undone wellFormed fun page above => ?_
          have unchanged : after.leaf = new.leaf := leaves
          rw [unchanged]
          exact same page above

end PageTable

end Xv6KernelEvent
