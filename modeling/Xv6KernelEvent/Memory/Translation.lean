import Xv6KernelEvent.Library.Runs
import Xv6KernelEvent.Memory.TableWalk

/-!
# Page tables as finite maps

What an address translates to, as `walk` finds it in memory, before and after
`mappages` and `uvmunmap`, for every page table that comes about from
`uvmcreate` while the rest of the kernel uses the other pages.
-/

namespace Xv6KernelEvent

open Custody Runs

variable {mem : PhysicalMemory} {table : PageTable}

theorem page_address (below : page < VPAGES) :
    (UInt64.ofNat (page * PGSIZE)).toNat = page * PGSIZE ∧
      (UInt64.ofNat (page * PGSIZE)).toNat < MAXVA ∧
      (UInt64.ofNat (page * PGSIZE)).toNat / PGSIZE = page := by
  have pages : VPAGES = 2 ^ 26 := by decide
  rw [UInt64.toNat_ofNat']
  simp only [PGSIZE, MAXVA]
  omega

theorem next_page (page : Nat) :
    UInt64.ofNat (page * PGSIZE) + 4096 = UInt64.ofNat ((page + 1) * PGSIZE) := by
  rw [Nat.succ_mul, UInt64.ofNat_add]
  rfl

/-- What happened to memory is what the execution of a program on the tree
says. -/
def Follows (execution : Except String ((Bool × PageTable) × List Nat))
    (outcome : Except String (Int × PhysicalMemory)) : Prop :=
  match execution with
  | .error reason => outcome = .error reason
  | .ok ((mapped, after), free) => ∃ result, outcome = .ok (if mapped then 0 else -1, result) ∧
        result.freelist = free ∧ Represents result after

theorem Represents.mappagesLoop (represents : Represents mem table)
    (flags : perm.toNat < 1024) (remaining : Nat)
    (small : frame + remaining ≤ 2 ^ 44) (near : page ≤ VPAGES) :
    Follows ((table.mappages page remaining frame perm).execute mem.freelist)
      (mem.mappagesLoop (UInt64.ofNat (table.root * PGSIZE)) perm remaining
        (UInt64.ofNat (page * PGSIZE)) (UInt64.ofNat (frame * PGSIZE))) := by
  induction remaining generalizing mem table page frame with
  | zero => exact ⟨mem, rfl, rfl, represents⟩
  | succ remaining induction =>
    rw [PageTable.mappages, PageTable.mapPage, PhysicalMemory.mappagesLoop, Program.execute_bind,
      Program.execute_bind]
    rcases Nat.lt_or_ge page VPAGES with below | above
    · obtain ⟨_, low, number⟩ := page_address below
      obtain ⟨found, after, result, executes, walks, kept, _⟩ := represents.walk low true
      rw [number] at executes walks
      obtain ⟨leaf, root, hangs⟩ := (table.walk_always page true).execute executes
      rw [executes, walks]
      cases found with
      | false => exact ⟨result, rfl, rfl, kept⟩
      | true =>
        obtain ⟨node, lower⟩ := Option.ne_none_iff_exists'.mp (hangs rfl)
        have slot : after.slot page = some (node * PGSIZE + 8 * (page % 512)) := by
          rw [PageTable.slot, lower]
          rfl
        simp only [if_true, slot, kept.load_slot slot]
        cases mapped : after.leaf page with
        | some leaf =>
          simp only [Option.isSome_some, if_true]
          rw [if_pos (kept.leafEntry_valid mapped)]
          exact rfl
        | none =>
          simp only [Option.isSome_none, Bool.false_eq_true, if_false]
          rw [if_neg (not_not.mpr leafEntry_none_invalid), next_page, next_page, UInt64.or_assoc]
          have written := kept.setLeaf slot (some { frame := frame, flags := perm ||| PTE_V }) (by
              rintro - ⟨⟩
              exact ⟨by simp only; omega, flags_or_valid_lt flags, or_valid_odd perm⟩)
          have rest := induction written (show frame + 1 + remaining ≤ 2 ^ 44 by omega)
            (show page + 1 ≤ VPAGES by omega)
          rw [← root]
          exact rest
    · have same : page = VPAGES := by omega
      subst page
      exact rfl

/-- The frames behind the leaves of a range of pages. -/
def PageTable.rangeFrames (table : PageTable) (page npages : Nat) : Multiset Nat :=
  contents npages fun index => (table.leaf (page + index)).map Leaf.frame

theorem PageTable.rangeFrames_succ (table : PageTable) (page npages : Nat) :
    table.rangeFrames page (npages + 1) =
      ((table.leaf page).map Leaf.frame).elim 0 (fun frame => {frame}) +
        (table.setLeaf page none).rangeFrames (page + 1) npages := by
  rw [rangeFrames, rangeFrames, contents, contents, Finset.sum_range_succ', add_comm]
  congr 1
  apply Finset.sum_congr rfl
  intro index _
  have elsewhere : page + (index + 1) ≠ page := by omega
  rw [show page + 1 + index = page + (index + 1) by omega]
  simp only [setLeaf, Function.update_of_ne elsewhere]

section

variable (represents : Represents mem table)

include represents

/-- Giving a mapped page to `kfree` does not touch the nodes. -/
theorem Represents.kfree (mapped : table.leaf page = some leaf)
    (apart : (leaf.frame ::ₘ (table.nodes + mem.freelist)).Nodup) :
    Represents
      { ram := mem.ram.memset (leaf.frame * PGSIZE) 1 PGSIZE
        freelist := leaf.frame :: mem.freelist } table := by
  rw [Multiset.nodup_cons, Multiset.mem_add, not_or] at apart
  have moved : table.nodes + ((leaf.frame :: mem.freelist : List Nat) :
      Multiset Nat) = leaf.frame ::ₘ (table.nodes + mem.freelist) := by
    rw [← Multiset.cons_coe, Multiset.add_cons]
  refine ⟨represents.wellFormed, ?_, ?_, ?_, represents.leaves⟩
  · intro node frame present index small
    rw [← represents.entries node present index small]
    apply Ram.entry_memset_of_ne small
    rintro rfl
    exact apart.1.1 (PageTable.mem_nodes represents.wellFormed present)
  · rw [moved, Multiset.nodup_cons, Multiset.mem_add, not_or]
    exact apart
  · intro frame member
    rw [moved, Multiset.mem_cons] at member
    rcases member with rfl | other
    · exact (represents.leaves mapped).1
    · exact represents.small frame other

theorem pte2pa_leafEntry (mapped : table.leaf page = some leaf) :
    pte2pa (leafEntry (some leaf)) = UInt64.ofNat (leaf.frame * PGSIZE) ∧
      pteFlags (leafEntry (some leaf)) = leaf.flags := by
  obtain ⟨small, flags, _⟩ := represents.leaves mapped
  have value := frame_address small
  refine entry_round_trip ?_ ?_ flags
  · rw [value, Nat.mul_mod_left]
  · rw [value]
    simp only [PGSIZE]
    omega

theorem Represents.slot_of_leaf
    (mapped : table.leaf page ≠ none) : ∃ address, table.slot page = some address := by
  obtain ⟨frame, lower⟩ := Option.ne_none_iff_exists'.mp
    (represents.wellFormed.lower_of_leaf mapped)
  exact ⟨_, by rw [PageTable.slot, lower]; rfl⟩

end

theorem walkFrom_false (mem : PhysicalMemory) (va : UInt64) (level : Nat) (pagetable : UInt64) :
    (mem.walkFrom va false level pagetable).2 = mem := by
  induction level generalizing pagetable with
  | zero => rfl
  | succ level induction =>
    simp only [PhysicalMemory.walkFrom, Bool.false_eq_true, if_false]
    split
    · exact induction _
    · rfl

/-- `walk` without `alloc` only looks. -/
theorem Represents.walk_false (represents : Represents mem table) (below : va.toNat < MAXVA) :
    mem.walk (UInt64.ofNat (table.root * PGSIZE)) va false =
      .ok (table.slot (va.toNat / PGSIZE), mem) := by
  obtain ⟨found, after, result, executes, walks, _⟩ := represents.walk below false
  have kept : result = mem := by
    rw [PhysicalMemory.walk, if_neg (Nat.not_le.mpr below)] at walks
    have same := walkFrom_false mem va 2 (UInt64.ofNat (table.root * PGSIZE))
    rw [Except.ok.inj walks] at same
    exact same
  rw [PageTable.walk_false represents.wellFormed (page_lt below)] at executes
  obtain ⟨outcome, _⟩ := Prod.mk.inj (Except.ok.inj executes)
  cases outcome
  rw [walks, kept, PageTable.slot]
  cases table.lower (va.toNat / PGSIZE / 512) <;> rfl

theorem kfree_result (frees : mem.kfree kend (frame * PGSIZE) = .ok result) : result =
      { ram := mem.ram.memset (frame * PGSIZE) 1 PGSIZE
        freelist := frame :: mem.freelist } := by
  unfold PhysicalMemory.kfree at frees
  split at frees
  · cases frees
  · rw [Nat.mul_div_cancel _ PGSIZE_pos] at frees
    exact (Except.ok.inj frees).symm

/-- `uvmunmap` does to memory what its program does to the tree, provided that
the pages it frees are neither nodes nor free. -/
theorem Represents.uvmunmapLoop (represents : Represents mem table) {kend : Nat} {doFree : Bool}
    {remaining page : Nat} (below : page + remaining ≤ VPAGES)
    (apart : doFree = true → (table.rangeFrames page remaining +
      (table.nodes + mem.freelist)).Nodup) {result : PhysicalMemory}
    (returns : mem.uvmunmapLoop kend (UInt64.ofNat (table.root * PGSIZE))
      doFree remaining (UInt64.ofNat (page * PGSIZE)) = .ok result) :
    Represents result (table.erase page remaining) ∧
      (table.uvmunmap page remaining doFree).execute mem.freelist =
        .ok (table.erase page remaining, result.freelist) := by
  induction remaining generalizing mem table page with
  | zero =>
    cases returns
    rw [PageTable.erase_zero]
    exact ⟨represents, rfl⟩
  | succ remaining induction =>
    obtain ⟨_, low, number⟩ := page_address (show page < VPAGES by omega)
    rw [PhysicalMemory.uvmunmapLoop, represents.walk_false low, number, next_page] at returns
    rw [← PageTable.setLeaf_erase, PageTable.uvmunmap, Program.execute_bind,
      PageTable.unmapPage_eq represents.wellFormed (by omega)]
    rw [PageTable.rangeFrames_succ] at apart
    cases mapped : table.leaf page with
    | none =>
      rw [mapped, PageTable.setLeaf_of_none mapped, Option.map_none,
        Option.elim_none, zero_add] at apart
      rw [PageTable.setLeaf_of_none mapped]
      have skipped : mem.uvmunmapLoop kend (UInt64.ofNat (table.root * PGSIZE)) doFree remaining
          (UInt64.ofNat ((page + 1) * PGSIZE)) = .ok result := by
        cases slot : table.slot page with
        | none => simpa only [slot] using returns
        | some address =>
          simpa only [slot, represents.load_slot slot, mapped,
            leafEntry_none_invalid, if_true] using returns
      exact induction represents (by omega) apart skipped
    | some leaf =>
      have present : table.leaf page ≠ none := by simp [mapped]
      obtain ⟨address, slot⟩ := represents.slot_of_leaf present
      have valid := represents.leafEntry_valid mapped
      obtain ⟨pa, _⟩ := pte2pa_leafEntry represents mapped
      have value := frame_address (represents.leaves mapped).1
      simp only [slot, represents.load_slot slot, mapped, valid, if_false, pa, value] at returns
      rw [mapped, Option.map_some, Option.elim_some] at apart
      cases doFree with
      | false =>
        simp only [Bool.false_eq_true, if_false] at returns
        have cleared := represents.setLeaf slot none (by simp)
        exact induction cleared (by omega) (by simp) returns
      | true =>
        have distinct := apart rfl
        rw [Multiset.singleton_add, Multiset.cons_add] at distinct
        have freed := represents.kfree mapped (by
          refine Multiset.nodup_of_le ?_ distinct
          exact Multiset.cons_le_cons _ (Multiset.le_add_left _ _))
        simp only [if_true] at returns
        cases frees : mem.kfree kend (leaf.frame * PGSIZE) with
        | error reason =>
          rw [frees] at returns
          cases returns
        | ok freeing =>
          rw [frees, kfree_result frees] at returns
          have cleared := freed.setLeaf slot none (by simp)
          have moved : ((table.setLeaf page none).rangeFrames (page + 1) remaining +
                ((table.setLeaf page none).nodes + ((leaf.frame :: mem.freelist : List Nat) :
                    Multiset Nat))).Nodup := by
            rw [PageTable.nodes_setLeaf, ← Multiset.cons_coe, Multiset.add_cons, Multiset.add_cons]
            exact distinct
          exact induction cleared (by omega) (fun _ => moved) returns

namespace PhysicalMemory

/-- What an address translates to: the physical address and the flags in the
leaf that `walk` finds. -/
def translate (mem : PhysicalMemory) (pagetable va : UInt64) : Option (UInt64 × UInt64) :=
  match mem.walk pagetable va false with
  | .ok (some pte, _) =>
    if mem.ram.load pte &&& PTE_V ≠ 0 then
      some (pte2pa (mem.ram.load pte), pteFlags (mem.ram.load pte))
    else none
  | _ => none

end PhysicalMemory

theorem Represents.translate (represents : Represents mem table) (below : va.toNat < MAXVA) :
    mem.translate (UInt64.ofNat (table.root * PGSIZE)) va =
      (table.leaf (va.toNat / PGSIZE)).map fun leaf =>
        (UInt64.ofNat (leaf.frame * PGSIZE), leaf.flags) := by
  rw [PhysicalMemory.translate, represents.walk_false below]
  cases mapped : table.leaf (va.toNat / PGSIZE) with
  | none =>
    cases slot : table.slot (va.toNat / PGSIZE) with
    | none => rfl
    | some address =>
      simp only [represents.load_slot slot, mapped, leafEntry_none_invalid]
      rfl
  | some leaf =>
    have present : table.leaf (va.toNat / PGSIZE) ≠ none := by simp [mapped]
    obtain ⟨address, slot⟩ := represents.slot_of_leaf present
    obtain ⟨pa, flags⟩ := pte2pa_leafEntry represents mapped
    simp only [slot, represents.load_slot slot, mapped,
      represents.leafEntry_valid mapped, pa, flags, ne_eq,
      not_false_eq_true, if_true, Option.map_some]

theorem Represents.uvmcreate (distinct : mem.freelist.Nodup)
    (small : ∀ frame ∈ mem.freelist, frame < 2 ^ 44) (free : mem.freelist = frame :: rest) :
    Represents
      { ram := (mem.ram.memset (frame * PGSIZE) 5 PGSIZE).memset
          (frame * PGSIZE) 0 PGSIZE
        freelist := rest } (PageTable.empty frame) := by
  refine ⟨PageTable.empty_wellFormed frame, ?_, ?_, ?_, ?_⟩
  · intro node found present index bound
    cases node with
    | root =>
      cases present
      exact Ram.entry_memset_zero bound
    | _ => cases present
  · rw [PageTable.nodes_empty, Multiset.singleton_add, Multiset.cons_coe, ← free]
    exact Multiset.coe_nodup.mpr distinct
  · intro other member
    rw [PageTable.nodes_empty, Multiset.singleton_add, Multiset.cons_coe, ← free] at member
    exact small other member
  · intro page leaf mapped
    cases mapped

/-- A page table in use.  `taken` are the pages that `kalloc` handed out for
its nodes. -/
structure TableSystem where
  mem : PhysicalMemory
  pagetable : UInt64
  taken : List Nat

inductive TableStep where
  | walk (va : UInt64)
  | mappages (va size pa perm : UInt64)
  | uvmunmap (va npages : UInt64) (doFree : Bool)
  | others (mem : PhysicalMemory)

namespace TableSystem

/-- The table after `uvmcreate`. -/
def create (mem : PhysicalMemory) : Option TableSystem :=
  match mem.uvmcreate with
  | (none, _) => none
  | (some pagetable, after) =>
    some
      { mem := after
        pagetable := pagetable
        taken := [pagetable.toNat / PGSIZE] }

/-- What is no longer free has become part of the table. -/
def grow (system : TableSystem) (mem : PhysicalMemory) : TableSystem :=
  { system with
    mem := mem
    taken := (system.taken ++ system.mem.freelist).filter (· ∉ mem.freelist) }

def next (kend : Nat) (system : TableSystem) : TableStep → Option TableSystem
  | .walk va =>
    match system.mem.walk system.pagetable va true with
    | .ok (_, mem) => some (system.grow mem)
    | .error _ => none
  | .mappages va size pa perm =>
    match system.mem.mappages system.pagetable va size pa perm with
    | .ok (_, mem) => some (system.grow mem)
    | .error _ => none
  | .uvmunmap va npages doFree =>
    match system.mem.uvmunmap kend system.pagetable va npages doFree with
    | .ok mem => some { system with mem := mem }
    | .error _ => none
  | .others mem => some { system with mem := mem }

/-- The pages that the addresses of a range translate to. -/
def mappedFrames (system : TableSystem) (va npages : UInt64) : List Nat :=
  (List.range npages.toNat).filterMap fun index =>
    (system.mem.translate system.pagetable
      (UInt64.ofNat ((va.toNat / PGSIZE + index) * PGSIZE))).map
        fun target => target.1.toNat / PGSIZE

/-- How the functions are used: with aligned physical addresses and the ten
flags of an entry, on pages below `MAXVA`, freeing pages that are the
caller's.  The rest of the kernel leaves the nodes alone. -/
def Proper (system : TableSystem) : TableStep → Prop
  | .walk _ => True
  | .mappages _ size pa perm =>
    pa.toNat % PGSIZE = 0 ∧ pa.toNat + size.toNat ≤ 2 ^ 56 ∧ perm.toNat < 1024
  | .uvmunmap va npages doFree =>
    va.toNat + npages.toNat * PGSIZE ≤ MAXVA ∧
      (doFree = true → (system.mappedFrames va npages ++ system.mem.freelist).Nodup ∧
        ∀ frame ∈ system.mappedFrames va npages, frame ∉ system.taken)
  | .others mem =>
    (∀ frame ∈ system.taken, frame ∉ mem.freelist ∧ ∀ offset < PGSIZE,
      mem.ram (frame * PGSIZE + offset) = system.mem.ram (frame * PGSIZE + offset)) ∧
      mem.freelist.Nodup ∧ ∀ frame ∈ mem.freelist, frame < 2 ^ 44

/-- The memory holds a table that is made of the pages taken for it. -/
structure Holds (system : TableSystem) (table : PageTable) : Prop where
  represents : Represents system.mem table
  pagetable : system.pagetable = UInt64.ofNat (table.root * PGSIZE)
  taken : ∀ frame, frame ∈ system.taken ↔ frame ∈ table.nodes

variable {system after : TableSystem} {kend : Nat}

section

variable (holds : system.Holds table)

include holds

theorem Holds.grow {mem : PhysicalMemory}
    (represents : Represents mem last) (root : last.root = table.root)
    (nodes : last.nodes + (mem.freelist : Multiset Nat) = table.nodes + system.mem.freelist) :
    (system.grow mem).Holds last := by
  refine ⟨represents, ?_, ?_⟩
  · rw [root]
    exact holds.pagetable
  · intro frame
    have apart := (Multiset.nodup_add.mp represents.distinct).2.2
    have members := congrArg (frame ∈ ·) nodes
    simp only [Multiset.mem_add, Multiset.mem_coe, eq_iff_iff] at members
    simp only [TableSystem.grow, List.mem_filter, List.mem_append,
      decide_eq_true_eq, holds.taken frame, ← members]
    constructor
    · rintro ⟨node | free, busy⟩
      · exact node
      · exact absurd free busy
    · intro node
      refine ⟨.inl node, fun free => ?_⟩
      exact Multiset.disjoint_left.mp apart node free

/-- What `mappages` does when it returns. -/
theorem Holds.mappages {mem : PhysicalMemory} (proper : system.Proper (.mappages va size pa perm))
    (returns : system.mem.mappages system.pagetable va size pa perm = .ok (value, mem)) :
    va.toNat % PGSIZE = 0 ∧ size.toNat % PGSIZE = 0 ∧ ∃ last, (system.grow mem).Holds last ∧
      ∃ reached, (value = 0 ∧ reached = size.toNat / PGSIZE ∨
          value = -1 ∧ reached < size.toNat / PGSIZE) ∧
        last.leaf = PageTable.overlay table.leaf (va.toNat / PGSIZE) reached
          (pa.toNat / PGSIZE) perm := by
  obtain ⟨aligned, bound, flags⟩ := proper
  unfold PhysicalMemory.mappages at returns
  split at returns
  · cases returns
  rename_i va_aligned
  split at returns
  · cases returns
  rename_i size_aligned
  split at returns
  · cases returns
  rename_i positive
  rw [not_ne_iff] at va_aligned size_aligned
  have count : 0 < size.toNat / PGSIZE := by
    have nonzero : size.toNat ≠ 0 := fun zero => positive (UInt64.toNat_inj.mp zero)
    simp only [PGSIZE] at size_aligned ⊢
    omega
  have low : va.toNat < MAXVA := by
    by_contra above
    rw [← Nat.succ_pred_eq_of_pos count, PhysicalMemory.mappagesLoop,
      PhysicalMemory.walk, if_pos (not_lt.mp above)] at returns
    cases returns
  have address (word : UInt64) (multiple : word.toNat % PGSIZE = 0) :
      UInt64.ofNat (word.toNat / PGSIZE * PGSIZE) = word := by
    rw [Nat.div_mul_cancel (Nat.dvd_of_mod_eq_zero multiple), UInt64.ofNat_toNat]
  have small : pa.toNat / PGSIZE + size.toNat / PGSIZE ≤ 2 ^ 44 := by
    simp only [PGSIZE] at bound aligned size_aligned ⊢
    omega
  have follows := holds.represents.mappagesLoop flags (size.toNat / PGSIZE)
    small (Nat.le_of_lt (page_lt low))
  rw [address va va_aligned, address pa aligned, ← holds.pagetable, returns]
    at follows
  refine ⟨va_aligned, size_aligned, ?_⟩
  cases executes : (table.mappages (va.toNat / PGSIZE) (size.toNat / PGSIZE)
      (pa.toNat / PGSIZE) perm).execute system.mem.freelist with
  | error reason =>
    rw [executes] at follows
    cases follows
  | ok outcome =>
    obtain ⟨⟨mapped, last⟩, free⟩ := outcome
    rw [executes] at follows
    obtain ⟨result, same, rfl, represents⟩ := follows
    cases Except.ok.inj same
    obtain ⟨root, reached, extent, leaf⟩ := (table.mappages_always _ _ _ perm).execute executes
    have nodes := PageTable.mappages_conserves holds.represents.wellFormed executes
    refine ⟨last, holds.grow represents root nodes, reached, ?_, leaf⟩
    cases mapped with
    | false => exact .inr ⟨rfl, extent⟩
    | true => exact .inl ⟨rfl, extent⟩

theorem Holds.walk {mem : PhysicalMemory}
    (returns : system.mem.walk system.pagetable va true = .ok (found, mem)) :
    ∃ last, (system.grow mem).Holds last ∧ last.leaf = table.leaf := by
  have low : va.toNat < MAXVA := by
    by_contra above
    rw [PhysicalMemory.walk, if_pos (not_lt.mp above)] at returns
    cases returns
  obtain ⟨reached, last, result, executes, walks, represents, _⟩ := holds.represents.walk low true
  rw [← holds.pagetable, returns] at walks
  cases Except.ok.inj walks
  obtain ⟨leaf, root, _⟩ := (table.walk_always _ true).execute executes
  have nodes := (PageTable.walk_conserves holds.represents.wellFormed executes).2
  exact ⟨last, holds.grow represents root nodes, leaf⟩

/-- The pages that a range translates to are those of its leaves. -/
theorem Holds.rangeFrames {va npages : UInt64} (below : va.toNat / PGSIZE + npages.toNat ≤ VPAGES) :
    table.rangeFrames (va.toNat / PGSIZE) npages.toNat = system.mappedFrames va npages := by
  rw [PageTable.rangeFrames, contents_eq_filterMap, mappedFrames]
  congr 1
  apply List.filterMap_congr
  intro index member
  have small := List.mem_range.mp member
  obtain ⟨_, low, number⟩ := page_address (show va.toNat / PGSIZE + index < VPAGES by omega)
  rw [holds.pagetable, holds.represents.translate low, number, Option.map_map]
  cases mapped : table.leaf (va.toNat / PGSIZE + index) with
  | none => rfl
  | some leaf =>
    have value := frame_address (holds.represents.leaves mapped).1
    simp only [Option.map_some, Function.comp, value, Nat.mul_div_cancel _ PGSIZE_pos]

theorem Holds.uvmunmap {va npages : UInt64}
    {mem : PhysicalMemory} (proper : system.Proper (.uvmunmap va npages doFree))
    (returns : system.mem.uvmunmap kend system.pagetable va npages doFree = .ok mem) :
    va.toNat % PGSIZE = 0 ∧ Holds { system with mem := mem }
        (table.erase (va.toNat / PGSIZE) npages.toNat) := by
  obtain ⟨inside, callers⟩ := proper
  unfold PhysicalMemory.uvmunmap at returns
  split at returns
  · cases returns
  rename_i aligned
  rw [not_ne_iff] at aligned
  refine ⟨aligned, ?_⟩
  have count : ((va + npages * 4096).toNat - va.toNat) / PGSIZE =
      npages.toNat := by
    have literal : (4096 : UInt64).toNat = 4096 := rfl
    rw [UInt64.toNat_add, UInt64.toNat_mul, literal]
    simp only [PGSIZE, MAXVA] at inside ⊢
    omega
  have below : va.toNat / PGSIZE + npages.toNat ≤ VPAGES := by
    have pages : VPAGES = 2 ^ 26 := by decide
    simp only [PGSIZE, MAXVA] at inside ⊢
    omega
  have address : va = UInt64.ofNat (va.toNat / PGSIZE * PGSIZE) := by
    rw [Nat.div_mul_cancel (Nat.dvd_of_mod_eq_zero aligned), UInt64.ofNat_toNat]
  have apart : doFree = true → (table.rangeFrames (va.toNat / PGSIZE) npages.toNat +
        (table.nodes + system.mem.freelist)).Nodup := by
    intro frees
    obtain ⟨distinct, foreign⟩ := callers frees
    rw [holds.rangeFrames below]
    rw [List.nodup_append] at distinct
    refine Multiset.nodup_add.mpr ⟨Multiset.coe_nodup.mpr distinct.1,
      holds.represents.distinct, Multiset.disjoint_left.mpr ?_⟩
    intro frame mapped used
    rw [Multiset.mem_coe] at mapped
    rcases Multiset.mem_add.mp used with node | free
    · exact foreign frame mapped ((holds.taken frame).mpr node)
    · exact distinct.2.2 frame mapped frame free rfl
  rw [count, holds.pagetable] at returns
  nth_rewrite 1 [address] at returns
  obtain ⟨represents, _⟩ := holds.represents.uvmunmapLoop below apart returns
  refine ⟨represents, holds.pagetable, ?_⟩
  intro frame
  rw [PageTable.nodes_erase]
  exact holds.taken frame

theorem Holds.others {mem : PhysicalMemory} (proper : system.Proper (.others mem)) :
    Holds { system with mem := mem } table := by
  obtain ⟨untouched, distinct, small⟩ := proper
  have nodes := (Multiset.nodup_add.mp holds.represents.distinct).1
  refine ⟨⟨holds.represents.wellFormed, ?_, ?_, ?_, holds.represents.leaves⟩,
    holds.pagetable, holds.taken⟩
  · intro node frame present index bound
    rw [← holds.represents.entries node present index bound]
    have mine := (holds.taken frame).mpr (PageTable.mem_nodes holds.represents.wellFormed present)
    apply Ram.load_congr
    intro address above below
    have same := (untouched frame mine).2 (address - frame * PGSIZE) (by
      simp only [PGSIZE] at above below ⊢
      omega)
    rwa [Nat.add_sub_cancel' (by omega)] at same
  · refine Multiset.nodup_add.mpr ⟨nodes, Multiset.coe_nodup.mpr distinct,
      Multiset.disjoint_left.mpr ?_⟩
    intro frame node free
    exact (untouched frame ((holds.taken frame).mpr node)).1 free
  · intro frame member
    rcases Multiset.mem_add.mp member with node | free
    · exact holds.represents.small frame (Multiset.mem_add.mpr (.inl node))
    · exact small frame free

theorem Holds.next (proper : system.Proper step) (steps : system.next kend step = some after) :
    ∃ last, after.Holds last := by
  cases step with
  | walk va =>
    cases returns : system.mem.walk system.pagetable va true with
    | error reason => simp [TableSystem.next, returns] at steps
    | ok outcome =>
      obtain ⟨found, mem⟩ := outcome
      simp only [TableSystem.next, returns, Option.some.injEq] at steps
      obtain ⟨last, kept, _⟩ := holds.walk returns
      exact ⟨last, steps ▸ kept⟩
  | mappages va size pa perm =>
    cases returns :
        system.mem.mappages system.pagetable va size pa perm with
    | error reason => simp [TableSystem.next, returns] at steps
    | ok outcome =>
      obtain ⟨value, mem⟩ := outcome
      simp only [TableSystem.next, returns, Option.some.injEq] at steps
      obtain ⟨_, _, last, kept, _⟩ := holds.mappages proper returns
      exact ⟨last, steps ▸ kept⟩
  | uvmunmap va npages doFree =>
    cases returns :
        system.mem.uvmunmap kend system.pagetable va npages doFree with
    | error reason => simp [TableSystem.next, returns] at steps
    | ok mem =>
      simp only [TableSystem.next, returns, Option.some.injEq] at steps
      exact ⟨_, steps ▸ (holds.uvmunmap proper returns).2⟩
  | others mem =>
    simp only [TableSystem.next, Option.some.injEq] at steps
    exact ⟨table, steps ▸ holds.others proper⟩

end

theorem create_holds {mem : PhysicalMemory} (distinct : mem.freelist.Nodup)
    (small : ∀ frame ∈ mem.freelist, frame < 2 ^ 44)
    (creates : create mem = some system) : ∃ table, system.Holds table := by
  cases free : mem.freelist with
  | nil => simp [create, PhysicalMemory.uvmcreate, PhysicalMemory.kalloc, free]
      at creates
  | cons frame rest =>
    simp only [create, PhysicalMemory.uvmcreate, PhysicalMemory.kalloc, free,
      Option.some.injEq] at creates
    subst creates
    have fits : frame < 2 ^ 44 := small frame (by simp [free])
    refine ⟨PageTable.empty frame, .uvmcreate distinct small free, rfl, ?_⟩
    intro other
    rw [PageTable.nodes_empty, frame_address fits,
      Nat.mul_div_cancel _ PGSIZE_pos, List.mem_singleton,
      Multiset.mem_singleton]

/-- The translation of a page-aligned address. -/
theorem Holds.translate (holds : system.Holds table) (below : va.toNat < MAXVA) :
    system.mem.translate system.pagetable va = (table.leaf (va.toNat / PGSIZE)).map fun leaf =>
        (UInt64.ofNat (leaf.frame * PGSIZE), leaf.flags) := by
  rw [holds.pagetable, holds.represents.translate below]

/-- Different pages have their entries in different places. -/
theorem Holds.slot_injective (holds : system.Holds table)
    (va_aligned : va.toNat % PGSIZE = 0) (w_aligned : w.toNat % PGSIZE = 0)
    (at_va : system.mem.walk system.pagetable va false = .ok (some pte, system.mem))
    (at_w : system.mem.walk system.pagetable w false = .ok (some pte, system.mem)) : va = w := by
  have low {address : UInt64} (found : system.mem.walk system.pagetable address false =
        .ok (some pte, system.mem)) : address.toNat < MAXVA := by
    by_contra above
    rw [PhysicalMemory.walk, if_pos (not_lt.mp above)] at found
    cases found
  have slot {address : UInt64} (found : system.mem.walk system.pagetable address false =
        .ok (some pte, system.mem)) :
      ∃ frame, table.lower (address.toNat / PGSIZE / 512) = some frame ∧
        frame * PGSIZE + 8 * (address.toNat / PGSIZE % 512) = pte := by
    have walked := holds.represents.walk_false (low found)
    rw [← holds.pagetable, found] at walked
    obtain ⟨place, _⟩ := Prod.mk.inj (Except.ok.inj walked)
    exact Option.map_eq_some_iff.mp place.symm
  obtain ⟨frame, lower, address⟩ := slot at_va
  obtain ⟨other, below, elsewhere⟩ := slot at_w
  have frames : frame = other := by
    simp only [PGSIZE] at address elsewhere
    omega
  subst other
  have same := holds.represents.frameAt_injective
    (show table.frameAt (.lower _) = some frame from lower)
    (show table.frameAt (.lower _) = some frame from below)
  rw [Node.lower.injEq] at same
  rw [← UInt64.toNat_inj]
  simp only [PGSIZE] at va_aligned w_aligned address elsewhere same
  omega

end TableSystem

theorem overlay_translation {va size pa perm w : UInt64} {leaf : Nat → Option Leaf}
    (va_aligned : va.toNat % PGSIZE = 0) (size_aligned : size.toNat % PGSIZE = 0)
    (pa_aligned : pa.toNat % PGSIZE = 0) (aligned : w.toNat % PGSIZE = 0) :
    (PageTable.overlay leaf (va.toNat / PGSIZE) (size.toNat / PGSIZE)
        (pa.toNat / PGSIZE) perm (w.toNat / PGSIZE)).map
      (fun leaf => (UInt64.ofNat (leaf.frame * PGSIZE), leaf.flags)) =
      if va.toNat ≤ w.toNat ∧ w.toNat < va.toNat + size.toNat then
        some (pa + (w - va), perm ||| PTE_V)
      else (leaf (w.toNat / PGSIZE)).map fun leaf =>
        (UInt64.ofNat (leaf.frame * PGSIZE), leaf.flags) := by
  have inside : va.toNat / PGSIZE ≤ w.toNat / PGSIZE ∧
      w.toNat / PGSIZE < va.toNat / PGSIZE + size.toNat / PGSIZE ↔
        va.toNat ≤ w.toNat ∧ w.toNat < va.toNat + size.toNat := by
    simp only [PGSIZE] at va_aligned size_aligned aligned ⊢
    omega
  rw [PageTable.overlay]
  by_cases between : va.toNat ≤ w.toNat ∧ w.toNat < va.toNat + size.toNat
  · rw [if_pos (inside.mpr between), if_pos between]
    simp only [Option.map_some, Option.some.injEq, Prod.mk.injEq, and_true]
    rw [← UInt64.toNat_inj, UInt64.toNat_ofNat', UInt64.toNat_add,
      UInt64.toNat_sub_of_le _ _ between.1]
    simp only [PGSIZE] at va_aligned pa_aligned aligned ⊢
    omega
  · rw [if_neg (fun range => between (inside.mp range)), if_neg between]

/-- Page tables implement finite maps.  For every page table that `walk`,
`mappages` and `uvmunmap` build from `uvmcreate`, while the rest of the kernel
uses the pages that are not its nodes, each further call does to the
translations what it should, and different pages have different entries. -/
theorem page_tables_are_maps {kend : Nat} {mem : PhysicalMemory} (distinct : mem.freelist.Nodup)
    (small : ∀ frame ∈ mem.freelist, frame < 2 ^ 44) {created : TableSystem}
    (creates : TableSystem.create mem = some created)
    {steps : List TableStep} {system : TableSystem}
    (runs : run (TableSystem.next kend) created steps = some system)
    (proper : Along (TableSystem.next kend) TableSystem.Proper created steps) :
    (∀ va size pa perm value after, system.Proper (.mappages va size pa perm) →
      system.mem.mappages system.pagetable va size pa perm = .ok (value, after) →
      (value = 0 → ∀ w, w.toNat % PGSIZE = 0 → w.toNat < MAXVA →
        after.translate system.pagetable w =
          if va.toNat ≤ w.toNat ∧ w.toNat < va.toNat + size.toNat then
            some (pa + (w - va), perm ||| PTE_V)
          else system.mem.translate system.pagetable w) ∧
      (value ≠ 0 → size.toNat = PGSIZE → ∀ w, w.toNat < MAXVA →
        after.translate system.pagetable w = system.mem.translate system.pagetable w)) ∧
    (∀ va npages doFree after, system.Proper (.uvmunmap va npages doFree) →
      system.mem.uvmunmap kend system.pagetable va npages doFree = .ok after →
      ∀ w, w.toNat % PGSIZE = 0 → w.toNat < MAXVA → after.translate system.pagetable w =
          if va.toNat ≤ w.toNat ∧ w.toNat < va.toNat + npages.toNat * PGSIZE
          then none
          else system.mem.translate system.pagetable w) ∧
    (∀ va alloc found after, system.mem.walk system.pagetable va alloc = .ok (found, after) →
      ∀ w, w.toNat < MAXVA → after.translate system.pagetable w =
        system.mem.translate system.pagetable w) ∧
    (∀ va w pte, va.toNat % PGSIZE = 0 → w.toNat % PGSIZE = 0 →
      system.mem.walk system.pagetable va false = .ok (some pte, system.mem) →
      system.mem.walk system.pagetable w false = .ok (some pte, system.mem) →
      va = w) ∧
    ∀ pa, pa.toNat % PGSIZE = 0 → pa.toNat < 2 ^ 56 → pte2pa (pa2pte pa) = pa := by
  have kept : ∀ {before step after}, (∃ table, before.Holds table) →
      before.Proper step → TableSystem.next kend before step = some after →
        ∃ table, after.Holds table := by
    rintro before step after ⟨table, holds⟩ obeys steps
    exact holds.next obeys steps
  obtain ⟨table, holds⟩ := run_preserves kept runs proper
    (TableSystem.create_holds distinct small creates)
  refine ⟨?_, ?_, ?_, ?_, ?_⟩
  · intro va size pa perm value after obeys returns
    obtain ⟨va_aligned, size_aligned, last, grown, reached, extent, leaf⟩ :=
      holds.mappages obeys returns
    constructor
    · intro success w aligned below
      obtain ⟨_, rfl⟩ : value = 0 ∧ reached = size.toNat / PGSIZE := by omega
      have translated := grown.translate below
      rw [leaf, overlay_translation va_aligned size_aligned obeys.1 aligned,
        ← holds.translate below] at translated
      exact translated
    · intro failure single w below
      obtain rfl : reached = 0 := by
        rw [single, Nat.div_self PGSIZE_pos] at extent
        omega
      have translated := grown.translate below
      rw [leaf, PageTable.overlay_zero, ← holds.translate below] at translated
      exact translated
  · intro va npages doFree after obeys returns w aligned below
    obtain ⟨va_aligned, erased⟩ := holds.uvmunmap obeys returns
    have inside : va.toNat / PGSIZE ≤ w.toNat / PGSIZE ∧
        w.toNat / PGSIZE < va.toNat / PGSIZE + npages.toNat ↔ va.toNat ≤ w.toNat ∧
            w.toNat < va.toNat + npages.toNat * PGSIZE := by
      simp only [PGSIZE] at va_aligned aligned ⊢
      omega
    have translated := erased.translate below
    rw [holds.translate below]
    simp only [PageTable.erase, inside] at translated
    rw [translated]
    split <;> rfl
  · intro va alloc found after returns w below
    cases alloc with
    | true =>
      obtain ⟨last, grown, leaf⟩ := holds.walk returns
      have translated := grown.translate below
      rw [leaf, ← holds.translate below] at translated
      exact translated
    | false =>
      unfold PhysicalMemory.walk at returns
      split at returns
      · cases returns
      · have same := walkFrom_false system.mem va 2 system.pagetable
        rw [Except.ok.inj returns] at same
        rw [show after = system.mem from same]
  · intro va w pte va_aligned w_aligned at_va at_w
    exact holds.slot_injective va_aligned w_aligned at_va at_w
  · intro pa aligned bound
    have trip := (entry_round_trip aligned bound (show (0 : UInt64).toNat < 1024 by decide)).1
    rwa [UInt64.or_zero] at trip

/-- A machine with four free pages. -/
def fourPages : PhysicalMemory :=
  { ram := fun _ => 0
    freelist := [0x87FFF, 0x87FFE, 0x87FFD, 0x87FFC] }

theorem page_tables_are_maps_twoPages : ∃ created system after,
      TableSystem.create fourPages = some created ∧
      run (TableSystem.next 0x80020000) created
        [.mappages 0x1000 0x1000 0x87000000 (PTE_R ||| PTE_U)] = some system ∧
      system.mem.mappages system.pagetable 0x2000 0x1000 0x87001000 PTE_R = .ok (0, after) ∧
      after.translate system.pagetable 0x2000 = some (0x87001000, 3) ∧
      after.translate system.pagetable 0x1000 = some (0x87000000, 19) := by
  have facts : (TableSystem.create fourPages).any (fun created =>
      (run (TableSystem.next 0x80020000) created
        [.mappages 0x1000 0x1000 0x87000000 (PTE_R ||| PTE_U)]).any
        fun system =>
          decide (system.mem.translate system.pagetable 0x1000 = some (0x87000000, 19)) &&
          match system.mem.mappages system.pagetable 0x2000 0x1000 0x87001000 PTE_R with
          | .ok (value, _) => decide (value = 0)
          | .error _ => false) = true := by
    decide +kernel
  rw [Option.any_eq_true] at facts
  obtain ⟨created, creates, facts⟩ := facts
  rw [Option.any_eq_true] at facts
  obtain ⟨system, runs, facts⟩ := facts
  rw [Bool.and_eq_true, decide_eq_true_eq] at facts
  obtain ⟨first, facts⟩ := facts
  split at facts
  · rename_i value after returns
    obtain rfl := of_decide_eq_true facts
    have proper : Along (TableSystem.next 0x80020000) TableSystem.Proper created
        [.mappages 0x1000 0x1000 0x87000000 (PTE_R ||| PTE_U)] := by
      refine ⟨⟨by decide, by decide, by decide⟩, ?_⟩
      split <;> trivial
    obtain ⟨maps, _⟩ := page_tables_are_maps (by decide) (by decide) creates runs proper
    have translated := (maps 0x2000 0x1000 0x87001000 PTE_R 0 after
      ⟨by decide, by decide, by decide⟩ returns).1 rfl
    refine ⟨created, system, after, creates, runs, returns, ?_, ?_⟩
    · rw [translated 0x2000 (by decide) (by decide), if_pos (by decide)]
      decide
    · rw [translated 0x1000 (by decide) (by decide), ← first]
      exact if_neg (by decide)
  · cases facts

end Xv6KernelEvent
