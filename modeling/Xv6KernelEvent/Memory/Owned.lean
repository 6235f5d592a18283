import Xv6KernelEvent.Memory.Actions

/-!
# Pages in the hands of an action

What an action on physical memory holds out of a stock of pages: a page table
with the pages behind its leaves, and pages that are in no table yet.  The
other pages of the stock are on the free list, and memory outside the stock
stays as it was.  The functions of `Actions` keep this, and do to the memory
what their programs do to the tree.
-/

namespace Xv6KernelEvent

open Custody

/-- Pages that `kalloc` hands out and `kfree` takes back. -/
structure Pages (kend : Nat) (stock : Multiset Nat) : Prop where
  distinct : stock.Nodup
  above : ∀ frame ∈ stock, 0 < frame ∧ kend ≤ frame * PGSIZE ∧ frame * PGSIZE < PHYSTOP

/-- What is not held of the stock is free, and memory outside the stock is
`ram`. -/
structure Stocked (stock : Multiset Nat) (ram : Ram) (held : Multiset Nat)
    (mem : PhysicalMemory) : Prop where
  conserved : held + (mem.freelist : Multiset Nat) = stock
  outside : ∀ address, address / PGSIZE ∉ stock → mem.ram address = ram address

/-- The action holds a page table and the pages `extra`. -/
structure Owns (stock : Multiset Nat) (ram : Ram) (extra : Multiset Nat)
    (table : PageTable) (mem : PhysicalMemory) : Prop where
  represents : Represents mem table
  stocked : Stocked stock ram (extra + table.space) mem

/-- The memory after `kfree` of a page. -/
def PhysicalMemory.freed (mem : PhysicalMemory) (frame : Nat) : PhysicalMemory :=
  { ram := mem.ram.memset (frame * PGSIZE) 1 PGSIZE
    freelist := frame :: mem.freelist }

/-- The memory after `kalloc` of its first free page. -/
def PhysicalMemory.taken (mem : PhysicalMemory) (frame : Nat) (rest : List Nat) : PhysicalMemory :=
  { ram := mem.ram.memset (frame * PGSIZE) 5 PGSIZE
    freelist := rest }

variable {table : PageTable}

namespace Pages

section

variable (pages : Pages kend stock)

include pages

theorem small (member : frame ∈ stock) : frame < 2 ^ 44 := by
  have stop : PHYSTOP < 2 ^ 44 := by decide
  have high := (pages.above frame member).2.2
  have size := Nat.le_mul_of_pos_right frame PGSIZE_pos
  omega

theorem address (member : frame ∈ stock) : (UInt64.ofNat (frame * PGSIZE)).toNat = frame * PGSIZE :=
  frame_address (pages.small member)

theorem nonzero (member : frame ∈ stock) : UInt64.ofNat (frame * PGSIZE) ≠ 0 :=
  frame_ne_zero (pages.address member) (pages.above frame member).1

theorem card_le_memory : stock.card ≤ PHYSTOP / PGSIZE := by
  have inside : stock.toFinset ⊆ Finset.range (PHYSTOP / PGSIZE) := by
    intro frame member
    have high := (pages.above frame (Multiset.mem_toFinset.mp member)).2.2
    have whole : PHYSTOP / PGSIZE * PGSIZE = PHYSTOP := by decide
    rw [← whole] at high
    exact Finset.mem_range.mpr (Nat.lt_of_mul_lt_mul_right high)
  rw [← Multiset.toFinset_card_of_nodup pages.distinct]
  exact (Finset.card_le_card inside).trans_eq (Finset.card_range _)

/-- There are fewer pages than an address space has room for. -/
theorem card_le : stock.card ≤ TRAPFRAME :=
  pages.card_le_memory.trans (by decide)

end

end Pages

namespace Stocked

section

variable (stocked : Stocked stock ram held mem)

include stocked

theorem mem_held (member : frame ∈ held) : frame ∈ stock := by
  rw [← stocked.conserved]
  exact Multiset.mem_add.mpr (.inl member)

theorem mem_free (member : frame ∈ mem.freelist) : frame ∈ stock := by
  rw [← stocked.conserved]
  exact Multiset.mem_add.mpr (.inr member)

/-- A page of the stock is written. -/
theorem write (member : frame ∈ stock)
    (same : ∀ address, address / PGSIZE ≠ frame → other address = mem.ram address) :
    Stocked stock ram held { mem with ram := other } := by
  refine ⟨stocked.conserved, ?_⟩
  intro address outside
  rw [← stocked.outside address outside]
  apply same
  rintro rfl
  exact outside member

theorem kalloc (free : mem.freelist = frame :: rest) :
    Stocked stock ram (frame ::ₘ held) (mem.taken frame rest) := by
  have member : frame ∈ stock := stocked.mem_free (by simp [free])
  have written := stocked.write member fun address apart => Ram.memset_of_ne mem.ram 5 apart
  refine ⟨?_, written.outside⟩
  rw [← stocked.conserved, free, ← Multiset.cons_coe, Multiset.cons_add, Multiset.add_cons]
  rfl

end

theorem kfree (stocked : Stocked stock ram (frame ::ₘ held) mem) :
    Stocked stock ram held (mem.freed frame) := by
  have member : frame ∈ stock := stocked.mem_held (Multiset.mem_cons_self frame held)
  have written := stocked.write member fun address apart => Ram.memset_of_ne mem.ram 1 apart
  refine ⟨?_, written.outside⟩
  rw [← stocked.conserved, PhysicalMemory.freed, ← Multiset.cons_coe,
    Multiset.cons_add, Multiset.add_cons]

end Stocked

theorem MemoryM.kfree_eq (pages : Pages kend stock) (member : frame ∈ stock) :
    MemoryM.kfree kend (UInt64.ofNat (frame * PGSIZE)) mem = .ok ((), mem.freed frame) := by
  have bounds := pages.above frame member
  rw [MemoryM.kfree, pages.address member, PhysicalMemory.kfree,
    Nat.mul_mod_left, Nat.mul_div_cancel _ PGSIZE_pos, if_neg (by omega)]
  rfl

namespace Owns

theorem apart (pages : Pages kend stock) (owns : Owns stock ram extra table mem) :
    (extra + (table.space + (mem.freelist : Multiset Nat))).Nodup := by
  rw [← add_assoc, owns.stocked.conserved]
  exact pages.distinct

/-- A page in no table is neither a node nor free. -/
theorem loose (pages : Pages kend stock) (owns : Owns stock ram extra table mem)
    (member : frame ∈ extra) : frame ∉ table.space ∧ frame ∉ mem.freelist := by
  have disjoint := Multiset.disjoint_left.mp (Multiset.nodup_add.mp (owns.apart pages)).2.2 member
  rw [Multiset.mem_add, not_or, Multiset.mem_coe] at disjoint
  exact disjoint

theorem not_node (outside : frame ∉ table.space) : frame ∉ table.nodes :=
  fun node => outside (Multiset.mem_add.mpr (.inl node))

section

variable (pages : Pages kend stock)

include pages

section

variable (owns : Owns stock ram extra table mem)

include owns

/-- The table is where it was, while pages change hands. -/
theorem move (stocked : Stocked stock ram (more + table.space) other)
    (same : ∀ address, address / PGSIZE ∈ table.nodes → other.ram address = mem.ram address) :
    Owns stock ram more table other := by
  refine ⟨owns.represents.agree same ?_ ?_, stocked⟩
  · refine Multiset.nodup_of_le ?_ (stocked.conserved ▸ pages.distinct)
    exact add_le_add_left (Multiset.le_add_left _ _ |>.trans' (Multiset.le_add_right _ _)) _
  · intro frame free
    exact pages.small (stocked.mem_free free)

/-- A page in no table is written. -/
theorem write (member : frame ∈ extra)
    (same : ∀ address, address / PGSIZE ≠ frame → bytes address = mem.ram address) :
    Owns stock ram extra table { mem with ram := bytes } := by
  have listed := owns.stocked.mem_held (Multiset.mem_add.mpr (.inl member))
  refine owns.move pages (owns.stocked.write listed same) ?_
  intro address node
  apply same
  rintro rfl
  exact not_node (owns.loose pages member).1 node

theorem kalloc (free : mem.freelist = frame :: rest) :
    Owns stock ram (frame ::ₘ extra) table (mem.taken frame rest) := by
  have stocked := owns.stocked.kalloc free
  rw [← Multiset.cons_add] at stocked
  refine owns.move pages stocked ?_
  intro address node
  apply Ram.memset_of_ne
  rintro rfl
  have disjoint := Multiset.disjoint_left.mp (Multiset.nodup_add.mp
    owns.represents.distinct).2.2 node
  exact disjoint (by simp [free])

end

theorem kfree (owns : Owns stock ram (frame ::ₘ extra) table mem) :
    Owns stock ram extra table (mem.freed frame) := by
  have stocked := owns.stocked
  rw [Multiset.cons_add] at stocked
  refine owns.move pages stocked.kfree ?_
  intro address node
  apply Ram.memset_of_ne
  rintro rfl
  exact not_node (owns.loose pages (Multiset.mem_cons_self _ _)).1 node

end

end Owns

theorem PageTable.space_add (table : PageTable) (free : Multiset Nat) : table.space + free =
      table.leafFrames TRAPFRAME + (table.nodes + free) := by
  rw [PageTable.space, add_comm table.nodes, add_assoc]

/-- What `mappages` of one page leaves. -/
structure PageMapped (mem : PhysicalMemory) (table : PageTable)
    (page frame : Nat) (perm : UInt64) (mapped : Bool) (after : PageTable)
    (value : Int) (result : PhysicalMemory) : Prop where
  value_eq : value = if mapped then 0 else -1
  represents : Represents result after
  spares : Represents.Spares mem table result.ram
  root : after.root = table.root
  leaf : after.leaf = if mapped then Function.update table.leaf page
    (some { frame := frame, flags := perm ||| PTE_V }) else table.leaf
  conserved : after.nodes + (result.freelist : Multiset Nat) = table.nodes + mem.freelist

theorem PageTable.mapPage_of_mapped
    (wellFormed : table.WellFormed) (below : page < VPAGES) {leaf : Leaf}
    (mapped : table.leaf page = some leaf) (perm : UInt64) :
    table.mapPage page frame perm = halt "mappages: remap" := by
  have present : table.leaf page ≠ none := by simp [mapped]
  have hung := wellFormed.lower_of_leaf present
  obtain ⟨lower, hangs⟩ := Option.ne_none_iff_exists'.mp hung
  obtain ⟨middle, parent⟩ := Option.ne_none_iff_exists'.mp (wellFormed.middle_of_lower hung)
  have walks : table.walk page true = pure (true, table) := by
    rw [PageTable.walk, if_neg (Nat.not_le.mpr below), parent]
    simp only [PageTable.walkLower, hangs]
  rw [PageTable.mapPage, walks]
  change (if (table.leaf page).isSome = true then _ else _) = _
  rw [mapped]
  rfl

theorem Represents.mappages (represents : Represents mem table)
    (below : page < VPAGES) (small : frame < 2 ^ 44) (flags : perm.toNat < 1024) :
    Realizes PhysicalMemory.freelist (fun (mapped, after) value result =>
        PageMapped mem table page frame perm mapped after value result)
      (table.mappages page 1 frame perm)
      (MemoryM.mappages (UInt64.ofNat (table.root * PGSIZE))
        (UInt64.ofNat (page * PGSIZE)) 4096 (UInt64.ofNat (frame * PGSIZE))
        perm) mem := by
  rw [PageTable.mappages_one]
  cases mapped : table.leaf page with
  | some leaf =>
    rw [PageTable.mapPage_of_mapped represents.wellFormed below mapped]
    exact .halt
  | none =>
    rintro outcome remaining executes
    obtain ⟨done, after, result, maps, same, kept, spares, root, leaf,
      conserved⟩ := represents.mapPage below small flags mapped
    rw [same] at executes
    cases executes
    exact ⟨_, result, maps, rfl, rfl, kept, spares, root, leaf, conserved⟩

namespace Owns

variable {result : PhysicalMemory}

/-- Memory outside the stock is spared while a table grows. -/
theorem spared (owns : Owns stock ram extra table mem)
    (spares : Represents.Spares mem table result.ram) (address : Nat)
    (outside : address / PGSIZE ∉ stock) : result.ram address = ram address := by
  rw [← owns.stocked.outside address outside]
  apply spares
  · intro node
    exact outside (owns.stocked.mem_held (Multiset.mem_add.mpr
      (.inr (Multiset.mem_add.mpr (.inl node)))))
  · intro free
    exact outside (owns.stocked.mem_free free)

/-- A page of the process is mapped, or stays in no table. -/
theorem map_user (owns : Owns stock ram (frame ::ₘ extra) table mem)
    (below : page < TRAPFRAME) (unmapped : table.leaf page = none)
    (maps : PageMapped mem table page frame perm mapped after value result) :
    Owns stock ram (if mapped then extra else frame ::ₘ extra) after result := by
  refine ⟨maps.represents, ?_, owns.spared maps.spares⟩
  have total := owns.stocked.conserved
  have nodes := maps.conserved
  have leaf := maps.leaf
  cases mapped with
  | false =>
    simp only [Bool.false_eq_true, if_false] at leaf ⊢
    rw [← total, add_assoc, add_assoc, PageTable.space_add, PageTable.space_add, nodes,
      PageTable.leafFrames_congr fun other _ => congrFun leaf other]
  | true =>
    simp only [if_true] at leaf ⊢
    rw [← total, add_assoc, add_assoc, PageTable.space_add,
      PageTable.space_add, nodes, PageTable.leafFrames_map below unmapped leaf,
      Multiset.cons_add, Multiset.add_cons, Multiset.cons_add]

/-- A page of the kernel is mapped at the top. -/
theorem map_top (owns : Owns stock ram extra table mem) (above : TRAPFRAME ≤ page)
    (maps : PageMapped mem table page frame perm mapped after value result) :
    Owns stock ram extra after result := by
  have same (other : Nat) (low : other < TRAPFRAME) : after.leaf other = table.leaf other := by
    rw [maps.leaf]
    cases mapped with
    | false => rfl
    | true => exact Function.update_of_ne (by omega) _ _
  refine ⟨maps.represents, ?_, owns.spared maps.spares⟩
  rw [← owns.stocked.conserved, add_assoc, add_assoc, PageTable.space_add,
    PageTable.space_add, maps.conserved, PageTable.leafFrames_congr same]

/-- The entry of a mapped page lies in a node of the table. -/
theorem slot_node (represents : Represents mem table) (slot : table.slot page = some pte) :
    ∃ node ∈ table.nodes, pte = node * PGSIZE + 8 * (page % 512) := by
  obtain ⟨node, lower, rfl⟩ := Option.map_eq_some_iff.mp slot
  exact ⟨node, PageTable.mem_nodes represents.wellFormed
    (show table.frameAt (.lower (page / 512)) = some node from lower), rfl⟩

/-- An entry of the table is written. -/
theorem store (owns : Owns stock ram extra table mem)
    (slot : table.slot page = some pte) (word : UInt64) :
    Stocked stock ram (extra + table.space) { mem with ram := mem.ram.store pte word } := by
  obtain ⟨node, member, rfl⟩ := slot_node owns.represents slot
  refine owns.stocked.write (owns.stocked.mem_held (Multiset.mem_add.mpr
    (.inr (Multiset.mem_add.mpr (.inl member))))) ?_
  intro address apart
  exact Ram.store_of_ne _ (Nat.mod_lt _ (by decide)) _ apart

/-- A page of the process is freed and its entry cleared. -/
theorem clear_user (pages : Pages kend stock) (owns : Owns stock ram extra table mem)
    (below : page < TRAPFRAME) (mapped : table.leaf page = some leaf)
    (slot : table.slot page = some pte) :
    Owns stock ram extra (table.setLeaf page none)
      { mem.freed leaf.frame with
        ram := (mem.freed leaf.frame).ram.store pte 0 } := by
  have held := PageTable.leafFrames_setLeaf below mapped
  have freed : Represents (mem.freed leaf.frame) table := by
    refine owns.represents.kfree mapped ?_
    have distinct := (Multiset.nodup_add.mp (owns.apart pages)).2.1
    rw [PageTable.space_add, held, Multiset.cons_add] at distinct
    exact Multiset.nodup_of_le (Multiset.cons_le_cons _ (Multiset.le_add_left _ _)) distinct
  have stocked := owns.stocked
  have space : extra + table.space = leaf.frame ::ₘ (extra + (table.setLeaf page none).space) := by
    rw [PageTable.space, PageTable.space, held, PageTable.nodes_setLeaf,
      Multiset.add_cons, Multiset.add_cons]
  rw [space] at stocked
  refine ⟨freed.setLeaf slot none (by simp), stocked.kfree.conserved, ?_⟩
  obtain ⟨node, member, rfl⟩ := slot_node owns.represents slot
  refine (stocked.kfree.write (owns.stocked.mem_held (Multiset.mem_add.mpr
    (.inr (Multiset.mem_add.mpr (.inl member))))) ?_).outside
  intro address apart
  exact Ram.store_of_ne _ (Nat.mod_lt _ (by decide)) _ apart

/-- An entry at the top is cleared. -/
theorem clear_top (owns : Owns stock ram extra table mem) (above : TRAPFRAME ≤ page)
    (slot : table.slot page = some pte) :
    Owns stock ram extra (table.setLeaf page none) { mem with ram := mem.ram.store pte 0 } := by
  refine ⟨owns.represents.setLeaf slot none (by simp), ?_⟩
  have space : (table.setLeaf page none).space = table.space := by
    rw [PageTable.space, PageTable.space, PageTable.nodes_setLeaf]
    congr 1
    apply PageTable.leafFrames_congr
    intro other low
    exact Function.update_of_ne (by omega) _ _
  rw [space]
  exact owns.store slot 0

section

variable (pages : Pages kend stock)

include pages

section

variable (owns : Owns stock ram extra table mem)

include owns

/-- The loop of `uvmunmap` frees pages of the process, or takes away pages of
the kernel. -/
theorem uvmunmapLoop (below : page + remaining ≤ VPAGES)
    (users : doFree = true → page + remaining ≤ TRAPFRAME)
    (top : doFree = false → TRAPFRAME ≤ page) :
    ∃ result, mem.uvmunmapLoop kend (UInt64.ofNat (table.root * PGSIZE)) doFree
          remaining (UInt64.ofNat (page * PGSIZE)) = .ok result ∧
        Owns stock ram extra (table.erase page remaining) result ∧
        (table.uvmunmap page remaining doFree).execute mem.freelist =
          .ok (table.erase page remaining, result.freelist) := by
  induction remaining generalizing mem table page with
  | zero =>
    rw [PageTable.erase_zero]
    exact ⟨mem, rfl, owns, rfl⟩
  | succ remaining induction =>
    obtain ⟨_, low, number⟩ := page_address (show page < VPAGES by omega)
    have represents := owns.represents
    rw [PhysicalMemory.uvmunmapLoop, represents.walk_false low, number,
      next_page, ← PageTable.setLeaf_erase, PageTable.uvmunmap,
      Program.execute_bind, PageTable.unmapPage_eq represents.wellFormed (by omega)]
    have later {next : PhysicalMemory} {cleared : PageTable}
        (owns : Owns stock ram extra cleared next) :=
      induction owns (show page + 1 + remaining ≤ VPAGES by omega)
        (fun frees => by have := users frees; omega)
        (fun keeps => by have := top keeps; omega)
    cases mapped : table.leaf page with
    | none =>
      rw [PageTable.setLeaf_of_none mapped]
      obtain ⟨result, returns, rest⟩ := later owns
      refine ⟨result, ?_, rest⟩
      cases slot : table.slot page with
      | none => exact returns
      | some pte =>
        simp only [represents.load_slot slot, mapped, leafEntry_none_invalid, if_true]
        exact returns
    | some leaf =>
      have present : table.leaf page ≠ none := by simp [mapped]
      obtain ⟨pte, slot⟩ := represents.slot_of_leaf present
      have valid := represents.leafEntry_valid mapped
      obtain ⟨pa, _⟩ := pte2pa_leafEntry represents mapped
      have value := frame_address (represents.leaves mapped).1
      simp only [slot, represents.load_slot slot, mapped, valid, if_false, pa, value]
      cases doFree with
      | false => exact later (owns.clear_top (top rfl) slot)
      | true =>
        have inside : page < TRAPFRAME := by
          have := users rfl
          omega
        have member : leaf.frame ∈ stock := by
          refine owns.stocked.mem_held (Multiset.mem_add.mpr
            (.inr (Multiset.mem_add.mpr (.inr ?_))))
          exact mem_contents.mpr ⟨page, inside, by rw [mapped]; rfl⟩
        have bounds := pages.above leaf.frame member
        have frees : mem.kfree kend (leaf.frame * PGSIZE) = .ok (mem.freed leaf.frame) := by
          rw [PhysicalMemory.kfree, Nat.mul_mod_left,
            Nat.mul_div_cancel _ PGSIZE_pos, if_neg (by omega)]
          rfl
        simp only [if_true, frees]
        exact later (owns.clear_user pages inside mapped slot)

theorem uvmunmap {npages : Nat} (below : page + npages ≤ VPAGES)
    (users : doFree = true → page + npages ≤ TRAPFRAME) (top : doFree = false → TRAPFRAME ≤ page) :
    ∃ result, MemoryM.uvmunmap kend (UInt64.ofNat (table.root * PGSIZE))
          (UInt64.ofNat (page * PGSIZE)) (UInt64.ofNat npages) doFree mem = .ok ((), result) ∧
        Owns stock ram extra (table.erase page npages) result ∧
        (table.uvmunmap page npages doFree).execute mem.freelist =
          .ok (table.erase page npages, result.freelist) := by
  obtain ⟨result, returns, rest⟩ := owns.uvmunmapLoop pages below users top
  refine ⟨result, ?_, rest⟩
  have number : VPAGES = 2 ^ 26 := by decide
  have start : (UInt64.ofNat (page * PGSIZE)).toNat = page * PGSIZE := by
    rw [UInt64.toNat_ofNat']
    simp only [PGSIZE]
    omega
  have count : ((UInt64.ofNat (page * PGSIZE) + UInt64.ofNat npages *
      4096).toNat - (UInt64.ofNat (page * PGSIZE)).toNat) / PGSIZE =
        npages := by
    have literal : (4096 : UInt64).toNat = 4096 := rfl
    rw [UInt64.toNat_add, UInt64.toNat_mul, literal, start, UInt64.toNat_ofNat']
    simp only [PGSIZE]
    omega
  have aligned : ¬(UInt64.ofNat (page * PGSIZE)).toNat % PGSIZE ≠ 0 := by
    rw [start, Nat.mul_mod_left]
    exact fun differs => differs rfl
  rw [MemoryM.uvmunmap, PhysicalMemory.uvmunmap, if_neg aligned, count, returns]

theorem unmaps_user {npages : Nat} (inside : page + npages ≤ TRAPFRAME) :
    Realizes PhysicalMemory.freelist (fun after _ result => after = table.erase page npages ∧
        Owns stock ram extra after result)
      (table.uvmunmap page npages true)
      (MemoryM.uvmunmap kend (UInt64.ofNat (table.root * PGSIZE))
        (UInt64.ofNat (page * PGSIZE)) (UInt64.ofNat npages) true) mem := by
  obtain ⟨result, returns, owned, executes⟩ := owns.uvmunmap pages
    (inside.trans (Nat.le_of_lt TRAPFRAME_lt)) (fun _ : true = true => inside)
    (fun keeps => by cases keeps)
  exact .of_execute returns executes ⟨rfl, owned⟩

theorem unmaps_top (page npages : Nat) (below : page + npages ≤ VPAGES) (above : TRAPFRAME ≤ page) :
    Realizes PhysicalMemory.freelist (fun after _ result => after = table.erase page npages ∧
        Owns stock ram extra after result)
      (table.uvmunmap page npages false)
      (MemoryM.uvmunmap kend (UInt64.ofNat (table.root * PGSIZE))
        (UInt64.ofNat (page * PGSIZE)) (UInt64.ofNat npages) false) mem := by
  obtain ⟨result, returns, owned, executes⟩ := owns.uvmunmap pages below
    (fun frees => by cases frees) (fun _ : false = false => above)
  exact .of_execute returns executes ⟨rfl, owned⟩

end

end

end Owns

end Xv6KernelEvent
