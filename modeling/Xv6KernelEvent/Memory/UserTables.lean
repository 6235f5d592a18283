import Xv6KernelEvent.Memory.Owned

/-!
# Growing and freeing user page tables in physical memory

`uvmdealloc`, `uvmalloc`, `freewalk`, `uvmfree`, `proc_pagetable` and
`proc_freepagetable` carry out their programs on the memory that holds the
table.  Together with the accounts of the programs this says that they return,
and what they leave.
-/

namespace Xv6KernelEvent

open Custody

theorem MemoryM.kalloc_nil (free : mem.freelist = []) : MemoryM.kalloc mem = .ok (none, mem) := by
  rw [MemoryM.kalloc, PhysicalMemory.kalloc, free]

theorem MemoryM.kalloc_cons (free : mem.freelist = frame :: rest) :
    MemoryM.kalloc mem = .ok (some frame, mem.taken frame rest) := by
  rw [MemoryM.kalloc, PhysicalMemory.kalloc, free]
  rfl

namespace Owns

/-- The table that an action leaves, at the place where it was. -/
def Leaves (stock : Multiset Nat) (ram : Ram) (extra : Multiset Nat)
    (root : Nat) (after : PageTable) (result : PhysicalMemory) : Prop :=
  after.root = root ∧ Owns stock ram extra after result

section

variable (pages : Pages kend stock)

include pages

theorem uvmdealloc (owns : Owns stock ram extra table mem) (place : table.root = root)
    (small : oldsz ≤ TRAPFRAME * PGSIZE) :
    Realizes PhysicalMemory.freelist (fun (sz, after) value result => value = sz ∧
        Leaves stock ram extra root after result)
      (table.uvmdealloc oldsz newsz)
      (MemoryM.uvmdealloc kend (UInt64.ofNat (root * PGSIZE)) oldsz newsz)
      mem := by
  subst root
  rw [PageTable.uvmdealloc, MemoryM.uvmdealloc]
  by_cases larger : newsz ≥ oldsz
  · rw [if_pos larger, if_pos larger]
    exact .pure ⟨rfl, rfl, owns⟩
  · have less : newsz ≤ TRAPFRAME * PGSIZE := by omega
    rw [if_neg larger, if_neg larger, pgroundup_eq small, pgroundup_eq less]
    by_cases rounded : npages newsz * PGSIZE < npages oldsz * PGSIZE
    · rw [if_pos rounded, if_pos rounded, ← Nat.sub_mul,
        Nat.mul_div_cancel _ PGSIZE_pos, Nat.mul_div_cancel _ PGSIZE_pos]
      have inside : npages newsz + (npages oldsz - npages newsz) ≤
          TRAPFRAME := by
        have := npages_le_iff.mpr small
        have := npages_mono (Nat.le_of_not_le larger)
        omega
      refine (owns.unmaps_user pages inside).seq ?_
      rintro after - last ⟨rfl, owned⟩
      exact .pure ⟨rfl, rfl, owned⟩
    · rw [if_neg rounded, if_neg rounded]
      exact .pure ⟨rfl, rfl, owns⟩

/-- `uvmalloc` takes back what it did before page `a`. -/
theorem uvmalloc_undo (owns : Owns stock ram extra table mem)
    (place : table.root = root) (reached : a ≤ TRAPFRAME) :
    Realizes PhysicalMemory.freelist (fun (sz, after) value result => value = sz ∧
        Leaves stock ram extra root after result)
      (do
        let (_, table) ← table.uvmdealloc (a * PGSIZE) (start * PGSIZE)
        pure (0, table))
      (do
        let _ ← MemoryM.uvmdealloc kend (UInt64.ofNat (root * PGSIZE)) (a * PGSIZE) (start * PGSIZE)
        pure 0) mem := by
  refine (owns.uvmdealloc pages place (Nat.mul_le_mul_right PGSIZE reached)).seq ?_
  rintro ⟨sz, after⟩ value result ⟨_, left⟩
  exact .pure ⟨rfl, left⟩

theorem uvmallocLoop (flags : (PTE_R ||| PTE_U ||| xperm).toNat < 1024) (remaining a : Nat)
    (owns : Owns stock ram extra table mem) (place : table.root = root)
    (reached : a ≤ TRAPFRAME) (top : table.leaf TRAPFRAME ≠ none) :
    Realizes PhysicalMemory.freelist (fun (sz, after) value result => value = sz ∧
        Leaves stock ram extra root after result)
      (PageTable.uvmallocLoop start newsz xperm remaining a table)
      (MemoryM.uvmallocLoop kend (UInt64.ofNat (root * PGSIZE)) start newsz
        xperm remaining a) mem := by
  induction remaining generalizing a table mem with
  | zero => exact .pure ⟨rfl, place, owns⟩
  | succ remaining induction =>
    rw [PageTable.uvmallocLoop, MemoryM.uvmallocLoop]
    refine .acquire ?_ ?_
    · intro free
      exact ⟨none, mem, MemoryM.kalloc_nil free, free, owns.uvmalloc_undo pages place reached⟩
    · intro frame rest free
      refine ⟨some frame, mem.taken frame rest, MemoryM.kalloc_cons free, rfl, .silent rfl rfl ?_⟩
      have cleared := (owns.kalloc pages free).write pages
        (Multiset.mem_cons_self frame extra) fun address apart =>
          Ram.memset_of_ne (mem.taken frame rest).ram 0 apart
      have low : a < VPAGES := reached.trans_lt TRAPFRAME_lt
      have small := pages.small (owns.stocked.mem_free (by
        rw [free]
        exact List.mem_cons_self))
      cases mapped : table.leaf a with
      | some leaf =>
        have stuck (perm : UInt64) : table.mappages a 1 frame perm = halt "mappages: remap" := by
          rw [PageTable.mappages_one, PageTable.mapPage_of_mapped
            owns.represents.wellFormed low mapped]
        simp only [stuck]
        exact .halt
      | none =>
        have below : a < TRAPFRAME := by
          refine Nat.lt_of_le_of_ne reached ?_
          rintro rfl
          exact top mapped
        rw [← place]
        refine (cleared.represents.mappages low small flags).seq ?_
        rw [place]
        rintro ⟨done, after⟩ value result maps
        have owned := cleared.map_user below mapped maps
        have kept := maps.root.trans place
        cases maps.value_eq
        cases done with
        | false =>
          refine .release (MemoryM.kfree_eq pages (owned.stocked.mem_held (Multiset.mem_add.mpr
              (.inl (Multiset.mem_cons_self _ _))))) rfl ?_
          exact (owned.kfree pages).uvmalloc_undo pages kept reached
        | true =>
          have kept : after.leaf TRAPFRAME ≠ none := by
            rw [maps.leaf, if_pos rfl, Function.update_of_ne (Nat.ne_of_gt below)]
            exact top
          exact induction (a + 1) owned (maps.root.trans place) below kept

theorem uvmalloc (flags : (PTE_R ||| PTE_U ||| xperm).toNat < 1024)
    (owns : Owns stock ram extra table mem) (place : table.root = root)
    (small : oldsz ≤ TRAPFRAME * PGSIZE) (top : table.leaf TRAPFRAME ≠ none) :
    Realizes PhysicalMemory.freelist (fun (sz, after) value result => value = sz ∧
        Leaves stock ram extra root after result)
      (table.uvmalloc oldsz newsz xperm)
      (MemoryM.uvmalloc kend (UInt64.ofNat (root * PGSIZE)) oldsz newsz xperm)
      mem := by
  rw [PageTable.uvmalloc, MemoryM.uvmalloc]
  split
  · exact .pure ⟨rfl, place, owns⟩
  · simp only [pgroundup_div small]
    exact owns.uvmallocLoop pages flags _ _ place (npages_le_iff.mpr small) top

end

end Owns

theorem nodeEntry_bits (small : node < 2 ^ 44) :
    nodeEntry (some node) &&& (PTE_R ||| PTE_W ||| PTE_X) = 0 := by
  have value := frame_address small
  have flags : pteFlags (nodeEntry (some node)) = PTE_V := by
    refine (entry_round_trip ?_ ?_ (by decide)).2
    · rw [value, Nat.mul_mod_left]
    · rw [value]
      simp only [PGSIZE]
      omega
  rw [← and_pteFlags _ (by decide), flags]
  decide

/-- The entries that `freewalk` has still to read when it has come to node
`count` of the lowest level. -/
def Unread (count : Nat) : Node → Nat → Prop
  | .root, index => count ≤ 512 * index + 511
  | .middle index, entry => count ≤ 512 * index + entry
  | .lower index, _ => count ≤ index

/-- What is left of a table while `freewalk` frees it. -/
structure Falling (stock : Multiset Nat) (ram : Ram) (table : PageTable)
    (count : Nat) (mem : PhysicalMemory) : Prop where
  entries : ∀ node {frame}, table.frameAt node = some frame →
    ∀ index < 512, Unread count node index → mem.ram.entry frame index = table.entryAt node index
  outside : ∀ address, address / PGSIZE ∉ stock → mem.ram address = ram address

/-- A table of pages of the stock that are all different. -/
structure Standing (stock : Multiset Nat) (table : PageTable) : Prop where
  wellFormed : table.WellFormed
  distinct : table.nodes.Nodup
  nodes : ∀ frame ∈ table.nodes, frame ∈ stock

theorem Owns.standing (owns : Owns stock ram extra table mem) : Standing stock table where
  wellFormed := owns.represents.wellFormed
  distinct := (Multiset.nodup_add.mp owns.represents.distinct).1
  nodes _ node := owns.stocked.mem_held (Multiset.mem_add.mpr
    (.inr (Multiset.mem_add.mpr (.inl node))))

theorem Owns.falling (owns : Owns stock ram extra table mem) : Falling stock ram table 0 mem where
  entries node _ present index bound _ := owns.represents.entries node present index bound
  outside := owns.stocked.outside

namespace Falling

theorem later (falling : Falling stock ram table count mem)
    (ordered : count ≤ more) : Falling stock ram table more mem := by
  refine ⟨?_, falling.outside⟩
  intro node frame present index bound unread
  refine falling.entries node present index bound ?_
  cases node <;> exact ordered.trans unread

section

variable (pages : Pages kend stock) (standing : Standing stock table)
  (falling : Falling stock ram table count mem) (present : table.frameAt node = some frame)

include standing falling present

/-- Pages are written that nothing unread is in. -/
theorem write (ordered : count ≤ more)
    (same : ∀ address, address / PGSIZE ≠ frame → other.ram address = mem.ram address)
    (kept : ∀ index < 512, Unread more node index →
      other.ram.entry frame index = mem.ram.entry frame index) :
    Falling stock ram table more other := by
  refine ⟨?_, ?_⟩
  · intro place found at_place index bound unread
    rw [← (falling.later ordered).entries place at_place index bound unread]
    by_cases here : found = frame
    · subst found
      obtain rfl := PageTable.frameAt_injective standing.wellFormed
        standing.distinct present at_place
      exact kept index bound unread
    · apply Ram.load_congr
      intro address above below
      apply same
      have inside : address / PGSIZE = found := by
        simp only [PGSIZE] at above below ⊢
        omega
      rw [inside]
      exact here
  · intro address outside
    rw [← falling.outside address outside]
    apply same
    rintro rfl
    exact outside (standing.nodes _ (PageTable.mem_nodes standing.wellFormed present))

include pages in
/-- A node that has been read is freed. -/
theorem free (ordered : count ≤ more) (read : ∀ index < 512, ¬Unread more node index) :
    Realizes PhysicalMemory.freelist (fun _ _ result => Falling stock ram table more result)
      (release frame) (MemoryM.kfree kend (UInt64.ofNat (frame * PGSIZE)))
      mem := by
  have member := standing.nodes frame (PageTable.mem_nodes standing.wellFormed present)
  refine .of_execute (MemoryM.kfree_eq pages member) rfl ?_
  refine falling.write standing present ordered ?_ ?_
  · intro address apart
    exact Ram.memset_of_ne mem.ram 1 apart
  · intro index bound unread
    exact absurd unread (read index bound)

/-- An entry that has been read is cleared. -/
theorem clear (bound : index < 512) (read : ¬Unread count node index) :
    Falling stock ram table count
      { mem with ram := mem.ram.store (frame * PGSIZE + 8 * index) 0 } := by
  refine falling.write standing present le_rfl ?_ ?_
  · intro address apart
    exact Ram.store_of_ne mem.ram bound 0 apart
  · intro place small unread
    refine Ram.entry_store_of_ne bound small 0 (.inr ?_)
    rintro rfl
    exact read unread

include pages in
/-- `freewalk` of an entry, by what the entry holds. -/
theorem entry (bound : index < 512) (unread : Unread count node index)
    (holds : table.entryAt node index = nodeEntry child)
    (members : ∀ found, child = some found → found ∈ stock)
    (ordered : count ≤ more) (read : ¬Unread more node index)
    (absent : child = none → program = pure ())
    (descends : ∀ found, child = some found → Realizes PhysicalMemory.freelist
        (fun _ _ result => Falling stock ram table more result)
        program (recurse (UInt64.ofNat (found * PGSIZE))) mem) :
    Realizes PhysicalMemory.freelist (fun _ _ result => Falling stock ram table more result)
      program (MemoryM.freewalkEntry recurse (UInt64.ofNat (frame * PGSIZE)) index) mem := by
  have address := pages.address (standing.nodes frame
    (PageTable.mem_nodes standing.wellFormed present))
  have word : mem.ram.load (frame * PGSIZE + 8 * index) = nodeEntry child :=
    (falling.entries node present index bound unread).trans holds
  rw [MemoryM.freewalkEntry, address]
  refine .silent rfl rfl ?_
  rw [word]
  cases child with
  | none =>
    rw [absent rfl, if_neg fun valid => valid.1 nodeEntry_none_invalid,
      if_neg (not_not.mpr nodeEntry_none_invalid)]
    exact .pure (falling.later ordered)
  | some found =>
    have small := pages.small (members found rfl)
    rw [if_pos ⟨nodeEntry_valid found, nodeEntry_bits small⟩,
      pte2pa_nodeEntry small, ← Program.bind_done program]
    refine Realizes.seq (descends found rfl) ?_
    intro _ _ result fallen
    exact .of_execute rfl rfl (fallen.clear standing present bound read)

end

end Falling

namespace Standing

variable (pages : Pages kend stock) (standing : Standing stock table)

include pages standing

/-- `freewalk` of a node of the lowest level frees it, if it is empty. -/
theorem freewalkLower (falling : Falling stock ram table count mem)
    (present : table.lower count = some frame) :
    Realizes PhysicalMemory.freelist (fun _ _ result => Falling stock ram table (count + 1) result)
      (table.freewalkLower count)
      (MemoryM.freewalk kend 1 (UInt64.ofNat (frame * PGSIZE))) mem := by
  have found : table.frameAt (.lower count) = some frame := present
  have address := pages.address (standing.nodes frame
    (PageTable.mem_nodes standing.wellFormed found))
  rw [PageTable.freewalkLower, present, MemoryM.freewalk]
  refine Realizes.seq (Realizes.forEach
    (fun _ result => Falling stock ram table count result) 512 falling ?_) ?_
  · intro index below state fallen
    have word : state.ram.load (frame * PGSIZE + 8 * index) =
        leafEntry (table.leaf (512 * count + index)) :=
      fallen.entries (.lower count) found index below le_rfl
    rw [PageTable.freewalkLeaf, MemoryM.freewalkEntry, address]
    refine .silent rfl rfl ?_
    rw [word]
    cases table.leaf (512 * count + index) with
    | none =>
      rw [if_neg fun valid => valid.1 leafEntry_none_invalid,
        if_neg (not_not.mpr leafEntry_none_invalid)]
      exact .pure fallen
    | some leaf =>
      simp only
      split <;> exact .halt
  · intro _ _ result fallen
    exact fallen.free pages standing found (Nat.le_succ count)
      fun index _ unread => Nat.not_succ_le_self count unread

theorem freewalkMiddle (falling : Falling stock ram table (512 * index) mem)
    (present : table.middle index = some frame) :
    Realizes PhysicalMemory.freelist
      (fun _ _ result => Falling stock ram table (512 * (index + 1)) result)
      (table.freewalkMiddle index)
      (MemoryM.freewalk kend 2 (UInt64.ofNat (frame * PGSIZE))) mem := by
  have found : table.frameAt (.middle index) = some frame := present
  rw [PageTable.freewalkMiddle, present, MemoryM.freewalk]
  refine Realizes.seq (Realizes.forEach
    (fun entry result => Falling stock ram table (512 * index + entry) result)
    512 falling ?_) ?_
  · intro entry below state fallen
    refine fallen.entry pages standing found below le_rfl rfl ?_
      (Nat.le_succ _) (fun unread => Nat.not_succ_le_self _ unread) ?_ ?_
    · intro node lower
      exact standing.nodes node (PageTable.mem_nodes standing.wellFormed
        (show table.frameAt (.lower _) = some node from lower))
    · intro absent
      rw [PageTable.freewalkLower, absent]
    · intro node lower
      exact standing.freewalkLower pages fallen lower
  · intro _ _ result fallen
    refine fallen.free pages standing found (by omega) ?_
    intro entry below unread
    change 512 * (index + 1) ≤ 512 * index + entry at unread
    omega

/-- `freewalk` gives back the nodes and touches nothing else. -/
theorem freewalk (falling : Falling stock ram table 0 mem) :
    Realizes PhysicalMemory.freelist (fun _ _ result => ∀ address, address / PGSIZE ∉ stock →
        result.ram address = ram address)
      table.freewalk
      (MemoryM.freewalk kend 3 (UInt64.ofNat (table.root * PGSIZE))) mem := by
  have found : table.frameAt .root = some table.root := rfl
  rw [PageTable.freewalk, MemoryM.freewalk]
  refine Realizes.seq (Realizes.forEach
    (fun index result => Falling stock ram table (512 * index) result)
    512 falling ?_) ?_
  · intro index below state fallen
    refine fallen.entry pages standing found below
      (show 512 * index ≤ 512 * index + 511 by omega) rfl ?_
      (show 512 * index ≤ 512 * (index + 1) by omega) ?_ ?_ ?_
    · intro node middle
      exact standing.nodes node (PageTable.mem_nodes standing.wellFormed
        (show table.frameAt (.middle _) = some node from middle))
    · intro unread
      change 512 * (index + 1) ≤ 512 * index + 511 at unread
      omega
    · intro absent
      rw [PageTable.freewalkMiddle, absent]
    · intro node middle
      exact standing.freewalkMiddle pages fallen middle
  · intro _ _ result fallen
    refine (fallen.free pages standing found le_rfl ?_).mono ?_
    · intro index below unread
      change 512 * 512 ≤ 512 * index + 511 at unread
      omega
    · intro _ _ last freed
      exact freed.outside

end Standing

/-- Memory outside the stock is as it was. -/
def Untouched (stock : Multiset Nat) (ram : Ram) (mem : PhysicalMemory) : Prop :=
  ∀ address, address / PGSIZE ∉ stock → mem.ram address = ram address

namespace Owns

variable (pages : Pages kend stock)

include pages

theorem uvmfree (owns : Owns stock ram extra table mem) (small : sz ≤ TRAPFRAME * PGSIZE) :
    Realizes PhysicalMemory.freelist
      (fun _ _ result => Untouched stock ram result) (table.uvmfree sz)
      (MemoryM.uvmfree kend (UInt64.ofNat (table.root * PGSIZE)) sz) mem := by
  have unmapped : Realizes PhysicalMemory.freelist
      (fun after _ result => Leaves stock ram extra table.root after result)
      (table.unmapAll sz)
      (MemoryM.unmapAll kend (UInt64.ofNat (table.root * PGSIZE)) sz) mem := by
    rw [PageTable.unmapAll, MemoryM.unmapAll]
    split
    · rw [pgroundup_div small]
      refine (owns.unmaps_user pages (show 0 + npages sz ≤ TRAPFRAME by
        rw [Nat.zero_add]
        exact npages_le_iff.mpr small)).mono ?_
      rintro after - result ⟨rfl, owned⟩
      exact ⟨rfl, owned⟩
    · exact .pure ⟨rfl, owns⟩
  refine unmapped.seq ?_
  rintro after - result ⟨place, owned⟩
  rw [← place]
  exact owned.standing.freewalk pages owned.falling

theorem procFreepagetable (owns : Owns stock ram extra table mem)
    (small : sz ≤ TRAPFRAME * PGSIZE) :
    Realizes PhysicalMemory.freelist (fun _ _ result => Untouched stock ram result)
      (Xv6KernelEvent.procFreepagetable table sz)
      (MemoryM.procFreepagetable kend (UInt64.ofNat (table.root * PGSIZE)) sz)
      mem := by
  refine (owns.unmaps_top pages TRAMPOLINE 1 (by decide) (by decide)).seq ?_
  rintro first - middle ⟨rfl, owned⟩
  refine (owned.unmaps_top pages TRAPFRAME 1 (by decide) (by decide)).seq ?_
  rintro second - last ⟨rfl, owned⟩
  exact owned.uvmfree pages small

end Owns

/-- What `proc_pagetable` returns: a table in memory, or the address 0. -/
def TableMade (stock : Multiset Nat) (ram : Ram) (extra : Multiset Nat)
    (result : PhysicalMemory) (value : UInt64) : Option PageTable → Prop
  | none => value = 0 ∧ Untouched stock ram result
  | some table => value = UInt64.ofNat (table.root * PGSIZE) ∧ Owns stock ram extra table result

namespace Stocked

theorem uvmcreate (pages : Pages kend stock) (stocked : Stocked stock ram extra mem)
    (free : mem.freelist = frame :: rest) :
    ∃ result, MemoryM.uvmcreate mem = .ok (UInt64.ofNat (frame * PGSIZE), result) ∧
        result.freelist = rest ∧
        Owns stock ram extra (PageTable.empty frame) result := by
  have member := stocked.mem_free (show frame ∈ mem.freelist by simp [free])
  have distinct : mem.freelist.Nodup := by
    have parts := pages.distinct
    rw [← stocked.conserved] at parts
    exact Multiset.coe_nodup.mp (Multiset.nodup_add.mp parts).2.1
  have represents := Represents.uvmcreate distinct
    (fun other listed => pages.small (stocked.mem_free listed)) free
  have cleared := (stocked.kalloc free).write member fun address apart =>
    Ram.memset_of_ne (mem.taken frame rest).ram 0 apart
  refine ⟨_, ?_, rfl, represents, ?_⟩
  · rw [MemoryM.uvmcreate, PhysicalMemory.uvmcreate, PhysicalMemory.kalloc, free]
  · rw [PageTable.space, PageTable.nodes_empty, PageTable.leafFrames_none
      fun _ _ => rfl, add_zero, add_comm, Multiset.singleton_add]
    exact cleared

theorem procPagetable (pages : Pages kend stock) (stocked : Stocked stock ram extra mem)
    (code : trampoline < 2 ^ 44) (registers : trapframe < 2 ^ 44) :
    Realizes PhysicalMemory.freelist
      (fun made value result => TableMade stock ram extra result value made)
      (Xv6KernelEvent.procPagetable trampoline trapframe)
      (MemoryM.procPagetable kend trampoline (UInt64.ofNat (trapframe * PGSIZE))) mem := by
  rw [Xv6KernelEvent.procPagetable, MemoryM.procPagetable]
  refine .acquire ?_ ?_
  · intro free
    refine ⟨0, mem, ?_, free, .pure ⟨rfl, stocked.outside⟩⟩
    rw [MemoryM.uvmcreate, PhysicalMemory.uvmcreate, PhysicalMemory.kalloc, free]
  · intro frame rest free
    obtain ⟨created, creates, left, owns⟩ := stocked.uvmcreate pages free
    refine ⟨_, created, creates, left, ?_⟩
    rw [if_neg (pages.nonzero (stocked.mem_free (by simp [free])))]
    refine (owns.represents.mappages TRAMPOLINE_lt code (by decide)).seq ?_
    rintro ⟨mapped, first⟩ value result maps
    have owned := owns.map_top (by decide) maps
    have place : first.root = frame := maps.root
    rw [← place]
    cases maps.value_eq
    cases mapped with
    | false =>
      refine Realizes.seq (owned.uvmfree pages (Nat.zero_le _)) ?_
      intro _ _ last untouched
      exact .pure ⟨rfl, untouched⟩
    | true =>
      refine (owned.represents.mappages TRAPFRAME_lt registers (by decide)).seq ?_
      rintro ⟨mapped, second⟩ value last maps
      have held := owned.map_top le_rfl maps
      rw [← maps.root]
      cases maps.value_eq
      cases mapped with
      | false =>
        refine (held.unmaps_top pages TRAMPOLINE 1 (by decide) (by decide)).seq ?_
        rintro after - bare ⟨rfl, emptied⟩
        refine Realizes.seq (emptied.uvmfree pages (Nat.zero_le _)) ?_
        intro _ _ final untouched
        exact .pure ⟨rfl, untouched⟩
      | true => exact .pure ⟨rfl, held⟩

/-- `proc_pagetable` returns a table without user pages, or leaves nothing
behind. -/
theorem procPagetable_returns (pages : Pages kend stock) (stocked : Stocked stock ram extra mem)
    (code : trampoline < 2 ^ 44) (registers : trapframe < 2 ^ 44) :
    ∃ value result, MemoryM.procPagetable kend trampoline
          (UInt64.ofNat (trapframe * PGSIZE)) mem = .ok (value, result) ∧
        (value = 0 ∧ Stocked stock ram extra result ∨
          value ≠ 0 ∧ ∃ table, value = UInt64.ofNat (table.root * PGSIZE) ∧
            Owns stock ram extra table result ∧
            UserTable trampoline trapframe 0 table) := by
  obtain ⟨made, rest, value, result, returns, relation, post, conserved⟩ :=
    (stocked.procPagetable pages code registers).execute procPagetable_accounts (le_refl _)
  refine ⟨value, result, returns, ?_⟩
  cases made with
  | none =>
    obtain ⟨rfl, untouched⟩ := relation
    obtain rfl := post
    rw [zero_add, zero_add] at conserved
    exact .inl ⟨rfl, by rw [conserved]; exact stocked.conserved, untouched⟩
  | some table =>
    obtain ⟨rfl, owns⟩ := relation
    have node : table.root ∈ table.nodes :=
      PageTable.mem_nodes owns.represents.wellFormed
        (show table.frameAt .root = some table.root from rfl)
    exact .inr ⟨pages.nonzero (owns.standing.nodes _ node), table, rfl, owns, post.2⟩

end Stocked

/-- `proc_freepagetable` gives back the whole table. -/
theorem Owns.procFreepagetable_returns
    (pages : Pages kend stock) (owns : Owns stock ram extra table mem)
    (shape : UserTable trampoline trapframe (npages sz) table) :
    ∃ result, MemoryM.procFreepagetable kend (UInt64.ofNat (table.root * PGSIZE)) sz
          mem = .ok ((), result) ∧ Stocked stock ram extra result := by
  obtain ⟨_, rest, _, result, returns, untouched, rfl, conserved⟩ :=
    (owns.procFreepagetable pages (npages_le_iff.mp shape.limit)).execute
      shape.free_accounts (le_refl _)
  refine ⟨result, returns, ?_, untouched⟩
  rw [zero_add] at conserved
  rw [conserved, ← add_assoc]
  exact owns.stocked.conserved

/-- A table with all that is held of the stock is an address space. -/
theorem Owns.addressSpace (pages : Pages kend stock) (owns : Owns stock ram 0 table mem)
    (shape : UserTable trampoline trapframe (npages sz) table) :
    AddressSpace kend trampoline trapframe
      { pagetable := UInt64.ofNat (table.root * PGSIZE), sz := sz } mem
      table := by
  have conserved := owns.stocked.conserved
  rw [zero_add] at conserved
  refine ⟨owns.represents, rfl, shape, ?_, ?_⟩
  · rw [conserved]
    exact pages.distinct
  · rw [conserved]
    exact pages.above

end Xv6KernelEvent
