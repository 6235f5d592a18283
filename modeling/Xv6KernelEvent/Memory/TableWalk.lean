import Xv6KernelEvent.Memory.PageTable
import Xv6KernelEvent.Memory.Ram

/-!
# Page tables in physical memory

`uvmcreate`, `walk`, `mappages` and `uvmunmap` (`kernel/vm.c`) on the bytes of
physical memory.  The memory represents a page table when every entry of every
node is the word that the tree of pages asks for; the functions then do to the
memory what the programs of `PageTable` do to the tree.
-/

namespace Xv6KernelEvent

open Custody

namespace PhysicalMemory

/-- The loop of `walk` from a level down. -/
def walkFrom (va : UInt64) (alloc : Bool) :
    (level : Nat) → (pagetable : UInt64) → PhysicalMemory → Option Nat × PhysicalMemory
  | 0, pagetable, mem => (some (pagetable.toNat + 8 * (px 0 va).toNat), mem)
  | level + 1, pagetable, mem =>
    let pte := pagetable.toNat + 8 * (px (level + 1) va).toNat
    if mem.ram.load pte &&& PTE_V ≠ 0 then walkFrom va alloc level (pte2pa (mem.ram.load pte)) mem
    else if alloc then
      match mem.kalloc with
      | (none, mem) => (none, mem)
      | (some frame, mem) =>
        let pagetable := UInt64.ofNat (frame * PGSIZE)
        let ram := mem.ram.memset (frame * PGSIZE) 0 PGSIZE
        walkFrom va alloc level pagetable
          { mem with ram := ram.store pte (pa2pte pagetable ||| PTE_V) }
    else (none, mem)

/-- `walk`, with the physical address of the entry. -/
def walk (pagetable va : UInt64) (alloc : Bool) (mem : PhysicalMemory) :
    Except String (Option Nat × PhysicalMemory) :=
  if va.toNat ≥ MAXVA then .error "walk"
  else .ok (walkFrom va alloc 2 pagetable mem)

/-- The loop of `mappages`.  Since `va` and `size` are multiples of `PGSIZE`,
`a` reaches `last` in round `size / PGSIZE`. -/
def mappagesLoop (pagetable perm : UInt64) :
    (remaining : Nat) → (a pa : UInt64) → PhysicalMemory → Except String (Int × PhysicalMemory)
  | 0, _, _, mem => .ok (0, mem)
  | remaining + 1, a, pa, mem =>
    match mem.walk pagetable a true with
    | .error reason => .error reason
    | .ok (none, mem) => .ok (-1, mem)
    | .ok (some pte, mem) =>
      if mem.ram.load pte &&& PTE_V ≠ 0 then .error "mappages: remap"
      else
        mappagesLoop pagetable perm remaining (a + 4096) (pa + 4096)
          { mem with
            ram := mem.ram.store pte (pa2pte pa ||| perm ||| PTE_V) }

def mappages (pagetable va size pa perm : UInt64) (mem : PhysicalMemory) :
    Except String (Int × PhysicalMemory) :=
  if va.toNat % PGSIZE ≠ 0 then .error "mappages: va not aligned"
  else if size.toNat % PGSIZE ≠ 0 then .error "mappages: size not aligned"
  else if size = 0 then .error "mappages: size"
  else mappagesLoop pagetable perm (size.toNat / PGSIZE) va pa mem

/-- The loop of `uvmunmap`. -/
def uvmunmapLoop (kend : Nat) (pagetable : UInt64) (doFree : Bool) :
    (remaining : Nat) → (a : UInt64) → PhysicalMemory → Except String PhysicalMemory
  | 0, _, mem => .ok mem
  | remaining + 1, a, mem =>
    match mem.walk pagetable a false with
    | .error reason => .error reason
    | .ok (none, mem) => uvmunmapLoop kend pagetable doFree remaining (a + 4096) mem
    | .ok (some pte, mem) =>
      if mem.ram.load pte &&& PTE_V = 0 then
        uvmunmapLoop kend pagetable doFree remaining (a + 4096) mem
      else
        match (if doFree then mem.kfree kend (pte2pa (mem.ram.load pte)).toNat
        else .ok mem) with
        | .error reason => .error reason
        | .ok mem =>
          uvmunmapLoop kend pagetable doFree remaining (a + 4096)
            { mem with ram := mem.ram.store pte 0 }

/-- `uvmunmap`; `va + npages*PGSIZE` is computed modulo `2 ^ 64`. -/
def uvmunmap (kend : Nat) (pagetable va npages : UInt64) (doFree : Bool)
    (mem : PhysicalMemory) : Except String PhysicalMemory :=
  if va.toNat % PGSIZE ≠ 0 then .error "uvmunmap: not aligned"
  else uvmunmapLoop kend pagetable doFree (((va + npages * 4096).toNat - va.toNat) / PGSIZE) va mem

def uvmcreate (mem : PhysicalMemory) : Option UInt64 × PhysicalMemory :=
  match mem.kalloc with
  | (none, mem) => (none, mem)
  | (some frame, mem) =>
    (some (UInt64.ofNat (frame * PGSIZE)),
      { mem with ram := mem.ram.memset (frame * PGSIZE) 0 PGSIZE })

end PhysicalMemory

/-- The nodes of a page table, by their places in the tree. -/
inductive Node where
  | root
  | middle (index : Nat)
  | lower (index : Nat)
  deriving DecidableEq

/-- The word for a node in the entry above it. -/
def nodeEntry : Option Nat → UInt64
  | none => 0
  | some frame => pa2pte (UInt64.ofNat (frame * PGSIZE)) ||| PTE_V

def leafEntry : Option Leaf → UInt64
  | none => 0
  | some leaf => pa2pte (UInt64.ofNat (leaf.frame * PGSIZE)) ||| leaf.flags

namespace PageTable

def frameAt (table : PageTable) : Node → Option Nat
  | .root => some table.root
  | .middle index => table.middle index
  | .lower index => table.lower index

def entryAt (table : PageTable) : Node → Nat → UInt64
  | .root, index => nodeEntry (table.middle index)
  | .middle index, entry => nodeEntry (table.lower (512 * index + entry))
  | .lower index, entry => leafEntry (table.leaf (512 * index + entry))

theorem lower_lt {table : PageTable} (wellFormed : table.WellFormed) {index : Nat}
    (present : table.lower index ≠ none) : index < 512 * 512 := by
  have parent := wellFormed.middle_lt (wellFormed.middle_of_lower present)
  omega

theorem mem_nodes {table : PageTable} (wellFormed : table.WellFormed) {node : Node}
    {frame : Nat} (present : table.frameAt node = some frame) : frame ∈ table.nodes := by
  rw [nodes, Multiset.mem_cons, Multiset.mem_add, mem_contents, mem_contents]
  cases node with
  | root => exact .inl (Option.some.inj present).symm
  | middle index =>
    change table.middle index = some frame at present
    exact .inr (.inl ⟨index, wellFormed.middle_lt (by simp [present]), present⟩)
  | lower index =>
    change table.lower index = some frame at present
    exact .inr (.inr ⟨index, lower_lt wellFormed (by simp [present]), present⟩)

/-- Nodes of a table without repeated pages are told apart by their pages. -/
theorem frameAt_injective {table : PageTable} (wellFormed : table.WellFormed)
    (distinct : table.nodes.Nodup) {first second : Node} {frame : Nat}
    (at_first : table.frameAt first = some frame)
    (at_second : table.frameAt second = some frame) : first = second := by
  rw [nodes, Multiset.nodup_cons, Multiset.nodup_add, Multiset.mem_add,
    mem_contents, mem_contents, Multiset.disjoint_left] at distinct
  obtain ⟨root_apart, middles, lowers, apart⟩ := distinct
  have middle_lt {index : Nat} (present : table.middle index = some frame) :
      index < 512 := wellFormed.middle_lt (by simp [present])
  have lower_lt {index : Nat} (present : table.lower index = some frame) :
      index < 512 * 512 := lower_lt wellFormed (by simp [present])
  have not_root : ∀ {node : Node}, table.frameAt node = some table.root → node = .root := by
    intro node present
    cases node with
    | root => rfl
    | middle index =>
      have below : index < 512 := wellFormed.middle_lt (by
        simp [show table.middle index = some table.root from present])
      exact absurd (.inl ⟨index, below, present⟩) root_apart
    | lower index =>
      have below : index < 512 * 512 := PageTable.lower_lt wellFormed (by
        simp [show table.lower index = some table.root from present])
      exact absurd (.inr ⟨index, below, present⟩) root_apart
  cases first with
  | root =>
    cases at_first
    exact (not_root at_second).symm
  | middle index =>
    cases second with
    | root =>
      cases at_second
      exact not_root at_first
    | middle other =>
      rw [contents_injective middles (middle_lt at_first) (middle_lt at_second) at_first at_second]
    | lower other =>
      exact absurd (mem_contents.mpr ⟨other, lower_lt at_second, at_second⟩)
        (apart (mem_contents.mpr ⟨index, middle_lt at_first, at_first⟩))
  | lower index =>
    cases second with
    | root =>
      cases at_second
      exact not_root at_first
    | middle other =>
      exact absurd (mem_contents.mpr ⟨index, lower_lt at_first, at_first⟩)
        (apart (mem_contents.mpr ⟨other, middle_lt at_second, at_second⟩))
    | lower other =>
      rw [contents_injective lowers (lower_lt at_first) (lower_lt at_second) at_first at_second]

end PageTable

theorem nodeEntry_none_invalid : nodeEntry none &&& PTE_V = 0 := by decide

theorem nodeEntry_valid (frame : Nat) : nodeEntry (some frame) &&& PTE_V ≠ 0 := by
  rw [Ne, and_valid_eq_zero_iff, nodeEntry, or_valid_odd]
  decide

theorem pte2pa_nodeEntry (small : frame < 2 ^ 44) :
    pte2pa (nodeEntry (some frame)) = UInt64.ofNat (frame * PGSIZE) := by
  have value : (UInt64.ofNat (frame * PGSIZE)).toNat = frame * PGSIZE := by
    rw [UInt64.toNat_ofNat']
    simp only [PGSIZE]
    omega
  refine (entry_round_trip ?_ ?_ (by decide)).1
  · rw [value, Nat.mul_mod_left]
  · rw [value]
    simp only [PGSIZE]
    omega

/-- Physical memory holds the page table. -/
structure Represents (mem : PhysicalMemory) (table : PageTable) : Prop where
  wellFormed : table.WellFormed
  entries : ∀ node {frame}, table.frameAt node = some frame →
    ∀ index < 512, mem.ram.entry frame index = table.entryAt node index
  distinct : (table.nodes + mem.freelist).Nodup
  small : ∀ frame ∈ table.nodes + mem.freelist, frame < 2 ^ 44
  leaves : ∀ {page leaf}, table.leaf page = some leaf →
    leaf.frame < 2 ^ 44 ∧ leaf.flags.toNat < 1024 ∧ leaf.flags.toNat % 2 = 1

namespace Represents

section

variable (represents : Represents mem table)

include represents

theorem frameAt_injective {first second : Node} {frame : Nat}
    (at_first : table.frameAt first = some frame)
    (at_second : table.frameAt second = some frame) : first = second :=
  PageTable.frameAt_injective represents.wellFormed
    (Multiset.nodup_add.mp represents.distinct).1 at_first at_second

theorem frame_lt (node : Node) {frame : Nat}
    (present : table.frameAt node = some frame) : frame < 2 ^ 44 :=
  represents.small frame (Multiset.mem_add.mpr
    (.inl (PageTable.mem_nodes represents.wellFormed present)))

theorem not_free {node : Node} {frame : Nat}
    (present : table.frameAt node = some frame) : frame ∉ mem.freelist := by
  have outside := Multiset.disjoint_left.mp (Multiset.nodup_add.mp represents.distinct).2.2
    (PageTable.mem_nodes represents.wellFormed present)
  simpa using outside

/-- One entry of a node is written, and the table follows. -/
theorem store (node : Node) (present : table.frameAt node = some frame) (bound : index < 512)
    (wellFormed : after.WellFormed) (frames : after.frameAt = table.frameAt)
    (nodes : after.nodes = table.nodes) (written : after.entryAt node index = word)
    (kept : ∀ other place, (other, place) ≠ (node, index) → place < 512 →
      after.entryAt other place = table.entryAt other place)
    (leaves : ∀ {page leaf}, after.leaf page = some leaf →
      leaf.frame < 2 ^ 44 ∧ leaf.flags.toNat < 1024 ∧ leaf.flags.toNat % 2 = 1) :
    Represents { mem with ram := mem.ram.store (frame * PGSIZE + 8 * index) word }
      after := by
  refine ⟨wellFormed, ?_, ?_, ?_, leaves⟩
  · intro other found at_other place small
    rw [frames] at at_other
    by_cases same : (other, place) = (node, index)
    · cases same
      obtain rfl : frame = found := Option.some.inj (present.symm.trans at_other)
      rw [written]
      exact Ram.entry_store word
    · rw [kept other place same small, ← represents.entries other at_other place small]
      apply Ram.entry_store_of_ne bound small
      by_contra equal
      rw [not_or, not_ne_iff, not_ne_iff] at equal
      obtain ⟨rfl, rfl⟩ := equal
      exact same (by rw [represents.frameAt_injective at_other present])
  · rw [nodes]
    exact represents.distinct
  · rw [nodes]
    exact represents.small

/-- A page from the free list is cleared and hung below a node. -/
theorem grow (node child : Node) (free : mem.freelist = fresh :: rest)
    (present : table.frameAt node = some frame) (bound : index < 512)
    (wellFormed : after.WellFormed)
    (frames : after.frameAt = Function.update table.frameAt child (some fresh))
    (nodes : after.nodes = fresh ::ₘ table.nodes)
    (written : after.entryAt node index = nodeEntry (some fresh))
    (bare : ∀ place < 512, after.entryAt child place = 0)
    (kept : ∀ other place, (other, place) ≠ (node, index) → other ≠ child →
      place < 512 → after.entryAt other place = table.entryAt other place)
    (leaves : after.leaf = table.leaf) :
    Represents
      { ram := ((mem.ram.memset (fresh * PGSIZE) 5 PGSIZE).memset
          (fresh * PGSIZE) 0 PGSIZE).store (frame * PGSIZE + 8 * index)
            (pa2pte (UInt64.ofNat (fresh * PGSIZE)) ||| PTE_V)
        freelist := rest }
      after := by
  have moved : after.nodes + (rest : Multiset Nat) = table.nodes + mem.freelist := by
    rw [nodes, free, ← Multiset.cons_coe, Multiset.cons_add, Multiset.add_cons]
  have apart {other : Node} {found : Nat}
      (at_other : table.frameAt other = some found) : found ≠ fresh := by
    intro same
    apply represents.not_free at_other
    rw [free, same]
    exact List.mem_cons_self
  refine ⟨wellFormed, ?_, ?_, ?_, ?_⟩
  · intro other found at_other place small
    by_cases new : other = child
    · subst other
      rw [frames, Function.update_self] at at_other
      cases at_other
      rw [bare place small, Ram.entry_store_of_ne bound small _
        (.inl (apart present).symm), Ram.entry_memset_zero small]
    · rw [frames, Function.update_of_ne new] at at_other
      by_cases same : (other, place) = (node, index)
      · cases same
        obtain rfl : frame = found := Option.some.inj (present.symm.trans at_other)
        rw [written]
        exact Ram.entry_store _
      · have differs : found ≠ frame ∨ place ≠ index := by
          by_contra equal
          rw [not_or, not_ne_iff, not_ne_iff] at equal
          obtain ⟨rfl, rfl⟩ := equal
          exact same (by rw [represents.frameAt_injective at_other present])
        rw [kept other place same new small, ← represents.entries other at_other place small,
          Ram.entry_store_of_ne bound small _ differs,
          Ram.entry_memset_of_ne small _ (apart at_other),
          Ram.entry_memset_of_ne small _ (apart at_other)]
  · exact (congrArg Multiset.Nodup moved).mpr represents.distinct
  · intro other member
    exact represents.small other (by rwa [← moved])
  · intro page leaf found
    rw [leaves] at found
    exact represents.leaves found

end

/-- Memory outside the nodes of the table and the free list is as before. -/
def Spares (mem : PhysicalMemory) (table : PageTable) (ram : Ram) : Prop :=
  ∀ address, address / PGSIZE ∉ table.nodes →
    address / PGSIZE ∉ mem.freelist → ram address = mem.ram address

section

variable (represents : Represents mem table)

include represents

theorem grow_spares (node : Node) {frame index fresh : Nat}
    {rest : List Nat} (free : mem.freelist = fresh :: rest)
    (present : table.frameAt node = some frame) (bound : index < 512) (word : UInt64) :
    Spares mem table (((mem.ram.memset (fresh * PGSIZE) 5 PGSIZE).memset
      (fresh * PGSIZE) 0 PGSIZE).store (frame * PGSIZE + 8 * index) word) := by
  intro address outside busy
  have apart : address / PGSIZE ≠ fresh := by
    rintro same
    apply busy
    rw [free, same]
    exact List.mem_cons_self
  have elsewhere : address / PGSIZE ≠ frame := by
    rintro same
    rw [same] at outside
    exact outside (PageTable.mem_nodes represents.wellFormed present)
  rw [Ram.store_of_ne _ bound _ elsewhere, Ram.memset_of_ne _ _ apart, Ram.memset_of_ne _ _ apart]

theorem setMiddle (free : mem.freelist = fresh :: rest) (below : page < VPAGES)
    (absent : table.middle (page / 512 / 512) = none) :
    Represents
      { ram := ((mem.ram.memset (fresh * PGSIZE) 5 PGSIZE).memset
          (fresh * PGSIZE) 0 PGSIZE).store (table.root * PGSIZE + 8 * (page / 512 / 512))
            (pa2pte (UInt64.ofNat (fresh * PGSIZE)) ||| PTE_V)
        freelist := rest }
      (table.setMiddle (page / 512 / 512) fresh) := by
  refine represents.grow .root (.middle (page / 512 / 512)) free rfl (PageTable.index_lt below).2
    (represents.wellFormed.setMiddle below fresh) ?_
    (PageTable.nodes_setMiddle below absent fresh) ?_ ?_ ?_ rfl
  · funext node
    cases node with
    | root | lower index => rfl
    | middle index =>
      by_cases same : index = page / 512 / 512 <;>
        simp [PageTable.frameAt, PageTable.setMiddle, same]
  · simp [PageTable.entryAt, PageTable.setMiddle]
  · intro place small
    have lower : table.lower (512 * (page / 512 / 512) + place) = none := by
      by_contra present
      have parent := represents.wellFormed.middle_of_lower present
      rw [show (512 * (page / 512 / 512) + place) / 512 = page / 512 / 512 by omega] at parent
      exact parent absent
    change nodeEntry (table.lower _) = 0
    rw [lower]
    rfl
  · intro other place differs new small
    cases other with
    | root =>
      have elsewhere : place ≠ page / 512 / 512 := by
        rintro rfl
        exact differs rfl
      simp [PageTable.entryAt, PageTable.setMiddle, elsewhere]
    | _ => rfl

theorem setLower (free : mem.freelist = fresh :: rest) (below : page < VPAGES)
    (parent : table.middle (page / 512 / 512) = some frame)
    (absent : table.lower (page / 512) = none) :
    Represents
      { ram := ((mem.ram.memset (fresh * PGSIZE) 5 PGSIZE).memset
          (fresh * PGSIZE) 0 PGSIZE).store (frame * PGSIZE + 8 * (page / 512 % 512))
            (pa2pte (UInt64.ofNat (fresh * PGSIZE)) ||| PTE_V)
        freelist := rest }
      (table.setLower (page / 512) fresh) := by
  have place_eq : 512 * (page / 512 / 512) + page / 512 % 512 = page / 512 :=
    Nat.div_add_mod (page / 512) 512
  refine represents.grow (.middle (page / 512 / 512)) (.lower (page / 512))
    free parent (Nat.mod_lt _ (by decide))
    (represents.wellFormed.setLower (by simp [parent]) fresh) ?_
    (PageTable.nodes_setLower below absent fresh) ?_ ?_ ?_ rfl
  · funext node
    cases node with
    | root | middle index => rfl
    | lower index =>
      by_cases same : index = page / 512 <;> simp [PageTable.frameAt, PageTable.setLower, same]
  · simp only [PageTable.entryAt, PageTable.setLower, place_eq, Function.update_self]
  · intro place small
    have leaf : table.leaf (512 * (page / 512) + place) = none := by
      by_contra present
      have parent := represents.wellFormed.lower_of_leaf present
      rw [show (512 * (page / 512) + place) / 512 = page / 512 by omega]
        at parent
      exact parent absent
    change leafEntry (table.leaf _) = 0
    rw [leaf]
    rfl
  · intro other place differs new small
    cases other with
    | root | lower index => rfl
    | middle index =>
      have elsewhere : 512 * index + place ≠ page / 512 := by
        intro same
        apply differs
        rw [show index = page / 512 / 512 by omega, show place = page / 512 % 512 by omega]
      simp only [PageTable.entryAt, PageTable.setLower, Function.update_of_ne elsewhere]

end

end Represents

/-- The physical address of the entry for a page. -/
def PageTable.slot (table : PageTable) (page : Nat) : Option Nat :=
  (table.lower (page / 512)).map fun frame => frame * PGSIZE + 8 * (page % 512)

theorem frame_address (small : frame < 2 ^ 44) :
    (UInt64.ofNat (frame * PGSIZE)).toNat = frame * PGSIZE := by
  rw [UInt64.toNat_ofNat']
  simp only [PGSIZE]
  omega

theorem frame_ne_zero (value : (UInt64.ofNat (frame * PGSIZE)).toNat = frame * PGSIZE)
    (positive : 0 < frame) : UInt64.ofNat (frame * PGSIZE) ≠ 0 := by
  intro zero
  rw [← UInt64.toNat_inj, value] at zero
  have product := Nat.mul_pos positive PGSIZE_pos
  exact absurd zero (Nat.ne_of_gt product)

section Walk

variable {va : UInt64}

theorem px_pages (va : UInt64) (below : va.toNat < MAXVA) :
    (px 2 va).toNat = va.toNat / PGSIZE / 512 / 512 ∧
      (px 1 va).toNat = va.toNat / PGSIZE / 512 % 512 ∧
      (px 0 va).toNat = va.toNat / PGSIZE % 512 := by
  rw [px_toNat (by decide), px_toNat (by decide), px_toNat (by decide)]
  simp only [PGSIZE, MAXVA] at below ⊢
  omega

theorem page_lt (below : va.toNat < MAXVA) : va.toNat / PGSIZE < VPAGES := by
  simp only [PGSIZE, MAXVA, VPAGES] at below ⊢
  omega

/-- The last two rounds of `walk` below a node of the middle level. -/
theorem Represents.walkLower (represents : Represents mem table) (below : va.toNat < MAXVA)
    (alloc : Bool) (parent : table.middle (va.toNat / PGSIZE / 512 / 512) = some frame) :
    ∃ found after result, (table.walkLower (va.toNat / PGSIZE) alloc).execute mem.freelist =
        .ok ((found, after), result.freelist) ∧
      mem.walkFrom va alloc 1 (UInt64.ofNat (frame * PGSIZE)) =
        (if found then after.slot (va.toNat / PGSIZE) else none, result) ∧
      Represents result after ∧ Represents.Spares mem table result.ram := by
  obtain ⟨_, one, zero⟩ := px_pages va below
  have small : frame < 2 ^ 44 := represents.frame_lt (.middle _) parent
  have word : mem.ram.load (frame * PGSIZE + 8 * (va.toNat / PGSIZE / 512 % 512)) =
        nodeEntry (table.lower (va.toNat / PGSIZE / 512)) := by
    have entry := represents.entries (.middle _) parent
      (va.toNat / PGSIZE / 512 % 512) (Nat.mod_lt _ (by decide))
    rw [PageTable.entryAt, Nat.div_add_mod] at entry
    exact entry
  rw [PhysicalMemory.walkFrom, frame_address small, one, word]
  cases lower : table.lower (va.toNat / PGSIZE / 512) with
  | some node =>
    have fits : node < 2 ^ 44 := represents.frame_lt (.lower _) lower
    refine ⟨true, table, mem, ?_, ?_, represents, fun _ _ _ => rfl⟩
    · rw [PageTable.walkLower, lower]
      rfl
    · rw [if_pos (nodeEntry_valid node), pte2pa_nodeEntry fits]
      rw [PhysicalMemory.walkFrom, frame_address fits, zero]
      simp [PageTable.slot, lower]
  | none =>
    rw [if_neg (not_not.mpr nodeEntry_none_invalid)]
    cases alloc with
    | false =>
      refine ⟨false, table, mem, ?_, rfl, represents, fun _ _ _ => rfl⟩
      rw [PageTable.walkLower, lower]
      rfl
    | true =>
      cases free : mem.freelist with
      | nil =>
        refine ⟨false, table, mem, ?_, ?_, represents, fun _ _ _ => rfl⟩
        · rw [PageTable.walkLower, lower, free]
          rfl
        · simp [PhysicalMemory.kalloc, free]
      | cons fresh rest =>
        have fits : fresh < 2 ^ 44 := represents.small fresh (by simp [free])
        refine ⟨true, table.setLower (va.toNat / PGSIZE / 512) fresh,
          _, ?_, ?_, represents.setLower free (page_lt below) parent
            lower, represents.grow_spares (.middle _) free parent (Nat.mod_lt _ (by decide)) _⟩
        · rw [PageTable.walkLower, lower]
          rfl
        · simp only [if_true, PhysicalMemory.kalloc, free]
          rw [PhysicalMemory.walkFrom, frame_address fits, zero]
          simp [PageTable.slot, PageTable.setLower]

theorem Represents.walk (represents : Represents mem table) (below : va.toNat < MAXVA)
    (alloc : Bool) :
    ∃ found after result, (table.walk (va.toNat / PGSIZE) alloc).execute mem.freelist =
        .ok ((found, after), result.freelist) ∧
      mem.walk (UInt64.ofNat (table.root * PGSIZE)) va alloc = .ok
        (if found then after.slot (va.toNat / PGSIZE) else none, result) ∧
      Represents result after ∧ Represents.Spares mem table result.ram := by
  obtain ⟨two, _, _⟩ := px_pages va below
  have small : table.root < 2 ^ 44 := represents.frame_lt .root rfl
  have word : mem.ram.load (table.root * PGSIZE + 8 * (va.toNat / PGSIZE / 512 / 512)) =
        nodeEntry (table.middle (va.toNat / PGSIZE / 512 / 512)) :=
    represents.entries .root rfl _ (PageTable.index_lt (page_lt below)).2
  rw [PhysicalMemory.walk, if_neg (Nat.not_le.mpr below), PageTable.walk,
    if_neg (Nat.not_le.mpr (page_lt below)), PhysicalMemory.walkFrom,
    frame_address small, two, word]
  cases middle : table.middle (va.toNat / PGSIZE / 512 / 512) with
  | some frame =>
    have fits : frame < 2 ^ 44 := represents.frame_lt (.middle _) middle
    obtain ⟨found, after, result, executes, walks, kept, spared⟩ :=
      represents.walkLower below alloc middle
    refine ⟨found, after, result, executes, ?_, kept, spared⟩
    rw [if_pos (nodeEntry_valid frame), pte2pa_nodeEntry fits, walks]
  | none =>
    rw [if_neg (not_not.mpr nodeEntry_none_invalid)]
    cases alloc with
    | false => exact ⟨false, table, mem, rfl, rfl, represents, fun _ _ _ => rfl⟩
    | true =>
      cases free : mem.freelist with
      | nil =>
        refine ⟨false, table, mem, ?_, ?_, represents, fun _ _ _ => rfl⟩
        · rw [free]
          rfl
        · simp [PhysicalMemory.kalloc, free]
      | cons fresh rest =>
        have grown := represents.setMiddle free (page_lt below) middle
        have parent : (table.setMiddle (va.toNat / PGSIZE / 512 / 512)
            fresh).middle (va.toNat / PGSIZE / 512 / 512) =
              some fresh := by simp [PageTable.setMiddle]
        obtain ⟨found, after, result, executes, walks, kept, spared⟩ :=
          grown.walkLower below true parent
        refine ⟨found, after, result, executes, ?_, kept, ?_⟩
        · simp only [if_true, PhysicalMemory.kalloc, free]
          rw [walks]
        · have hung := represents.grow_spares .root free rfl (PageTable.index_lt (page_lt below)).2
            (pa2pte (UInt64.ofNat (fresh * PGSIZE)) ||| PTE_V)
          intro address outside busy
          rw [free, List.mem_cons, not_or] at busy
          rw [← hung address outside (by rwa [free, List.mem_cons, not_or])]
          refine spared address ?_ busy.2
          rw [PageTable.nodes_setMiddle (page_lt below) middle, Multiset.mem_cons, not_or]
          exact ⟨busy.1, outside⟩

theorem leafEntry_none_invalid : leafEntry none &&& PTE_V = 0 := by decide

section

variable (represents : Represents mem table)

include represents

theorem Represents.leafEntry_valid (mapped : table.leaf page = some leaf) :
    leafEntry (some leaf) &&& PTE_V ≠ 0 := by
  obtain ⟨_, small, odd⟩ := represents.leaves mapped
  rw [Ne, and_valid_eq_zero_iff, leafEntry, entry_toNat _ small]
  omega

/-- What stands in the entry for a page. -/
theorem Represents.load_slot (slot : table.slot page = some address) :
    mem.ram.load address = leafEntry (table.leaf page) := by
  obtain ⟨frame, lower, rfl⟩ := Option.map_eq_some_iff.mp slot
  have entry := represents.entries (.lower _) lower (page % 512) (Nat.mod_lt _ (by decide))
  rw [PageTable.entryAt, Nat.div_add_mod] at entry
  exact entry

/-- The entry for a page is written. -/
theorem Represents.setLeaf (slot : table.slot page = some address) (leaf : Option Leaf)
    (sound : ∀ found, leaf = some found → found.frame < 2 ^ 44 ∧
      found.flags.toNat < 1024 ∧ found.flags.toNat % 2 = 1) :
    Represents { mem with ram := mem.ram.store address (leafEntry leaf) }
      (table.setLeaf page leaf) := by
  obtain ⟨frame, lower, rfl⟩ := Option.map_eq_some_iff.mp slot
  refine represents.store (.lower (page / 512)) lower
    (Nat.mod_lt _ (by decide)) ?_ ?_ (PageTable.nodes_setLeaf _ _ _) ?_ ?_ ?_
  · exact represents.wellFormed.setLeaf fun _ => by simp [lower]
  · funext node
    cases node <;> rfl
  · simp only [PageTable.entryAt, PageTable.setLeaf, Nat.div_add_mod, Function.update_self]
  · intro other place differs small
    cases other with
    | root | middle index => rfl
    | lower index =>
      have elsewhere : 512 * index + place ≠ page := by
        intro same
        apply differs
        rw [show index = page / 512 by omega, show place = page % 512 by omega]
      simp only [PageTable.entryAt, PageTable.setLeaf, Function.update_of_ne elsewhere]
  · intro other found mapped
    by_cases same : other = page
    · subst other
      apply sound
      simpa [PageTable.setLeaf] using mapped
    · have kept : table.leaf other = some found := by
        simpa [PageTable.setLeaf, Function.update_of_ne same] using mapped
      exact represents.leaves kept

end

end Walk

end Xv6KernelEvent
