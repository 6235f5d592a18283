import Xv6KernelEvent.Memory.ExactCopies
import Xv6KernelEvent.Memory.UserTables

/-!
# Copying an address space

`uvmcopy` (`kernel/vm.c`) on physical memory.  The table it copies lies outside
the pages it takes; what it has copied stays, since it writes only to nodes of
the new table and to pages that were free.
-/

namespace Xv6KernelEvent

open Custody

theorem or_valid_of_odd (odd : flags.toNat % 2 = 1) : flags ||| PTE_V = flags := by
  rw [← UInt64.toNat_inj, UInt64.toNat_or, show PTE_V.toNat = 1 from rfl]
  apply Nat.eq_of_testBit_eq
  intro index
  rw [Nat.testBit_or]
  cases index with
  | zero => simp [Nat.testBit_zero, odd]
  | succ index => simp [Nat.testBit_succ]

/-- A table whose nodes and user pages are not in the stock. -/
structure KeptAside (stock : Multiset Nat) (ram : Ram) (old : PageTable) : Prop where
  represents : Represents { ram := ram, freelist := [] } old
  nodes : ∀ frame ∈ old.nodes, frame ∉ stock
  leaves : ∀ {page leaf}, page < TRAPFRAME → old.leaf page = some leaf → leaf.frame ∉ stock

/-- The free pages are a stock of their own. -/
theorem PhysicalMemory.stocked (mem : PhysicalMemory) : Stocked mem.freelist mem.ram 0 mem :=
  ⟨zero_add _, fun _ _ => rfl⟩

theorem AddressSpace.freePages (space : AddressSpace kend trampoline trapframe p mem old) :
    Pages kend (mem.freelist : Multiset Nat) where
  distinct := (Multiset.nodup_add.mp space.apart).2.1
  above frame free := space.above frame (Multiset.mem_add.mpr (.inr free))

theorem AddressSpace.elsewhere {trampoline trapframe : Nat} {p : CurrentProcess}
    (space : AddressSpace kend trampoline trapframe p mem old) :
    KeptAside mem.freelist mem.ram old := by
  have disjoint {frame : Nat} (member : frame ∈ old.space) :
      frame ∉ (mem.freelist : Multiset Nat) :=
    Multiset.disjoint_left.mp (Multiset.nodup_add.mp space.apart).2.2 member
  refine ⟨?_, ?_, ?_⟩
  · refine space.represents.agree (fun _ _ => rfl) ?_ nofun
    rw [Multiset.coe_nil, add_zero]
    exact (Multiset.nodup_add.mp space.represents.distinct).1
  · intro frame node
    exact disjoint (Multiset.mem_add.mpr (.inl node))
  · intro page leaf low mapped
    refine disjoint (Multiset.mem_add.mpr (.inr ?_))
    exact mem_contents.mpr ⟨page, low, by rw [mapped]; rfl⟩

theorem KeptAside.stays (elsewhere : KeptAside stock ram old) (pages : Pages kend stock)
    (stocked : Stocked stock ram held mem) : Represents mem old := by
  refine elsewhere.represents.agree ?_ ?_ ?_
  · intro address node
    exact stocked.outside address (elsewhere.nodes _ node)
  · have distinct := pages.distinct
    rw [← stocked.conserved] at distinct
    refine Multiset.nodup_add.mpr ⟨(Multiset.nodup_add.mp elsewhere.represents.distinct).1,
        (Multiset.nodup_add.mp distinct).2.1, Multiset.disjoint_left.mpr ?_⟩
    intro frame node free
    exact elsewhere.nodes frame node (stocked.mem_free free)
  · intro frame free
    exact pages.small (stocked.mem_free free)

/-- The pages below a limit are copies of those of the old table. -/
def PagesCopied (ram : Ram) (old new : PageTable) (mem : PhysicalMemory) (limit : Nat) : Prop :=
  ∀ page < limit, match old.leaf page with
    | none => new.leaf page = none
    | some leaf => ∃ frame, new.leaf page = some { frame := frame, flags := leaf.flags } ∧
          ∀ offset < PGSIZE, mem.ram (frame * PGSIZE + offset) = ram (leaf.frame * PGSIZE + offset)

theorem PagesCopied.keep (copied : PagesCopied ram old new mem limit) (inside : limit ≤ TRAPFRAME)
    (leaves : ∀ page < limit, after.leaf page = new.leaf page)
    (same : ∀ address, address / PGSIZE ∈ new.leafFrames TRAPFRAME →
      result.ram address = mem.ram address) : PagesCopied ram old after result limit := by
  intro page below
  have found := copied page below
  cases mapped : old.leaf page with
  | none =>
    rw [mapped] at found
    exact (leaves page below).trans found
  | some leaf =>
    rw [mapped] at found
    obtain ⟨frame, present, bytes⟩ := found
    refine ⟨frame, (leaves page below).trans present, ?_⟩
    intro offset small
    rw [← bytes offset small]
    apply same
    rw [page_of_address _ small]
    exact mem_contents.mpr ⟨page, by omega, by rw [present]; rfl⟩

theorem PagesCopied.snoc (copied : PagesCopied ram old new mem limit)
    (mapped : old.leaf limit = some leaf)
    (present : new.leaf limit = some { frame := frame, flags := leaf.flags })
    (bytes : ∀ offset < PGSIZE, mem.ram (frame * PGSIZE + offset) =
      ram (leaf.frame * PGSIZE + offset)) :
    PagesCopied ram old new mem (limit + 1) := by
  intro page below
  by_cases last : page = limit
  · subst page
    rw [mapped]
    exact ⟨frame, present, bytes⟩
  · exact copied page (by omega)

/-- Whatever happens to free pages, a process does not notice. -/
theorem AddressSpace.unaffected (space : AddressSpace kend trampoline trapframe p mem old)
    (stocked : Stocked mem.freelist mem.ram 0 result) (va : UInt64) :
    result.userByte p va = mem.userByte p va := by
  have free : (result.freelist : Multiset Nat) = mem.freelist := by
    rw [← stocked.conserved, zero_add]
  have kept : AddressSpace kend trampoline trapframe p result old := by
    refine ⟨space.elsewhere.stays space.freePages stocked, space.pagetable, space.shape, ?_, ?_⟩
    · rw [free]
      exact space.apart
    · rw [free]
      exact space.above
  refine space.userByte_congr kept ?_ va
  intro address member
  exact stocked.outside address
    (Multiset.disjoint_left.mp (Multiset.nodup_add.mp space.apart).2.2 member)

/-- What `uvmcopy` has done when it has come to page `i`. -/
structure Copying (stock : Multiset Nat) (ram : Ram) (extra : Multiset Nat)
    (root : Nat) (old new : PageTable) (i : Nat) (mem : PhysicalMemory) : Prop where
  owns : Owns stock ram extra new mem
  place : new.root = root
  copied : PagesCopied ram old new mem i
  bare : ∀ page, i ≤ page → page < TRAPFRAME → new.leaf page = none

/-- How `uvmcopy` ends. -/
def CopyEnds (stock : Multiset Nat) (ram : Ram) (extra : Multiset Nat)
    (root : Nat) (old : PageTable) (limit : Nat) (outcome : Bool × PageTable)
    (value : Int) (result : PhysicalMemory) : Prop :=
  value = (if outcome.1 then 0 else -1) ∧ Owns.Leaves stock ram extra root outcome.2 result ∧
    (outcome.1 = true → PagesCopied ram old outcome.2 result limit)

namespace Copying

theorem skip (copying : Copying stock ram extra root old new i mem)
    (below : i < TRAPFRAME) (hole : old.leaf i = none) :
    Copying stock ram extra root old new (i + 1) mem := by
  refine ⟨copying.owns, copying.place, ?_, fun page above => copying.bare page (by omega)⟩
  intro page less
  by_cases last : page = i
  · subst page
    rw [hole]
    exact copying.bare i le_rfl below
  · exact copying.copied page (by omega)

/-- A page has been copied to a free page. -/
theorem filled (pages : Pages kend stock) (copying : Copying stock ram extra root old new i mem)
    (free : mem.freelist = frame :: rest) (source : Nat → UInt8) :
    Owns stock ram (frame ::ₘ extra) new
      { mem.taken frame rest with
        ram := (mem.taken frame rest).ram.memmove (frame * PGSIZE) source PGSIZE } := by
  refine (copying.owns.kalloc pages free).write pages (Multiset.mem_cons_self frame extra) ?_
  intro address apart
  apply if_neg
  rintro ⟨low, high⟩
  apply apart
  simp only [PGSIZE] at low high ⊢
  omega

/-- The page is mapped, and what was copied before is as it was. -/
theorem mapped (pages : Pages kend stock) (below : i < TRAPFRAME)
    (elsewhere : KeptAside stock ram old) (copying : Copying stock ram extra root old new i mem)
    (present : old.leaf i = some leaf) (free : mem.freelist = frame :: rest) {value : Int}
    (maps : PageMapped
      { mem.taken frame rest with
        ram := (mem.taken frame rest).ram.memmove (frame * PGSIZE)
          (fun index => (mem.taken frame rest).ram (leaf.frame * PGSIZE + index)) PGSIZE }
      new i frame leaf.flags true after value result) :
    Copying stock ram extra root old after (i + 1) result := by
  have owned := copying.filled pages free fun index =>
    (mem.taken frame rest).ram (leaf.frame * PGSIZE + index)
  have unmapped := copying.bare i le_rfl below
  have leaves := maps.leaf
  rw [if_pos rfl, or_valid_of_odd (elsewhere.represents.leaves present).2.2]
    at leaves
  have loose := owned.loose pages (Multiset.mem_cons_self frame extra)
  have member := copying.owns.stocked.mem_free (show frame ∈ mem.freelist by simp [free])
  refine ⟨owned.map_user below unmapped maps, maps.root.trans copying.place,
    PagesCopied.snoc ?_ present (by rw [leaves, Function.update_self]) ?_, ?_⟩
  · refine copying.copied.keep (Nat.le_of_lt below) ?_ ?_
    · intro page less
      rw [leaves, Function.update_of_ne (Nat.ne_of_lt less)]
    · intro address inside
      have space : address / PGSIZE ∈ new.space := Multiset.mem_add.mpr (.inr inside)
      have apart : address / PGSIZE ≠ frame := by
        intro same
        rw [same] at space
        exact loose.1 space
      have distinct := (Multiset.nodup_add.mp (owned.apart pages)).2.1
      rw [PageTable.space_add, Multiset.nodup_add, Multiset.disjoint_left] at distinct
      have others := distinct.2.2 inside
      rw [Multiset.mem_add, not_or, Multiset.mem_coe] at others
      rw [maps.spares address others.1 others.2]
      have elsewhere : ¬(frame * PGSIZE ≤ address ∧ address < frame * PGSIZE + PGSIZE) := by
        rintro ⟨low, high⟩
        apply apart
        simp only [PGSIZE] at low high ⊢
        omega
      exact (if_neg elsewhere).trans (Ram.memset_of_ne mem.ram 5 apart)
  · intro offset small
    have here := page_of_address frame small
    rw [maps.spares _ (by rw [here]; exact Owns.not_node loose.1) (by rw [here]; exact loose.2)]
    have outside := elsewhere.leaves below present
    have source : (mem.taken frame rest).ram (leaf.frame * PGSIZE + offset) =
        ram (leaf.frame * PGSIZE + offset) :=
      (copying.owns.stocked.kalloc free).outside _ (by rwa [page_of_address _ small])
    simp only [Ram.memmove]
    rw [if_pos ⟨Nat.le_add_right _ _, by omega⟩, Nat.add_sub_cancel_left, source]
  · intro page above less
    rw [leaves, Function.update_of_ne (by omega)]
    exact copying.bare page (by omega) less

/-- `uvmcopy` takes back what it did before page `i`. -/
theorem undo (pages : Pages kend stock) (inside : i ≤ TRAPFRAME)
    (owns : Owns stock ram extra new mem) (place : new.root = root) (limit : Nat) :
    Realizes PhysicalMemory.freelist (CopyEnds stock ram extra root old limit) (do
        let new ← new.uvmunmap 0 i true
        pure (false, new))
      (do
        MemoryM.uvmunmap kend (UInt64.ofNat (root * PGSIZE)) 0 (UInt64.ofNat i) true
        pure (-1)) mem := by
  subst root
  refine (owns.unmaps_user pages (show 0 + i ≤ TRAPFRAME by omega)).seq ?_
  rintro after - last ⟨rfl, owned⟩
  exact .pure ⟨rfl, ⟨rfl, owned⟩, nofun⟩

end Copying

theorem KeptAside.uvmcopyLoop (pages : Pages kend stock) (elsewhere : KeptAside stock ram old)
    (remaining i : Nat) (copying : Copying stock ram extra root old new i mem)
    (inside : i + remaining ≤ TRAPFRAME) :
    Realizes PhysicalMemory.freelist (CopyEnds stock ram extra root old (i + remaining))
      (PageTable.uvmcopyLoop old remaining i new)
      (MemoryM.uvmcopyLoop kend (UInt64.ofNat (old.root * PGSIZE))
        (UInt64.ofNat (root * PGSIZE)) remaining i) mem := by
  induction remaining generalizing i new mem with
  | zero => exact .pure ⟨rfl, ⟨copying.place, copying.owns⟩, fun _ => copying.copied⟩
  | succ remaining induction =>
    have below : i < TRAPFRAME := by omega
    have low := below.trans TRAPFRAME_lt
    obtain ⟨_, small, number⟩ := page_address low
    have represents := elsewhere.stays pages copying.owns.stocked
    have later {next : PageTable} {state : PhysicalMemory}
        (copying : Copying stock ram extra root old next (i + 1) state) := by
      have rest := induction (i + 1) copying (by omega)
      rwa [show i + 1 + remaining = i + (remaining + 1) by omega] at rest
    have walks : MemoryM.walk (UInt64.ofNat (old.root * PGSIZE))
        (UInt64.ofNat (i * PGSIZE)) false mem = .ok (old.slot i, mem) := by
      have found := represents.walk_false small
      rwa [number] at found
    rw [PageTable.uvmcopyLoop, MemoryM.uvmcopyLoop,
      PageTable.walk_false elsewhere.represents.wellFormed low]
    change Realizes _ _ (match (if (old.lower (i / 512)).isSome then old.leaf i else none) with
      | none => _
      | some leaf => _) _ mem
    rw [PageTable.leaf_of_walk elsewhere.represents.wellFormed]
    refine .silent walks rfl ?_
    cases present : old.leaf i with
    | none =>
      have skipped := later (copying.skip below present)
      cases slot : old.slot i with
      | none => exact skipped
      | some pte =>
        refine .silent rfl rfl ?_
        simp only [represents.load_slot slot, present, leafEntry_none_invalid, if_true]
        exact skipped
    | some leaf =>
      obtain ⟨pte, slot⟩ := represents.slot_of_leaf (show old.leaf i ≠ none by simp [present])
      obtain ⟨pa, flags⟩ := pte2pa_leafEntry represents present
      have value := frame_address (represents.leaves present).1
      rw [slot]
      refine .silent rfl rfl ?_
      simp only [represents.load_slot slot, present,
        represents.leafEntry_valid present, if_false, pa, flags, value]
      refine .acquire ?_ ?_
      · intro free
        exact ⟨none, mem, MemoryM.kalloc_nil free, free,
          Copying.undo pages (Nat.le_of_lt below) copying.owns copying.place _⟩
      · intro frame rest free
        refine ⟨some frame, mem.taken frame rest, MemoryM.kalloc_cons free, rfl, .silent rfl rfl ?_⟩
        have owned := copying.filled pages free fun index =>
          (mem.taken frame rest).ram (leaf.frame * PGSIZE + index)
        have member := copying.owns.stocked.mem_free (show frame ∈ mem.freelist by simp [free])
        rw [← copying.place]
        refine (owned.represents.mappages low (pages.small member)
          (represents.leaves present).2.1).seq ?_
        rw [copying.place]
        rintro ⟨mapped, after⟩ value result maps
        cases mapped with
        | false =>
          have unmapped := copying.bare i le_rfl below
          have kept := owned.map_user below unmapped maps
          cases maps.value_eq
          refine .release (MemoryM.kfree_eq pages member) rfl ?_
          exact Copying.undo pages (Nat.le_of_lt below)
            (kept.kfree pages) (maps.root.trans copying.place) _
        | true =>
          have copied := copying.mapped pages below elsewhere present free maps
          cases maps.value_eq
          exact later copied

/-- `uvmcopy` copies every page below the size into a table without user pages,
or leaves it without user pages. -/
theorem KeptAside.uvmcopy_returns (pages : Pages kend stock) (elsewhere : KeptAside stock ram old)
    (limit : npages sz ≤ TRAPFRAME) (owns : Owns stock ram extra new mem)
    (shape : UserTable trampoline trapframe 0 new) :
    ∃ value after result, MemoryM.uvmcopy kend (UInt64.ofNat (old.root * PGSIZE))
          (UInt64.ofNat (new.root * PGSIZE)) sz mem = .ok (value, result) ∧
        after.root = new.root ∧ Owns stock ram extra after result ∧
        (value = -1 ∧ UserTable trampoline trapframe 0 after ∨
          value = 0 ∧ UserTable trampoline trapframe (npages sz) after ∧
            PagesCopied ram old after result (npages sz)) := by
  have bare (page : Nat) (low : page < TRAPFRAME) : new.leaf page = none :=
    shape.bare page (Nat.zero_le page) low
  have total : 0 + rounds 0 sz = npages sz := by
    rw [rounds]
    omega
  have copying : Copying stock ram extra new.root old new 0 mem :=
    ⟨owns, rfl, fun _ none => absurd none (Nat.not_lt_zero _), fun page _ low => bare page low⟩
  have copies := elsewhere.uvmcopyLoop pages (rounds 0 sz) 0 copying (by rwa [total])
  obtain ⟨⟨copied, after⟩, rest, value, result, returns, ends, post, _⟩ :=
    copies.execute (PageTable.uvmcopyLoop_accounts
      elsewhere.represents.wellFormed bare (rounds 0 sz) 0 new shape.wellFormed
      (fun _ _ => rfl) (by rwa [total])) (le_refl _)
  obtain ⟨value_eq, ⟨place, owned⟩, exact_copy⟩ := ends
  obtain ⟨_, wellFormed, leaves⟩ := post
  rw [total] at leaves exact_copy
  refine ⟨value, after, result, returns, place, owned, ?_⟩
  cases copied with
  | false => exact .inl ⟨value_eq, shape.of_leaf_eq wellFormed leaves⟩
  | true =>
    refine .inr ⟨value_eq, ?_, exact_copy rfl⟩
    refine shape.change wellFormed limit ?_ ?_
    · intro page high
      exact leaves page (limit.trans high)
    · intro page low mapped
      by_contra above
      rw [leaves page (not_lt.mp above), bare page low] at mapped
      exact mapped rfl

end Xv6KernelEvent
