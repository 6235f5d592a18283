import Xv6KernelEvent.Memory.Exec
import Xv6KernelEvent.Memory.Isolation

/-!
# The image of a new program

How `kexec` (`kernel/exec.c`) builds user memory out of the bytes of a file and
the argument strings, as actions on physical memory.  The numbers in the file
are whatever its bytes say.
-/

namespace Xv6KernelEvent.Exec

open Custody

/-- `readi` to kernel memory from a file with these bytes. -/
def readi (content : List UInt8) (off n : Nat) : List UInt8 :=
  if off > content.length ∨ (off + n) % 2 ^ 32 < off then []
  else
    let n := if (off + n) % 2 ^ 32 > content.length then content.length - off else n
    (content.drop off).take n

theorem length_readi_le (content : List UInt8) (off n : Nat) :
    (readi content off n).length ≤ n := by
  have small := Nat.mod_le (off + n) (2 ^ 32)
  rw [readi]
  split
  · exact Nat.zero_le n
  · simp only [List.length_take, List.length_drop]
    split <;> omega

/-- The little-endian number in `width` bytes at `offset`. -/
def number (bytes : List UInt8) (offset : Nat) : (width : Nat) → Nat
  | 0 => 0
  | width + 1 => (bytes.getD offset 0).toNat + 256 * number bytes (offset + 1) width

def ELF_MAGIC : Nat := 0x464C457F

def ELF_PROG_LOAD : Nat := 1

/-- The fields of `struct elfhdr` that `kexec` uses. -/
structure Elfhdr where
  magic : Nat
  entry : UInt64
  phoff : UInt64
  phnum : Nat

def Elfhdr.size : Nat := 64

def Elfhdr.ofBytes (bytes : List UInt8) : Elfhdr :=
  { magic := number bytes 0 4
    entry := UInt64.ofNat (number bytes 24 8)
    phoff := UInt64.ofNat (number bytes 32 8)
    phnum := number bytes 56 2 }

/-- The fields of `struct proghdr` that `kexec` uses. -/
structure Proghdr where
  type : Nat
  flags : UInt32
  off : UInt64
  vaddr : UInt64
  filesz : UInt64
  memsz : UInt64

def Proghdr.size : Nat := 56

def Proghdr.ofBytes (bytes : List UInt8) : Proghdr :=
  { type := number bytes 0 4
    flags := UInt32.ofNat (number bytes 4 4)
    off := UInt64.ofNat (number bytes 8 8)
    vaddr := UInt64.ofNat (number bytes 16 8)
    filesz := UInt64.ofNat (number bytes 32 8)
    memsz := UInt64.ofNat (number bytes 40 8) }

/-- Bytes stored in kernel memory. -/
def fill (pa : Nat) (bytes : List UInt8) : MemoryM Unit :=
  fun mem => .ok ((), { mem with
    ram := mem.ram.memmove pa (fun index => bytes.getD index 0) bytes.length })

/-- The loop of `loadseg`.  Its counter has 32 bits and moves by pages, so that
a loop of more than `2 ^ 20` rounds never ends. -/
def loadsegLoop (content : List UInt8) (pagetable va : UInt64)
    (offset sz : Nat) : (fuel : Nat) → (i : Nat) → MemoryM Int
  | 0, _ => throw "loadseg: no end"
  | fuel + 1, i =>
    if i < sz then do
      let pa ← MemoryM.walkaddr pagetable (va + UInt64.ofNat i)
      if pa = 0 then throw "loadseg: address should exist"
      else do
        let n := if sz - i < PGSIZE then sz - i else PGSIZE
        let bytes := readi content ((offset + i) % 2 ^ 32) n
        fill pa.toNat bytes
        if bytes.length ≠ n then pure (-1)
        else loadsegLoop content pagetable va offset sz fuel ((i + PGSIZE) % 2 ^ 32)
    else pure 0

def loadseg (content : List UInt8) (pagetable va : UInt64) (offset sz : Nat) : MemoryM Int :=
  loadsegLoop content pagetable va offset sz (2 ^ 20 + 1) 0

/-- The loop over the program headers, with the size of the program so far.  It
says whether the whole program has been loaded. -/
def loadProgram (kend : Nat) (content : List UInt8) (pagetable : UInt64) :
    (remaining : Nat) → (off sz : Nat) → MemoryM (Bool × Nat)
  | 0, _, sz => pure (true, sz)
  | remaining + 1, off, sz =>
    let bytes := readi content off Proghdr.size
    if bytes.length ≠ Proghdr.size then pure (false, sz)
    else
      let ph := Proghdr.ofBytes bytes
      let next := (off + Proghdr.size) % 2 ^ 32
      if ph.type ≠ ELF_PROG_LOAD then loadProgram kend content pagetable remaining next sz
      else if ph.memsz < ph.filesz then pure (false, sz)
      else if ph.vaddr + ph.memsz < ph.vaddr then pure (false, sz)
      else if ph.vaddr.toNat % PGSIZE ≠ 0 then pure (false, sz)
      else do
        let sz1 ← MemoryM.uvmalloc kend pagetable sz
          (ph.vaddr + ph.memsz).toNat (flags2perm ph.flags)
        if sz1 = 0 then pure (false, sz)
        else do
          let loaded ← loadseg content pagetable ph.vaddr
            (ph.off.toNat % 2 ^ 32) (ph.filesz.toNat % 2 ^ 32)
          if loaded < 0 then pure (false, sz1)
          else loadProgram kend content pagetable remaining next sz1

/-- `sp -= len; sp -= sp % 16`, on 64 bits. -/
def lower (sp len : Nat) : Nat :=
  let sp := (sp + 2 ^ 64 - len) % 2 ^ 64
  sp - sp % 16

/-- `copyout` of a list of bytes to a page table that need not be that of the
process. -/
def copyout (kend : Nat) (p : CurrentProcess) (pagetable : UInt64) (sp : Nat)
    (bytes : List UInt8) : MemoryM Int :=
  fun mem => mem.copyout kend p pagetable (UInt64.ofNat sp)
    (fun index => bytes.getD index 0) (UInt64.ofNat bytes.length)

/-- The loop that copies the argument strings, with the addresses of those that
have been copied. -/
def pushStrings (kend : Nat) (p : CurrentProcess) (pagetable : UInt64) (stackbase : Nat) :
    (argv : List (List UInt8)) → (sp : Nat) → (ustack : List Nat) →
      MemoryM (Option (Nat × List Nat))
  | [], sp, ustack => pure (some (sp, ustack))
  | arg :: argv, sp, ustack =>
    if ustack.length ≥ MAXARG then pure none
    else
      let sp := lower sp (arg.length + 1)
      if sp < stackbase then pure none
      else do
        let copied ← copyout kend p pagetable sp (arg ++ [0])
        if copied < 0 then pure none
        else pushStrings kend p pagetable stackbase argv sp (ustack ++ [sp])

/-- The eight bytes of a 64-bit word. -/
def wordBytes (word : Nat) : List UInt8 :=
  (List.range 8).map fun index => UInt8.ofNat (word / 256 ^ index)

/-- The stack pointer and `argc`, once everything is on the stack. -/
def pushArguments (kend : Nat) (p : CurrentProcess) (pagetable : UInt64)
    (sz : Nat) (argv : List (List UInt8)) : MemoryM (Option (Nat × Nat)) := do
  let stackbase := sz - USERSTACK * PGSIZE
  match ← pushStrings kend p pagetable stackbase argv sz [] with
  | none => pure none
  | some (sp, ustack) => do
    let bytes := (ustack ++ [0]).flatMap wordBytes
    let sp := lower sp bytes.length
    if sp < stackbase then pure none
    else do
      let copied ← copyout kend p pagetable sp bytes
      if copied < 0 then pure none else pure (some (sp, ustack.length))

section Image

/-- What `kexec` has built so far. -/
structure Image (stock : Multiset Nat) (ram : Ram) (trampoline trapframe : Nat)
    (table : PageTable) (sz : Nat) (mem : PhysicalMemory) : Prop where
  owns : Owns stock ram 0 table mem
  loaded : Loaded trampoline trapframe table sz

namespace Image

section

variable (pages : Pages kend stock)

include pages

theorem space (image : Image stock ram trampoline trapframe table sz mem) :
    AddressSpace kend trampoline trapframe
      { pagetable := UInt64.ofNat (table.root * PGSIZE), sz := sz } mem table :=
  image.owns.addressSpace pages image.loaded.shape

/-- A user page is written. -/
theorem write (owns : Owns stock ram 0 table mem) (member : frame ∈ table.leafFrames TRAPFRAME)
    (same : ∀ address, address / PGSIZE ≠ frame → bytes address = mem.ram address) :
    Owns stock ram 0 table { mem with ram := bytes } := by
  have held : frame ∈ (0 : Multiset Nat) + table.space := by
    rw [zero_add]
    exact Multiset.mem_add.mpr (.inr member)
  refine owns.move pages (owns.stocked.write (owns.stocked.mem_held held) same) ?_
  intro address node
  apply same
  rintro rfl
  have distinct := (Multiset.nodup_add.mp (Multiset.nodup_add.mp (owns.apart pages)).2.1).1
  exact Multiset.disjoint_left.mp (Multiset.nodup_add.mp distinct).2.2 node member

section

variable (image : Image stock ram trampoline trapframe table sz mem)

include image

theorem uvmalloc (newsz : Nat) (flags : (PTE_R ||| PTE_U ||| xperm).toNat < 1024)
    (user : (PTE_R ||| PTE_U ||| xperm ||| PTE_V) &&& PTE_U ≠ 0) :
    ∃ sz1 after result, MemoryM.uvmalloc kend (UInt64.ofNat (table.root * PGSIZE)) sz newsz xperm
          mem = .ok (sz1, result) ∧ after.root = table.root ∧
        Owns stock ram 0 after result ∧
        (sz1 = max sz newsz ∧ sz1 ≤ TRAPFRAME * PGSIZE ∧ Loaded trampoline trapframe after sz1 ∧
            PageTable.Extends table (npages sz) (npages sz1)
              (PTE_R ||| PTE_U ||| xperm ||| PTE_V) after ∨
          sz1 = 0 ∧ Loaded trampoline trapframe after sz) := by
  have shape := image.loaded.shape
  have within : table.space + (mem.freelist : Multiset Nat) ≤ stock := by
    rw [← image.owns.stocked.conserved, zero_add]
  obtain ⟨⟨sz1, after⟩, _, _, result, allocates, ⟨rfl, root, owns⟩,
    ⟨_, ends⟩, _⟩ := (image.owns.uvmalloc pages flags rfl (npages_le_iff.mp shape.limit) (by
        rw [shape.trapframe]
        exact nofun)).execute (image.loaded.uvmalloc pages.card_le newsz user)
      within
  exact ⟨_, after, result, allocates, root, owns, ends⟩

/-- A program fits into memory. -/
theorem npages_le : npages sz ≤ PHYSTOP / PGSIZE := by
  have mapped : npages sz ≤ (table.leafFrames TRAPFRAME).card := by
    apply le_card_contents image.loaded.shape.limit
    intro page below
    rw [Ne, Option.map_eq_none_iff]
    exact image.loaded.full page below
  have held : table.leafFrames TRAPFRAME ≤ stock := by
    rw [← image.owns.stocked.conserved, zero_add, PageTable.space_add]
    exact Multiset.le_add_right _ _
  exact mapped.trans ((Multiset.card_le_card held).trans pages.card_le_memory)

/-- The page of a segment that `loadseg` asks for exists. -/
theorem walkaddr (below : page < npages sz) :
    ∃ frame ∈ table.leafFrames TRAPFRAME, MemoryM.walkaddr (UInt64.ofNat (table.root * PGSIZE))
          (UInt64.ofNat (page * PGSIZE)) mem =
        .ok (UInt64.ofNat (frame * PGSIZE), mem) ∧
      UInt64.ofNat (frame * PGSIZE) ≠ 0 ∧
      (UInt64.ofNat (frame * PGSIZE)).toNat = frame * PGSIZE := by
  have limit := image.loaded.shape.limit
  obtain ⟨leaf, mapped, user⟩ := image.loaded.filled page below
  have member : leaf.frame ∈ table.leafFrames TRAPFRAME :=
    mem_contents.mpr ⟨page, below.trans_le limit, by rw [mapped]; rfl⟩
  have listed : leaf.frame ∈ stock := by
    refine image.owns.stocked.mem_held ?_
    rw [zero_add]
    exact Multiset.mem_add.mpr (.inr member)
  have finds := (image.space pages).walkaddr ((below.trans_le limit).trans TRAPFRAME_lt)
  simp only [mapped, if_neg user] at finds
  refine ⟨leaf.frame, member, ?_, pages.nonzero listed, pages.address listed⟩
  rw [MemoryM.walkaddr, finds]

end

/-- A page of the segment is read from the file. -/
theorem fill (owns : Owns stock ram 0 table mem) (member : frame ∈ table.leafFrames TRAPFRAME)
    (short : bytes.length ≤ PGSIZE) :
    ∃ result, Exec.fill (frame * PGSIZE) bytes mem = .ok ((), result) ∧
      Owns stock ram 0 table result := by
  refine ⟨_, rfl, write pages owns member ?_⟩
  intro address apart
  apply if_neg
  simp only [PGSIZE] at apart short ⊢
  omega

theorem loadsegLoop_returns (image : Image stock ram trampoline trapframe table sz mem)
    (content : List UInt8) (aligned : va.toNat % PGSIZE = 0) (offset : Nat)
    (inside : va.toNat / PGSIZE + npages length ≤ npages sz) (fuel round : Nat)
    (reached : round ≤ npages length) (enough : npages length < round + fuel) :
    ∃ value result, loadsegLoop content (UInt64.ofNat (table.root * PGSIZE)) va offset length
          fuel (round * PGSIZE) mem = .ok (value, result) ∧
        Owns stock ram 0 table result := by
  have memory : PHYSTOP / PGSIZE = 557056 := by decide
  have few : npages length ≤ 557056 := by
    rw [← memory]
    exact ((Nat.le_add_left _ _).trans inside).trans (image.npages_le pages)
  induction fuel generalizing round mem with
  | zero => omega
  | succ fuel induction =>
    rw [loadsegLoop]
    split
    · rename_i more
      have below : round < npages length := by
        simp only [npages, PGSIZE] at more ⊢
        omega
      have place : va + UInt64.ofNat (round * PGSIZE) =
          UInt64.ofNat ((va.toNat / PGSIZE + round) * PGSIZE) := by
        rw [← UInt64.toNat_inj, UInt64.toNat_add, UInt64.toNat_ofNat', UInt64.toNat_ofNat']
        simp only [PGSIZE] at aligned ⊢
        omega
      obtain ⟨frame, member, finds, nonzero, value⟩ :=
        image.walkaddr pages (show va.toNat / PGSIZE + round < npages sz by omega)
      rw [place, Action.bind_ok finds, if_neg nonzero, value]
      obtain ⟨n, n_eq⟩ : ∃ n, (if length - round * PGSIZE < PGSIZE then
        length - round * PGSIZE else PGSIZE) = n := ⟨_, rfl⟩
      rw [n_eq]
      have short : (readi content ((offset + round * PGSIZE) % 2 ^ 32) n).length ≤ PGSIZE := by
        refine (length_readi_le ..).trans ?_
        rw [← n_eq]
        split <;> omega
      obtain ⟨result, fills, owns⟩ := fill pages image.owns member short
      rw [Action.bind_ok fills]
      split
      · exact ⟨-1, result, rfl, owns⟩
      · have next : (round * PGSIZE + PGSIZE) % 2 ^ 32 = (round + 1) * PGSIZE := by
          simp only [PGSIZE]
          omega
        rw [next]
        exact induction ⟨owns, image.loaded⟩ (round + 1) below (by omega)
    · exact ⟨0, mem, rfl, image.owns⟩

theorem loadseg_returns (image : Image stock ram trampoline trapframe table sz mem)
    (content : List UInt8) (offset : Nat) (fits : ¬memsz < filesz) (wraps : ¬vaddr + memsz < vaddr)
    (aligned : vaddr.toNat % PGSIZE = 0) (covers : (vaddr + memsz).toNat ≤ sz) :
    ∃ value result, loadseg content (UInt64.ofNat (table.root * PGSIZE)) vaddr offset
          (filesz.toNat % 2 ^ 32) mem = .ok (value, result) ∧
        Owns stock ram 0 table result := by
  have inside := segment_inside fits wraps aligned covers
  rw [rounds, Nat.sub_zero, Nat.add_zero] at inside
  have few : npages (filesz.toNat % 2 ^ 32) < 0 + (2 ^ 20 + 1) := by
    simp only [npages, PGSIZE]
    omega
  have returns := image.loadsegLoop_returns pages content aligned offset inside
    (2 ^ 20 + 1) 0 (Nat.zero_le _) few
  rwa [Nat.zero_mul] at returns

end

theorem flags2perm_lt (flags : UInt32) : (PTE_R ||| PTE_U ||| flags2perm flags).toNat < 1024 := by
  rw [flags2perm]
  split <;> split <;> decide

theorem loadProgram_returns (pages : Pages kend stock) (content : List UInt8) (remaining off : Nat)
    (image : Image stock ram trampoline trapframe table sz mem) :
    ∃ loaded sz1 after result,
      loadProgram kend content (UInt64.ofNat (table.root * PGSIZE)) remaining
          off sz mem = .ok ((loaded, sz1), result) ∧
        after.root = table.root ∧
        Image stock ram trampoline trapframe after sz1 result := by
  induction remaining generalizing off sz table mem with
  | zero => exact ⟨true, sz, table, mem, rfl, rfl, image⟩
  | succ remaining induction =>
    rw [loadProgram]
    simp only
    generalize readi content off Proghdr.size = bytes
    split
    · exact ⟨false, sz, table, mem, rfl, rfl, image⟩
    generalize Proghdr.ofBytes bytes = ph
    split
    · exact induction _ image
    split
    · exact ⟨false, sz, table, mem, rfl, rfl, image⟩
    rename_i fits
    split
    · exact ⟨false, sz, table, mem, rfl, rfl, image⟩
    rename_i wraps
    split
    · exact ⟨false, sz, table, mem, rfl, rfl, image⟩
    rename_i aligned
    rw [not_ne_iff] at aligned
    obtain ⟨sz1, after, middle, allocates, root, owns, ends⟩ :=
      image.uvmalloc pages (ph.vaddr + ph.memsz).toNat
        (flags2perm_lt ph.flags) (flags2perm_user ph.flags)
    rw [Action.bind_ok allocates]
    rcases ends with ⟨sz1_eq, _, more, _⟩ | ⟨rfl, same⟩
    · split
      · rename_i empty
        obtain rfl : sz = sz1 := by omega
        exact ⟨false, sz, after, middle, rfl, root, owns, more⟩
      · obtain ⟨value, last, loads, kept⟩ :=
          loadseg_returns pages ⟨owns, more⟩ content
            (ph.off.toNat % 2 ^ 32) fits wraps aligned (by omega)
        rw [← root, Action.bind_ok loads]
        split
        · exact ⟨false, sz1, after, last, rfl, rfl, kept, more⟩
        · exact induction _ ⟨kept, more⟩
    · rw [if_pos rfl]
      exact ⟨false, sz, after, middle, rfl, root, owns, same⟩

theorem uvmclear (owns : Owns stock ram 0 table mem)
    (below : page < VPAGES) (mapped : table.leaf page = some leaf) :
    ∃ after result, MemoryM.uvmclear (UInt64.ofNat (table.root * PGSIZE)) (page * PGSIZE)
          mem = .ok ((), result) ∧ after.root = table.root ∧
        after.leaf = Function.update table.leaf page
          (some { leaf with flags := leaf.flags &&& ~~~PTE_U }) ∧
        Owns stock ram 0 after result := by
  obtain ⟨_, low, number⟩ := page_address below
  obtain ⟨address, slot⟩ := owns.represents.slot_of_leaf
    (show table.leaf page ≠ none by simp [mapped])
  obtain ⟨small, flags, odd⟩ := owns.represents.leaves mapped
  have finds : MemoryM.walk (UInt64.ofNat (table.root * PGSIZE))
      (UInt64.ofNat (page * PGSIZE)) false mem = .ok (some address, mem) := by
    rw [MemoryM.walk, owns.represents.walk_false low, number, slot]
  have entry : mem.ram.load address &&& ~~~PTE_U =
      leafEntry (some { leaf with flags := leaf.flags &&& ~~~PTE_U }) := by
    rw [owns.represents.load_slot slot, mapped]
    exact entry_and_not_user _ _
  have cleared := owns.represents.setLeaf slot
    (some { leaf with flags := leaf.flags &&& ~~~PTE_U }) (by
      rintro - ⟨⟩
      refine ⟨small, ?_, and_not_user_odd odd⟩
      rw [UInt64.toNat_and]
      exact Nat.and_le_left.trans_lt flags)
  have stocked := owns.store slot (leafEntry (some { leaf with flags := leaf.flags &&& ~~~PTE_U }))
  rw [← PageTable.space_setFlags mapped (leaf.flags &&& ~~~PTE_U)] at stocked
  refine ⟨table.setLeaf page (some { leaf with flags := leaf.flags &&& ~~~PTE_U }), _, ?_, rfl, rfl,
    cleared, stocked⟩
  rw [MemoryM.uvmclear, Action.bind_ok finds]
  simp only
  rw [Action.bind_ok rfl, entry]
  rfl

end Image

/-- What `kexec` has built once the stack is there. -/
structure WithStack (stock : Multiset Nat) (ram : Ram) (trampoline trapframe : Nat)
    (table : PageTable) (sz : Nat) (mem : PhysicalMemory) : Prop where
  owns : Owns stock ram 0 table mem
  stacked : Stacked trampoline trapframe table sz

/-- `kexec` makes the stack, or cannot. -/
theorem Image.stack (pages : Pages kend stock)
    (image : Image stock ram trampoline trapframe table sz mem) :
    ∃ sz1 after result, MemoryM.uvmalloc kend (UInt64.ofNat (table.root * PGSIZE)) (pgroundup sz)
          (pgroundup sz + (USERSTACK + 1) * PGSIZE) PTE_W mem =
        .ok (sz1, result) ∧ after.root = table.root ∧
      (sz1 = 0 ∧ Image stock ram trampoline trapframe after (pgroundup sz) result ∨
        sz1 ≠ 0 ∧ ∃ last final, MemoryM.uvmclear (UInt64.ofNat (table.root * PGSIZE))
              (sz1 - (USERSTACK + 1) * PGSIZE) result = .ok ((), final) ∧
            last.root = table.root ∧
            WithStack stock ram trampoline trapframe last sz1 final) := by
  have small := npages_le_iff.mp image.loaded.shape.limit
  have same : npages (npages sz * PGSIZE) = npages sz := npages_mul _
  have rounded : Image stock ram trampoline trapframe table (npages sz * PGSIZE) mem :=
    ⟨image.owns, by rw [same]; exact image.loaded.shape, by rw [same]; exact image.loaded.filled⟩
  rw [pgroundup_eq small]
  obtain ⟨sz1, after, result, allocates, root, owns, ends⟩ :=
    rounded.uvmalloc pages (npages sz * PGSIZE + (USERSTACK + 1) * PGSIZE)
      (show (PTE_R ||| PTE_U ||| PTE_W).toNat < 1024 by decide) (by decide)
  refine ⟨sz1, after, result, allocates, root, ?_⟩
  rcases ends with ⟨sz1_eq, fits, grown, extension⟩ | ⟨zero, kept⟩
  · right
    have size : sz1 = (npages sz + 2) * PGSIZE := by
      rw [sz1_eq]
      simp only [USERSTACK, PGSIZE]
      omega
    have guard : sz1 - (USERSTACK + 1) * PGSIZE = npages sz * PGSIZE := by
      rw [size]
      simp only [USERSTACK, PGSIZE]
      omega
    have total : npages sz1 = npages sz + 2 := by rw [size, npages_mul]
    have low : npages sz < VPAGES := by
      have top := npages_le_iff.mpr fits
      have := TRAPFRAME_lt
      omega
    rw [same, total] at extension
    obtain ⟨frame, mapped⟩ := extension.inside (npages sz) le_rfl (by omega)
    obtain ⟨last, final, clears, place, leaf, cleared⟩ := uvmclear owns low mapped
    rw [← root, guard]
    refine ⟨?_, last, final, clears, place, cleared, grown.stacked size
      extension cleared.represents.wellFormed leaf⟩
    rw [size]
    exact Nat.ne_of_gt (Nat.mul_pos (Nat.succ_pos _) PGSIZE_pos)
  · exact .inl ⟨zero, owns, kept⟩

/-- Copying into one page that is there.  Which process runs does not matter. -/
theorem copyoutLoop_page (space : AddressSpace kend trampoline trapframe q mem table)
    (mapped : table.leaf page = some leaf) (user : leaf.flags &&& PTE_U ≠ 0)
    (write : leaf.flags &&& PTE_W ≠ 0) (low : page * PGSIZE ≤ dstva)
    (fits : dstva + len ≤ (page + 1) * PGSIZE) (positive : 0 < len)
    (p : CurrentProcess) (src : Nat → UInt8) :
    mem.copyoutLoop kend p q.pagetable len dstva src len =
      .ok (0, { mem with
        ram := mem.ram.memmove (leaf.frame * PGSIZE + (dstva - page * PGSIZE)) src len }) := by
  obtain ⟨rest, rfl⟩ : ∃ rest, len = rest + 1 := ⟨len - 1, by omega⟩
  have below := space.page_lt mapped
  have last : page * PGSIZE < MAXVA := by
    have pages : VPAGES * PGSIZE = MAXVA := by decide
    rw [← pages]
    exact Nat.mul_lt_mul_of_pos_right below PGSIZE_pos
  have start : pgrounddown dstva = page * PGSIZE := by
    rw [pgrounddown]
    congr 1
    rw [Nat.succ_mul] at fits
    simp only [PGSIZE] at low fits ⊢
    omega
  have member : leaf.frame ∈ table.space + (mem.freelist : Multiset Nat) :=
    Multiset.mem_add.mpr (.inl (Multiset.mem_add.mpr (.inr (space.user_frame mapped user).2.1)))
  have nonzero := space.pages.nonzero member
  have finds : mem.resolve kend p q.pagetable (UInt64.ofNat (page * PGSIZE)) =
      .ok (UInt64.ofNat (leaf.frame * PGSIZE), mem) := by
    rw [PhysicalMemory.resolve, space.walkaddr below]
    simp only [mapped, if_neg user, if_neg nonzero]
  obtain ⟨pte, walks, entry⟩ := space.walk_entry below mapped
  have all : min (PGSIZE - (dstva - page * PGSIZE)) (rest + 1) = rest + 1 := by
    rw [Nat.succ_mul] at fits
    omega
  rw [PhysicalMemory.copyoutLoop, if_neg (Nat.succ_ne_zero rest)]
  simp only [start, if_neg (Nat.not_le.mpr last), finds, if_neg nonzero, walks,
    entry, if_neg write, all, Nat.sub_self,
    space.pages.address member]
  cases rest <;> rfl

theorem WithStack.copyout (pages : Pages kend stock)
    (ready : WithStack stock ram trampoline trapframe table sz mem) (p : CurrentProcess)
    (above : sz ≤ sp + USERSTACK * PGSIZE) (inside : sp + bytes.length ≤ sz)
    (positive : 0 < bytes.length) :
    ∃ result, Exec.copyout kend p (UInt64.ofNat (table.root * PGSIZE)) sp bytes mem =
          .ok (0, result) ∧
        WithStack stock ram trampoline trapframe table sz result := by
  have stacked := ready.stacked
  have aligned := stacked.aligned
  have guarded := stacked.guarded
  have limit := npages_le_iff.mp stacked.shape.limit
  have top : TRAPFRAME * PGSIZE < 2 ^ 64 := by decide
  obtain ⟨leaf, mapped, user, write⟩ := stacked.stack
  have space : AddressSpace kend trampoline trapframe
      { pagetable := UInt64.ofNat (table.root * PGSIZE), sz := sz } mem table :=
    ready.owns.addressSpace pages stacked.shape
  have base : (sz / PGSIZE - 1) * PGSIZE + PGSIZE = sz := by
    simp only [PGSIZE] at aligned guarded ⊢
    omega
  have low : (sz / PGSIZE - 1) * PGSIZE ≤ sp := by
    simp only [USERSTACK] at above
    omega
  have fits : sp + bytes.length ≤ (sz / PGSIZE - 1 + 1) * PGSIZE := by
    rw [Nat.succ_mul, base]
    exact inside
  have address : (UInt64.ofNat sp).toNat = sp := by
    rw [UInt64.toNat_ofNat']
    exact Nat.mod_eq_of_lt (by omega)
  have count : (UInt64.ofNat bytes.length).toNat = bytes.length := by
    rw [UInt64.toNat_ofNat']
    exact Nat.mod_eq_of_lt (by omega)
  have copies := copyoutLoop_page space mapped user write low fits positive p
    fun index => bytes.getD index 0
  have owns : Owns stock ram 0 table
      { mem with
        ram := mem.ram.memmove (leaf.frame * PGSIZE + (sp - (sz / PGSIZE - 1) * PGSIZE))
          (fun index => bytes.getD index 0) bytes.length } := by
    refine Image.write pages ready.owns (space.user_frame mapped user).2.1 ?_
    intro place apart
    apply if_neg
    rw [Nat.succ_mul] at fits
    simp only [PGSIZE] at apart fits low ⊢
    omega
  refine ⟨_, ?_, owns, stacked⟩
  rw [Exec.copyout, PhysicalMemory.copyout, address, count]
  exact copies

theorem lower_eq_push (small : sp < 2 ^ 64) (fits : len ≤ sp) : lower sp len = push sp len := by
  rw [lower, push, show (sp + 2 ^ 64 - len) % 2 ^ 64 = sp - len by omega]

theorem WithStack.pushStrings (pages : Pages kend stock) (p : CurrentProcess)
    (argv : List (List UInt8))
    (short : ∀ arg ∈ argv, arg.length < PGSIZE) (sp : Nat) (ustack : List Nat)
    (above : sz ≤ sp + USERSTACK * PGSIZE) (inside : sp ≤ sz)
    (ready : WithStack stock ram trampoline trapframe table sz mem) :
    ∃ pushed result, Exec.pushStrings kend p (UInt64.ofNat (table.root * PGSIZE))
          (sz - USERSTACK * PGSIZE) argv sp ustack mem = .ok (pushed, result) ∧
        WithStack stock ram trampoline trapframe table sz result ∧
        ∀ sp1 addresses, pushed = some (sp1, addresses) → sz ≤ sp1 + USERSTACK * PGSIZE ∧ sp1 ≤ sz ∧
            addresses.length = ustack.length + argv.length := by
  have guarded := ready.stacked.guarded
  have limit := npages_le_iff.mp ready.stacked.shape.limit
  have top : TRAPFRAME * PGSIZE < 2 ^ 64 := by decide
  induction argv generalizing sp ustack mem with
  | nil =>
    refine ⟨some (sp, ustack), mem, rfl, ready, ?_⟩
    rintro _ _ ⟨⟩
    exact ⟨above, inside, rfl⟩
  | cons arg argv induction =>
    have size := short arg List.mem_cons_self
    rw [Exec.pushStrings]
    split
    · exact ⟨none, mem, rfl, ready, nofun⟩
    · have lowered : lower sp (arg.length + 1) = push sp (arg.length + 1) := by
        refine lower_eq_push (by omega) ?_
        simp only [USERSTACK, PGSIZE] at *
        omega
      simp only [lowered]
      split
      · exact ⟨none, mem, rfl, ready, nofun⟩
      · rename_i high
        have room : push sp (arg.length + 1) + (arg.length + 1) ≤ sp := by
          simp only [push, USERSTACK, PGSIZE] at *
          omega
        have base : sz ≤ push sp (arg.length + 1) + USERSTACK * PGSIZE := by omega
        obtain ⟨middle, copies, kept⟩ : ∃ result, Exec.copyout kend p
            (UInt64.ofNat (table.root * PGSIZE)) (push sp (arg.length + 1))
            (arg ++ [0]) mem = .ok (0, result) ∧ _ :=
          ready.copyout pages p base (by rw [List.length_append, List.length_singleton]; omega)
            (by simp)
        rw [Action.bind_ok copies, if_neg (by decide)]
        obtain ⟨pushed, result, rest, final, bounds⟩ := induction
          (fun other member => short other (List.mem_cons_of_mem _ member))
          (push sp (arg.length + 1)) (ustack ++ [push sp (arg.length + 1)])
          base (by omega) kept
        refine ⟨pushed, result, rest, final, ?_⟩
        intro sp1 addresses same
        obtain ⟨first, second, count⟩ := bounds sp1 addresses same
        refine ⟨first, second, ?_⟩
        rw [count, List.length_append, List.length_singleton, List.length_cons]
        omega

theorem length_wordBytes (words : List Nat) :
    (words.flatMap wordBytes).length = 8 * words.length := by
  induction words with
  | nil => rfl
  | cons word words induction =>
    rw [List.flatMap_cons, List.length_append, induction, List.length_cons,
      show (wordBytes word).length = 8 by simp [wordBytes]]
    omega

theorem WithStack.pushArguments (pages : Pages kend stock) (p : CurrentProcess)
    (short : ∀ arg ∈ argv, arg.length < PGSIZE) (few : argv.length < MAXARG)
    (ready : WithStack stock ram trampoline trapframe table sz mem) :
    ∃ pushed result, Exec.pushArguments kend p (UInt64.ofNat (table.root * PGSIZE)) sz argv
          mem = .ok (pushed, result) ∧
        WithStack stock ram trampoline trapframe table sz result := by
  have guarded := ready.stacked.guarded
  have limit := npages_le_iff.mp ready.stacked.shape.limit
  have top : TRAPFRAME * PGSIZE < 2 ^ 64 := by decide
  obtain ⟨pushed, middle, pushes, kept, bounds⟩ := ready.pushStrings pages p argv
    short sz [] (Nat.le_add_right _ _) le_rfl
  rw [Exec.pushArguments, Action.bind_ok pushes]
  cases pushed with
  | none => exact ⟨none, middle, rfl, kept⟩
  | some pair =>
    obtain ⟨sp, ustack⟩ := pair
    obtain ⟨above, inside, count⟩ := bounds sp ustack rfl
    have size : ((ustack ++ [0]).flatMap wordBytes).length = 8 * (argv.length + 1) := by
      rw [length_wordBytes, List.length_append, List.length_singleton, count, List.length_nil]
      omega
    have lowered : lower sp ((ustack ++ [0]).flatMap wordBytes).length =
        push sp (8 * (argv.length + 1)) := by
      rw [size]
      refine lower_eq_push (by omega) ?_
      simp only [USERSTACK, MAXARG, PGSIZE] at *
      omega
    simp only [lowered]
    split
    · exact ⟨none, middle, rfl, kept⟩
    · rename_i high
      have room : push sp (8 * (argv.length + 1)) + 8 * (argv.length + 1) ≤ sp := by
        simp only [push, USERSTACK, MAXARG, PGSIZE] at *
        omega
      obtain ⟨result, copies, final⟩ : ∃ result, Exec.copyout kend p
          (UInt64.ofNat (table.root * PGSIZE))
          (push sp (8 * (argv.length + 1)))
          ((ustack ++ [0]).flatMap wordBytes) middle = .ok (0, result) ∧ _ :=
        kept.copyout pages p (by omega) (by rw [size]; omega) (by rw [size]; omega)
      rw [Action.bind_ok copies, if_neg (by decide)]
      exact ⟨_, result, rfl, final⟩

end Image

end Xv6KernelEvent.Exec
