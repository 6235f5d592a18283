import Xv6KernelEvent.Memory.ExecImage
import Xv6KernelEvent.Memory.ForkOutcome

/-!
# `kexec`

`kexec` (`kernel/exec.c`) on the process that calls it, physical memory, and
what it takes from the file system: a reference to an inode, its lock, and a
transaction.  The path leads to a file with arbitrary bytes, or nowhere.
-/

namespace Xv6KernelEvent.Exec

open Custody Fork

/-- `inodeRef` and `inodeLock` are fields of the inode table; `outstanding` is
that of the log. -/
structure State where
  mem : PhysicalMemory
  p : Proc
  inodeRef : Nat → Nat
  inodeLock : Nat → Bool
  outstanding : Nat

abbrev ExecM := Action State

def onMemory {Value : Type} (action : MemoryM Value) : ExecM Value :=
  fun state =>
    match action state.mem with
    | .error reason => .error reason
    | .ok (value, mem) => .ok (value, { state with mem := mem })

def getProc : ExecM Proc := fun state => .ok (state.p, state)

def setProc (change : Proc → Proc) : ExecM Unit :=
  fun state => .ok ((), { state with p := change state.p })

def beginOp : ExecM Unit :=
  fun state => .ok ((), { state with outstanding := state.outstanding + 1 })

def endOp : ExecM Unit := fun state => .ok ((), { state with outstanding := state.outstanding - 1 })

/-- The reference that `namei` returns. -/
def iget (ip : Nat) : ExecM Unit :=
  fun state => .ok ((), { state with
    inodeRef := Function.update state.inodeRef ip (state.inodeRef ip + 1) })

/-- `ilock`.  It would sleep while another process holds the lock. -/
def ilock (ip : Nat) : ExecM Unit :=
  fun state =>
    if state.inodeRef ip < 1 then .error "ilock"
    else if state.inodeLock ip then .error "ilock sleeps"
    else .ok ((), { state with
      inodeLock := Function.update state.inodeLock ip true })

/-- `iunlock` and `iput`. -/
def iunlockput (ip : Nat) : ExecM Unit :=
  fun state =>
    if state.inodeLock ip = false ∨ state.inodeRef ip < 1 then .error "iunlock"
    else .ok ((), { state with
      inodeLock := Function.update state.inodeLock ip false
      inodeRef := Function.update state.inodeRef ip (state.inodeRef ip - 1) })

/-- `kexec` from the label `bad` on.  `ip` is gone once the program has been
loaded. -/
def bad (kend : Nat) (ip : Option Nat) (pagetable : UInt64) (sz : Nat) : ExecM Int := do
  onMemory (freePagetable kend pagetable sz)
  match ip with
  | none => pure (-1)
  | some ip => do
    iunlockput ip
    endOp
    pure (-1)

/-- The part of a path after its last slash. -/
def lastName : (s last : List UInt8) → List UInt8
  | [], last => last
  | char :: s, last => lastName s (if char = 47 then s else last)

/-- The end of `kexec`.  In the trapframe, `epc` is at offset 24, `sp` at 48 and
`a1` at 120. -/
def commit (kend : Nat) (path : List UInt8) (entry pagetable : UInt64)
    (sz sp argc : Nat) : ExecM Int := do
  let p ← getProc
  let trapframe := p.trapframe.toNat
  onMemory (MemoryM.store (trapframe + 120) (UInt64.ofNat sp))
  setProc fun p =>
    { p with
      name := safestrcpy p.name (fun index => (lastName path path).getD index 0) 16
      pagetable := pagetable
      sz := sz }
  onMemory (MemoryM.store (trapframe + 24) entry)
  onMemory (MemoryM.store (trapframe + 48) (UInt64.ofNat sp))
  onMemory (MemoryM.procFreepagetable kend p.pagetable p.sz)
  pure argc

/-- `kexec` once the program has been loaded. -/
def kexecStack (kend : Nat) (path : List UInt8) (argv : List (List UInt8))
    (entry pagetable : UInt64) (sz : Nat) : ExecM Int := do
  let p ← getProc
  let sz := pgroundup sz
  let sz1 ← onMemory (MemoryM.uvmalloc kend pagetable sz (sz + (USERSTACK + 1) * PGSIZE) PTE_W)
  if sz1 = 0 then bad kend none pagetable sz
  else do
    onMemory (MemoryM.uvmclear pagetable (sz1 - (USERSTACK + 1) * PGSIZE))
    match ← onMemory (pushArguments kend
      { pagetable := p.pagetable, sz := p.sz } pagetable sz1 argv) with
    | none => bad kend none pagetable sz1
    | some (sp, argc) => commit kend path entry pagetable sz1 sp argc

/-- `kexec` with the inode that `namei` has found. -/
def kexecOpened (kend trampoline : Nat) (path content : List UInt8) (ip : Nat)
    (argv : List (List UInt8)) : ExecM Int := do
  let header := readi content 0 Elfhdr.size
  let elf := Elfhdr.ofBytes header
  if header.length ≠ Elfhdr.size then bad kend (some ip) 0 0
  else if elf.magic ≠ ELF_MAGIC then bad kend (some ip) 0 0
  else do
    let p ← getProc
    let pagetable ← onMemory (MemoryM.procPagetable kend trampoline p.trapframe)
    if pagetable = 0 then bad kend (some ip) 0 0
    else do
      let (loaded, sz) ← onMemory (loadProgram kend content pagetable elf.phnum
        (elf.phoff.toNat % 2 ^ 32) 0)
      if loaded then do
        iunlockput ip
        endOp
        kexecStack kend path argv elf.entry pagetable sz
      else bad kend (some ip) pagetable sz

/-- `kexec`; `file` is the inode that the path leads to, with its bytes. -/
def kexec (kend trampoline : Nat) (path : List UInt8)
    (file : Option (Nat × List UInt8)) (argv : List (List UInt8)) :
    ExecM Int := do
  beginOp
  match file with
  | none => do
    endOp
    pure (-1)
  | some (ip, content) => do
    iget ip
    ilock ip
    kexecOpened kend trampoline path content ip argv

def State.process (state : State) : CurrentProcess :=
  { pagetable := state.p.pagetable
    sz := state.p.sz }

section Returns

variable {state : State} {mem : PhysicalMemory}

/-- A process that calls `exec`, with its trapframe in a page of its own. -/
structure State.Ready (state : State) (kend trampoline trapframe : Nat)
    (table : PageTable) : Prop where
  space : AddressSpace kend trampoline trapframe state.process state.mem table
  registers : state.p.trapframe = UInt64.ofNat (trapframe * PGSIZE)
  apart : trapframe ∉ table.space + (state.mem.freelist : Multiset Nat)

/-- The state while `kexec` has the inode. -/
def State.opened (state : State) (ip : Nat) (mem : PhysicalMemory) : State :=
  { state with
    mem := mem
    inodeRef := Function.update state.inodeRef ip (state.inodeRef ip + 1)
    inodeLock := Function.update state.inodeLock ip true
    outstanding := state.outstanding + 1 }

theorem onMemory_ok {Value : Type} {action : MemoryM Value} {value : Value}
    (acts : action state.mem = .ok (value, mem)) :
    onMemory action state = .ok (value, { state with mem := mem }) := by
  rw [onMemory, acts]

theorem opened_memory {Value : Type} {action : MemoryM Value} {value : Value}
    {after : PhysicalMemory} (acts : action mem = .ok (value, after)) :
    onMemory action (state.opened ip mem) = .ok (value, state.opened ip after) :=
  onMemory_ok acts

theorem kexec_opens (free : state.inodeLock ip = false) (kend trampoline : Nat)
    (path content : List UInt8) (argv : List (List UInt8)) :
    kexec kend trampoline path (some (ip, content)) argv state =
      kexecOpened kend trampoline path content ip argv (state.opened ip state.mem) := by
  have locks : ilock ip { state with
      outstanding := state.outstanding + 1
      inodeRef := Function.update state.inodeRef ip (state.inodeRef ip + 1) } =
        .ok ((), state.opened ip state.mem) := by
    rw [ilock, if_neg (by simp), if_neg (by simp [free])]
    rfl
  unfold kexec
  rw [Action.bind_ok rfl]
  simp only
  rw [Action.bind_ok rfl, Action.bind_ok locks]

/-- Everything that was taken from the file system is given back. -/
theorem opened_close (unlocked : state.inodeLock ip = false) {Value : Type} (next : ExecM Value) :
    (do
      iunlockput ip
      endOp
      next) (state.opened ip mem) = next { state with mem := mem } := by
  have gives : iunlockput ip (state.opened ip mem) = .ok ((),
      { state with mem := mem, outstanding := state.outstanding + 1 }) := by
    rw [iunlockput, if_neg]
    · simp only [State.opened, Function.update_idem, Function.update_self, Nat.add_sub_cancel]
      rw [Function.update_eq_self, ← unlocked, Function.update_eq_self]
    · simp [State.opened]
  rw [Action.bind_ok gives, Action.bind_ok rfl]
  rfl

/-- `kexec` gives up before it has a page table. -/
theorem bad_empty (unlocked : state.inodeLock ip = false) :
    bad kend (some ip) 0 0 (state.opened ip mem) = .ok (-1, { state with mem := mem }) := by
  rw [bad, Action.bind_ok (opened_memory rfl)]
  exact opened_close unlocked _

section Bad

/-- `kexec` gives up while it loads the program. -/
theorem bad_opened (pages : Pages kend stock) (owns : Owns stock ram 0 new mem)
    (shape : UserTable trampoline trapframe (npages sz) new)
    (unlocked : state.inodeLock ip = false) :
    ∃ last, bad kend (some ip) (UInt64.ofNat (new.root * PGSIZE)) sz
        (state.opened ip mem) = .ok (-1, { state with mem := last }) ∧
      Stocked stock ram 0 last := by
  obtain ⟨last, frees, stocked⟩ := freePagetable_ok pages owns shape
  refine ⟨last, ?_, stocked⟩
  rw [bad, Action.bind_ok (opened_memory frees)]
  exact opened_close unlocked _

/-- `kexec` gives up later. -/
theorem bad_closed (pages : Pages kend stock) (owns : Owns stock ram 0 new mem)
    (shape : UserTable trampoline trapframe (npages sz) new) (state : State) :
    ∃ last, bad kend none (UInt64.ofNat (new.root * PGSIZE)) sz
        { state with mem := mem } = .ok (-1, { state with mem := last }) ∧
      Stocked stock ram 0 last := by
  obtain ⟨last, frees, stocked⟩ := freePagetable_ok pages owns shape
  refine ⟨last, ?_, stocked⟩
  have gives : onMemory (freePagetable kend (UInt64.ofNat (new.root * PGSIZE))
      sz) { state with mem := mem } = .ok ((), { state with mem := last }) :=
    onMemory_ok frees
  rw [bad, Action.bind_ok gives]
  rfl

end Bad

/-- How `kexec` ends: memory is as it was but for the pages that were free, or
the process has a new address space.  The file system has its own back. -/
def Ends (kend trampoline trapframe : Nat) (state : State) (value : Int) (after : State) : Prop :=
  value = -1 ∧ (∃ mem, after = { state with mem := mem } ∧
        Stocked state.mem.freelist state.mem.ram 0 mem) ∨
    0 ≤ value ∧ (∃ new, after.Ready kend trampoline trapframe new) ∧
      after.inodeRef = state.inodeRef ∧ after.inodeLock = state.inodeLock ∧
      after.outstanding = state.outstanding

namespace State.Ready

/-- Memory once the trapframe has been written. -/
def entered (mem : PhysicalMemory) (trapframe : Nat) (entry : UInt64) (sp : Nat) : PhysicalMemory :=
  { mem with
    ram := ((mem.ram.store (trapframe * PGSIZE + 8 * 15) (UInt64.ofNat sp)).store
      (trapframe * PGSIZE + 8 * 3) entry).store (trapframe * PGSIZE + 8 * 6) (UInt64.ofNat sp) }

theorem entered_of_ne (mem : PhysicalMemory) (entry : UInt64) (sp : Nat)
    (apart : address / PGSIZE ≠ trapframe) :
    (entered mem trapframe entry sp).ram address = mem.ram address := by
  simp only [entered]
  rw [Ram.store_of_ne _ (by decide) _ apart,
    Ram.store_of_ne _ (by decide) _ apart, Ram.store_of_ne _ (by decide) _ apart]

section

variable (ready : state.Ready kend trampoline trapframe table)

include ready

/-- The old table is freed and the new one stays. -/
theorem replaced (owns : Owns state.mem.freelist state.mem.ram 0 new mem)
    (entry : UInt64) (sp : Nat) :
    ∃ result, MemoryM.procFreepagetable kend state.p.pagetable state.p.sz
        (entered mem trapframe entry sp) = .ok ((), result) ∧
      Represents result new ∧
      new.space + (result.freelist : Multiset Nat) = table.space + state.mem.freelist := by
  have elsewhere := ready.space.elsewhere
  have pages := ready.space.freePages
  have shared : new.space + (mem.freelist : Multiset Nat) =
      state.mem.freelist := by
    rw [← owns.stocked.conserved, zero_add]
  have fewer : table.space + (mem.freelist : Multiset Nat) ≤ table.space + state.mem.freelist := by
    rw [← shared]
    exact add_le_add_right (Multiset.le_add_left _ _) _
  have outside {frame : Nat} (member : frame ∈ table.space + (state.mem.freelist : Multiset Nat)) :
      frame ≠ trapframe := by
    rintro rfl
    exact ready.apart member
  have old : Represents (entered mem trapframe entry sp) table := by
    have stays := elsewhere.stays pages owns.stocked
    refine stays.agree ?_ stays.distinct ?_
    · intro address node
      exact entered_of_ne mem entry sp (outside (Multiset.mem_add.mpr
        (.inl (Multiset.mem_add.mpr (.inl node)))))
    · intro frame free
      exact stays.small frame (Multiset.mem_add.mpr (.inr free))
  have stock : Pages kend (table.space + (mem.freelist : Multiset Nat)) :=
    ⟨Multiset.nodup_of_le fewer ready.space.apart, fun frame member =>
      ready.space.above frame (Multiset.mem_of_le fewer member)⟩
  have held : Owns (table.space + (mem.freelist : Multiset Nat))
      (entered mem trapframe entry sp).ram 0 table
      (entered mem trapframe entry sp) :=
    ⟨old, by rw [zero_add]; rfl, fun _ _ => rfl⟩
  obtain ⟨result, frees, stocked⟩ := held.procFreepagetable_returns stock ready.space.shape
  have freed : (result.freelist : Multiset Nat) = table.space + mem.freelist := by
    rw [← stocked.conserved, zero_add]
  have total : new.space + (result.freelist : Multiset Nat) = table.space + state.mem.freelist := by
    rw [freed, add_left_comm, shared]
  have distinct := ready.space.apart
  rw [← total] at distinct
  rw [← ready.space.pagetable] at frees
  refine ⟨result, frees, owns.represents.agree ?_ ?_ ?_, total⟩
  · intro address node
    have mine : address / PGSIZE ∈ new.space := Multiset.mem_add.mpr (.inl node)
    have listed : address / PGSIZE ∈ table.space + (state.mem.freelist : Multiset Nat) := by
      rw [← total]
      exact Multiset.mem_add.mpr (.inl mine)
    have apart : address / PGSIZE ∉ table.space + (mem.freelist : Multiset Nat) := by
      rw [← freed]
      exact Multiset.disjoint_left.mp (Multiset.nodup_add.mp distinct).2.2 mine
    rw [stocked.outside address apart, entered_of_ne mem entry sp (outside listed)]
  · refine Multiset.nodup_of_le ?_ distinct
    exact add_le_add_left (Multiset.le_add_right _ _) _
  · intro frame free
    refine stock.small ?_
    rw [← freed]
    exact free

theorem commit_returns (owns : Owns state.mem.freelist state.mem.ram 0 new mem)
    (shape : UserTable trampoline trapframe (npages sz) new)
    (path : List UInt8) (entry : UInt64) (sp argc : Nat) :
    ∃ value after, commit kend path entry (UInt64.ofNat (new.root * PGSIZE)) sz sp argc
          { state with mem := mem } = .ok (value, after) ∧
        Ends kend trampoline trapframe state value after := by
  obtain ⟨result, frees, represents, total⟩ := ready.replaced owns entry sp
  have address : state.p.trapframe.toNat = trapframe * PGSIZE := by
    rw [ready.registers]
    exact frame_address (ready.space.represents.leaves ready.space.shape.trapframe).1
  let image : State :=
    { state with
      mem := result
      p := { state.p with
        name := safestrcpy state.p.name (fun index => (lastName path path).getD index 0) 16
        pagetable := UInt64.ofNat (new.root * PGSIZE)
        sz := sz } }
  have space : AddressSpace kend trampoline trapframe image.process result
      new := by
    refine ⟨represents, rfl, shape, ?_, ?_⟩
    · rw [total]
      exact ready.space.apart
    · rw [total]
      exact ready.space.above
  refine ⟨argc, image, ?_, .inr ⟨Int.natCast_nonneg argc, ⟨new, space,
    ready.registers, ?_⟩, rfl, rfl, rfl⟩⟩
  · rw [commit, Action.bind_ok rfl]
    simp only [address]
    rw [Action.bind_ok rfl, Action.bind_ok rfl, Action.bind_ok rfl, Action.bind_ok rfl]
    refine (Action.bind_ok (onMemory_ok frees)).trans ?_
    rfl
  · rw [total]
    exact ready.apart

theorem kexecStack_returns
    (image : Image state.mem.freelist state.mem.ram trampoline trapframe new sz mem)
    (path : List UInt8) {argv : List (List UInt8)}
    (short : ∀ arg ∈ argv, arg.length < PGSIZE) (few : argv.length < MAXARG) (entry : UInt64) :
    ∃ value after, kexecStack kend path argv entry (UInt64.ofNat (new.root * PGSIZE)) sz
          { state with mem := mem } = .ok (value, after) ∧
        Ends kend trampoline trapframe state value after := by
  have pages := ready.space.freePages
  obtain ⟨sz1, grown, middle, allocates, root, ends⟩ := image.stack pages
  have first : onMemory (MemoryM.uvmalloc kend (UInt64.ofNat (new.root * PGSIZE)) (pgroundup sz)
      (pgroundup sz + (USERSTACK + 1) * PGSIZE) PTE_W) { state with mem := mem } =
        .ok (sz1, { state with mem := middle }) :=
    onMemory_ok allocates
  rw [kexecStack, Action.bind_ok rfl]
  simp only
  rw [Action.bind_ok first]
  rcases ends with ⟨rfl, kept⟩ | ⟨nonzero, last, final, clears, place, stack⟩
  · obtain ⟨rest, fails, stocked⟩ := bad_closed pages kept.owns kept.loaded.shape state
    rw [root] at fails
    rw [if_pos rfl]
    exact ⟨-1, _, fails, .inl ⟨rfl, rest, rfl, stocked⟩⟩
  · have second : onMemory (MemoryM.uvmclear (UInt64.ofNat (new.root * PGSIZE))
        (sz1 - (USERSTACK + 1) * PGSIZE)) { state with mem := middle } =
          .ok ((), { state with mem := final }) :=
      onMemory_ok clears
    obtain ⟨pushed, written, pushes, kept⟩ := stack.pushArguments pages state.process short few
    rw [place] at pushes
    have third : onMemory (pushArguments kend { pagetable := state.p.pagetable, sz := state.p.sz }
        (UInt64.ofNat (new.root * PGSIZE)) sz1 argv) { state with mem := final } =
          .ok (pushed, { state with mem := written }) :=
      onMemory_ok pushes
    rw [if_neg nonzero, Action.bind_ok second, Action.bind_ok third]
    cases pushed with
    | none =>
      obtain ⟨rest, fails, stocked⟩ := bad_closed pages kept.owns kept.stacked.shape state
      rw [place] at fails
      exact ⟨-1, _, fails, .inl ⟨rfl, rest, rfl, stocked⟩⟩
    | some pair =>
      have ends := ready.commit_returns kept.owns kept.stacked.shape path entry pair.1 pair.2
      rw [place] at ends
      exact ends

theorem kexecOpened_returns (unlocked : state.inodeLock ip = false) (path content : List UInt8)
    {argv : List (List UInt8)} (short : ∀ arg ∈ argv, arg.length < PGSIZE)
    (few : argv.length < MAXARG) :
    ∃ value after, kexecOpened kend trampoline path content ip argv
          (state.opened ip state.mem) = .ok (value, after) ∧
        Ends kend trampoline trapframe state value after := by
  have pages := ready.space.freePages
  have code : trampoline < 2 ^ 44 := (ready.space.represents.leaves ready.space.shape.trampoline).1
  have registers : trapframe < 2 ^ 44 :=
    (ready.space.represents.leaves ready.space.shape.trapframe).1
  have failed (mem : PhysicalMemory) (stocked : Stocked state.mem.freelist state.mem.ram 0 mem) :
      ∃ value after, bad kend (some ip) 0 0 (state.opened ip mem) = .ok (value, after) ∧
        Ends kend trampoline trapframe state value after :=
    ⟨-1, _, bad_empty unlocked, .inl ⟨rfl, mem, rfl, stocked⟩⟩
  rw [kexecOpened]
  simp only
  split
  · exact failed state.mem state.mem.stocked
  split
  · exact failed state.mem state.mem.stocked
  obtain ⟨value, mem, makes, made⟩ := state.mem.stocked.procPagetable_returns pages code registers
  rw [← ready.registers] at makes
  have gets : getProc (state.opened ip state.mem) = .ok (state.p, state.opened ip state.mem) := rfl
  rw [Action.bind_ok gets, Action.bind_ok (opened_memory makes)]
  generalize Elfhdr.ofBytes (readi content 0 Elfhdr.size) = elf
  rcases made with ⟨rfl, left⟩ | ⟨nonzero, new, rfl, owns, shape⟩
  · rw [if_pos rfl]
    exact failed mem left
  · have empty : npages 0 = 0 := by decide
    have image : Image state.mem.freelist state.mem.ram trampoline trapframe new 0 mem := by
      refine ⟨owns, by rw [empty]; exact shape, ?_⟩
      intro page below
      rw [empty] at below
      omega
    obtain ⟨loaded, sz, grown, last, loads, root, image⟩ :=
      image.loadProgram_returns pages content elf.phnum (elf.phoff.toNat % 2 ^ 32)
    rw [if_neg nonzero, Action.bind_ok (opened_memory loads), ← root]
    cases loaded with
    | false =>
      obtain ⟨rest, fails, stocked⟩ := bad_opened pages image.owns image.loaded.shape unlocked
      exact ⟨-1, _, fails, .inl ⟨rfl, rest, rfl, stocked⟩⟩
    | true =>
      obtain ⟨value, after, returns, ends⟩ :=
        ready.kexecStack_returns image path short few elf.entry
      exact ⟨value, after, (opened_close unlocked _).trans returns, ends⟩

theorem kexec_returns (path : List UInt8)
    (unlocked : ∀ ip content, file = some (ip, content) → state.inodeLock ip = false)
    (short : ∀ arg ∈ argv, arg.length < PGSIZE) (few : argv.length < MAXARG) :
    ∃ value after, kexec kend trampoline path file argv state = .ok (value, after) ∧
      Ends kend trampoline trapframe state value after := by
  cases file with
  | none => exact ⟨-1, state, rfl, .inl ⟨rfl, state.mem, rfl, state.mem.stocked⟩⟩
  | some pair =>
    have free := unlocked pair.1 pair.2 rfl
    rw [kexec_opens free]
    exact ready.kexecOpened_returns free path pair.2 short few

end

end State.Ready

end Returns

/-- `kexec` returns, whatever the file contains.  If it returns `-1`, the process
is as it was, and everything that was taken has been given back. -/
theorem exec_is_all_or_nothing {kend trampoline trapframe : Nat} {table : PageTable} {state : State}
    (ready : state.Ready kend trampoline trapframe table)
    (path : List UInt8) (file : Option (Nat × List UInt8))
    (unlocked : ∀ ip content, file = some (ip, content) → state.inodeLock ip = false)
    (argv : List (List UInt8)) (short : ∀ arg ∈ argv, arg.length ≤ PGSIZE - 1)
    (few : argv.length ≤ MAXARG - 1) :
    ∃ value after, kexec kend trampoline path file argv state = .ok (value, after) ∧
      (value = -1 → after.p = state.p ∧ (∀ va, after.mem.userByte after.process va =
          state.mem.userByte state.process va) ∧
        (∀ address, address / PGSIZE = trapframe → after.mem.ram address = state.mem.ram address) ∧
        after.inodeRef = state.inodeRef ∧ after.inodeLock = state.inodeLock ∧
        after.outstanding = state.outstanding ∧
        after.mem.freelist.Perm state.mem.freelist) ∧
      (value ≠ -1 → ∃ new, after.Ready kend trampoline trapframe new) := by
  have size : 0 < PGSIZE := PGSIZE_pos
  obtain ⟨value, after, returns, ends⟩ := ready.kexec_returns path unlocked
    (fun arg member => (short arg member).trans_lt (by omega))
    (few.trans_lt (by decide))
  refine ⟨value, after, returns, ?_⟩
  rcases ends with ⟨rfl, mem, rfl, stocked⟩ | ⟨nonneg, next, _⟩
  · refine ⟨fun _ => ⟨rfl, ready.space.unaffected stocked, ?_, rfl, rfl, rfl, ?_⟩,
      fun succeeded => absurd rfl succeeded⟩
    · rintro address rfl
      exact stocked.outside address fun free => ready.apart (Multiset.mem_add.mpr (.inr free))
    · have conserved := stocked.conserved
      rw [zero_add] at conserved
      exact Multiset.coe_eq_coe.mp conserved
  · exact ⟨fun failed => absurd failed (by omega), fun _ => next⟩

/-- `kexec` returns `-1` from the label `bad`. -/
theorem bad_value {state after : State} {kend sz : Nat} {ip : Option Nat} {pagetable : UInt64}
    {value : Int} (returns : bad kend ip pagetable sz state = .ok (value, after)) : value = -1 := by
  simp only [bad, bind, StateT.bind, Except.bind] at returns
  split at returns
  · cases returns
  cases ip with
  | none => cases returns; rfl
  | some ip =>
    simp only [StateT.bind, bind, Except.bind] at returns
    split at returns
    · cases returns
    · cases returns
      rfl

/-- An ELF file that promises two segments and ends after the header of the
first, which has four bytes. -/
def oneSegment : List UInt8 :=
  [0x7F, 0x45, 0x4C, 0x46] ++ List.replicate 28 0 ++ [64] ++ List.replicate 23 0 ++ [2] ++
    List.replicate 7 0 ++ [1] ++ List.replicate 31 0 ++ [4] ++ List.replicate 7 0 ++ [4] ++
    List.replicate 15 0

def callingState (pagetable : UInt64) (mem : PhysicalMemory) : State :=
  { mem := mem
    p := (parentKernel pagetable mem).proc 0
    inodeRef := fun _ => 0
    inodeLock := fun _ => false
    outstanding := 0 }

/-- The first segment is loaded, and then the second header cannot be read. -/
theorem exec_is_all_or_nothing_oneSegment : ∃ state table after,
      state.Ready KERNBASE 0x80007 0x87000 table ∧
      kexec KERNBASE 0x80007 [] (some (1, oneSegment)) [[97]] state = .ok (-1, after) ∧
      after.p.pagetable = state.p.pagetable ∧
      after.mem.freelist.Perm state.mem.freelist := by
  have facts : (firstProcess 12).any (fun made =>
      let state := callingState made.1 made.2
      let elf := Elfhdr.ofBytes (readi oneSegment 0 Elfhdr.size)
      (MemoryM.procPagetable KERNBASE 0x80007 state.p.trapframe state.mem).toOption.any fun new =>
        (loadProgram KERNBASE oneSegment new.1 elf.phnum (elf.phoff.toNat % 2 ^ 32) 0
          new.2).toOption.any fun loaded => decide (new.1 ≠ 0 ∧ loaded.1 = (false, 4))) = true := by
    decide +kernel
  rw [Option.any_eq_true] at facts
  obtain ⟨⟨pagetable, mem⟩, made, facts⟩ := facts
  obtain ⟨table, space, listed⟩ := firstProcess_space
    ⟨Multiset.coe_nodup.mpr (by decide), by decide⟩ made
  have ready : (callingState pagetable mem).Ready KERNBASE 0x80007 0x87000
      table :=
    ⟨space, rfl, fun member => absurd (listed _ member) (by decide)⟩
  obtain ⟨value, after, returns, nothing, _⟩ :=
    exec_is_all_or_nothing ready [] (some (1, oneSegment))
      (fun _ _ _ => rfl) [[97]] (by decide) (by decide)
  simp only [Option.any_eq_true] at facts
  obtain ⟨⟨new, grown⟩, makes, ⟨_, last⟩, loads, facts⟩ := facts
  obtain ⟨nonzero, rfl⟩ := of_decide_eq_true facts
  have ran := returns
  rw [kexec_opens rfl, kexecOpened] at ran
  simp only at ran
  have gets : getProc ((callingState pagetable mem).opened 1 (callingState pagetable mem).mem) =
    .ok ((callingState pagetable mem).p, _) := rfl
  rw [if_neg (by decide +kernel), if_neg (by decide +kernel), Action.bind_ok gets,
    Action.bind_ok (opened_memory (Action.ok_of_toOption makes)), if_neg nonzero,
    Action.bind_ok (opened_memory (Action.ok_of_toOption loads)),
    if_neg Bool.false_ne_true] at ran
  obtain rfl := bad_value ran
  obtain ⟨same, _, _, _, _, _, pages⟩ := nothing rfl
  exact ⟨_, table, after, ready, returns, by rw [same], pages⟩

end Xv6KernelEvent.Exec
