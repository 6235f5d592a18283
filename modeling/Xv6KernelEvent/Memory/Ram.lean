import Xv6KernelEvent.Memory.Sv39

/-!
# Physical memory

Physical memory as bytes, with 64-bit words in it, and the page allocator of
`kernel/kalloc.c`.  The free list is the list of the numbers of its pages, in
the order of the links between them.
-/

namespace Xv6KernelEvent

abbrev Ram := Nat → UInt8

namespace Ram

/-- The number that `count` bytes make up, the lowest byte first. -/
def bytes (ram : Ram) (pa : Nat) : Nat → Nat
  | 0 => 0
  | count + 1 => (ram pa).toNat + 256 * bytes ram (pa + 1) count

def load (ram : Ram) (pa : Nat) : UInt64 := UInt64.ofNat (ram.bytes pa 8)

def store (ram : Ram) (pa : Nat) (word : UInt64) : Ram :=
  fun address =>
    if pa ≤ address ∧ address < pa + 8 then UInt8.ofNat (word.toNat / 256 ^ (address - pa))
    else ram address

def memset (ram : Ram) (pa : Nat) (byte : UInt8) (n : Nat) : Ram :=
  fun address => if pa ≤ address ∧ address < pa + n then byte else ram address

theorem bytes_congr {ram other : Ram} {pa count : Nat}
    (same : ∀ address, pa ≤ address → address < pa + count → ram address = other address) :
    ram.bytes pa count = other.bytes pa count := by
  induction count generalizing pa with
  | zero => rfl
  | succ count induction =>
    rw [bytes, bytes, same pa le_rfl (by omega),
      induction fun address above below => same address (by omega) (by omega)]

theorem load_congr {ram other : Ram} {pa : Nat}
    (same : ∀ address, pa ≤ address → address < pa + 8 → ram address = other address) :
    ram.load pa = other.load pa := by
  rw [load, load, bytes_congr same]

theorem bytes_digits (word pa count : Nat) :
    bytes (fun address => UInt8.ofNat (word / 256 ^ (address - pa))) pa count =
      word % 256 ^ count := by
  induction count generalizing word pa with
  | zero =>
    rw [bytes]
    omega
  | succ count induction =>
    have rest := induction (word / 256) (pa + 1)
    have shifted : bytes (fun address => UInt8.ofNat (word / 256 ^ (address - pa))) (pa + 1) count =
        bytes (fun address =>
          UInt8.ofNat (word / 256 / 256 ^ (address - (pa + 1)))) (pa + 1)
          count := by
      apply bytes_congr
      intro address above _
      rw [show address - pa = address - (pa + 1) + 1 by omega,
        Nat.pow_succ', Nat.div_div_eq_div_mul]
    have split : 256 ^ (count + 1) = 256 * 256 ^ count := Nat.pow_succ'
    rw [bytes, shifted, rest, Nat.sub_self, Nat.pow_zero, Nat.div_one,
      UInt8.toNat_ofNat', split, Nat.mod_mul]

theorem load_store (ram : Ram) (pa : Nat) (word : UInt64) : (ram.store pa word).load pa = word := by
  have digits : (ram.store pa word).bytes pa 8 = word.toNat % 256 ^ 8 := by
    rw [← bytes_digits word.toNat pa 8]
    apply bytes_congr
    intro address above below
    rw [store, if_pos ⟨above, below⟩]
  rw [load, digits, ← UInt64.toNat_inj, UInt64.toNat_ofNat']
  have bound := word.toNat_lt
  omega

theorem load_store_of_disjoint (ram : Ram) {pa other : Nat} (word : UInt64)
    (disjoint : other + 8 ≤ pa ∨ pa + 8 ≤ other) :
    (ram.store pa word).load other = ram.load other := by
  apply load_congr
  intro address above below
  rw [store, if_neg (by omega)]

theorem load_memset_zero (ram : Ram) {pa n other : Nat} (inside : pa ≤ other ∧ other + 8 ≤ pa + n) :
    (ram.memset pa 0 n).load other = 0 := by
  have zero : (ram.memset pa 0 n).bytes other 8 =
      bytes (fun address => UInt8.ofNat (0 / 256 ^ (address - other))) other 8 := by
    apply bytes_congr
    intro address above below
    rw [memset, if_pos (by omega), Nat.zero_div]
    rfl
  rw [load, zero, bytes_digits]
  rfl

theorem load_memset_of_disjoint (ram : Ram) {pa n other : Nat} (byte : UInt8)
    (disjoint : other + 8 ≤ pa ∨ pa + n ≤ other) :
    (ram.memset pa byte n).load other = ram.load other := by
  apply load_congr
  intro address above below
  rw [memset, if_neg (by omega)]

theorem store_of_ne (ram : Ram) (bound : index < 512)
    (word : UInt64) (differs : address / PGSIZE ≠ frame) :
    ram.store (frame * PGSIZE + 8 * index) word address = ram address := by
  rw [store, if_neg]
  simp only [PGSIZE] at differs ⊢
  omega

theorem memset_of_ne (ram : Ram) (byte : UInt8) (differs : address / PGSIZE ≠ frame) :
    ram.memset (frame * PGSIZE) byte PGSIZE address = ram address := by
  rw [memset, if_neg]
  simp only [PGSIZE] at differs ⊢
  omega

/-- Entry `index` of the page table page `frame`. -/
def entry (ram : Ram) (frame index : Nat) : UInt64 := ram.load (frame * PGSIZE + 8 * index)

variable {ram : Ram} {frame index other place : Nat}

theorem entry_store (word : UInt64) :
    (ram.store (frame * PGSIZE + 8 * index) word).entry frame index = word :=
  load_store ram _ word

theorem entry_store_of_ne (bound : index < 512) (small : place < 512) (word : UInt64)
    (differs : other ≠ frame ∨ place ≠ index) :
    (ram.store (frame * PGSIZE + 8 * index) word).entry other place = ram.entry other place := by
  apply load_store_of_disjoint
  simp only [PGSIZE]
  omega

theorem entry_memset_zero (bound : index < 512) :
    (ram.memset (frame * PGSIZE) 0 PGSIZE).entry frame index = 0 := by
  apply load_memset_zero
  simp only [PGSIZE]
  omega

theorem entry_memset_of_ne (small : place < 512) (byte : UInt8) (differs : other ≠ frame) :
    (ram.memset (frame * PGSIZE) byte PGSIZE).entry other place = ram.entry other place := by
  apply load_memset_of_disjoint
  simp only [PGSIZE]
  omega

end Ram

theorem page_of_address (frame : Nat) {offset : Nat} (small : offset < PGSIZE) :
    (frame * PGSIZE + offset) / PGSIZE = frame := by
  rw [Nat.mul_comm, Nat.mul_add_div PGSIZE_pos, Nat.div_eq_of_lt small, Nat.add_zero]

def KERNBASE : Nat := 0x80000000

def PHYSTOP : Nat := KERNBASE + 128 * 1024 * 1024

/-- Physical memory and `kmem`. -/
structure PhysicalMemory where
  ram : Ram
  freelist : List Nat

namespace PhysicalMemory

def kalloc (mem : PhysicalMemory) : Option Nat × PhysicalMemory :=
  match mem.freelist with
  | [] => (none, mem)
  | frame :: rest =>
    (some frame, { ram := mem.ram.memset (frame * PGSIZE) 5 PGSIZE, freelist := rest })

/-- `kfree` for a kernel that ends at `kend`. -/
def kfree (kend : Nat) (pa : Nat) (mem : PhysicalMemory) : Except String PhysicalMemory :=
  if pa % PGSIZE ≠ 0 ∨ pa < kend ∨ pa ≥ PHYSTOP then .error "kfree"
  else
    .ok
      { ram := mem.ram.memset pa 1 PGSIZE
        freelist := pa / PGSIZE :: mem.freelist }

end PhysicalMemory

end Xv6KernelEvent
