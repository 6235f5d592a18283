import Xv6KernelEvent.Storage.Ownership

/-!
# Finding and allocating the blocks of a file

`bmap` gives the block for a part of a file and allocates it if there is none.
It keeps the free map exact, whether or not there are free blocks, and changes
no slot but the ones that it fills and no block that is in a slot.
-/

namespace Xv6KernelEvent.Volume

open CString Custody

/-- The slot for block `bn` of a file. -/
def place (bn : Nat) : Nat := if bn < NDIRECT then bn else bn + 1

/-- The address of block `bn` of a file, or 0. -/
def dataAddr (vol : Volume) (inum bn : Nat) : Nat := vol.slot inum (place bn)

variable {sb : Superblock} {vol after : Volume}

theorem place_lt (below : bn < MAXFILE) : place bn < NSLOTS := by
  unfold place NSLOTS
  unfold MAXFILE at below
  split <;> omega

theorem place_ne_NDIRECT (bn : Nat) : place bn ≠ NDIRECT := by
  unfold place
  split <;> omega

theorem place_injective (same : place first = place second) : first = second := by
  unfold place at same
  split at same <;> split at same <;> omega

theorem NDIRECT_lt_NSLOTS : NDIRECT < NSLOTS := by decide

theorem slot_direct (le : index ≤ NDIRECT) :
    vol.slot inum index = (vol.inode inum).addrs index := by
  rw [slot, if_pos le]

theorem slot_entry : vol.slot inum (NDIRECT + 1 + index) =
      if (vol.inode inum).addrs NDIRECT = 0 then 0
      else Header.word (vol.block ((vol.inode inum).addrs NDIRECT)) index := by
  have beyond : ¬NDIRECT + 1 + index ≤ NDIRECT := by omega
  have offset : NDIRECT + 1 + index - NDIRECT - 1 = index := by omega
  rw [slot, if_neg beyond, offset]

/-- The slots of an inode are determined by it and its indirect block. -/
theorem slot_congr (inodes : after.inode inum = vol.inode inum)
    (indirect : (vol.inode inum).addrs NDIRECT ≠ 0 → after.block ((vol.inode inum).addrs NDIRECT) =
        vol.block ((vol.inode inum).addrs NDIRECT)) (index : Nat) :
    after.slot inum index = vol.slot inum index := by
  rw [slot, slot, inodes]
  split
  next => rfl
  next =>
    split
    next => rfl
    next present => rw [indirect present]

theorem word_within (below : bn < NINDIRECT) : 4 * bn + 3 < BSIZE := by
  rw [NINDIRECT, show BSIZE = 1024 from rfl] at below
  rw [show BSIZE = 1024 from rfl]
  omega

theorem word_zeroBlock (index : Nat) : Header.word zeroBlock index = 0 := by
  have zero : ∀ offset, byteAt zeroBlock offset = 0 := by
    intro offset
    by_cases below : offset < BSIZE
    · simp [byteAt_of_lt _ below, zeroBlock]
    · simp [byteAt, zeroBlock, below]
  simp [Header.word, zero]

/-- A block is taken from the free map. -/
structure Taken (sb : Superblock) (vol : Volume) (hand : Multiset Nat) (b : Nat)
    (after : Volume) : Prop where
  owned : Owned sb after (b ::ₘ hand)
  inodes : after.inode = vol.inode
  zeroed : after.block b = zeroBlock
  others : ∀ c, sb.datastart ≤ c → c ≠ b → after.block c = vol.block c

/-- What finding the block for a slot of an inode does.  Finding an entry of the
indirect block may fill the slot of that block too. -/
structure Mapped (sb : Superblock) (vol : Volume) (hand : Multiset Nat)
    (inum index addr : Nat) (after : Volume) : Prop where
  owned : Owned sb after hand
  inodes : ∀ other, other ≠ inum → after.inode other = vol.inode other
  type_eq : (after.inode inum).type = (vol.inode inum).type
  size_eq : (after.inode inum).size = (vol.inode inum).size
  found : after.slot inum index = addr
  present : vol.slot inum index ≠ 0 → after = vol
  fresh : vol.slot inum index = 0 → addr ≠ 0 → after.block addr = zeroBlock
  slots : ∀ other < NSLOTS, other ≠ index → other ≠ NDIRECT →
    after.slot inum other = vol.slot inum other
  otherSlots : ∀ other, Allocated sb vol other → other ≠ inum → ∀ place,
    after.slot other place = vol.slot other place
  kept : ∀ other, Allocated sb vol other → ∀ place < NSLOTS, place ≠ NDIRECT →
    vol.slot other place ≠ 0 →
    after.block (vol.slot other place) = vol.block (vol.slot other place)

theorem references_of_inodes (inodes : after.inode = vol.inode)
    (indirect : ∀ inum, Allocated sb vol inum → (vol.inode inum).addrs NDIRECT ≠ 0 →
      after.block ((vol.inode inum).addrs NDIRECT) = vol.block ((vol.inode inum).addrs NDIRECT)) :
    after.references sb = vol.references sb := by
  apply references_congr
  intro inum below
  by_cases typed : (vol.inode inum).type = 0
  · rw [blocks, blocks, inodes, if_pos typed, if_pos typed]
  · exact blocks_congr (congrFun inodes inum) fun index _ =>
      slot_congr (congrFun inodes inum) (indirect inum ⟨below, typed⟩) index

theorem blocks_of_slots (typed : (vol.inode inum).type ≠ 0)
    (type_eq : (after.inode inum).type = (vol.inode inum).type)
    (below : index < NSLOTS) (empty : vol.slot inum index = 0)
    (nonzero : b ≠ 0) (filled : after.slot inum index = b)
    (slots : ∀ other < NSLOTS, other ≠ index → after.slot inum other = vol.slot inum other) :
    after.blocks inum = b ::ₘ vol.blocks inum := by
  have absent : vol.owned inum index = none := by rw [owned, if_pos empty]
  rw [blocks, blocks, type_eq, if_neg typed, if_neg typed, ← contents_put below absent b]
  refine contents_congr fun other other_lt => ?_
  by_cases same : other = index
  · subst same
    rw [Function.update_self]
    exact owned_eq_some_iff.mpr ⟨filled, nonzero⟩
  · rw [Function.update_of_ne same, owned, owned, slots other other_lt same]

theorem setBitmapByte_block_of_ge (layout : sb.Layout) (below : b < sb.size)
    (data : sb.datastart ≤ c) (byte : UInt8) :
    (vol.setBitmapByte sb b byte).block c = vol.block c := by
  have apart := layout.bblock_lt b below
  exact setBlock_block_of_ne (by omega) _

theorem setBlock_inUse (layout : sb.Layout) (below : c < sb.size)
    (data : sb.datastart ≤ b) (content : Block) :
    (vol.setBlock b content).inUse sb c = vol.inUse sb c := by
  have apart := layout.bblock_lt c below
  exact inUse_congr (setBlock_block_of_ne (by omega) _)

@[simp] theorem setAddr_block (addr : Nat) : (vol.setAddr inum index addr).block = vol.block := rfl

@[simp] theorem setAddr_addrs (addr : Nat) : ((vol.setAddr inum index addr).inode inum).addrs =
      Function.update (vol.inode inum).addrs index addr := by
  simp [setAddr, setInode]

@[simp] theorem setAddr_type (addr : Nat) : ((vol.setAddr inum index addr).inode inum).type =
      (vol.inode inum).type := by
  simp [setAddr, setInode]

@[simp] theorem setAddr_size (addr : Nat) : ((vol.setAddr inum index addr).inode inum).size =
      (vol.inode inum).size := by
  simp [setAddr, setInode]

theorem setAddr_inode_of_ne (differs : other ≠ inum) (addr : Nat) :
    (vol.setAddr inum index addr).inode other = vol.inode other := by
  simp [setAddr, setInode, differs]

theorem setAddr_slot_self (le : index ≤ NDIRECT) (addr : Nat) :
    (vol.setAddr inum index addr).slot inum index = addr := by
  rw [slot_direct le, setAddr_addrs, Function.update_self]

/-- An address may be filled with a block of zeros. -/
theorem setAddr_slot_of_ne (le : index ≤ NDIRECT) (empty : vol.slot inum index = 0)
    (zeroed : vol.block b = zeroBlock) (differs : other ≠ index) :
    (vol.setAddr inum index b).slot inum other = vol.slot inum other := by
  rw [slot_direct le] at empty
  rw [slot, slot, setAddr_addrs, setAddr_block, Function.update_of_ne differs]
  split
  next => rfl
  next beyond =>
    by_cases indirect : index = NDIRECT
    · subst indirect
      rw [Function.update_self, empty, zeroed, word_zeroBlock]
      simp
    · rw [Function.update_of_ne (Ne.symm indirect)]

section Entry

variable (pointer : (vol.inode inum).addrs NDIRECT = number) (present : number ≠ 0)

include pointer present

theorem setWord_slot_self (below : bn < NINDIRECT) (fits : b < 2 ^ 32) :
    (vol.setBlock number (Header.setWord (vol.block number) bn b)).slot inum
      (NDIRECT + 1 + bn) = b := by
  rw [slot_entry, setBlock_inode, pointer, if_neg present, setBlock_block_self]
  exact Header.word_setWord _ (word_within below) fits

theorem setWord_slot_of_ne (other_lt : other < NSLOTS) (differs : other ≠ NDIRECT + 1 + bn) :
    (vol.setBlock number (Header.setWord (vol.block number) bn b)).slot inum
      other = vol.slot inum other := by
  rcases Nat.lt_or_ge NDIRECT other with beyond | le
  · obtain ⟨entry, rfl⟩ := Nat.exists_eq_add_of_le beyond
    rw [Nat.succ_eq_add_one] at differs other_lt ⊢
    have entry_lt : entry < NINDIRECT := by
      rw [NSLOTS] at other_lt
      omega
    rw [slot_entry, slot_entry, setBlock_inode, pointer, if_neg present,
      if_neg present, setBlock_block_self]
    exact Header.word_setWord_of_ne _ (word_within entry_lt) (by omega)
  · rw [slot_direct le, slot_direct le, setBlock_inode]

end Entry

namespace Owned

theorem indirect (owned : Owned sb vol hand) (allocated : Allocated sb vol inum)
    (present : (vol.inode inum).addrs NDIRECT ≠ 0) :
    sb.datastart ≤ (vol.inode inum).addrs NDIRECT ∧ (vol.inode inum).addrs NDIRECT < sb.size ∧
      vol.inUse sb ((vol.inode inum).addrs NDIRECT) = true := by
  have inSlot : vol.slot inum NDIRECT = (vol.inode inum).addrs NDIRECT :=
    slot_direct (le_refl NDIRECT)
  rw [← inSlot] at present ⊢
  exact owned.of_slot allocated NDIRECT_lt_NSLOTS present

theorem held (owned : Owned sb vol hand) (mem : b ∈ hand) :
    sb.datastart ≤ b ∧ b < sb.size ∧ vol.inUse sb b = true :=
  (owned.marked b).mp (Multiset.mem_add.mpr (.inr mem))

variable (layout : sb.Layout)

include layout

theorem balloc (owned : Owned sb vol hand) : vol.balloc sb = (0, vol) ∨
      ∃ b after, b ≠ 0 ∧ vol.balloc sb = (b, after) ∧ Taken sb vol hand b after := by
  rw [Volume.balloc]
  cases found : (List.range sb.size).find? fun b => !vol.inUse sb b with
  | none => exact .inl rfl
  | some b =>
    have below : b < sb.size := List.mem_range.mp (List.mem_of_find?_eq_some found)
    have free : vol.inUse sb b = false := by simpa using List.find?_some found
    have data : sb.datastart ≤ b := by
      by_contra before
      rw [owned.metadata b (not_le.mp before)] at free
      cases free
    have positive := layout.datastart_pos
    refine .inr ⟨b, _, by omega, rfl, ?_⟩
    have bits : ∀ c < sb.size, ((vol.setBitmapByte sb b (vol.bitmapByte sb b ||| mask b)).bzero
          b).inUse sb c = (vol.inUse sb c || decide (c = b)) := by
      intro c c_lt
      rw [bzero, setBlock_inUse layout c_lt data, inUse_set]
    have others : ∀ c, sb.datastart ≤ c → c ≠ b →
        ((vol.setBitmapByte sb b (vol.bitmapByte sb b ||| mask b)).bzero
          b).block c = vol.block c := by
      intro c c_ge differs
      rw [bzero, setBlock_block_of_ne differs, setBitmapByte_block_of_ge layout below c_ge]
    have references : ((vol.setBitmapByte sb b
        (vol.bitmapByte sb b ||| mask b)).bzero b).references sb =
        vol.references sb := by
      refine references_of_inodes rfl fun inum allocated present => ?_
      have bounds := owned.indirect allocated present
      refine others _ bounds.1 ?_
      intro same
      rw [same, free] at bounds
      cases bounds.2.2
    have fresh : b ∉ vol.references sb + hand := by
      intro mem
      have used := ((owned.marked b).mp mem).2.2
      rw [free] at used
      cases used
    refine ⟨⟨?_, ?_, ?_⟩, rfl, setBlock_block_self _ _, others⟩
    · intro c before
      rw [bits c (by omega), owned.metadata c before, Bool.true_or]
    · rw [references, Multiset.add_cons, Multiset.nodup_cons]
      exact ⟨fresh, owned.distinct⟩
    · intro c
      rw [references, Multiset.add_cons, Multiset.mem_cons, owned.marked c]
      constructor
      · rintro (rfl | ⟨ge, lt, used⟩)
        · exact ⟨data, below, by rw [bits c below]; simp⟩
        · exact ⟨ge, lt, by rw [bits c lt, used, Bool.true_or]⟩
      · rintro ⟨ge, lt, used⟩
        rw [bits c lt, Bool.or_eq_true, decide_eq_true_eq] at used
        rcases used with used | same
        · exact .inr ⟨ge, lt, used⟩
        · exact .inl same

/-- A block in hand is put into an empty slot. -/
theorem fill (owned : Owned sb vol (b ::ₘ hand)) (allocated : Allocated sb vol inum)
    (type_eq : (after.inode inum).type = (vol.inode inum).type)
    (below : index < NSLOTS) (empty : vol.slot inum index = 0) (filled : after.slot inum index = b)
    (slots : ∀ other < NSLOTS, other ≠ index → after.slot inum other = vol.slot inum other)
    (others : ∀ other < sb.ninodes, other ≠ inum → after.blocks other = vol.blocks other)
    (bits : ∀ c < sb.size, after.inUse sb c = vol.inUse sb c) : Owned sb after hand := by
  have nonzero : b ≠ 0 := by
    have bounds := owned.held (Multiset.mem_cons_self b hand)
    have positive := layout.datastart_pos
    omega
  have changed := references_change allocated.below others
  rw [blocks_of_slots allocated.typed type_eq below empty nonzero filled slots,
    ← Multiset.singleton_add, ← add_assoc, add_left_inj] at changed
  refine owned.transfer ?_ bits
  rw [changed, ← Multiset.singleton_add, add_assoc]

omit layout in
/-- Where there is a block already, it is the one that is found. -/
theorem mapped_present (owned : Owned sb vol hand) (nonzero : vol.slot inum index ≠ 0) :
    Mapped sb vol hand inum index (vol.slot inum index) vol where
  owned := owned
  inodes := fun _ _ => rfl
  type_eq := rfl
  size_eq := rfl
  found := rfl
  present := fun _ => rfl
  fresh := fun zero => absurd zero nonzero
  slots := fun _ _ _ _ => rfl
  otherSlots := fun _ _ _ _ => rfl
  kept := fun _ _ _ _ _ _ => rfl

omit layout in
/-- Nothing changes if there is no free block. -/
theorem mapped_full (owned : Owned sb vol hand) (empty : vol.slot inum index = 0) :
    Mapped sb vol hand inum index 0 vol where
  owned := owned
  inodes := fun _ _ => rfl
  type_eq := rfl
  size_eq := rfl
  found := empty
  present := fun _ => rfl
  fresh := fun _ zero => absurd rfl zero
  slots := fun _ _ _ _ => rfl
  otherSlots := fun _ _ _ _ => rfl
  kept := fun _ _ _ _ _ _ => rfl

end Owned

namespace Taken

theorem allocated (taken : Taken sb vol hand b after) (allocated : Allocated sb vol inum) :
    Allocated sb after inum :=
  ⟨allocated.below, by rw [taken.inodes]; exact allocated.typed⟩

variable (owned : Owned sb vol hand) (taken : Taken sb vol hand b after)

include owned taken

section

variable (allocated : Allocated sb vol inum)

include allocated

/-- Taking a block leaves every slot as it is. -/
theorem slot_eq (index : Nat) : after.slot inum index = vol.slot inum index := by
  refine slot_congr (congrFun taken.inodes inum) ?_ index
  intro present
  refine taken.others _ (owned.indirect allocated present).1 ?_
  have held := Multiset.mem_cons_self b hand
  have inSlot : after.slot inum NDIRECT = (vol.inode inum).addrs NDIRECT := by
    rw [slot_direct (le_refl NDIRECT), taken.inodes]
  rw [← inSlot] at present ⊢
  exact taken.owned.slot_ne_hand (taken.allocated allocated) NDIRECT_lt_NSLOTS present held

theorem slot_ne (below : index < NSLOTS)
    (nonzero : vol.slot inum index ≠ 0) : vol.slot inum index ≠ b := by
  have same := slot_eq owned taken allocated index
  rw [← same] at nonzero ⊢
  exact taken.owned.slot_ne_hand (taken.allocated allocated) below nonzero
    (Multiset.mem_cons_self b hand)

theorem kept (below : index < NSLOTS) (nonzero : vol.slot inum index ≠ 0) :
    after.block (vol.slot inum index) = vol.block (vol.slot inum index) :=
  taken.others _ (owned.of_slot allocated below nonzero).1
    (slot_ne owned taken allocated below nonzero)

end

/-- The block taken is put into an empty slot of an inode; of the other blocks,
at most the indirect block of the inode changes for that. -/
theorem mapped (layout : sb.Layout) (allocated : Allocated sb vol inum)
    (below : index < NSLOTS) (empty : vol.slot inum index = 0)
    (inodes : ∀ other, other ≠ inum → last.inode other = after.inode other)
    (type_eq : (last.inode inum).type = (after.inode inum).type)
    (size_eq : (last.inode inum).size = (after.inode inum).size) (filled : last.slot inum index = b)
    (slots : ∀ other < NSLOTS, other ≠ index → last.slot inum other = after.slot inum other)
    (same : ∀ c, c ≠ (vol.inode inum).addrs NDIRECT ∨ c = 0 → last.block c = after.block c) :
    Mapped sb vol hand inum index b last := by
  have nonzero : b ≠ 0 := by
    have bounds := taken.owned.held (Multiset.mem_cons_self b hand)
    have positive := layout.datastart_pos
    omega
  have inSlot : vol.slot inum NDIRECT = (vol.inode inum).addrs NDIRECT :=
    slot_direct (le_refl NDIRECT)
  -- A block that is not indirect, or is the indirect block of another inode.
  have elsewhere : ∀ other, Allocated sb vol other → ∀ place < NSLOTS,
      ¬(other = inum ∧ place = NDIRECT) → vol.slot other place ≠ 0 →
      last.block (vol.slot other place) = after.block (vol.slot other place) := by
    intro other exists_ place place_lt differs filled
    refine same _ (.inl ?_)
    rw [← inSlot]
    exact fun equal => differs (owned.slot_injective exists_ allocated place_lt
      NDIRECT_lt_NSLOTS filled equal)
  have otherSlots : ∀ other, Allocated sb vol other → other ≠ inum → ∀ place,
      last.slot other place = after.slot other place := by
    intro other exists_ differs
    refine slot_congr (inodes other differs) ?_
    rw [taken.inodes, ← slot_direct (le_refl NDIRECT)]
    exact elsewhere other exists_ NDIRECT NDIRECT_lt_NSLOTS fun both => differs both.1
  have separate : b ≠ (vol.inode inum).addrs NDIRECT ∨ b = 0 := by
    by_cases absent : (vol.inode inum).addrs NDIRECT = 0
    · exact .inl fun equal => nonzero (equal.trans absent)
    · rw [← inSlot] at absent ⊢
      exact .inl (slot_ne owned taken allocated NDIRECT_lt_NSLOTS absent).symm
  have bits : ∀ c < sb.size, last.inUse sb c = after.inUse sb c := by
    intro c c_lt
    refine inUse_congr (same _ ?_)
    by_cases absent : (vol.inode inum).addrs NDIRECT = 0
    · rw [absent]
      exact (eq_or_ne _ 0).symm
    · have data := (owned.indirect allocated absent).1
      have map := layout.bblock_lt c c_lt
      exact .inl (by omega)
  have emptyThen : after.slot inum index = 0 := by rw [slot_eq owned taken allocated, empty]
  refine ⟨?_, ?_, ?_, ?_, filled, ?_, ?_, ?_, ?_, ?_⟩
  · refine taken.owned.fill layout (taken.allocated allocated) type_eq below
      emptyThen filled slots ?_ bits
    intro other other_lt differs
    by_cases typed : (vol.inode other).type = 0
    · rw [blocks, blocks, inodes other differs, taken.inodes, if_pos typed, if_pos typed]
    · exact blocks_congr (inodes other differs) fun place _ =>
        otherSlots other ⟨other_lt, typed⟩ differs place
  · intro other differs
    rw [inodes other differs, taken.inodes]
  · rw [type_eq, taken.inodes]
  · rw [size_eq, taken.inodes]
  · exact fun occupied => absurd empty occupied
  · intro _ _
    rw [same b separate, taken.zeroed]
  · intro other other_lt differs _
    rw [slots other other_lt differs, slot_eq owned taken allocated]
  · intro other exists_ differs place
    rw [otherSlots other exists_ differs, slot_eq owned taken exists_]
  · intro other exists_ place place_lt differs occupied
    rw [elsewhere other exists_ place place_lt (fun both => differs both.2)
      occupied, kept owned taken exists_ place_lt occupied]

end Taken

namespace Mapped

theorem allocated (mapped : Mapped sb vol hand inum index addr after)
    (allocated : Allocated sb vol other) : Allocated sb after other := by
  refine ⟨allocated.below, ?_⟩
  by_cases same : other = inum
  · subst same
    rw [mapped.type_eq]
    exact allocated.typed
  · rw [mapped.inodes other same]
    exact allocated.typed

/-- The slot of the indirect block first, and then an entry of it. -/
theorem entry (indexed : index < NSLOTS)
    (beyond : NDIRECT < index) (exists_ : Allocated sb vol inum)
    (first : Mapped sb vol hand inum NDIRECT number after)
    (second : Mapped sb after hand inum index addr last) :
    Mapped sb vol hand inum index addr last := by
  have slots : ∀ other, Allocated sb vol other → ∀ place < NSLOTS,
      place ≠ NDIRECT → after.slot other place = vol.slot other place := by
    intro other allocated place place_lt differs
    by_cases same : other = inum
    · subst same
      exact first.slots place place_lt differs differs
    · exact first.otherSlots other allocated same place
  have empty : after.slot inum index = vol.slot inum index :=
    slots inum exists_ index indexed (by omega)
  refine ⟨second.owned, ?_, second.type_eq.trans first.type_eq,
    second.size_eq.trans first.size_eq, second.found, ?_, ?_, ?_, ?_, ?_⟩
  · intro other differs
    rw [second.inodes other differs, first.inodes other differs]
  · intro occupied
    have pointed : vol.slot inum NDIRECT ≠ 0 := by
      intro absent
      apply occupied
      rw [slot_direct (le_refl NDIRECT)] at absent
      rw [slot, if_neg (by omega), if_pos absent]
    obtain rfl := first.present pointed
    exact second.present occupied
  · rw [← empty]
    exact second.fresh
  · intro other other_lt differs direct
    rw [second.slots other other_lt differs direct, first.slots other other_lt direct direct]
  · intro other allocated differs place
    rw [second.otherSlots other (first.allocated allocated) differs,
      first.otherSlots other allocated differs]
  · intro other allocated place place_lt direct occupied
    have same := slots other allocated place place_lt direct
    have later := second.kept other (first.allocated allocated) place place_lt
      direct (by rwa [same])
    rw [same] at later
    rw [later, first.kept other allocated place place_lt direct occupied]

end Mapped

namespace Owned

variable (layout : sb.Layout)

include layout

theorem mapAddr (owned : Owned sb vol hand) (allocated : Allocated sb vol inum)
    (le : index ≤ NDIRECT) :
    Mapped sb vol hand inum index (vol.mapAddr sb inum index).1 (vol.mapAddr sb inum index).2 := by
  rw [Volume.mapAddr]
  by_cases empty : (vol.inode inum).addrs index = 0
  · rw [if_pos empty]
    rw [← slot_direct le] at empty
    rcases owned.balloc layout with full | ⟨b, after, nonzero, allocates, taken⟩
    · rw [full]
      exact owned.mapped_full empty
    · rw [allocates]
      obtain ⟨addr, rfl⟩ := Nat.exists_eq_succ_of_ne_zero nonzero
      have emptyThen : after.slot inum index = 0 := by rw [taken.slot_eq owned allocated, empty]
      exact taken.mapped owned layout allocated (le.trans_lt NDIRECT_lt_NSLOTS) empty
        (fun other differs => setAddr_inode_of_ne differs _)
        (setAddr_type _) (setAddr_size _) (setAddr_slot_self le _)
        (fun other _ => setAddr_slot_of_ne le emptyThen taken.zeroed)
        fun _ _ => rfl
  · rw [if_neg empty, ← slot_direct le]
    rw [← slot_direct le] at empty
    exact owned.mapped_present empty

theorem mapEntry (owned : Owned sb vol hand) (allocated : Allocated sb vol inum)
    (present : (vol.inode inum).addrs NDIRECT ≠ 0) (below : bn < NINDIRECT) :
    Mapped sb vol hand inum (NDIRECT + 1 + bn)
      (vol.mapEntry sb ((vol.inode inum).addrs NDIRECT) bn).1
      (vol.mapEntry sb ((vol.inode inum).addrs NDIRECT) bn).2 := by
  obtain ⟨number, number_eq⟩ : ∃ number, (vol.inode inum).addrs NDIRECT = number := ⟨_, rfl⟩
  have entry : vol.slot inum (NDIRECT + 1 + bn) = Header.word (vol.block number) bn := by
    rw [slot_entry, if_neg present, number_eq]
  rw [number_eq] at present ⊢
  rw [Volume.mapEntry, ← entry]
  by_cases empty : vol.slot inum (NDIRECT + 1 + bn) = 0
  · rw [if_pos empty]
    rcases owned.balloc layout with full | ⟨b, after, nonzero, allocates, taken⟩
    · rw [full]
      exact owned.mapped_full empty
    · rw [allocates]
      obtain ⟨addr, rfl⟩ := Nat.exists_eq_succ_of_ne_zero nonzero
      have numberThen : (after.inode inum).addrs NDIRECT = number := by rw [taken.inodes, number_eq]
      have fits := (taken.owned.held (Multiset.mem_cons_self _ hand)).2.1
      have index_lt : NDIRECT + 1 + bn < NSLOTS := by
        rw [NSLOTS]
        omega
      refine taken.mapped owned layout allocated index_lt empty (fun _ _ => rfl) rfl rfl
        (setWord_slot_self numberThen present below (fits.trans_le layout.size_le))
        (fun other => setWord_slot_of_ne numberThen present) ?_
      rw [number_eq]
      rintro c (differs | rfl)
      · exact setBlock_block_of_ne differs _
      · exact setBlock_block_of_ne (Ne.symm present) _
  · rw [if_neg empty]
    exact owned.mapped_present empty

theorem bmap (owned : Owned sb vol hand) (allocated : Allocated sb vol inum)
    (below : bn < MAXFILE) :
    ∃ addr after, vol.bmap sb inum bn = .ok (addr, after) ∧
      Mapped sb vol hand inum (place bn) addr after := by
  rw [Volume.bmap]
  by_cases direct : bn < NDIRECT
  · rw [if_pos direct, place, if_pos direct]
    exact ⟨_, _, rfl, owned.mapAddr layout allocated (Nat.le_of_lt direct)⟩
  · have within : bn - NDIRECT < NINDIRECT := by
      rw [MAXFILE] at below
      omega
    have placed : bn + 1 = NDIRECT + 1 + (bn - NDIRECT) := by omega
    rw [if_neg direct, if_pos within, place, if_neg direct, placed]
    generalize bn - NDIRECT = entry at within
    have index_lt : NDIRECT + 1 + entry < NSLOTS := by
      rw [NSLOTS]
      omega
    have beyond : NDIRECT < NDIRECT + 1 + entry := by omega
    have first := owned.mapAddr layout allocated (le_refl NDIRECT)
    generalize vol.mapAddr sb inum NDIRECT = result at first
    obtain ⟨number, middle⟩ := result
    have pointer := first.found
    rw [slot_direct (le_refl NDIRECT)] at pointer
    cases number with
    | zero =>
      have empty : middle.slot inum (NDIRECT + 1 + entry) = 0 := by rw [slot_entry, if_pos pointer]
      exact ⟨0, middle, rfl, .entry index_lt beyond allocated first
        (first.owned.mapped_full empty)⟩
    | succ number =>
      have second := first.owned.mapEntry layout (first.allocated allocated)
        (by rw [pointer]; exact Nat.succ_ne_zero number) within
      rw [pointer] at second
      exact ⟨_, _, rfl, .entry index_lt beyond allocated first second⟩

end Owned

end Xv6KernelEvent.Volume
