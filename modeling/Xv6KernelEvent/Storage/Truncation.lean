import Xv6KernelEvent.Storage.Mapping

/-!
# Giving the blocks of a file back

`itrunc` frees the blocks in the slots of an inode, each of them once, and no
others.  Its proof looks at the inode as already emptied, with the blocks in
hand: freeing a block does not look at inodes.
-/

namespace Xv6KernelEvent.Volume

open CString Custody

variable {sb : Superblock} {vol middle after : Volume} {hand freed : Multiset Nat}
  {inum index b : Nat}

/-- Some blocks are no longer marked. -/
structure Freed (sb : Superblock) (vol : Volume) (freed : Multiset Nat)
    (after : Volume) : Prop where
  inodes : after.inode = vol.inode
  blocks : ∀ c, sb.datastart ≤ c → after.block c = vol.block c
  bits : ∀ c < sb.size, (after.inUse sb c = true ↔ vol.inUse sb c = true ∧ c ∉ freed)

theorem Freed.refl : Freed sb vol 0 vol := ⟨rfl, fun _ _ => rfl, fun _ _ => by simp⟩

theorem Freed.trans (first : Freed sb vol freed middle) (second : Freed sb middle more after) :
    Freed sb vol (freed + more) after where
  inodes := second.inodes.trans first.inodes
  blocks := fun c data => (second.blocks c data).trans (first.blocks c data)
  bits := fun c below => by
    rw [second.bits c below, first.bits c below, Multiset.mem_add, not_or, and_assoc]

theorem Freed.references (freed : Freed sb vol freed after) (owned : Owned sb vol hand) :
    after.references sb = vol.references sb :=
  references_of_inodes freed.inodes fun _ allocated present =>
    freed.blocks _ (owned.indirect allocated present).1

theorem Owned.bfree (layout : sb.Layout) (owned : Owned sb vol (b ::ₘ hand)) :
    ∃ after, vol.bfree sb b = .ok after ∧ Owned sb after hand ∧ Freed sb vol {b} after := by
  have bounds := owned.held (Multiset.mem_cons_self b hand)
  have used : ¬vol.bitmapByte sb b &&& mask b = 0 := by
    have bit := bounds.2.2
    rwa [inUse, bne_iff_ne] at bit
  have bits : ∀ c, (vol.setBitmapByte sb b (vol.bitmapByte sb b &&& ~~~mask b)).inUse sb c =
          true ↔ vol.inUse sb c = true ∧ c ∉ ({b} : Multiset Nat) := by
    intro c
    rw [inUse_clear, Multiset.mem_singleton]
    simp
  have released : Freed sb vol {b} (vol.setBitmapByte sb b (vol.bitmapByte sb b &&& ~~~mask b)) :=
    ⟨rfl, fun c data => setBitmapByte_block_of_ge layout bounds.2.1 data _, fun c _ => bits c⟩
  refine ⟨_, by rw [Volume.bfree, if_neg used], ⟨?_, ?_, ?_⟩, released⟩
  · intro c before
    rw [bits c, Multiset.mem_singleton]
    exact ⟨owned.metadata c before, by omega⟩
  · have distinct := owned.distinct
    rw [Multiset.add_cons, Multiset.nodup_cons] at distinct
    rw [released.references owned]
    exact distinct.2
  · intro c
    have distinct := owned.distinct
    rw [Multiset.add_cons, Multiset.nodup_cons] at distinct
    have marked := owned.marked c
    rw [Multiset.add_cons, Multiset.mem_cons] at marked
    rw [released.references owned, bits c, Multiset.mem_singleton]
    constructor
    · intro mem
      obtain ⟨ge, lt, bit⟩ := marked.mp (.inr mem)
      exact ⟨ge, lt, bit, fun same => distinct.1 (same ▸ mem)⟩
    · rintro ⟨ge, lt, bit, differs⟩
      exact (marked.mpr ⟨ge, lt, bit⟩).resolve_left differs

theorem Owned.bfreeAll (layout : sb.Layout)
    (owned : Owned sb vol (↑(addrs.filter (· ≠ 0)) + hand)) :
    ∃ after, vol.bfreeAll sb addrs = .ok after ∧ Owned sb after hand ∧
      Freed sb vol ↑(addrs.filter (· ≠ 0)) after := by
  induction addrs generalizing vol with
  | nil =>
    rw [List.filter_nil, Multiset.coe_nil, zero_add] at owned
    exact ⟨vol, rfl, owned, .refl⟩
  | cons addr addrs induction =>
    rw [Volume.bfreeAll]
    by_cases zero : addr = 0
    · rw [if_pos zero]
      rw [List.filter_cons_of_neg (by simpa using zero)] at owned ⊢
      exact induction owned
    · rw [if_neg zero]
      rw [List.filter_cons_of_pos (by simpa using zero)] at owned ⊢
      rw [← Multiset.cons_coe, Multiset.cons_add] at owned
      obtain ⟨middle, frees, kept, released⟩ := owned.bfree layout
      obtain ⟨after, rest, kept, others⟩ := induction kept
      rw [frees]
      refine ⟨after, rest, kept, ?_⟩
      rw [← Multiset.cons_coe, ← Multiset.singleton_add]
      exact released.trans others

/-- The inode without its blocks. -/
def detach (vol : Volume) (inum : Nat) : Volume :=
  vol.setInode inum { vol.inode inum with size := 0, addrs := fun _ => 0 }

theorem bfree_setInode (ip : Inode) : (vol.setInode inum ip).bfree sb b =
      (vol.bfree sb b).map fun after => after.setInode inum ip := by
  have same : (vol.setInode inum ip).bitmapByte sb b = vol.bitmapByte sb b := rfl
  rw [bfree, bfree, same]
  split
  next => rfl
  next => rfl

theorem bfreeAll_setInode (ip : Inode) (addrs : List Nat) :
    (vol.setInode inum ip).bfreeAll sb addrs =
      (vol.bfreeAll sb addrs).map fun after => after.setInode inum ip := by
  induction addrs generalizing vol with
  | nil => rfl
  | cons addr addrs induction =>
    rw [bfreeAll, bfreeAll, bfree_setInode]
    split
    next => exact induction
    next =>
      cases vol.bfree sb addr with
      | error reason => rfl
      | ok middle => exact induction

theorem itruncIndirect_setInode (ip : Inode) (addr : Nat) :
    (vol.setInode inum ip).itruncIndirect sb addr =
      (vol.itruncIndirect sb addr).map fun after => after.setInode inum ip := by
  have same : (vol.setInode inum ip).block = vol.block := rfl
  rw [itruncIndirect, itruncIndirect, bfreeAll_setInode, same]
  split
  next => rfl
  next =>
    cases vol.bfreeAll sb
        ((List.range NINDIRECT).map (Header.word (vol.block addr))) with
    | error reason => rfl
    | ok middle => exact bfree_setInode ip

/-- `itrunc` with the inode emptied first. -/
theorem itrunc_eq : vol.itrunc sb inum = match (vol.detach inum).bfreeAll sb
        ((List.range NDIRECT).map (vol.inode inum).addrs) with
      | .error reason => .error reason
      | .ok after =>
        after.itruncIndirect sb ((vol.inode inum).addrs NDIRECT) := by
  simp only [itrunc, detach, bfreeAll_setInode]
  cases vol.bfreeAll sb ((List.range NDIRECT).map (vol.inode inum).addrs) with
  | error reason => rfl
  | ok middle =>
    simp only [Except.map, itruncIndirect_setInode]
    cases middle.itruncIndirect sb ((vol.inode inum).addrs NDIRECT) with
    | error reason | ok after => rfl

theorem setInode_inode_of_ne (differs : other ≠ inum) (ip : Inode) :
    (vol.setInode inum ip).inode other = vol.inode other := by
  simp [setInode, differs]

@[simp] theorem setInode_inode_self (ip : Inode) : (vol.setInode inum ip).inode inum = ip := by
  simp [setInode]

theorem detach_slot (index : Nat) : (vol.detach inum).slot inum index = 0 := by simp [detach, slot]

theorem detach_blocks : (vol.detach inum).blocks inum = 0 := by
  rw [blocks]
  split
  next => rfl
  next =>
    rw [← @contents_none Nat NSLOTS]
    refine contents_congr fun index _ => ?_
    rw [owned, if_pos (detach_slot index)]

theorem setInode_blocks_of_ne (differs : other ≠ inum) (ip : Inode) :
    (vol.setInode inum ip).blocks other = vol.blocks other :=
  blocks_congr (setInode_inode_of_ne differs ip) fun index _ =>
    slot_congr (setInode_inode_of_ne differs ip) (fun _ => rfl) index

theorem Owned.detach (owned : Owned sb vol hand) (below : inum < sb.ninodes) :
    Owned sb (vol.detach inum) (vol.blocks inum + hand) := by
  have changed : (vol.detach inum).references sb + vol.blocks inum =
      vol.references sb + (vol.detach inum).blocks inum :=
    references_change below fun other _ differs => setInode_blocks_of_ne differs _
  rw [detach_blocks, add_zero] at changed
  refine owned.transfer ?_ fun _ _ => rfl
  rw [← add_assoc, changed]

theorem filterMap_owned (indices : List Nat) : indices.filterMap (vol.owned inum) =
      (indices.map (vol.slot inum)).filter (· ≠ 0) := by
  induction indices with
  | nil => rfl
  | cons index indices induction =>
    by_cases zero : vol.slot inum index = 0
    · have absent : vol.owned inum index = none := if_pos zero
      rw [List.filterMap_cons_none absent, List.map_cons,
        List.filter_cons_of_neg (by simpa using zero), induction]
    · have present : vol.owned inum index = some (vol.slot inum index) := if_neg zero
      rw [List.filterMap_cons_some present, List.map_cons,
        List.filter_cons_of_pos (by simpa using zero), induction]

/-- The slots in the order in which `itrunc` frees their blocks. -/
theorem blocks_eq (typed : (vol.inode inum).type ≠ 0) : vol.blocks inum =
      ↑(((List.range NDIRECT).map (vol.inode inum).addrs).filter (· ≠ 0)) +
        (↑(((List.range NINDIRECT).map fun entry =>
            vol.slot inum (NDIRECT + 1 + entry)).filter (· ≠ 0)) +
          ↑([(vol.inode inum).addrs NDIRECT].filter (· ≠ 0))) := by
  have direct : (List.range NDIRECT).map (vol.slot inum) =
      (List.range NDIRECT).map (vol.inode inum).addrs := by
    apply List.map_congr_left
    intro index member
    exact slot_direct (Nat.le_of_lt (List.mem_range.mp member))
  have pointer : [NDIRECT].map (vol.slot inum) = [(vol.inode inum).addrs NDIRECT] := by
    rw [List.map_singleton, slot_direct (le_refl NDIRECT)]
  rw [blocks, if_neg typed, contents_eq_filterMap, filterMap_owned, NSLOTS,
    List.range_add, List.range_succ, List.map_append, List.map_append,
    List.filter_append, List.filter_append, direct, pointer, List.map_map,
    ← Multiset.coe_add, ← Multiset.coe_add, add_assoc, add_right_inj, add_comm]
  rfl

theorem Owned.itruncIndirect (layout : sb.Layout) (owned : Owned sb vol
      (↑(((List.range NINDIRECT).map fun entry =>
          if addr = 0 then 0 else Header.word (vol.block addr) entry).filter
            (· ≠ 0)) + ↑([addr].filter (· ≠ 0)) + hand)) :
    ∃ after, vol.itruncIndirect sb addr = .ok after ∧ Owned sb after hand ∧ Freed sb vol
        (↑(((List.range NINDIRECT).map fun entry =>
          if addr = 0 then 0 else Header.word (vol.block addr) entry).filter
            (· ≠ 0)) + ↑([addr].filter (· ≠ 0))) after := by
  rw [Volume.itruncIndirect]
  by_cases absent : addr = 0
  · subst absent
    have none : ((List.range NINDIRECT).map fun _ => 0).filter
        (fun addr : Nat => decide (addr ≠ 0)) = [] := by
      rw [List.filter_eq_nil_iff]
      simp
    simp only [if_true] at owned ⊢
    rw [none] at owned ⊢
    simp only [Multiset.coe_nil, zero_add, ne_eq, not_true_eq_false,
      decide_false, Bool.false_eq_true, not_false_eq_true,
      List.filter_cons_of_neg, List.filter_nil] at owned ⊢
    exact ⟨vol, rfl, owned, .refl⟩
  · simp only [if_neg absent] at owned ⊢
    rw [add_assoc] at owned
    obtain ⟨middle, frees, kept, entries⟩ := owned.bfreeAll layout
    rw [List.filter_cons_of_pos (by simpa using absent), List.filter_nil]
      at kept ⊢
    obtain ⟨after, last, kept, pointer⟩ := kept.bfree layout
    refine ⟨after, ?_, kept, entries.trans pointer⟩
    rw [frees]
    exact last

theorem Owned.itrunc (layout : sb.Layout) (owned : Owned sb vol hand)
    (allocated : Allocated sb vol inum) :
    ∃ after, vol.itrunc sb inum = .ok after ∧ Owned sb after hand ∧
      Freed sb (vol.detach inum) (vol.blocks inum) after := by
  have detached := owned.detach allocated.below
  rw [blocks_eq allocated.typed, add_assoc] at detached
  obtain ⟨middle, direct, kept, first⟩ := detached.bfreeAll layout
  have entries : (fun entry => vol.slot inum (NDIRECT + 1 + entry)) =
      fun entry => if (vol.inode inum).addrs NDIRECT = 0 then 0
        else Header.word (middle.block ((vol.inode inum).addrs NDIRECT))
          entry := by
    funext entry
    rw [slot_entry]
    split
    next => rfl
    next present =>
      rw [first.blocks _ (owned.indirect allocated present).1]
      rfl
  rw [entries] at kept
  obtain ⟨after, rest, kept, second⟩ := kept.itruncIndirect layout
  refine ⟨after, ?_, kept, ?_⟩
  · rw [itrunc_eq, direct]
    exact rest
  · rw [blocks_eq allocated.typed, entries]
    exact first.trans second

end Xv6KernelEvent.Volume
