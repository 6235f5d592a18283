import Xv6KernelEvent.Memory.UserSpace

/-!
# Taking bytes out of kernel queues

`piperead` and `consoleread` move bytes one at a time from a ring to user
memory.  Their models report each attempt to copy a byte out: the read cursor
at which the byte stood, and whether the copy succeeded.
-/

namespace Xv6KernelEvent

/-- One attempt to hand a queued byte to user space. -/
structure Attempt where
  cursor : UInt32
  copied : Bool
  deriving DecidableEq

/-- A byte whose copy failed is still queued, and the next one to be handed
out: the read cursor stands where it stood for that byte. -/
def KeepsUndelivered (attempts : List Attempt) (cursor : UInt32) : Prop :=
  ∀ attempt ∈ attempts, attempt.copied = false → cursor = attempt.cursor

/-- `either_copyout(user_dst, dst, &byte, 1)`.  A copy to a kernel address
cannot fail; its target is outside user memory. -/
def eitherCopyoutByte (userDst : Bool) (alloc : Nat → Bool)
    (space : UserSpace) (dst : Nat) (byte : UInt8) : Int × UserSpace :=
  if userDst then space.copyout alloc dst (fun _ => byte) 1 else (0, space)

namespace UserSpace

variable {space : UserSpace} {alloc : Nat → Bool}

theorem writable_one_iff (dst : Nat) :
    space.Writable alloc dst 1 ↔ space.PageWritable alloc (dst / PGSIZE) := by
  constructor
  · intro writable
    simpa using writable 0 (by decide)
  · intro page offset below
    have first : offset = 0 := by omega
    simpa [first] using page

/-- Storing into a page that may be stored into keeps every page as writable
as it was. -/
theorem pageWritable_setPage {page : Page} (writable : space.PageWritable alloc number)
    (user : page.user = true) (stores : page.writable = true) (other : Nat) :
    (space.setPage number page).PageWritable alloc other ↔ space.PageWritable alloc other := by
  by_cases same : other = number
  · subst other
    have mapped : (space.setPage number page).page number = some page := Function.update_self _ _ _
    simp only [writable, iff_true]
    simp only [PageWritable, mapped]
    exact ⟨writable.1, user, stores⟩
  · exact pageWritable_congr (setPage_page_ne page same) rfl

/-- A page that is resolved is mapped then, and no byte is lost. -/
theorem resolve_load (resolved : space.resolve alloc va0 = some (found, next)) :
    next.page (va0 / PGSIZE) = some found ∧
      ∀ va byte, space.load va = some byte → next.load va = some byte := by
  rcases (resolve_cases resolved).2 with ⟨mapped, rfl⟩ | ⟨unmapped, rfl⟩
  · exact ⟨mapped, fun va byte loaded => loaded⟩
  · refine ⟨Function.update_self .., fun va byte loaded => ?_⟩
    by_cases same : va / PGSIZE = va0 / PGSIZE
    · rw [load, same, unmapped] at loaded
      cases loaded
    · rwa [load, setPage_page_ne _ same]

theorem load_setPage_store {page : Page} (mapped : space.page number = some page)
    (start length : Nat) (source : Nat → UInt8) (va : Nat) :
    (space.setPage number (page.store start length source)).load va =
      if va / PGSIZE = number ∧ start ≤ va % PGSIZE ∧ va % PGSIZE < start + length then
        some (source (va % PGSIZE - start))
      else space.load va := by
  by_cases same : va / PGSIZE = number
  · subst number
    simp only [load, setPage, Function.update_self, mapped, Option.map_some, Page.store, true_and,
      apply_ite some]
  · rw [if_neg (fun inside => same inside.1), load, setPage_page_ne _ same]
    rfl

/-- A one-byte `copyout` stores the byte at its address, or fails and stores
nothing; the other bytes stay. -/
theorem load_copyout_byte (space : UserSpace) (alloc : Nat → Bool) (dst : Nat) (byte : UInt8) :
    let (result, after) := space.copyout alloc dst (fun _ => byte) 1
    (result ≠ -1 → after.load dst = some byte) ∧
      ∀ va old, (result = -1 ∨ va ≠ dst) → space.load va = some old → after.load va = some old := by
  simp only [copyout, copyoutLoop, Nat.zero_lt_one, if_true]
  split
  · simp
  · cases resolved : space.resolve alloc (pgrounddown dst) with
    | none => simp
    | some result =>
      obtain ⟨found, next⟩ := result
      obtain ⟨mapped, keeps⟩ := resolve_load resolved
      simp only
      split
      · have offset : dst - pgrounddown dst = dst % PGSIZE := by
          have := Nat.div_add_mod' dst PGSIZE
          rw [pgrounddown]
          omega
        have room := Nat.mod_lt dst PGSIZE_pos
        rw [offset, show min (PGSIZE - dst % PGSIZE) 1 = 1 by omega]
        simp only [load_setPage_store mapped]
        refine ⟨fun _ => ?_, fun va old other loaded => ?_⟩
        · exact if_pos ⟨(pgrounddown_div dst).symm, Nat.le_refl _, Nat.lt_succ_self _⟩
        rw [if_neg]
        · exact keeps va old loaded
        · rintro ⟨page, lower, upper⟩
          refine other.resolve_left (by decide) ?_
          rw [← Nat.div_add_mod' va PGSIZE, ← Nat.div_add_mod' dst PGSIZE, page, pgrounddown_div]
          omega
      · exact ⟨fun success => absurd rfl success, fun va old _ => keeps va old⟩

/-- A successful one-byte `copyout` keeps every page as writable as it
was. -/
theorem pageWritable_copyout_byte (success : (space.copyout alloc dst (fun _ => byte) 1).1 = 0)
    (other : Nat) :
    (space.copyout alloc dst (fun _ => byte) 1).2.PageWritable alloc other ↔
      space.PageWritable alloc other := by
  have writable : space.PageWritable alloc (dst / PGSIZE) :=
    (writable_one_iff dst).mp ((copyout_eq_zero_iff _ _ _ _ _).mp success)
  obtain ⟨below, found, next, resolved, stores⟩ :=
    (resolve_writable_iff space alloc
      (show pgrounddown dst = dst / PGSIZE * PGSIZE from rfl)).mpr writable
  obtain ⟨user, origin⟩ := resolve_cases resolved
  have notAbove : ¬pgrounddown dst ≥ MAXVA := by omega
  have result : (space.copyout alloc dst (fun _ => byte) 1).2 =
      next.setPage (pgrounddown dst / PGSIZE) (found.store (dst - pgrounddown dst)
          (min (PGSIZE - (dst - pgrounddown dst)) 1) fun _ => byte) := by
    simp [copyout, copyoutLoop, notAbove, resolved, stores]
  rw [result]
  have keeps : ∀ page, next.PageWritable alloc page ↔ space.PageWritable alloc page := by
    intro page
    rcases origin with ⟨_, same⟩ | ⟨_, mapped⟩
    · rw [same]
    · rw [mapped]
      exact pageWritable_setPage (by rwa [pgrounddown_div]) user stores page
  have target : next.PageWritable alloc (pgrounddown dst / PGSIZE) :=
    (keeps _).mpr (by rwa [pgrounddown_div])
  refine Iff.trans (pageWritable_setPage target ?_ ?_ other) (keeps other)
  · exact user
  · exact stores

end UserSpace

/-- A byte handed to `either_copyout` arrives exactly when its target may be
stored into. -/
theorem eitherCopyoutByte_eq_neg_one_iff
    (userDst : Bool) (alloc : Nat → Bool) (space : UserSpace) (dst : Nat) (byte : UInt8) :
    (eitherCopyoutByte userDst alloc space dst byte).1 = -1 ↔
      userDst = true ∧ ¬space.PageWritable alloc (dst / PGSIZE) := by
  cases userDst with
  | false => simp [eitherCopyoutByte]
  | true =>
    simp only [eitherCopyoutByte, if_true, true_and]
    rw [UserSpace.copyout_eq_neg_one_iff, UserSpace.writable_one_iff]

theorem pageWritable_eitherCopyoutByte
    (success : (eitherCopyoutByte userDst alloc space dst byte).1 ≠ -1) (other : Nat) :
    (eitherCopyoutByte userDst alloc space dst byte).2.PageWritable alloc other ↔
      space.PageWritable alloc other := by
  cases userDst with
  | false => simp [eitherCopyoutByte]
  | true =>
    simp only [eitherCopyoutByte, if_true] at success ⊢
    apply UserSpace.pageWritable_copyout_byte
    rcases UserSpace.copyoutLoop_result alloc 1 space dst (fun _ => byte) 1
      with zero | negative
    · exact zero
    · exact absurd negative success

end Xv6KernelEvent
