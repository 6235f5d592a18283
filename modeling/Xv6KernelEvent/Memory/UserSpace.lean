import Mathlib.Logic.Function.Basic
import Xv6KernelEvent.Library.CString

/-!
# User memory as the kernel sees it

The copy functions of `kernel/vm.c` that move data out to a process and fetch
strings from it.  A page table is the map from page numbers to mapped pages that
its leaf entries describe; `copyout_refines` takes it from physical memory.
Virtual addresses are natural numbers below `2 ^ 64`; every loop leaves before
an address could wrap, because `MAXVA` is far below that bound.

Physical pages are shared by all processes, so whether an allocation succeeds
is an input: `alloc page` says whether `vmfault` obtains the pages it needs to
map `page`.
-/

namespace Xv6KernelEvent

open CString

def PGSIZE : Nat := 4096

def MAXVA : Nat := 2 ^ 38

theorem PGSIZE_pos : 0 < PGSIZE := by decide

/-- A valid leaf entry with `PTE_V` set, and the bytes of the page behind it.
Offsets from `PGSIZE` on carry no meaning. -/
structure Page where
  user : Bool
  writable : Bool
  data : Nat → UInt8

/-- The part of a process that the copy functions use: `p->sz` and
`p->pagetable`. -/
structure UserSpace where
  sz : Nat
  page : Nat → Option Page

/-- The `memmove` of one page-sized piece of a `copyout`. -/
def Page.store (page : Page) (start length : Nat) (source : Nat → UInt8) : Page :=
  { page with
    data := fun offset =>
      if start ≤ offset ∧ offset < start + length then source (offset - start)
      else page.data offset }

/-- `PGROUNDDOWN(a)`. -/
def pgrounddown (va : Nat) : Nat := va / PGSIZE * PGSIZE

namespace UserSpace

variable (space : UserSpace)

/-- `walkaddr`, yielding the page instead of its physical address. -/
def walkaddr (va : Nat) : Option Page :=
  if va ≥ MAXVA then none
  else
    match space.page (va / PGSIZE) with
    | none => none
    | some page => if page.user then some page else none

/-- The byte at an address of a mapped page. -/
def load (va : Nat) : Option UInt8 := (space.page (va / PGSIZE)).map (·.data (va % PGSIZE))

/-- The address space with new contents for one mapped page. -/
def setPage (number : Nat) (page : Page) : UserSpace :=
  { space with page := Function.update space.page number (some page) }

/-- `vmfault`: the freshly mapped zero page, or `none` for its result 0. -/
def vmfault (alloc : Nat → Bool) (va : Nat) : Option (Page × UserSpace) :=
  if va ≥ space.sz then none
  else if (space.page (va / PGSIZE)).isSome then none
  else if alloc (va / PGSIZE) then
    let fresh : Page := { user := true, writable := true, data := fun _ => 0 }
    some (fresh, space.setPage (va / PGSIZE) fresh)
  else none

/-- The page that one iteration of `copyout` resolves, faulting it in when
needed, and the address space in which it is mapped. -/
def resolve (alloc : Nat → Bool) (va0 : Nat) : Option (Page × UserSpace) :=
  match space.walkaddr va0 with
  | some page => some (page, space)
  | none => space.vmfault alloc va0

/-- The loop of `copyout`.  The first argument bounds the number of
iterations; every iteration copies at least one byte. -/
def copyoutLoop (alloc : Nat → Bool) : Nat → UserSpace → Nat → (Nat → UInt8) → Nat → Int × UserSpace
  | 0, space, _, _, _ => (0, space)
  | fuel + 1, space, dstva, source, len =>
    if 0 < len then
      let va0 := pgrounddown dstva
      if va0 ≥ MAXVA then (-1, space)
      else
        match space.resolve alloc va0 with
        | none => (-1, space)
        | some (page, space) =>
          if page.writable then
            let n := min (PGSIZE - (dstva - va0)) len
            copyoutLoop alloc fuel (space.setPage (va0 / PGSIZE)
                (page.store (dstva - va0) n source))
              (va0 + PGSIZE) (fun offset => source (offset + n)) (len - n)
          else (-1, space)
    else (0, space)

/-- `copyout(pagetable, dstva, src, len)` on the page table of the running
process. -/
def copyout (alloc : Nat → Bool) (dstva : Nat) (source : Nat → UInt8)
    (len : Nat) : Int × UserSpace :=
  copyoutLoop alloc len space dstva source len

/-- The kernel may store into this page: it is mapped for the user and
writable, or it lies below `sz` and can be allocated on demand. -/
def PageWritable (alloc : Nat → Bool) (page : Nat) : Prop :=
  page * PGSIZE < MAXVA ∧ match space.page page with
    | some mapped => mapped.user = true ∧ mapped.writable = true
    | none => page * PGSIZE < space.sz ∧ alloc page = true

/-- The kernel may store into each of the `len` bytes from `va` on. -/
def Writable (alloc : Nat → Bool) (va len : Nat) : Prop :=
  ∀ offset, offset < len → space.PageWritable alloc ((va + offset) / PGSIZE)

end UserSpace

theorem pgrounddown_div (va : Nat) : pgrounddown va / PGSIZE = va / PGSIZE :=
  Nat.mul_div_cancel _ PGSIZE_pos

theorem pgrounddown_le (va : Nat) : pgrounddown va ≤ va := Nat.div_mul_le_self va PGSIZE

theorem lt_pgrounddown_add (va : Nat) : va < pgrounddown va + PGSIZE := by
  have division := Nat.div_add_mod va PGSIZE
  have remainder := Nat.mod_lt va PGSIZE_pos
  have product := Nat.mul_comm PGSIZE (va / PGSIZE)
  simp only [pgrounddown]
  omega

/-- Addresses of one page-sized stretch share their page number. -/
theorem div_eq_of_pgrounddown (lower : pgrounddown va ≤ other)
    (upper : other < pgrounddown va + PGSIZE) : other / PGSIZE = va / PGSIZE := by
  apply Nat.div_eq_of_lt_le
  · exact lower
  · rw [Nat.succ_mul]
    exact upper

namespace UserSpace

variable {space : UserSpace} {alloc : Nat → Bool}

theorem resolve_mapped (mapped : space.page (va0 / PGSIZE) = some found) :
    space.resolve alloc va0 =
      if va0 < MAXVA ∧ found.user = true then some (found, space) else none := by
  by_cases below : va0 < MAXVA
  · by_cases user : found.user = true
    · simp [resolve, walkaddr, mapped, below, Nat.not_le.mpr below, user]
    · simp [resolve, walkaddr, vmfault, mapped, user]
  · simp [resolve, walkaddr, vmfault, mapped, below, Nat.not_lt.mp below]

/-- A page without an entry gets one with zeros. -/
theorem resolve_unmapped (unmapped : space.page (va0 / PGSIZE) = none) :
    space.resolve alloc va0 =
      if va0 < space.sz ∧ alloc (va0 / PGSIZE) = true then
        let fresh : Page := { user := true, writable := true, data := fun _ => 0 }
        some (fresh, space.setPage (va0 / PGSIZE) fresh)
      else none := by
  by_cases inside : va0 < space.sz
  · by_cases allowed : alloc (va0 / PGSIZE) = true
    · simp [resolve, walkaddr, vmfault, unmapped, inside, allowed]
    · simp [resolve, walkaddr, vmfault, unmapped, allowed]
  · simp [resolve, walkaddr, vmfault, unmapped, inside]

/-- One iteration passes its checks exactly on a page it may store into. -/
theorem resolve_writable_iff (space : UserSpace) (alloc : Nat → Bool) {va0 page : Nat}
    (aligned : va0 = page * PGSIZE) :
    (va0 < MAXVA ∧ ∃ found next, space.resolve alloc va0 = some (found, next) ∧
        found.writable = true) ↔
      space.PageWritable alloc page := by
  have number : va0 / PGSIZE = page := by
    rw [aligned]
    exact Nat.mul_div_cancel _ PGSIZE_pos
  rw [PageWritable, ← aligned, ← number, and_congr_right_iff]
  intro below
  cases mapped : space.page (va0 / PGSIZE) with
  | none => simp [resolve_unmapped mapped]
  | some found => simp [resolve_mapped mapped, below]

theorem setPage_page_ne (page : Page) (different : other ≠ number) :
    (space.setPage number page).page other = space.page other :=
  Function.update_of_ne different _ _

/-- A page that is resolved was mapped for the user, or has just been mapped. -/
theorem resolve_cases (resolved : space.resolve alloc va0 = some (found, next)) :
    found.user = true ∧ (space.page (va0 / PGSIZE) = some found ∧ next = space ∨
      space.page (va0 / PGSIZE) = none ∧ next = space.setPage (va0 / PGSIZE) found) := by
  cases mapped : space.page (va0 / PGSIZE) with
  | none =>
    rw [resolve_unmapped mapped] at resolved
    obtain ⟨_, ⟨⟩⟩ := Option.ite_none_right_eq_some.mp resolved
    exact ⟨rfl, .inr ⟨rfl, rfl⟩⟩
  | some page =>
    rw [resolve_mapped mapped] at resolved
    obtain ⟨⟨_, user⟩, ⟨⟩⟩ := Option.ite_none_right_eq_some.mp resolved
    exact ⟨user, .inl ⟨rfl, rfl⟩⟩

/-- Resolving a page changes no other page and keeps the size. -/
theorem resolve_unchanged (resolved : space.resolve alloc va0 = some (found, next)) :
    next.sz = space.sz ∧ ∀ page, page ≠ va0 / PGSIZE → next.page page = space.page page := by
  rcases (resolve_cases resolved).2 with ⟨_, rfl⟩ | ⟨_, rfl⟩
  · exact ⟨rfl, fun _ _ => rfl⟩
  · exact ⟨rfl, fun page different => setPage_page_ne _ different⟩

theorem pageWritable_congr
    {other : UserSpace} {page : Nat} (pages : other.page page = space.page page)
    (sizes : other.sz = space.sz) :
    other.PageWritable alloc page ↔ space.PageWritable alloc page := by
  simp [PageWritable, pages, sizes]

/-- Copying starts page by page: the bytes of the first page, and the rest. -/
theorem writable_split (positive : 0 < len) : space.Writable alloc va len ↔
      space.PageWritable alloc (va / PGSIZE) ∧ space.Writable alloc (pgrounddown va + PGSIZE)
          (len - min (PGSIZE - (va - pgrounddown va)) len) := by
  have roundDown := pgrounddown_le va
  have roundUp := lt_pgrounddown_add va
  constructor
  · intro writable
    refine ⟨by simpa using writable 0 positive, ?_⟩
    intro offset below
    have shifted := writable (pgrounddown va + PGSIZE + offset - va) (by omega)
    have address : va + (pgrounddown va + PGSIZE + offset - va) =
        pgrounddown va + PGSIZE + offset := by omega
    rwa [address] at shifted
  · rintro ⟨first, rest⟩ offset below
    by_cases inside : va + offset < pgrounddown va + PGSIZE
    · rw [div_eq_of_pgrounddown (by omega) inside]
      exact first
    · have later := rest (va + offset - (pgrounddown va + PGSIZE)) (by omega)
      have address : pgrounddown va + PGSIZE +
          (va + offset - (pgrounddown va + PGSIZE)) = va + offset := by omega
      rwa [address] at later

/-- Writability from a page boundary on does not depend on earlier pages. -/
theorem writable_congr_of_aligned {other : UserSpace} {page len : Nat}
    (pages : ∀ later, page ≤ later → other.page later = space.page later)
    (sizes : other.sz = space.sz) :
    other.Writable alloc (page * PGSIZE) len ↔ space.Writable alloc (page * PGSIZE) len := by
  have pageAt : ∀ offset, page ≤ (page * PGSIZE + offset) / PGSIZE := by
    intro offset
    rw [Nat.le_div_iff_mul_le PGSIZE_pos]
    omega
  constructor
  · intro writable offset below
    exact (pageWritable_congr (pages _ (pageAt offset)) sizes).mp (writable offset below)
  · intro writable offset below
    exact (pageWritable_congr (pages _ (pageAt offset)) sizes).mpr (writable offset below)

theorem copyoutLoop_eq_zero_iff (enough : len ≤ fuel) :
    (copyoutLoop alloc fuel space dstva source len).1 = 0 ↔ space.Writable alloc dstva len := by
  induction fuel generalizing space dstva len source with
  | zero =>
    have empty : len = 0 := by omega
    subst len
    simp [copyoutLoop, Writable]
  | succ fuel induction =>
    rw [copyoutLoop]
    by_cases positive : 0 < len
    · have passes := resolve_writable_iff space alloc
        (show pgrounddown dstva = dstva / PGSIZE * PGSIZE from rfl)
      rw [writable_split positive, ← passes]
      simp only [positive, if_true]
      by_cases above : pgrounddown dstva ≥ MAXVA
      · have notBelow : ¬pgrounddown dstva < MAXVA := by omega
        simp [above, notBelow]
      · have below : pgrounddown dstva < MAXVA := by omega
        cases resolved : space.resolve alloc (pgrounddown dstva) with
        | none => simp [above]
        | some result =>
          obtain ⟨page, next⟩ := result
          by_cases writable : page.writable = true
          · have lengthDecreases : len - min (PGSIZE - (dstva - pgrounddown dstva)) len ≤
                  fuel := by
              have rounded := pgrounddown_le dstva
              have within := lt_pgrounddown_add dstva
              omega
            have boundary : pgrounddown dstva + PGSIZE = (dstva / PGSIZE + 1) * PGSIZE := by
              rw [Nat.succ_mul]
              rfl
            obtain ⟨sizes, pages⟩ := resolve_unchanged resolved
            have laterPages : ∀ later, dstva / PGSIZE + 1 ≤ later →
                (next.setPage (pgrounddown dstva / PGSIZE) (page.store (dstva - pgrounddown dstva)
                    (min (PGSIZE - (dstva - pgrounddown dstva)) len)
                    source)).page later = space.page later := by
              intro later after
              have different : later ≠ pgrounddown dstva / PGSIZE := by
                rw [pgrounddown_div]
                omega
              rw [setPage_page_ne _ different]
              exact pages later different
            simp only [above, if_false, writable, if_true, below,
              true_and, Option.some.injEq, Prod.mk.injEq]
            rw [induction lengthDecreases, boundary, writable_congr_of_aligned laterPages sizes]
            simp [writable]
          · simp [above, writable]
    · have empty : len = 0 := by omega
      subst len
      simp [Writable]

/-- `copyout` succeeds exactly on ranges the kernel may store into. -/
theorem copyout_eq_zero_iff (space : UserSpace) (alloc : Nat → Bool) (dstva len : Nat)
    (source : Nat → UInt8) :
    (space.copyout alloc dstva source len).1 = 0 ↔ space.Writable alloc dstva len :=
  copyoutLoop_eq_zero_iff le_rfl

/-- The only results of `copyout` are 0 and -1. -/
theorem copyoutLoop_result
    (alloc : Nat → Bool) (fuel : Nat) (space : UserSpace) (dstva : Nat) (source : Nat → UInt8)
    (len : Nat) :
    (copyoutLoop alloc fuel space dstva source len).1 = 0 ∨
      (copyoutLoop alloc fuel space dstva source len).1 = -1 := by
  induction fuel generalizing space dstva source len with
  | zero => exact .inl rfl
  | succ fuel induction =>
    simp only [copyoutLoop]
    split
    · split
      · exact .inr rfl
      · split
        · exact .inr rfl
        · split
          · exact induction _ _ _ _
          · exact .inr rfl
    · exact .inl rfl

theorem copyout_eq_neg_one_iff (space : UserSpace) (alloc : Nat → Bool) (dstva len : Nat)
    (source : Nat → UInt8) :
    (space.copyout alloc dstva source len).1 = -1 ↔ ¬space.Writable alloc dstva len := by
  rw [← copyout_eq_zero_iff space alloc dstva len source]
  rcases copyoutLoop_result alloc len space dstva source len with
    success | failure
  · simp [copyout, success]
  · simp [copyout, failure]

end UserSpace

end Xv6KernelEvent
