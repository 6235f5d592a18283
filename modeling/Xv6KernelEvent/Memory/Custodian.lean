import Mathlib.Tactic.Abel
import Xv6KernelEvent.Memory.Growth

/-!
# Accounts of processes

The shape of a user page table, and what the system calls that change the
memory of a process hold: on every path the process ends with a page table of
that shape, and with the pages of its nodes, its leaves and its trapframe.
-/

namespace Xv6KernelEvent

open Custody

/-- The leaves of a process with `pages` pages of its own. -/
structure UserTable (trampoline trapframe pages : Nat) (table : PageTable) : Prop where
  wellFormed : table.WellFormed
  trampoline : table.leaf TRAMPOLINE =
    some { frame := trampoline, flags := PTE_R ||| PTE_X ||| PTE_V }
  trapframe : table.leaf TRAPFRAME = some { frame := trapframe, flags := PTE_R ||| PTE_W ||| PTE_V }
  bounded : ∀ page, table.leaf page ≠ none → page = TRAMPOLINE ∨ page = TRAPFRAME ∨ page < pages
  limit : pages ≤ TRAPFRAME

namespace UserTable

variable {trampoline trapframe pages : Nat}

section

variable (shape : UserTable trampoline trapframe pages table)

include shape

theorem bare (page : Nat) (above : pages ≤ page) (below : page < TRAPFRAME) :
    table.leaf page = none := by
  by_contra mapped
  have less : TRAPFRAME < TRAMPOLINE := by decide
  rcases shape.bounded page mapped with top | top | user <;> omega

/-- The leaves below the trapframe change. -/
theorem change (wellFormed : after.WellFormed) (limit : other ≤ TRAPFRAME)
    (top : ∀ page, TRAPFRAME ≤ page → after.leaf page = table.leaf page)
    (user : ∀ page < TRAPFRAME, after.leaf page ≠ none → page < other) :
    UserTable trampoline trapframe other after := by
  have less : TRAPFRAME ≤ TRAMPOLINE := by decide
  refine ⟨wellFormed, ?_, ?_, ?_, limit⟩
  · rw [top TRAMPOLINE less, shape.trampoline]
  · rw [top TRAPFRAME le_rfl, shape.trapframe]
  · intro page mapped
    rcases Nat.lt_or_ge page TRAPFRAME with low | high
    · exact .inr (.inr (user page low mapped))
    · rw [top page high] at mapped
      have bound := shape.limit
      rcases shape.bounded page mapped with found | found | below
      · exact .inl found
      · exact .inr (.inl found)
      · omega

theorem erase (limit : other ≤ pages) :
    UserTable trampoline trapframe other (table.erase other (pages - other)) := by
  have bound := shape.limit
  refine shape.change (shape.wellFormed.erase _) (limit.trans bound) ?_ ?_
  · intro page high
    exact if_neg (by omega)
  · intro page low mapped
    by_contra above
    rcases Nat.lt_or_ge page pages with below | beyond
    · exact mapped (if_pos (by omega))
    · apply mapped
      simp only [PageTable.erase, shape.bare page beyond low, ite_self]

theorem extend (extension : PageTable.Extends table pages other flags after)
    (limit : other ≤ TRAPFRAME) (ordered : pages ≤ other) :
    UserTable trampoline trapframe other after := by
  refine shape.change extension.wellFormed limit ?_ ?_
  · intro page high
    exact extension.outside page (by omega)
  · intro page low mapped
    by_contra above
    rw [extension.outside page (by omega)] at mapped
    exact mapped (shape.bare page (by omega) low)

/-- The size grows without a page. -/
theorem widen (ordered : pages ≤ other) (limit : other ≤ TRAPFRAME) :
    UserTable trampoline trapframe other table := by
  refine ⟨shape.wellFormed, shape.trampoline, shape.trapframe, ?_, limit⟩
  intro page mapped
  exact (shape.bounded page mapped).imp_right fun rest =>
    rest.imp_right fun below => below.trans_le ordered

theorem of_leaf_eq (wellFormed : after.WellFormed) (same : after.leaf = table.leaf) :
    UserTable trampoline trapframe pages after :=
  ⟨wellFormed, same ▸ shape.trampoline, same ▸ shape.trapframe, same ▸ shape.bounded, shape.limit⟩

/-- A page of the process is mapped. -/
theorem map (wellFormed : after.WellFormed) (below : page < pages)
    (mapped : after.leaf = Function.update table.leaf page (some leaf)) :
    UserTable trampoline trapframe pages after := by
  have bound := shape.limit
  refine shape.change wellFormed bound ?_ ?_
  · intro other high
    have elsewhere : other ≠ page := by omega
    rw [mapped, Function.update_of_ne elsewhere]
  · intro other low present
    by_cases same : other = page
    · omega
    · rw [mapped, Function.update_of_ne same] at present
      have less : TRAPFRAME < TRAMPOLINE := by decide
      rcases shape.bounded other present with top | top | user <;> omega

end

/-- `proc_freepagetable` gives back the nodes and the leaves. -/
theorem free_accounts (shape : UserTable trampoline trapframe (npages sz) table) :
    Accounts stock (fun _ held => held = 0) table.space (procFreepagetable table sz) := by
  have less : TRAPFRAME < TRAMPOLINE := by decide
  rw [procFreepagetable, PageTable.uvmunmap_keeping shape.wellFormed (by decide)]
  change Accounts stock _ _ (do
    let table ← (table.erase TRAMPOLINE 1).uvmunmap TRAPFRAME 1 false
    table.uvmfree sz)
  rw [PageTable.uvmunmap_keeping (shape.wellFormed.erase 1) (by decide)]
  change Accounts stock _ _ (((table.erase TRAMPOLINE 1).erase TRAPFRAME 1).uvmfree sz)
  have same : ((table.erase TRAMPOLINE 1).erase TRAPFRAME 1).space =
      table.space := by
    rw [PageTable.space, PageTable.space, PageTable.nodes_erase, PageTable.nodes_erase]
    congr 1
    apply PageTable.leafFrames_congr
    intro page low
    simp only [PageTable.erase]
    rw [if_neg (by omega), if_neg (by omega)]
  rw [← same]
  refine PageTable.uvmfree_accounts ((shape.wellFormed.erase 1).erase 1)
    (npages_le_iff.mp shape.limit) ?_
  intro page mapped
  simp only [PageTable.erase] at mapped
  split at mapped
  · exact absurd rfl mapped
  · rename_i not_trapframe
    split at mapped
    · exact absurd rfl mapped
    · rename_i not_trampoline
      rcases shape.bounded page mapped with top | top | user <;> omega

end UserTable

section Processes

variable {table : PageTable} {p : ProcessMemory}

theorem PageTable.space_of_bare (bare : ∀ page < TRAPFRAME, table.leaf page = none) :
    table.space = table.nodes := by
  rw [PageTable.space, PageTable.leafFrames_none bare, add_zero]

theorem PageTable.uvmfree_bare
    (wellFormed : table.WellFormed) (bare : ∀ page, table.leaf page = none) :
    Accounts stock (fun _ held => held = 0) table.nodes (table.uvmfree 0) := by
  rw [← PageTable.space_of_bare fun page _ => bare page]
  exact PageTable.uvmfree_accounts wellFormed (Nat.zero_le _)
    fun page mapped => absurd (bare page) mapped

/-- `proc_pagetable` returns a page table without user pages, or nothing. -/
theorem procPagetable_accounts : Accounts stock (fun made held => match made with
        | none => held = 0
        | some table => held = table.space ∧ UserTable trampoline trapframe 0 table)
      0 (procPagetable trampoline trapframe) := by
  have less : TRAPFRAME < TRAMPOLINE := by decide
  refine Accounts.acquire_seq rfl ?_
  intro root available
  have start : (PageTable.empty root).nodes = root ::ₘ 0 := PageTable.nodes_empty root
  rw [← start]
  refine Accounts.seq (by
    rw [PageTable.mappages_one]
    exact PageTable.mapPage_accounts (PageTable.empty_wellFormed root)
      TRAMPOLINE_lt rfl trampoline _) ?_
  rintro ⟨mapped, first⟩ held ⟨rfl, wellFormed, _, leaf⟩
  cases mapped with
  | false =>
    have bare (page : Nat) : first.leaf page = none := congrFun leaf page
    refine (PageTable.uvmfree_bare wellFormed bare).seq ?_
    rintro - held rfl
    exact rfl
  | true =>
    have unmapped : first.leaf TRAPFRAME = none := by
      rw [leaf]
      simp only [if_true]
      rw [Function.update_of_ne (Nat.ne_of_lt less)]
      rfl
    refine Accounts.seq (by
      rw [PageTable.mappages_one]
      exact PageTable.mapPage_accounts wellFormed TRAPFRAME_lt unmapped trapframe _) ?_
    rintro ⟨mapped, second⟩ held ⟨rfl, kept, _, leaves⟩
    cases mapped with
    | false =>
      have same : second.leaf = first.leaf := leaves
      have bare (page : Nat) : (second.erase TRAMPOLINE 1).leaf page = none := by
        simp only [PageTable.erase]
        split
        · rfl
        · rename_i elsewhere
          rw [same, leaf]
          simp only [if_true]
          rw [Function.update_of_ne (by omega)]
          rfl
      have emptied : Accounts stock (fun _ held => held = 0) (second.erase TRAMPOLINE 1).nodes
          ((second.erase TRAMPOLINE 1).uvmfree 0) :=
        PageTable.uvmfree_bare (kept.erase 1) bare
      rw [PageTable.nodes_erase] at emptied
      simp only [Bool.false_eq_true, if_false]
      rw [PageTable.uvmunmap_keeping kept (by decide)]
      refine emptied.seq ?_
      rintro - held rfl
      exact rfl
    | true =>
      simp only [if_true] at leaf leaves
      have users (page : Nat) (low : page < TRAPFRAME) : second.leaf page = none := by
        rw [leaves, leaf, Function.update_of_ne (by omega), Function.update_of_ne (by omega)]
        rfl
      refine ⟨(PageTable.space_of_bare users).symm, kept, ?_, ?_, ?_, Nat.zero_le _⟩
      · rw [leaves, Function.update_of_ne (Nat.ne_of_gt less), leaf, Function.update_self]
      · rw [leaves, Function.update_self]
      · intro page mapped
        by_contra other
        rw [not_or, not_or] at other
        rw [leaves, Function.update_of_ne other.2.1, leaf, Function.update_of_ne other.1] at mapped
        exact mapped rfl

namespace ProcessMemory

/-- The page table has the shape that `sz` asks for. -/
def Sound (trampoline : Nat) (p : ProcessMemory) : Prop :=
  UserTable trampoline p.trapframe (npages p.sz) p.table

/-- The pages that a process owns. -/
def holdings (p : ProcessMemory) : Multiset Nat := p.trapframe ::ₘ p.table.space

theorem holdings_eq (p : ProcessMemory) : p.holdings = p.table.space + {p.trapframe} := by
  rw [holdings, ← Multiset.singleton_add, add_comm]

end ProcessMemory

theorem freeproc_accounts (sound : p.Sound trampoline) :
    Accounts stock (fun _ held => held = 0) p.holdings
      (freeproc (some p.trapframe) (some p.table) p.sz) :=
  Accounts.release_seq rfl sound.free_accounts

theorem allocproc_accounts : Accounts stock (fun made held => match made with
        | none => held = 0
        | some p => held = p.holdings ∧ p.sz = 0 ∧ p.Sound trampoline)
      0 (allocproc trampoline) := by
  refine Accounts.acquire_seq rfl ?_
  intro trapframe available
  refine procPagetable_accounts.seq_frame (zero_add _).symm ?_
  rintro (_ | table) held made
  · obtain rfl := made
    exact ⟨0, rfl, rfl⟩
  · obtain ⟨rfl, shape⟩ := made
    rw [← show npages 0 = 0 by decide] at shape
    refine ⟨?_, rfl, shape⟩
    rw [ProcessMemory.holdings, add_comm]
    rfl

/-- `kfork` ends with the memory of a child of the same size, or with
nothing. -/
theorem kfork_accounts (sound : p.Sound trampoline) : Accounts stock
      (fun made held => match made with
        | none => held = 0
        | some np => held = np.holdings ∧ np.sz = p.sz ∧ np.Sound trampoline)
      0 (kfork trampoline p) := by
  refine allocproc_accounts.seq ?_
  rintro (_ | np) held made
  · exact made
  · obtain ⟨rfl, empty, shape⟩ := made
    rw [ProcessMemory.Sound, empty, show npages 0 = 0 by decide] at shape
    have bare (page : Nat) (low : page < TRAPFRAME) : np.table.leaf page = none :=
      shape.bare page (Nat.zero_le page) low
    have total : 0 + rounds 0 p.sz = npages p.sz := by
      rw [rounds]
      omega
    have limit := UserTable.limit sound
    refine (PageTable.uvmcopyLoop_accounts (UserTable.wellFormed sound) bare
      (rounds 0 p.sz) 0 np.table shape.wellFormed (fun _ _ => rfl)
      (by rwa [total])).seq_frame np.holdings_eq ?_
    rintro ⟨copied, after⟩ held ⟨rfl, wellFormed, leaves⟩
    rw [total] at leaves
    cases copied with
    | true =>
      refine ⟨(ProcessMemory.holdings_eq { np with table := after, sz := p.sz }).symm, rfl, ?_⟩
      refine shape.change wellFormed limit ?_ ?_
      · intro page high
        exact leaves page (limit.trans high)
      · intro page low mapped
        by_contra above
        rw [leaves page (not_lt.mp above), bare page low] at mapped
        exact mapped rfl
    | false =>
      have child : ProcessMemory.Sound trampoline { np with table := after } := by
        rw [ProcessMemory.Sound, empty, show npages 0 = 0 by decide]
        exact shape.of_leaf_eq wellFormed leaves
      have freed : Accounts stock _ _ _ := freeproc_accounts child
      rw [ProcessMemory.holdings_eq] at freed
      refine freed.seq ?_
      rintro - held rfl
      exact rfl

/-- What an operation on the memory of a process leaves. -/
def Keeps (trampoline : Nat) (p after : ProcessMemory) (held : Multiset Nat) : Prop :=
  held = after.holdings ∧ after.Sound trampoline ∧ after.sz = p.sz

/-- `vmfault` in the page table of the process. -/
theorem vmfault_accounts (sound : p.Sound trampoline) (va : Nat) : Accounts stock
      (fun (mem, after) held => Keeps trampoline p after held ∧
        (mem ≠ none → after.table.leaf (va / PGSIZE) ≠ none))
      p.holdings (vmfault p.table p va) := by
  have unchanged : Keeps trampoline p p p.holdings ∧
      ((none : Option Nat) ≠ none → p.table.leaf (va / PGSIZE) ≠ none) :=
    ⟨⟨rfl, sound, rfl⟩, fun none => absurd rfl none⟩
  rw [vmfault]
  split
  · exact unchanged
  · rename_i inside
    have limit := UserTable.limit sound
    have below : va / PGSIZE < npages p.sz := by
      simp only [npages, PGSIZE]
      omega
    have low : va / PGSIZE < VPAGES := by
      have := TRAPFRAME_lt
      omega
    rw [PageTable.ismapped, PageTable.walk_false (UserTable.wellFormed sound) low]
    change Accounts stock _ _ (if ((p.table.lower (va / PGSIZE / 512)).isSome &&
      (p.table.leaf (va / PGSIZE)).isSome) = true then _ else _)
    split
    · exact unchanged
    · rename_i absent
      have unmapped : p.table.leaf (va / PGSIZE) = none := by
        by_contra present
        have hangs := UserTable.wellFormed sound |>.lower_of_leaf present
        apply absent
        rw [Bool.and_eq_true, Option.isSome_iff_ne_none, Option.isSome_iff_ne_none]
        exact ⟨hangs, present⟩
      refine Accounts.acquire_seq unchanged ?_
      intro mem available
      refine (PageTable.mappages_user (UserTable.wellFormed sound) (by omega)
        unmapped mem _).seq_frame (show mem ::ₘ p.holdings =
          mem ::ₘ p.table.space + {p.trapframe} from ?_) ?_
      · rw [ProcessMemory.holdings_eq, Multiset.cons_add]
      · rintro ⟨mapped, after⟩ held ⟨wellFormed, leaf, rfl⟩
        cases mapped with
        | true =>
          refine ⟨⟨?_, UserTable.map sound wellFormed below leaf, rfl⟩, ?_⟩
          · simp only [if_true, add_zero]
            exact (ProcessMemory.holdings_eq { p with table := after }).symm
          · intro _
            simp [leaf]
        | false =>
          refine Accounts.release_seq (show _ = mem ::ₘ (p.trapframe ::ₘ
            after.space) from ?_) ⟨⟨rfl, UserTable.of_leaf_eq sound wellFormed
              leaf, rfl⟩, fun none => absurd rfl none⟩
          simp only [Bool.false_eq_true, if_false]
          rw [← Multiset.singleton_add, ← Multiset.singleton_add]
          abel

theorem walkaddr_pure (wellFormed : table.WellFormed) (va : Nat) :
    ∃ leaf, table.walkaddr va = pure leaf ∧ (leaf ≠ none → table.leaf (va / PGSIZE) ≠ none) := by
  rw [PageTable.walkaddr]
  split
  · exact ⟨none, rfl, fun none => absurd rfl none⟩
  · rename_i low
    rw [PageTable.walk_false wellFormed (by
      have pages : VPAGES = 2 ^ 26 := by decide
      simp only [PGSIZE, MAXVA] at low ⊢
      omega)]
    refine ⟨_, rfl, ?_⟩
    intro found unmapped
    simp [unmapped] at found

section

variable (sound : p.Sound trampoline)

include sound

theorem resolve_accounts (va0 : Nat) : Accounts stock
      (fun (resolved, after) held => Keeps trampoline p after held ∧
        (resolved = true → after.table.leaf (va0 / PGSIZE) ≠ none))
      p.holdings (resolve p.table p va0) := by
  obtain ⟨leaf, found, mapped⟩ := walkaddr_pure (UserTable.wellFormed sound) va0
  rw [resolve, found]
  cases leaf with
  | some leaf => exact ⟨⟨rfl, sound, rfl⟩, fun _ => mapped (by simp)⟩
  | none =>
    refine (vmfault_accounts sound va0).seq ?_
    rintro ⟨mem, after⟩ held ⟨kept, present⟩
    exact ⟨kept, fun some => present (Option.isSome_iff_ne_none.mp some)⟩

theorem copyin_accounts (fuel srcva len : Nat) :
    Accounts stock (fun (_, after) held => Keeps trampoline p after held)
      p.holdings (copyin fuel p srcva len) := by
  induction fuel generalizing p srcva len with
  | zero => exact ⟨rfl, sound, rfl⟩
  | succ fuel induction =>
    rw [copyin]
    split
    · exact ⟨rfl, sound, rfl⟩
    · refine (resolve_accounts sound (pgrounddown srcva)).seq ?_
      rintro ⟨resolved, after⟩ held ⟨⟨rfl, kept, size⟩, _⟩
      cases resolved with
      | false => exact ⟨rfl, kept, size⟩
      | true =>
        refine (induction kept _ _).mono ?_
        rintro ⟨copied, last⟩ held ⟨rfl, sound, same⟩
        exact ⟨rfl, sound, same.trans size⟩

theorem copyout_accounts (fuel dstva len : Nat) :
    Accounts stock (fun (_, after) held => Keeps trampoline p after held)
      p.holdings (copyout ProcessMemory.table fuel p dstva len) := by
  induction fuel generalizing p dstva len with
  | zero => exact ⟨rfl, sound, rfl⟩
  | succ fuel induction =>
    rw [copyout]
    split
    · exact ⟨rfl, sound, rfl⟩
    · simp only
      split
      · exact ⟨rfl, sound, rfl⟩
      · rename_i low
        refine (resolve_accounts sound (pgrounddown dstva)).seq ?_
        rintro ⟨resolved, after⟩ held ⟨⟨rfl, kept, size⟩, present⟩
        cases resolved with
        | false => exact ⟨rfl, kept, size⟩
        | true =>
          have mapped := present rfl
          have hangs := UserTable.wellFormed kept |>.lower_of_leaf mapped
          have below : pgrounddown dstva / PGSIZE < VPAGES := by
            have pages : VPAGES = 2 ^ 26 := by decide
            simp only [PGSIZE, MAXVA] at low ⊢
            omega
          simp only [if_true]
          rw [PageTable.walk_false (UserTable.wellFormed kept) below]
          obtain ⟨leaf, leaf_eq⟩ := Option.ne_none_iff_exists'.mp mapped
          obtain ⟨node, node_eq⟩ := Option.ne_none_iff_exists'.mp hangs
          simp only [node_eq, Program.pure_bind, Option.isSome_some, if_true, leaf_eq]
          split
          · exact ⟨rfl, kept, size⟩
          · refine (induction kept _ _).mono ?_
            rintro ⟨copied, last⟩ held ⟨rfl, sound, same⟩
            exact ⟨rfl, sound, same.trans size⟩

/-- `growproc` sets the size to the sum, keeps a size that the sum would take
below zero, or fails and changes nothing. -/
theorem growproc_accounts (low : -2 ^ 31 ≤ n) (high : n < 2 ^ 31) :
    Accounts stock (fun (grown, after) held => held = after.holdings ∧ after.Sound trampoline ∧
        if grown then (after.sz : Int) = p.sz + n ∨ p.sz + n < 0 ∧ after.sz = p.sz
        else after.sz = p.sz)
      p.holdings (p.growproc n) := by
  have limit : p.sz ≤ TRAPFRAME * PGSIZE := npages_le_iff.mp (UserTable.limit sound)
  have bytes : TRAPFRAME * PGSIZE = 274877898752 := by decide
  rw [ProcessMemory.growproc]
  generalize sum : ((p.sz + n) % 2 ^ 64).toNat = newsz
  simp only
  split
  · have grows : p.sz ≤ newsz := by omega
    have larger : max p.sz newsz = newsz := Nat.max_eq_right grows
    split
    · exact ⟨rfl, sound, rfl⟩
    · rename_i fits
      refine (PageTable.uvmalloc_accounts (UserTable.wellFormed sound) limit
        (UserTable.bare sound) (.inl (not_lt.mp fits))).seq_frame p.holdings_eq ?_
      rintro ⟨sz, after⟩ held ⟨rfl, ⟨rfl, small, extension⟩ | ⟨rfl, wellFormed, leaf⟩⟩
      · rw [larger] at small extension ⊢
        simp only
        rw [if_neg (by omega)]
        have kept : ProcessMemory.Sound trampoline { p with table := after, sz := newsz } :=
          UserTable.extend sound extension (npages_le_iff.mpr small) (npages_mono grows)
        refine ⟨(ProcessMemory.holdings_eq
          { p with table := after, sz := newsz }).symm, kept, .inl ?_⟩
        change (newsz : Int) = p.sz + n
        omega
      · exact ⟨(ProcessMemory.holdings_eq { p with table := after }).symm,
          UserTable.of_leaf_eq sound wellFormed leaf, rfl⟩
  · split
    · refine (PageTable.uvmdealloc_accounts (UserTable.wellFormed sound)
        limit).seq_frame p.holdings_eq ?_
      rintro ⟨sz, after⟩ held ⟨rfl, rfl, rfl⟩
      by_cases under : p.sz + n < 0
      · have wrapped : newsz ≥ p.sz := by omega
        have none_freed : npages p.sz - npages newsz = 0 :=
          Nat.sub_eq_zero_of_le (npages_mono wrapped)
        rw [if_pos wrapped, none_freed, PageTable.erase_zero]
        exact ⟨p.holdings_eq.symm, sound, .inr ⟨under, rfl⟩⟩
      · have less : ¬newsz ≥ p.sz := by omega
        rw [if_neg less]
        generalize shrunk : p.table.erase (npages newsz) (npages p.sz - npages newsz) = after
        have kept : ProcessMemory.Sound trampoline { p with table := after, sz := newsz } := by
          rw [← shrunk]
          exact UserTable.erase sound (npages_mono (Nat.le_of_not_le less))
        refine ⟨(ProcessMemory.holdings_eq
          { p with table := after, sz := newsz }).symm, kept, .inl ?_⟩
        change (newsz : Int) = p.sz + n
        omega
    · refine ⟨rfl, sound, .inl ?_⟩
      change (p.sz : Int) = p.sz + n
      omega

/-- `sys_sbrk` fails and changes nothing, or returns the old size. -/
theorem sysSbrk_accounts (t : Int) (low : -2 ^ 31 ≤ n) (high : n < 2 ^ 31) :
    Accounts stock (fun (value, after) held => held = after.holdings ∧ after.Sound trampoline ∧
        (value = -1 ∧ after.sz = p.sz ∨ value = p.sz ∧ ((after.sz : Int) = p.sz + n ∨
            p.sz + n < 0 ∧ after.sz = p.sz)))
      p.holdings (p.sysSbrk n t) := by
  have limit : p.sz ≤ TRAPFRAME * PGSIZE := npages_le_iff.mp (UserTable.limit sound)
  have bytes : TRAPFRAME * PGSIZE = 274877898752 := by decide
  rw [ProcessMemory.sysSbrk]
  simp only
  split
  · refine (growproc_accounts sound low high).seq ?_
    rintro ⟨grown, after⟩ held ⟨rfl, kept, size⟩
    refine ⟨rfl, kept, ?_⟩
    cases grown with
    | true => exact .inr ⟨rfl, size⟩
    | false => exact .inl ⟨rfl, size⟩
  · rename_i lazy
    rw [not_or] at lazy
    have sum : ((p.sz + n) % 2 ^ 64).toNat = p.sz + n.toNat := by omega
    rw [sum]
    split
    · exact ⟨rfl, sound, .inl ⟨rfl, rfl⟩⟩
    · split
      · exact ⟨rfl, sound, .inl ⟨rfl, rfl⟩⟩
      · rename_i fits
        refine ⟨rfl, ?_, .inr ⟨rfl, .inl ?_⟩⟩
        · exact UserTable.widen sound (npages_mono (Nat.le_add_right _ _))
            (npages_le_iff.mpr (not_lt.mp fits))
        · simp only
          omega

end

end Processes

end Xv6KernelEvent
