import Xv6KernelEvent.Library.Custody
import Xv6KernelEvent.Memory.Sv39

/-!
# Page tables as trees of pages

A three-level page table as the physical pages it is made of and the leaves
it holds, with `walk`, `mappages`, `uvmunmap` and `freewalk` (`kernel/vm.c`) as
programs that take pages from `kalloc` and give pages to `kfree`.

Addresses appear as page numbers: virtual page `n` is reached through entry
`n / 512 / 512` of the root and entry `n / 512 % 512` of the node below it, so
the nodes of the lowest level are numbered by `n / 512`.
-/

namespace Xv6KernelEvent

open Custody

/-- A valid entry of the lowest level. -/
structure Leaf where
  frame : Nat
  flags : UInt64
  deriving DecidableEq

/-- A page table, by the numbers of the physical pages of its nodes. -/
structure PageTable where
  root : Nat
  middle : Nat → Option Nat
  lower : Nat → Option Nat
  leaf : Nat → Option Leaf

/-- The number of virtual pages below `MAXVA`. -/
def VPAGES : Nat := MAXVA / PGSIZE

namespace PageTable

def empty (root : Nat) : PageTable :=
  { root := root
    middle := fun _ => none
    lower := fun _ => none
    leaf := fun _ => none }

def setMiddle (table : PageTable) (index frame : Nat) : PageTable :=
  { table with middle := Function.update table.middle index (some frame) }

def setLower (table : PageTable) (index frame : Nat) : PageTable :=
  { table with lower := Function.update table.lower index (some frame) }

def setLeaf (table : PageTable) (page : Nat) (leaf : Option Leaf) : PageTable :=
  { table with leaf := Function.update table.leaf page leaf }

/-- The last round of the loop of `walk`. -/
def walkLower (table : PageTable) (page : Nat) (alloc : Bool) : Program Nat (Bool × PageTable) :=
  match table.lower (page / 512) with
  | some _ => pure (true, table)
  | none =>
    if alloc then do
      match ← acquire with
      | none => pure (false, table)
      | some frame => pure (true, table.setLower (page / 512) frame)
    else pure (false, table)

/-- `walk`, which says whether there is an entry for the page. -/
def walk (table : PageTable) (page : Nat) (alloc : Bool) : Program Nat (Bool × PageTable) :=
  if page ≥ VPAGES then halt "walk"
  else
    match table.middle (page / 512 / 512) with
    | some _ => table.walkLower page alloc
    | none =>
      if alloc then do
        match ← acquire with
        | none => pure (false, table)
        | some frame => (table.setMiddle (page / 512 / 512) frame).walkLower page alloc
      else pure (false, table)

/-- One round of the loop of `mappages`. -/
def mapPage (table : PageTable) (page frame : Nat) (perm : UInt64) :
    Program Nat (Bool × PageTable) := do
  let (found, table) ← table.walk page true
  if found then
    if (table.leaf page).isSome then halt "mappages: remap"
    else pure (true, table.setLeaf page (some { frame := frame, flags := perm ||| PTE_V }))
  else pure (false, table)

/-- `mappages` for `count` pages, which says whether it succeeded. -/
def mappages (table : PageTable) (page : Nat) : (count : Nat) → (frame : Nat) →
    (perm : UInt64) → Program Nat (Bool × PageTable)
  | 0, _, _ => pure (true, table)
  | count + 1, frame, perm => do
    let (mapped, table) ← table.mapPage page frame perm
    if mapped then table.mappages (page + 1) count (frame + 1) perm
    else pure (false, table)

/-- One round of the loop of `uvmunmap`. -/
def unmapPage (table : PageTable) (page : Nat) (doFree : Bool) : Program Nat PageTable := do
  let (found, table) ← table.walk page false
  if found then
    match table.leaf page with
    | none => pure table
    | some leaf =>
      if doFree then do
        release leaf.frame
        pure (table.setLeaf page none)
      else pure (table.setLeaf page none)
  else pure table

/-- `uvmunmap` for `npages` pages. -/
def uvmunmap (table : PageTable) (page : Nat) : (npages : Nat) →
    (doFree : Bool) → Program Nat PageTable
  | 0, _ => pure table
  | npages + 1, doFree => do
    let table ← table.unmapPage page doFree
    table.uvmunmap (page + 1) npages doFree

/-- What `freewalk` does with an entry of the lowest level.  A leaf without
permissions would be taken for a node. -/
def freewalkLeaf (table : PageTable) (page : Nat) : Program Nat Unit :=
  match table.leaf page with
  | none => pure ()
  | some leaf =>
    if leaf.flags &&& (PTE_R ||| PTE_W ||| PTE_X) = 0 then halt "freewalk of a page"
    else halt "freewalk: leaf"

/-- What `freewalk` does with an entry for a node of the lowest level. -/
def freewalkLower (table : PageTable) (index : Nat) : Program Nat Unit :=
  match table.lower index with
  | none => pure ()
  | some frame => do
    forEach (fun entry => table.freewalkLeaf (512 * index + entry)) 512
    release frame

/-- What `freewalk` does with an entry of the root. -/
def freewalkMiddle (table : PageTable) (index : Nat) : Program Nat Unit :=
  match table.middle index with
  | none => pure ()
  | some frame => do
    forEach (fun entry => table.freewalkLower (512 * index + entry)) 512
    release frame

def freewalk (table : PageTable) : Program Nat Unit := do
  forEach table.freewalkMiddle 512
  release table.root

/-- Every entry hangs from a node. -/
structure WellFormed (table : PageTable) : Prop where
  middle_lt : ∀ {index}, table.middle index ≠ none → index < 512
  middle_of_lower : ∀ {index}, table.lower index ≠ none → table.middle (index / 512) ≠ none
  lower_of_leaf : ∀ {page}, table.leaf page ≠ none → table.lower (page / 512) ≠ none

/-- The pages of the nodes. -/
@[irreducible]
def nodes (table : PageTable) : Multiset Nat :=
  table.root ::ₘ (contents 512 table.middle + contents (512 * 512) table.lower)

variable {table : PageTable} {page : Nat} {stock : Multiset Nat}

theorem empty_wellFormed (root : Nat) : (empty root).WellFormed :=
  ⟨fun absent => absurd rfl absent, fun absent => absurd rfl absent,
    fun absent => absurd rfl absent⟩

theorem nodes_empty (root : Nat) : (empty root).nodes = {root} := by
  simp [nodes, empty, contents_none]

theorem index_lt (below : page < VPAGES) : page / 512 < 512 * 512 ∧ page / 512 / 512 < 512 := by
  have pages : VPAGES = 2 ^ 26 := by decide
  omega

theorem WellFormed.setMiddle (wellFormed : table.WellFormed) (below : page < VPAGES) (frame : Nat) :
    (table.setMiddle (page / 512 / 512) frame).WellFormed := by
  refine ⟨?_, ?_, wellFormed.lower_of_leaf⟩
  · intro index present
    by_cases same : index = page / 512 / 512
    · rw [same]
      exact (index_lt below).2
    · apply wellFormed.middle_lt
      simpa [PageTable.setMiddle, Function.update_of_ne same] using present
  · intro index present
    by_cases same : index / 512 = page / 512 / 512
    · simp [PageTable.setMiddle, same]
    · have kept := wellFormed.middle_of_lower present
      simpa [PageTable.setMiddle, Function.update_of_ne same] using kept

theorem WellFormed.setLower (wellFormed : table.WellFormed)
    (hangs : table.middle (page / 512 / 512) ≠ none) (frame : Nat) :
    (table.setLower (page / 512) frame).WellFormed := by
  refine ⟨wellFormed.middle_lt, ?_, ?_⟩
  · intro index present
    by_cases same : index = page / 512
    · rw [same]
      exact hangs
    · apply wellFormed.middle_of_lower
      simpa [PageTable.setLower, Function.update_of_ne same] using present
  · intro other present
    by_cases same : other / 512 = page / 512
    · simp [PageTable.setLower, same]
    · have kept := wellFormed.lower_of_leaf present
      simpa [PageTable.setLower, Function.update_of_ne same] using kept

theorem WellFormed.setLeaf (wellFormed : table.WellFormed) {leaf : Option Leaf}
    (hangs : leaf ≠ none → table.lower (page / 512) ≠ none) :
    (table.setLeaf page leaf).WellFormed := by
  refine ⟨wellFormed.middle_lt, wellFormed.middle_of_lower, ?_⟩
  intro other present
  by_cases same : other = page
  · subst other
    apply hangs
    simpa [PageTable.setLeaf] using present
  · apply wellFormed.lower_of_leaf
    simpa [PageTable.setLeaf, Function.update_of_ne same] using present

theorem nodes_setMiddle (below : page < VPAGES) (absent : table.middle (page / 512 / 512) = none)
    (frame : Nat) : (table.setMiddle (page / 512 / 512) frame).nodes = frame ::ₘ table.nodes := by
  simp only [nodes, setMiddle]
  rw [contents_put (index_lt below).2 absent, Multiset.cons_add, Multiset.cons_swap]

theorem nodes_setLower (below : page < VPAGES) (absent : table.lower (page / 512) = none)
    (frame : Nat) : (table.setLower (page / 512) frame).nodes = frame ::ₘ table.nodes := by
  simp only [nodes, setLower]
  rw [contents_put (index_lt below).1 absent, Multiset.add_cons, Multiset.cons_swap]

@[simp]
theorem nodes_setLeaf (table : PageTable) (page : Nat) (leaf : Option Leaf) :
    (table.setLeaf page leaf).nodes = table.nodes := by
  simp only [nodes, setLeaf]

/-- What `walk` leaves: a table with the same leaves, made of the pages held. -/
structure Walked (before : PageTable) (page : Nat) (found : Bool) (after : PageTable) : Prop where
  wellFormed : after.WellFormed
  leaf : after.leaf = before.leaf
  root : after.root = before.root
  hangs : found = true → after.lower (page / 512) ≠ none

section

variable (wellFormed : table.WellFormed)

include wellFormed

theorem walkLower_accounts (below : page < VPAGES)
    (hangs : table.middle (page / 512 / 512) ≠ none) (alloc : Bool) :
    Accounts stock (fun (found, after) held => held = after.nodes ∧ Walked table page found after)
      table.nodes (table.walkLower page alloc) := by
  unfold walkLower
  split
  · rename_i frame present
    exact ⟨rfl, wellFormed, rfl, rfl, fun _ => by simp [present]⟩
  · rename_i absent
    cases alloc with
    | false => exact ⟨rfl, wellFormed, rfl, rfl, fun found => by cases found⟩
    | true =>
      refine Accounts.acquire_seq ?_ ?_
      · exact ⟨rfl, wellFormed, rfl, rfl, fun found => by cases found⟩
      · intro frame available
        refine ⟨(nodes_setLower below absent frame).symm,
          wellFormed.setLower hangs frame, rfl, rfl, ?_⟩
        intro found
        simp [setLower]

theorem walk_accounts (below : page < VPAGES) (alloc : Bool) :
    Accounts stock (fun (found, after) held => held = after.nodes ∧ Walked table page found after)
      table.nodes (table.walk page alloc) := by
  rw [walk, if_neg (Nat.not_le.mpr below)]
  split
  · rename_i frame present
    exact walkLower_accounts wellFormed below (by simp [present]) alloc
  · rename_i absent
    cases alloc with
    | false => exact ⟨rfl, wellFormed, rfl, rfl, fun found => by cases found⟩
    | true =>
      refine Accounts.acquire_seq ?_ ?_
      · exact ⟨rfl, wellFormed, rfl, rfl, fun found => by cases found⟩
      · intro frame available
        have hangs : (table.setMiddle (page / 512 / 512) frame).middle
            (page / 512 / 512) ≠ none := by simp [setMiddle]
        have walked : Accounts stock _ _ _ := walkLower_accounts
          (wellFormed.setMiddle below frame) below hangs true
        rw [nodes_setMiddle below absent] at walked
        exact walked.mono fun outcome held holds =>
          ⟨holds.1, holds.2.wellFormed, holds.2.leaf, holds.2.root, holds.2.hangs⟩

/-- The pages that `walk` adds come from the free list. -/
theorem walk_conserves
    (executes : (table.walk page alloc).execute free = .ok ((found, after), remaining)) :
    after.WellFormed ∧ after.nodes + (remaining : Multiset Nat) = table.nodes + free := by
  rcases Nat.lt_or_ge page VPAGES with below | above
  · obtain ⟨outcome, rest, last, same, ⟨rfl, walked⟩, kept⟩ :=
      (walk_accounts wellFormed below alloc).execute free (le_refl _)
    rw [executes] at same
    cases same
    exact ⟨walked.wellFormed, kept⟩
  · rw [walk, if_pos above] at executes
    cases executes

theorem walk_false (below : page < VPAGES) :
    table.walk page false = pure ((table.lower (page / 512)).isSome, table) := by
  rw [walk, if_neg (Nat.not_le.mpr below)]
  split
  · rw [walkLower]
    split <;> rename_i lower <;> rw [lower] <;> rfl
  · rename_i absent
    have bare : table.lower (page / 512) = none := by
      by_contra present
      exact wellFormed.middle_of_lower present absent
    rw [bare]
    rfl

end

theorem walkLower_always (table : PageTable) (page : Nat) (alloc : Bool) :
    Always (fun (found, after) =>
        after.leaf = table.leaf ∧ after.root = table.root ∧
          (found = true → after.lower (page / 512) ≠ none))
      (table.walkLower page alloc) := by
  unfold walkLower
  split
  · rename_i frame present
    exact ⟨rfl, rfl, fun _ => by simp [present]⟩
  · cases alloc with
    | false => exact ⟨rfl, rfl, fun found => by cases found⟩
    | true =>
      intro result
      cases result with
      | none => exact ⟨rfl, rfl, fun found => by cases found⟩
      | some frame => exact ⟨rfl, rfl, fun _ => by simp [setLower]⟩

theorem walk_always (table : PageTable) (page : Nat) (alloc : Bool) : Always (fun (found, after) =>
        after.leaf = table.leaf ∧ after.root = table.root ∧
          (found = true → after.lower (page / 512) ≠ none))
      (table.walk page alloc) := by
  unfold walk
  split
  · trivial
  · split
    · exact table.walkLower_always page alloc
    · cases alloc with
      | false => exact ⟨rfl, rfl, fun found => by cases found⟩
      | true =>
        intro result
        cases result with
        | none => exact ⟨rfl, rfl, fun found => by cases found⟩
        | some frame => exact (table.setMiddle (page / 512 / 512) frame).walkLower_always page true

theorem mapPage_always (table : PageTable) (page frame : Nat) (perm : UInt64) :
    Always (fun (mapped, after) =>
        after.leaf = (if mapped then Function.update table.leaf page
            (some { frame := frame, flags := perm ||| PTE_V })
          else table.leaf) ∧ after.root = table.root)
      (table.mapPage page frame perm) := by
  refine (table.walk_always page true).seq ?_
  rintro ⟨found, after⟩ ⟨leaf, root, _⟩
  cases found with
  | false => exact ⟨leaf, root⟩
  | true =>
    simp only [if_true]
    split
    · trivial
    · refine ⟨?_, root⟩
      simp only [setLeaf, leaf, if_true]

/-- The table with `count` pages from `page` on mapped to the frames from
`frame` on. -/
def overlay (leaf : Nat → Option Leaf) (page count frame : Nat)
    (perm : UInt64) (other : Nat) : Option Leaf :=
  if page ≤ other ∧ other < page + count then
    some { frame := frame + (other - page), flags := perm ||| PTE_V }
  else leaf other

theorem overlay_zero (leaf : Nat → Option Leaf) (page frame : Nat) (perm : UInt64) :
    overlay leaf page 0 frame perm = leaf := by
  funext other
  rw [overlay, if_neg (by omega)]

theorem overlay_succ (leaf : Nat → Option Leaf) (page count frame : Nat) (perm : UInt64) :
    overlay (Function.update leaf page
        (some { frame := frame, flags := perm ||| PTE_V })) (page + 1) count
        (frame + 1) perm =
      overlay leaf page (count + 1) frame perm := by
  funext other
  by_cases same : other = page
  · subst other
    rw [overlay, if_neg (by omega), overlay, if_pos (by omega),
      Function.update_self, Nat.sub_self, Nat.add_zero]
  · by_cases inside : page + 1 ≤ other ∧ other < page + 1 + count
    · rw [overlay, if_pos inside, overlay, if_pos (by omega),
        show frame + 1 + (other - (page + 1)) = frame + (other - page) by omega]
    · rw [overlay, if_neg inside, overlay, if_neg (by omega), Function.update_of_ne same]

/-- What `mappages` has mapped when it returns. -/
theorem mappages_always (table : PageTable) (page count frame : Nat) (perm : UInt64) :
    Always (fun (mapped, after) => after.root = table.root ∧
        ∃ reached, (if mapped then reached = count else reached < count) ∧
          after.leaf = overlay table.leaf page reached frame perm)
      (table.mappages page count frame perm) := by
  induction count generalizing table page frame with
  | zero => exact ⟨rfl, 0, rfl, (overlay_zero _ _ _ _).symm⟩
  | succ count induction =>
    refine (table.mapPage_always page frame perm).seq ?_
    rintro ⟨mapped, after⟩ ⟨leaf, root⟩
    cases mapped with
    | false => exact ⟨root, 0, Nat.succ_pos count, leaf.trans (overlay_zero _ _ _ _).symm⟩
    | true =>
      simp only [if_true] at leaf
      refine (induction after (page + 1) (frame + 1)).mono ?_
      rintro ⟨more, last⟩ ⟨same, reached, extent, leaves⟩
      rw [leaf, overlay_succ] at leaves
      refine ⟨same.trans root, reached + 1, ?_, leaves⟩
      cases more with
      | false => exact Nat.succ_lt_succ extent
      | true => exact congrArg (· + 1) extent

theorem mappages_conserves (wellFormed : table.WellFormed)
    (executes : (table.mappages page count frame perm).execute free =
      .ok ((mapped, after), remaining)) :
    after.nodes + (remaining : Multiset Nat) = table.nodes + free := by
  induction count generalizing table page frame free with
  | zero =>
    cases executes
    rfl
  | succ count induction =>
    rw [mappages, mapPage, Program.execute_bind, Program.execute_bind]
      at executes
    cases walks : (table.walk page true).execute free with
    | error reason =>
      rw [walks] at executes
      cases executes
    | ok outcome =>
      obtain ⟨⟨found, walked⟩, rest⟩ := outcome
      obtain ⟨kept, nodes⟩ := walk_conserves wellFormed walks
      rw [walks] at executes
      cases found with
      | false =>
        cases executes
        exact nodes
      | true =>
        obtain ⟨_, _, hangs⟩ := (table.walk_always page true).execute walks
        by_cases mapped : (walked.leaf page).isSome
        · simp only [if_true, mapped] at executes
          cases executes
        · simp only [if_true, mapped] at executes
          have rest := induction (kept.setLeaf fun _ => hangs rfl) executes
          rw [rest, nodes_setLeaf, nodes]

theorem mapPage_accounts (wellFormed : table.WellFormed) (below : page < VPAGES)
    (unmapped : table.leaf page = none) (frame : Nat) (perm : UInt64) :
    Accounts stock (fun (mapped, after) held =>
        held = after.nodes ∧ after.WellFormed ∧ after.root = table.root ∧
          after.leaf = if mapped then Function.update table.leaf page
              (some { frame := frame, flags := perm ||| PTE_V })
            else table.leaf)
      table.nodes (table.mapPage page frame perm) := by
  refine (walk_accounts wellFormed below true).seq ?_
  rintro ⟨found, after⟩ held ⟨rfl, walked⟩
  have same : after.leaf page = none := by rw [walked.leaf, unmapped]
  cases found with
  | false => exact ⟨rfl, walked.wellFormed, walked.root, walked.leaf⟩
  | true =>
    simp only [if_true, same, Option.isSome_none, Bool.false_eq_true, if_false]
    refine ⟨(nodes_setLeaf _ _ _).symm,
      walked.wellFormed.setLeaf fun _ => walked.hangs rfl, walked.root, ?_⟩
    simp only [setLeaf, walked.leaf, if_true]

theorem mappages_one (table : PageTable) (page frame : Nat) (perm : UInt64) :
    table.mappages page 1 frame perm = table.mapPage page frame perm := by
  have returns : (fun outcome : Bool × PageTable =>
      if outcome.1 = true then outcome.2.mappages (page + 1) 0 (frame + 1) perm
      else pure (false, outcome.2)) = .done := by
    funext outcome
    obtain ⟨mapped, after⟩ := outcome
    cases mapped <;> rfl
  exact (congrArg _ returns).trans (Program.bind_done _)

/-- The table without the leaves of a range of pages. -/
def erase (table : PageTable) (page npages : Nat) : PageTable :=
  { table with
    leaf := fun other => if page ≤ other ∧ other < page + npages then none else table.leaf other }

theorem erase_zero (table : PageTable) (page : Nat) : table.erase page 0 = table := by
  have none_between (other : Nat) : ¬(page ≤ other ∧ other < page + 0) := by omega
  simp only [erase, none_between, if_false]

theorem setLeaf_erase (table : PageTable) (page npages : Nat) :
    (table.setLeaf page none).erase (page + 1) npages = table.erase page (npages + 1) := by
  simp only [erase, setLeaf, PageTable.mk.injEq, true_and]
  funext other
  by_cases same : other = page
  · subst other
    simp
  · have bounds : page + 1 ≤ other ∧ other < page + 1 + npages ↔
        page ≤ other ∧ other < page + (npages + 1) := by omega
    simp only [bounds, Function.update_of_ne same]

theorem setLeaf_of_none (unmapped : table.leaf page = none) : table.setLeaf page none = table := by
  rw [setLeaf, ← unmapped, Function.update_eq_self]

theorem WellFormed.erase (wellFormed : table.WellFormed) (npages : Nat) :
    (table.erase page npages).WellFormed := by
  refine ⟨wellFormed.middle_lt, wellFormed.middle_of_lower, ?_⟩
  intro other present
  apply wellFormed.lower_of_leaf
  intro absent
  simp [PageTable.erase, absent] at present

theorem nodes_erase (table : PageTable) (page npages : Nat) :
    (table.erase page npages).nodes = table.nodes := by
  simp only [nodes, erase]

theorem unmapPage_eq (wellFormed : table.WellFormed) (below : page < VPAGES) (doFree : Bool) :
    table.unmapPage page doFree = (match table.leaf page with
      | none => pure table
      | some leaf =>
        if doFree then do
          release leaf.frame
          pure (table.setLeaf page none)
        else pure (table.setLeaf page none)) := by
  rw [unmapPage, walk_false wellFormed below]
  change (if (table.lower (page / 512)).isSome then _ else _) = _
  split
  · rfl
  · rename_i bare
    have unmapped : table.leaf page = none := by
      by_contra present
      exact wellFormed.lower_of_leaf present (by simpa using bare)
    rw [unmapped]

theorem uvmunmap_keeping (wellFormed : table.WellFormed) {npages : Nat}
    (below : page + npages ≤ VPAGES) :
    table.uvmunmap page npages false = pure (table.erase page npages) := by
  induction npages generalizing table page with
  | zero =>
    rw [erase_zero]
    rfl
  | succ npages induction =>
    have cleared : (table.setLeaf page none).WellFormed :=
      wellFormed.setLeaf fun absent => absurd rfl absent
    have rest := induction cleared (show page + 1 + npages ≤ VPAGES by omega)
    rw [setLeaf_erase] at rest
    rw [uvmunmap, unmapPage_eq wellFormed (by omega)]
    cases mapped : table.leaf page with
    | none =>
      rw [setLeaf_of_none mapped] at rest
      exact rest
    | some leaf => exact rest

/-- The pages behind the leaves below a limit. -/
def leafFrames (table : PageTable) (limit : Nat) : Multiset Nat :=
  contents limit fun page => (table.leaf page).map Leaf.frame

theorem leafFrames_setLeaf (below : page < limit) {leaf : Leaf}
    (mapped : table.leaf page = some leaf) :
    table.leafFrames limit = leaf.frame ::ₘ (table.setLeaf page none).leafFrames limit := by
  have taken : contents limit (fun page => (table.leaf page).map Leaf.frame) =
      leaf.frame ::ₘ contents limit (Function.update
        (fun page => (table.leaf page).map Leaf.frame) page none) :=
    contents_take below (by rw [mapped]; rfl)
  rw [leafFrames, taken, leafFrames]
  congr 2
  funext other
  by_cases same : other = page
  · subst other
    simp [setLeaf]
  · simp [setLeaf, Function.update_of_ne same]

theorem uvmunmap_freeing (wellFormed : table.WellFormed) {npages limit : Nat}
    (inside : page + npages ≤ limit) (below : limit ≤ VPAGES) :
    Accounts stock (fun after held =>
        after = table.erase page npages ∧ held = after.nodes + after.leafFrames limit)
      (table.nodes + table.leafFrames limit)
      (table.uvmunmap page npages true) := by
  induction npages generalizing table page with
  | zero => exact ⟨(erase_zero table page).symm, rfl⟩
  | succ npages induction =>
    have cleared : (table.setLeaf page none).WellFormed :=
      wellFormed.setLeaf fun absent => absurd rfl absent
    have rest := induction cleared (show page + 1 + npages ≤ limit by omega)
    rw [setLeaf_erase] at rest
    rw [uvmunmap, unmapPage_eq wellFormed (by omega)]
    cases mapped : table.leaf page with
    | none =>
      rw [setLeaf_of_none mapped] at rest
      exact rest
    | some leaf =>
      rw [leafFrames_setLeaf (by omega) mapped, Multiset.add_cons]
      rw [nodes_setLeaf] at rest
      exact ⟨_, rfl, rest⟩

theorem freewalkLower_accounts (bare : ∀ page, table.leaf page = none) (index : Nat) :
    Accounts stock (fun _ held => held = 0) ((table.lower index).elim 0 fun frame => {frame})
      (table.freewalkLower index) := by
  unfold freewalkLower
  split
  · rename_i absent
    rw [absent]
    exact rfl
  · rename_i frame present
    rw [present]
    have checked : Accounts stock (fun _ held => held = 0) (∑ _ ∈ Finset.range 512, 0)
        (forEach (fun entry => table.freewalkLeaf (512 * index + entry)) 512) := by
      refine Accounts.forEach 512 fun entry _ => ?_
      rw [freewalkLeaf, bare]
      exact rfl
    rw [Finset.sum_const_zero] at checked
    refine checked.seq_frame (zero_add _).symm ?_
    rintro - held rfl
    exact ⟨0, rfl, rfl⟩

theorem freewalkMiddle_accounts
    (wellFormed : table.WellFormed) (bare : ∀ page, table.leaf page = none) (index : Nat) :
    Accounts stock (fun _ held => held = 0) ((∑ entry ∈ Finset.range 512,
        (table.lower (512 * index + entry)).elim 0 fun frame => {frame}) +
          (table.middle index).elim 0 fun frame => {frame})
      (table.freewalkMiddle index) := by
  unfold freewalkMiddle
  split
  · rename_i absent
    have none_below : ∀ entry ∈ Finset.range 512, (table.lower (512 * index + entry)).elim 0
          (fun frame => ({frame} : Multiset Nat)) = 0 := by
      intro entry member
      have lower : table.lower (512 * index + entry) = none := by
        by_contra present
        have small := Finset.mem_range.mp member
        have parent := wellFormed.middle_of_lower present
        rw [show (512 * index + entry) / 512 = index by omega] at parent
        exact parent absent
      rw [lower]
      rfl
    rw [Finset.sum_eq_zero none_below, absent]
    exact rfl
  · rename_i frame present
    rw [present]
    refine (Accounts.forEach 512 fun entry _ =>
      freewalkLower_accounts bare (512 * index + entry)).seq_frame rfl ?_
    rintro - held rfl
    exact ⟨0, rfl, rfl⟩

theorem nodes_eq_shares (table : PageTable) : table.nodes = (∑ index ∈ Finset.range 512,
      ((∑ entry ∈ Finset.range 512,
        (table.lower (512 * index + entry)).elim 0 fun frame => {frame}) +
          (table.middle index).elim 0 fun frame => {frame})) +
      {table.root} := by
  have lower (count : Nat) : ∑ index ∈ Finset.range count, ∑ entry ∈ Finset.range 512,
        (table.lower (512 * index + entry)).elim 0 (fun frame => ({frame} : Multiset Nat)) =
      contents (512 * count) table.lower := by
    induction count with
    | zero => simp [contents]
    | succ count induction =>
      rw [Finset.sum_range_succ, induction, Nat.mul_succ, contents, contents, Finset.sum_range_add]
  rw [Finset.sum_add_distrib, lower, nodes, ← Multiset.singleton_add,
    add_comm, contents, add_comm (contents _ _)]

/-- Without leaves, `freewalk` gives back all of the table. -/
theorem freewalk_accounts (wellFormed : table.WellFormed) (bare : ∀ page, table.leaf page = none) :
    Accounts stock (fun _ held => held = 0) table.nodes table.freewalk := by
  refine (Accounts.forEach 512 fun index _ =>
    freewalkMiddle_accounts wellFormed bare index).seq_frame table.nodes_eq_shares ?_
  rintro - held rfl
  exact ⟨0, rfl, rfl⟩

end PageTable

end Xv6KernelEvent
