import Mathlib.Data.Fintype.Defs
import Xv6KernelEvent.Memory.Conservation

/-!
# Owners of pages

Every page that `kinit` found has exactly one owner at any time, and page tables
of processes keep apart.
-/

namespace Xv6KernelEvent

open Custody Runs

/-- What the pages of a process are for. -/
inductive Purpose where
  | trapframe
  | root
  | middle
  | lower
  | leaf
deriving DecidableEq

instance : Fintype Purpose :=
  ⟨{.trapframe, .root, .middle, .lower, .leaf}, fun purpose => by cases purpose <;> decide⟩

def Purpose.size : Purpose → Nat
  | .trapframe | .root => 1
  | .middle => 512
  | .lower => 512 * 512
  | .leaf => TRAPFRAME

/-- The pages of a process by what they are for. -/
def ProcessMemory.cell (p : ProcessMemory) : Purpose → Nat → Option Nat
  | .trapframe, _ => some p.trapframe
  | .root, _ => some p.table.root
  | .middle, index => p.table.middle index
  | .lower, index => p.table.lower index
  | .leaf, page => (p.table.leaf page).map Leaf.frame

theorem ProcessMemory.holdings_eq_sum (p : ProcessMemory) :
    p.holdings = ∑ purpose, contents purpose.size (p.cell purpose) := by
  have alone (page : Nat) : contents 1 (fun _ => some page) = {page} := by
    rw [contents, Finset.sum_range_one]
    rfl
  have expanded (share : Purpose → Multiset Nat) :
      ∑ purpose, share purpose = share .trapframe + (share .root +
        (share .middle + (share .lower + (share .leaf + 0)))) := rfl
  rw [expanded]
  change _ = contents 1 (fun _ => some p.trapframe) + (contents 1 (fun _ => some p.table.root) + _)
  rw [alone, alone, holdings, PageTable.space, PageTable.nodes,
    PageTable.leafFrames, ← Multiset.singleton_add, ← Multiset.singleton_add]
  simp only [add_zero, add_assoc]
  rfl

/-- Who can have a page: the free list, a pipe, the kernel since it booted, a
call in progress, or a process for one of its purposes. -/
inductive Holder where
  | freeList
  | pipe
  | boot
  | call (slot : Nat)
  | process (slot : Nat) (purpose : Purpose) (index : Nat)

/-- The free list, the pipes, the kernel since it booted, and the processes. -/
inductive Account where
  | free
  | pipes
  | boot
  | slot (index : Nat)
deriving DecidableEq

/-- The account in which the pages of a holder are. -/
def Holder.account : Holder → Account
  | .freeList => .free
  | .pipe => .pipes
  | .boot => .boot
  | .call slot | .process slot _ _ => .slot slot

namespace MemorySystem

def Holds (system : MemorySystem) (page : Nat) : Holder → Prop
  | .freeList => page ∈ system.free
  | .pipe => page ∈ system.pipes
  | .boot => page ∈ system.boot
  | .call slot => ∃ activity, system.slot slot = .busy activity ∧ page ∈ activity.held
  | .process slot purpose index =>
    ∃ p, system.slot slot = .idle p ∧ index < purpose.size ∧ p.cell purpose index = some page

def share (system : MemorySystem) : Account → Multiset Nat
  | .free => system.free
  | .pipes => system.pipes
  | .boot => system.boot
  | .slot index => (system.slot index).holdings

def accounts : Finset Account := {.free, .pipes, .boot} ∪ (Finset.range NPROC).image .slot

theorem sum_share (system : MemorySystem) : ∑ account ∈ accounts, system.share account =
      system.free + system.processes + system.pipes + system.boot := by
  have apart : Disjoint ({.free, .pipes, .boot} : Finset Account)
      ((Finset.range NPROC).image .slot) := by
    rw [Finset.disjoint_left]
    simp
  rw [accounts, Finset.sum_union apart, Finset.sum_image (by simp),
    Finset.sum_insert (by decide), Finset.sum_insert (by decide),
    Finset.sum_singleton]
  change (system.free : Multiset Nat) + (system.pipes + system.boot) + system.processes = _
  abel

variable {system : MemorySystem}

theorem mem_holdings {p : ProcessMemory} : page ∈ p.holdings ↔
      ∃ purpose, ∃ index < purpose.size, p.cell purpose index = some page := by
  rw [p.holdings_eq_sum, Multiset.mem_sum]
  simp only [Finset.mem_univ, true_and, mem_contents]

namespace Conserves

section

variable (conserves : system.Conserves trampoline stock)

include conserves

theorem mem_share (holds : system.Holds page holder) :
    holder.account ∈ accounts ∧ page ∈ system.share holder.account := by
  have slots {index : Nat} (used : system.slot index ≠ .unused) : Account.slot index ∈ accounts :=
    Finset.mem_union_right _ (Finset.mem_image_of_mem _ (Finset.mem_range.mpr (conserves.lt used)))
  cases holder with
  | freeList | pipe | boot => exact ⟨by decide, holds⟩
  | call slot =>
    obtain ⟨activity, busy, member⟩ := holds
    refine ⟨slots (by rw [busy]; exact nofun), ?_⟩
    change page ∈ (system.slot slot).holdings
    rw [busy]
    exact member
  | process slot purpose index =>
    obtain ⟨p, idle, below, found⟩ := holds
    refine ⟨slots (by rw [idle]; exact nofun), ?_⟩
    change page ∈ (system.slot slot).holdings
    rw [idle]
    exact mem_holdings.mpr ⟨purpose, index, below, found⟩

theorem nodup_holdings (distinct : stock.Nodup) (below : index < NPROC) :
    (system.slot index).holdings.Nodup :=
  Multiset.nodup_of_le ((Multiset.le_add_right _ _).trans (conserves.share_le below)) distinct

/-- No page has two owners. -/
theorem unique (distinct : stock.Nodup) (with_first : system.Holds page first)
    (with_second : system.Holds page second) : first = second := by
  have same : first.account = second.account := by
    obtain ⟨first_mem, first_holds⟩ := conserves.mem_share with_first
    obtain ⟨second_mem, second_holds⟩ := conserves.mem_share with_second
    refine unique_of_nodup_sum ?_ first_mem second_mem first_holds second_holds
    rwa [sum_share, conserves.total]
  cases first with
  | freeList | pipe | boot => cases second <;> first | rfl | cases same
  | call slot =>
    cases second with
    | call other =>
      cases same
      rfl
    | process other purpose index =>
      cases same
      obtain ⟨activity, busy, -⟩ := with_first
      obtain ⟨p, idle, -⟩ := with_second
      rw [busy] at idle
      cases idle
    | _ => cases same
  | process slot purpose index =>
    obtain ⟨p, idle, below, found⟩ := with_first
    cases second with
    | call other =>
      cases same
      obtain ⟨activity, busy, -⟩ := with_second
      rw [busy] at idle
      cases idle
    | process other purpose' index' =>
      cases same
      obtain ⟨p', idle', below', found'⟩ := with_second
      obtain rfl : p = p' := by
        rw [idle] at idle'
        exact Slot.idle.inj idle'
      have nodup := conserves.nodup_holdings distinct (conserves.lt (by rw [idle]; exact nofun))
      rw [idle] at nodup
      simp only [Slot.holdings] at nodup
      rw [p.holdings_eq_sum] at nodup
      obtain rfl : purpose = purpose' :=
        unique_of_nodup_sum nodup (Finset.mem_univ _) (Finset.mem_univ _)
          (mem_contents.mpr ⟨index, below, found⟩)
          (mem_contents.mpr ⟨index', below', found'⟩)
      obtain rfl : index = index' :=
        contents_injective (Multiset.nodup_of_le (Finset.single_le_sum
            (f := fun purpose => contents purpose.size (p.cell purpose))
            (fun _ _ => Multiset.zero_le _) (Finset.mem_univ purpose))
            nodup) below below' found found'
      rfl
    | _ => cases same

/-- No page is lost. -/
theorem exists_holder (member : page ∈ stock) : ∃ holder, system.Holds page holder := by
  rw [← conserves.total] at member
  simp only [Multiset.mem_add] at member
  rcases member with ((free | process) | pipe) | boot
  · exact ⟨.freeList, free⟩
  · obtain ⟨slot, -, holds⟩ := Multiset.mem_sum.mp process
    cases found : system.slot slot with
    | unused | reserved caller =>
      rw [found] at holds
      exact absurd holds (Multiset.notMem_zero page)
    | idle p =>
      rw [found] at holds
      obtain ⟨purpose, index, below, present⟩ := mem_holdings.mp holds
      exact ⟨.process slot purpose index, p, found, below, present⟩
    | busy activity =>
      rw [found] at holds
      exact ⟨.call slot, activity, found, holds⟩
  · exact ⟨.pipe, pipe⟩
  · exact ⟨.boot, boot⟩

end

end Conserves

theorem run_advance {slot last : Slot} {free remaining : List Nat}
    (taken : system.next trampoline (.advance index false) =
      some { system.setSlot index slot with free := free })
    (runs : run (next trampoline) { system.setSlot index slot with free := free } steps =
      some { ({ system.setSlot index slot with free := free } :
          MemorySystem).setSlot index last with free := remaining }) :
    run (next trampoline) system (.advance index false :: steps) =
      some { system.setSlot index last with free := remaining } := by
  rw [run, taken, Option.bind_some, runs]
  simp only [setSlot, Function.update_idem]

/-- A call that runs alone does what its program does. -/
theorem run_alone (trampoline : Nat) (busy : system.slot index = .busy activity)
    (executes : activity.task.execute system.free = .ok (result, remaining)) :
    ∃ steps held, run (next trampoline) system steps =
      some { system.setSlot index
          (.busy { activity with task := .done result, held := held }) with
        free := remaining } := by
  obtain ⟨call, before, task, held⟩ := activity
  simp only at executes ⊢
  induction task generalizing system held with
  | done outcome =>
    cases executes
    refine ⟨[], held, ?_⟩
    simp only [run, setSlot]
    rw [← busy, Function.update_eq_self]
  | acquire request induction =>
    cases free : system.free with
    | nil =>
      rw [free] at executes
      have busy' : ({ system.setSlot index (.busy
          ⟨call, before, request none, held⟩) with free := [] } :
          MemorySystem).slot index = _ := Function.update_self index _ _
      obtain ⟨steps, last, runs⟩ := induction none held busy' executes
      refine ⟨_, last, run_advance ?_ runs⟩
      rw [next, busy]
      simp only [advance, free]
      rw [← free]
      rfl
    | cons page rest =>
      rw [free] at executes
      have busy' : ({ system.setSlot index (.busy
          ⟨call, before, request (some page), page ::ₘ held⟩) with
          free := rest } : MemorySystem).slot index = _ :=
        Function.update_self index _ _
      obtain ⟨steps, last, runs⟩ := induction (some page) (page ::ₘ held) busy' executes
      refine ⟨_, last, run_advance ?_ runs⟩
      rw [next, busy]
      simp only [advance, free, Bool.false_eq_true, if_false]
  | release page rest induction =>
    have busy' : ({ system.setSlot index (.busy
        ⟨call, before, rest, held.erase page⟩) with
        free := page :: system.free } : MemorySystem).slot index = _ :=
      Function.update_self index _ _
    obtain ⟨steps, last, runs⟩ := induction (held.erase page) busy' executes
    refine ⟨_, last, run_advance ?_ runs⟩
    rw [next, busy]
    simp only [advance]
  | halt reason => cases executes

namespace Conserves

theorem run (bound : stock.card ≤ TRAPFRAME) (conserves : system.Conserves trampoline stock)
    (runs : Runs.run (MemorySystem.next trampoline) system steps = some last) :
    last.Conserves trampoline stock :=
  run_invariant (fun conserves taken => conserves.next bound taken) runs conserves

/-- A call in progress comes to its end if it runs alone. -/
theorem completes (bound : stock.card ≤ TRAPFRAME) (conserves : system.Conserves trampoline stock)
    (busy : system.slot index = .busy activity) :
    ∃ steps middle result held, Runs.run (MemorySystem.next trampoline) system steps = some middle ∧
        middle.Conserves trampoline stock ∧
        middle.slot = Function.update system.slot index
          (.busy { activity with task := .done result, held := held }) ∧
        middle.pipes = system.pipes ∧ middle.boot = system.boot := by
  have within := conserves.share_le
    (conserves.lt (by rw [busy]; exact nofun : system.slot index ≠ .unused))
  have accounts := conserves.sound index
  rw [busy] at accounts within
  obtain ⟨result, rest, remaining, executes, -, -⟩ := Accounts.execute accounts system.free within
  obtain ⟨steps, held, runs⟩ := run_alone trampoline busy executes
  exact ⟨steps, _, result, held, runs, conserves.run bound runs, rfl, rfl, rfl⟩

/-- A call that has come to its end returns. -/
theorem returns (conserves : system.Conserves trampoline stock)
    (busy : system.slot index = .busy activity) (done : activity.task = .done result) :
    ∃ after, system.next trampoline (.finish index) = some after ∧
      after.slot index = .idle result.self := by
  rw [MemorySystem.next, busy]
  simp only [MemorySystem.finish, done]
  cases names : activity.call.target with
  | none => exact ⟨_, rfl, Function.update_self index _ _⟩
  | some target =>
    have differs : index ≠ target := by
      rintro rfl
      have reserved := conserves.reserved index activity index busy names
      rw [busy] at reserved
      cases reserved
    refine ⟨_, rfl, ?_⟩
    exact (Function.update_of_ne differs _ _).trans (Function.update_self index _ _)

/-- Reaping a process that nobody disturbs brings its pages back to the free
list. -/
theorem reap_alone (bound : stock.card ≤ TRAPFRAME) (conserves : system.Conserves trampoline stock)
    (idle : system.slot index = .idle p) (zombie : system.slot child = .idle q)
    (differs : child ≠ index) :
    ∃ steps after, Runs.run (MemorySystem.next trampoline) system
          (.start index (.reap child) :: steps) = some after ∧
        after.slot = Function.update system.slot child .unused ∧
        (after.free : Multiset Nat) = system.free + q.holdings := by
  let activity : Activity :=
    { call := .reap child
      before := p
      task := (MemoryCall.reap child).program trampoline p (some q)
      held := (MemoryCall.reap child).demand p (some q) }
  let begun := (system.setSlot index (.busy activity)).setSlot child (.reserved index)
  have taken : system.next trampoline (.start index (.reap child)) = some begun := by
    rw [MemorySystem.next, idle]
    simp only [MemorySystem.start, zombie, if_neg differs]
    rfl
  have busy : begun.slot index = .busy activity :=
    (Function.update_of_ne differs.symm _ _).trans (Function.update_self index _ _)
  obtain ⟨steps, middle, result, held, runs, kept, slots, pipes, boot⟩ :=
    (conserves.next bound taken).completes bound busy
  have finished : middle.slot index =
      .busy { activity with task := .done result, held := held } := by
    rw [slots, Function.update_self]
  have sound := kept.sound index
  rw [finished] at sound
  obtain ⟨-, ends⟩ := sound
  obtain ⟨self, child_none, pipe_none⟩ := ends.reap child rfl
  let after : MemorySystem :=
    { free := middle.free
      slot := Function.update system.slot child .unused
      pipes := system.pipes
      boot := system.boot }
  have restored : Function.update (Function.update begun.slot index (.idle p))
      child .unused = after.slot := by
    change Function.update (Function.update (Function.update
      (Function.update system.slot index (.busy activity)) child
        (.reserved index)) index (.idle p)) child .unused = _
    rw [Function.update_comm differs, Function.update_idem,
      Function.update_idem, ← idle, Function.update_eq_self]
  have returned : middle.next trampoline (.finish index) = some after := by
    rw [MemorySystem.next, finished]
    simp only [MemorySystem.finish, activity, MemoryCall.target, self,
      child_none, pipe_none, Option.elim_none, add_zero, setSlot]
    rw [slots, pipes, boot, Function.update_idem, restored]
    rfl
  refine ⟨steps ++ [.finish index], after, ?_, rfl, ?_⟩
  · rw [Runs.run, taken, Option.bind_some, run_concat, runs]
    exact returned
  · have exchanged : after.processes + q.holdings = system.processes := by
      have below : child < NPROC := conserves.lt (by simp [zombie])
      have moved := sum_update Slot.holdings system.slot below .unused
      rw [zombie] at moved
      exact moved.trans (add_zero _)
    have balance := (kept.next bound returned).total.trans conserves.total.symm
    rw [← exchanged] at balance
    apply add_right_cancel (b := after.processes + system.pipes + system.boot)
    calc (after.free : Multiset Nat) + (after.processes + system.pipes + system.boot)
        = after.free + after.processes + after.pipes + after.boot := by
          simp only [after]
          abel
      _ = system.free + (after.processes + q.holdings) + system.pipes +
          system.boot := balance
      _ = system.free + q.holdings + (after.processes + system.pipes + system.boot) := by abel

end Conserves

end MemorySystem

theorem kinit_eq (kend : Nat) : kinit kend = (pagesBetween kend PHYSTOP).reverse := by
  rw [kinit, List.foldl_flip_cons_eq_append', List.append_nil]

theorem mem_kinit : page ∈ kinit kend ↔
      pgroundup kend ≤ page * PGSIZE ∧ page * PGSIZE < PHYSTOP := by
  have stop : PHYSTOP = 557056 * PGSIZE := by decide
  have aligned : pgroundup kend = pgroundup kend / PGSIZE * PGSIZE := by
    rw [pgroundup, Nat.mul_div_cancel _ PGSIZE_pos]
  rw [kinit_eq, List.mem_reverse, pagesBetween, List.mem_range'_1, aligned,
    stop, Nat.mul_div_cancel _ PGSIZE_pos, Nat.mul_div_cancel _ PGSIZE_pos,
    Nat.mul_le_mul_right_iff PGSIZE_pos, Nat.mul_lt_mul_right PGSIZE_pos]
  omega

theorem nodup_kinit (kend : Nat) : (kinit kend : Multiset Nat).Nodup := by
  rw [Multiset.coe_nodup, kinit_eq, List.nodup_reverse]
  exact List.nodup_range'

theorem card_kinit (kend : Nat) : (kinit kend : Multiset Nat).card ≤ TRAPFRAME := by
  have stop : PHYSTOP / PGSIZE ≤ TRAPFRAME := by decide
  rw [Multiset.coe_card, kinit_eq, List.length_reverse, pagesBetween, List.length_range']
  exact (Nat.sub_le _ _).trans stop

namespace MemorySystem

/-- What holds in every state that the system can reach. -/
theorem conserves_of_run (runs : run (next trampoline) (initial kend) steps = some system) :
    system.Conserves trampoline (kinit kend) :=
  (initial_conserves kend).run (card_kinit kend) runs

end MemorySystem

open MemorySystem in
/-- Processes between two calls have page tables of the right shape, without
common pages; calls end without a panic. -/
theorem address_spaces_are_sound
    {trampoline kend : Nat} {system : MemorySystem} {steps : List MemoryStep}
    (runs : run (next trampoline) (initial kend) steps = some system) :
    (∀ index p, system.slot index = .idle p → p.sz ≤ TRAPFRAME * PGSIZE ∧
        ∀ page, p.table.leaf page ≠ none → page = TRAMPOLINE ∨ page = TRAPFRAME ∨
            page * PGSIZE < pgroundup p.sz) ∧
    (∀ index p page leaf index' p' page' leaf',
      system.slot index = .idle p → system.slot index' = .idle p' →
        page < TRAPFRAME → page' < TRAPFRAME →
        p.table.leaf page = some leaf → p'.table.leaf page' = some leaf' →
          leaf.frame = leaf'.frame → index = index' ∧ page = page') ∧
    (∀ index activity, system.slot index = .busy activity →
      (∀ reason, activity.task ≠ .halt reason) ∧
        (∃ steps after p, run (next trampoline) system steps = some after ∧
          after.slot index = .idle p) ∧
        ∀ n t result, activity.call = .sbrk n t → activity.task = .done result →
            result.value = -1 ∧ result.self.sz = activity.before.sz ∨
              result.value = activity.before.sz ∧
                ((result.self.sz : Int) = activity.before.sz + n.toInt ∨
                  activity.before.sz + n.toInt < 0 ∧ result.self.sz = activity.before.sz)) := by
  have conserves := conserves_of_run runs
  refine ⟨?_, ?_, ?_⟩
  · intro index p idle
    have sound := conserves.sound index
    rw [idle] at sound
    have small : p.sz ≤ TRAPFRAME * PGSIZE := npages_le_iff.mp (UserTable.limit sound)
    refine ⟨small, ?_⟩
    intro page mapped
    rw [pgroundup_eq small]
    refine (UserTable.bounded sound page mapped).imp_right fun others =>
      others.imp_right fun below => ?_
    exact Nat.mul_lt_mul_of_pos_right below PGSIZE_pos
  · intro index p page leaf index' p' page' leaf' idle idle' low low' mapped mapped' same
    have first : system.Holds leaf.frame (.process index .leaf page) :=
      ⟨p, idle, low, by rw [ProcessMemory.cell, mapped]; rfl⟩
    have second : system.Holds leaf.frame (.process index' .leaf page') :=
      ⟨p', idle', low', by rw [ProcessMemory.cell, mapped', same]; rfl⟩
    have one := conserves.unique (nodup_kinit kend) first second
    cases one
    exact ⟨rfl, rfl⟩
  · intro index activity busy
    have accounts := conserves.sound index
    rw [busy] at accounts
    refine ⟨?_, ?_, ?_⟩
    · intro reason halts
      simp only [Slot.Sound] at accounts
      rw [halts] at accounts
      exact accounts
    · obtain ⟨first, middle, result, held, alone, kept, slots, -, -⟩ :=
        conserves.completes (card_kinit kend) busy
      obtain ⟨after, finished, idle⟩ := kept.returns (by rw [slots, Function.update_self]) rfl
      refine ⟨first ++ [.finish index], after, _, ?_, idle⟩
      rw [run_concat, alone]
      exact finished
    · intro n t result names done
      simp only [Slot.Sound] at accounts
      rw [done] at accounts
      exact accounts.2.sbrk n t names

/-- The first process grows by a page and forks. -/
def growAndFork : List MemoryStep :=
  [.userinit 0, .start 0 (.sbrk 4096 1)] ++
    List.replicate 3 (.advance 0 false) ++ [.finish 0, .start 0 (.fork 1)] ++
      List.replicate 7 (.advance 0 false) ++ [.finish 0]

/-- Whether two processes that own a page at address zero are idle. -/
def bothGrown (system : MemorySystem) : Bool :=
  match system.slot 0, system.slot 1 with
  | .idle p, .idle q =>
    p.sz = 4096 && q.sz = 4096 && (p.table.leaf 0).isSome && (q.table.leaf 0).isSome
  | _, _ => false

theorem run_growAndFork : (run (MemorySystem.next 0) (MemorySystem.initial (PHYSTOP - 14 * PGSIZE))
      growAndFork).any bothGrown = true := by
  decide +kernel

theorem address_spaces_are_sound_growAndFork : ∃ system, run (MemorySystem.next 0)
        (MemorySystem.initial (PHYSTOP - 14 * PGSIZE)) growAndFork = some system ∧
      bothGrown system = true ∧
      ∀ p q leaf leaf', system.slot 0 = .idle p → system.slot 1 = .idle q →
        p.table.leaf 0 = some leaf → q.table.leaf 0 = some leaf' → leaf.frame ≠ leaf'.frame := by
  have facts := run_growAndFork
  rw [Option.any_eq_true] at facts
  obtain ⟨system, runs, grown⟩ := facts
  refine ⟨system, runs, grown, ?_⟩
  intro p q leaf leaf' first second mapped mapped' same
  have one := (address_spaces_are_sound runs).2.1 0 p 0 leaf 1 q 0 leaf' first
    second (by decide) (by decide) mapped mapped' same
  exact absurd one.1 (by decide)

open MemorySystem in
/-- No page is lost, has two owners or is freed twice. -/
theorem pages_are_conserved
    {trampoline kend : Nat} {system : MemorySystem} {steps : List MemoryStep}
    (runs : run (next trampoline) (initial kend) steps = some system) :
    system.free.Nodup ∧ system.pipes.Nodup ∧ system.boot.Nodup ∧
    (∀ page, pgroundup kend ≤ page * PGSIZE → page * PGSIZE < PHYSTOP →
      ∃! holder, system.Holds page holder) ∧
    (∀ index activity, system.slot index = .busy activity → activity.held.Nodup ∧
        (∀ page rest, activity.task = .release page rest →
          page ∈ activity.held ∧ page ∉ system.free ∧
            pgroundup kend ≤ page * PGSIZE ∧ page * PGSIZE < PHYSTOP) ∧
        ∀ child result, activity.call = .reap child → activity.task = .done result →
            activity.held = activity.before.holdings) ∧
    (∀ index child p q, system.slot index = .idle p →
      system.slot child = .idle q → child ≠ index → ∃ steps after,
          run (next trampoline) system (.start index (.reap child) :: steps) = some after ∧
            after.slot = Function.update system.slot child .unused ∧
            (after.free : Multiset Nat) = system.free + q.holdings) := by
  have conserves := conserves_of_run runs
  have distinct := nodup_kinit kend
  have total := conserves.total
  refine ⟨?_, ?_, ?_, ?_, ?_, ?_⟩
  · refine Multiset.coe_nodup.mp (Multiset.nodup_of_le ?_ distinct)
    rw [← total, add_assoc, add_assoc]
    exact Multiset.le_add_right _ _
  · refine Multiset.nodup_of_le ?_ distinct
    rw [← total, add_right_comm]
    exact Multiset.le_add_left _ _
  · refine Multiset.nodup_of_le ?_ distinct
    rw [← total]
    exact Multiset.le_add_left _ _
  · intro page low high
    obtain ⟨holder, holds⟩ := conserves.exists_holder
      (Multiset.mem_coe.mpr (mem_kinit.mpr ⟨low, high⟩))
    exact ⟨holder, holds, fun other others => conserves.unique distinct others holds⟩
  · intro index activity busy
    have below : index < NPROC := conserves.lt (by rw [busy]; exact nofun)
    have within := conserves.share_le below
    have accounts := conserves.sound index
    rw [busy] at within accounts
    refine ⟨?_, ?_, ?_⟩
    · exact Multiset.nodup_of_le ((Multiset.le_add_right _ _).trans within) distinct
    · intro page rest releases
      simp only [Slot.Sound] at accounts
      rw [releases] at accounts
      obtain ⟨others, holds, -⟩ := accounts
      have member : page ∈ activity.held := by
        rw [holds]
        exact Multiset.mem_cons_self page others
      have apart := (Multiset.nodup_add.mp (Multiset.nodup_of_le within distinct)).2.2
      refine ⟨member, ?_, mem_kinit.mp (Multiset.mem_of_le
        ((Multiset.le_add_right _ _).trans within) member)⟩
      intro free
      exact Multiset.disjoint_left.mp apart member free
    · intro child result names done
      simp only [Slot.Sound] at accounts
      rw [done] at accounts
      obtain ⟨holds, ends⟩ := accounts
      obtain ⟨self, child_none, pipe_none⟩ := ends.reap child names
      rw [holds, CallEnd.holdings, self, child_none, pipe_none]
      simp
  · intro index child p q idle zombie differs
    exact conserves.reap_alone (card_kinit kend) idle zombie differs

theorem pages_are_conserved_growAndFork : ∃ system p q, run (MemorySystem.next 0)
        (MemorySystem.initial (PHYSTOP - 14 * PGSIZE)) growAndFork = some system ∧
      system.slot 0 = .idle p ∧ system.slot 1 = .idle q ∧
      ∃ steps after, run (MemorySystem.next 0) system (.start 0 (.reap 1) :: steps) = some after ∧
        after.slot = Function.update system.slot 1 .unused ∧
        (after.free : Multiset Nat) = system.free + q.holdings := by
  have facts := run_growAndFork
  rw [Option.any_eq_true] at facts
  obtain ⟨system, runs, grown⟩ := facts
  rw [bothGrown] at grown
  split at grown
  · rename_i p q first second
    exact ⟨system, p, q, runs, first, second,
      (pages_are_conserved runs).2.2.2.2.2 0 1 p q first second (by decide)⟩
  · cases grown

end Xv6KernelEvent
